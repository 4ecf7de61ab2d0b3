import Wic.Commons.Uri
import Wic.Http.Components

/-!
# The components and the generic syntax

The generic syntax says what the scheme, the host and the port of a URL are. The entries of an
accepted URL cover them as long as offsets and lengths fit the 16 bits of an entry. The text of the
schema is always its beginning; the host and the port are read where no entry wraps.

## Main definitions

* `Span.Covers`: an entry is that of a part of the bytes
* `Unwrapped`: offsets and lengths fit the entries
* `HttpParserUrl.Parts`: the entries of the host and the port are those of an authority

## Main results

* `httpParserParseUrl_components`: the schema, the host and the port of an accepted URL
-/

namespace Wic.Http

/-! ## Parts of the URL -/

/-- `s` holds, in 16 bits, the offset and the length of `part`, which stands at offset `q` of `bs`,
bytes at offset `p`. -/
def Span.Covers (s : Span) (p q : Nat) (bs part : List UInt8) : Prop :=
  ∃ front back, bs = front ++ part ++ back ∧ front.length = q ∧
    s = ⟨(p + q) % 65536, part.length % 65536⟩

namespace Span.Covers

variable {s : Span} {p q : Nat} {bs part : List UInt8}

theorem length_le (h : s.Covers p q bs part) : q + part.length ≤ bs.length := by
  obtain ⟨front, back, rfl, rfl, -⟩ := h
  rw [List.length_append, List.length_append]
  exact Nat.le_add_right _ _

theorem behind (h : s.Covers p q bs part) {p' : Nat} {front : List UInt8}
    (hp : p = p' + front.length) : s.Covers p' (front.length + q) (front ++ bs) part := by
  obtain ⟨front', back, rfl, rfl, rfl⟩ := h
  refine ⟨front ++ front', back, by simp only [List.append_assoc], List.length_append, ?_⟩
  rw [hp, Nat.add_assoc]

/-- The text of an entry that does not wrap. -/
theorem text (h : s.Covers p q bs part) {url tail : List UInt8} (hp : url.drop p = bs ++ tail)
    (hoff : p + q < 65536) (hlen : bs.length < 65536) : (url.drop s.off).take s.len = part := by
  have hle := h.length_le
  obtain ⟨front, back, rfl, rfl, rfl⟩ := h
  rw [Nat.mod_eq_of_lt hoff, Nat.mod_eq_of_lt (by omega), ← List.drop_drop, hp]
  simp only [List.append_assoc, List.drop_left, List.take_left]

end Span.Covers

/-- The entry of `f` with `n` more bytes. -/
def HttpParserUrl.lengthen (v : HttpParserUrl) (f : UrlField) (n : Nat) : HttpParserUrl :=
  v.setSpan f ⟨(v.fieldData f).off, ((v.fieldData f).len + n) % 65536⟩

namespace HttpParserUrl

variable {v : HttpParserUrl} {f : UrlField}

theorem lengthen_zero (h : (v.fieldData f).len < 65536) : v.lengthen f 0 = v := by
  rw [lengthen, Nat.add_zero, Nat.mod_eq_of_lt h]
  simp only [setSpan]
  congr 1
  funext g
  split
  case isTrue hg => rw [hg]
  case isFalse => rfl

theorem lengthen_grow (n : Nat) : (v.grow f).lengthen f n = v.lengthen f (n + 1) := by
  simp only [lengthen, if_true, Nat.mod_add_mod, grow, setSpan]
  congr 1
  funext g
  split
  case isTrue => rw [Nat.add_assoc, Nat.add_comm 1 n]
  case isFalse => rfl

theorem grow_len_lt : ((v.grow f).fieldData f).len < 65536 := by
  simp only [grow_fieldData, if_true]
  exact Nat.mod_lt _ (by decide)

@[simp] theorem lengthen_fieldSet (n : Nat) : (v.lengthen f n).fieldSet = v.fieldSet := rfl

@[simp] theorem lengthen_fieldData (n : Nat) (g : UrlField) :
    (v.lengthen f n).fieldData g =
      if g = f then ⟨(v.fieldData f).off, ((v.fieldData f).len + n) % 65536⟩
      else v.fieldData g := rfl

end HttpParserUrl

/-! ## The schema and the authority -/

/-- The order in which the states come. -/
def UrlState.rank : UrlState → Nat
  | .reqSpacesBeforeUrl => 1
  | .reqSchema => 2
  | .reqSchemaSlash | .reqSchemaSlashSlash | .reqServerStart => 3
  | .reqServer | .reqServerWithAt => 4
  | .reqPath => 6
  | .reqQueryStringStart => 7
  | .reqQueryString => 8
  | .reqFragmentStart => 9
  | .reqFragment => 10
  | .dead => 11

theorem rank_parseUrlChar (s : UrlState) (ch : UInt8) : s.rank ≤ (parseUrlChar s ch).rank := by
  cases s <;> simp only [parseUrlChar] <;> split_ifs <;> simp [UrlState.rank]

/-- Behind the authority there is no byte of it or of the schema. -/
theorem field_of_rank {s : UrlState} (h : 6 ≤ s.rank) :
    s ≠ .reqServerWithAt ∧ s.field ≠ some .schema ∧ s.field ≠ some .host := by
  revert h
  cases s <;> decide

/-- Behind the authority its entry, that of the schema and `found_at` stay. -/
theorem httpParserParseUrlLoop_behind {rest : List UInt8} {p : Nat} {s : UrlState}
    {old : Option UrlField} {foundAt : Bool} {v : HttpParserUrl} {r : Bool × HttpParserUrl}
    (h : httpParserParseUrlLoop rest p s old foundAt v = some r)
    (hs : ∀ ch, rest.head? = some ch → 6 ≤ (parseUrlChar s ch).rank) :
    r.1 = foundAt ∧ ∀ f, f = .schema ∨ f = .host →
      r.2.fieldData f = v.fieldData f ∧ r.2.fieldSet f = v.fieldSet f := by
  induction rest generalizing p s old foundAt v with
  | nil =>
    cases h
    exact ⟨rfl, fun f _ => ⟨rfl, rfl⟩⟩
  | cons ch rest ih =>
    have hrank := hs ch rfl
    -- The states behind the authority are not left again.
    have hrest (c : UInt8) (_ : rest.head? = some c) :
        6 ≤ (parseUrlChar (parseUrlChar s ch) c).rank :=
      Nat.le_trans hrank (rank_parseUrlChar _ c)
    simp only [httpParserParseUrlLoop] at h
    split at h
    · cases h
    obtain ⟨hat, hschema, hhost⟩ := field_of_rank hrank
    rw [decide_eq_false hat, Bool.or_false] at h
    split at h
    case h_1 => exact ih h hrest
    case h_2 g hg =>
      -- What is written there is neither of the two entries.
      have hne : ∀ f, f = .schema ∨ f = .host → f ≠ g := by
        rintro f (rfl | rfl) rfl
        · exact hschema hg
        · exact hhost hg
      split at h
      case isTrue =>
        obtain ⟨hfound, hframe⟩ := ih h hrest
        refine ⟨hfound, fun f hf => ?_⟩
        simpa [hne f hf] using hframe f hf
      case isFalse =>
        obtain ⟨hfound, hframe⟩ := ih h hrest
        refine ⟨hfound, fun f hf => ?_⟩
        simpa [hne f hf] using hframe f hf

theorem isLetter_of_isAlpha {c : UInt8} (h : isAlpha c) : Uri.isLetter c := by
  have hall : ∀ n : Fin 256, isAlpha (UInt8.ofNat n) → Uri.isLetter (UInt8.ofNat n) := by
    decide +kernel
  have hc := hall ⟨c.toNat, c.toNat_lt⟩
  rw [show UInt8.ofNat (Fin.val ⟨c.toNat, c.toNat_lt⟩) = c from UInt8.ofNat_toNat] at hc
  exact hc h

section Loop

variable {ch : UInt8} {rest : List UInt8} {p : Nat} {foundAt : Bool} {v : HttpParserUrl}
  {r : Bool × HttpParserUrl}

/-- One byte of the loop. -/
theorem httpParserParseUrlLoop_cons {s : UrlState} {old : Option UrlField}
    (h : httpParserParseUrlLoop (ch :: rest) p s old foundAt v = some r) :
    parseUrlChar s ch ≠ .dead ∧ parseUrlChar s ch ≠ .reqSpacesBeforeUrl := by
  simp only [httpParserParseUrlLoop] at h
  split at h
  · cases h
  · rename_i hd
    simpa only [Bool.or_eq_true, decide_eq_true_eq, not_or] using hd

/-- The two slashes between a colon and a host. -/
theorem httpParserParseUrlLoop_slashes
    (h : httpParserParseUrlLoop rest (p + 1) .reqSchemaSlash (some .schema) foundAt v = some r)
    (hv : v.fieldSet .host = false) (hr : r.2.fieldSet .host) :
    ∃ bs, rest = 47 :: 47 :: bs ∧
      httpParserParseUrlLoop bs (p + 3) .reqServerStart (some .schema) foundAt v = some r := by
  cases rest with
  | nil =>
    cases h
    exact absurd hr (ne_true_of_eq_false hv)
  | cons c rest =>
    obtain ⟨hd, -⟩ := httpParserParseUrlLoop_cons h
    -- A schema goes on with a slash.
    obtain rfl : c = 47 := by
      simp only [parseUrlChar] at hd
      split_ifs at hd <;> first | exact absurd rfl hd | assumption
    have hnext : parseUrlChar .reqSchemaSlash 47 = .reqSchemaSlashSlash := by decide
    simp only [httpParserParseUrlLoop, hnext, UrlState.field, reduceCtorEq, decide_false,
      Bool.or_false, Bool.false_eq_true, if_false] at h
    cases rest with
    | nil =>
      cases h
      exact absurd hr (ne_true_of_eq_false hv)
    | cons c rest =>
      obtain ⟨hd, -⟩ := httpParserParseUrlLoop_cons h
      -- And with a second one, or there is no host.
      obtain rfl : c = 47 := by
        simp only [parseUrlChar] at hd
        split_ifs at hd <;> first | exact absurd rfl hd | assumption
      have hnext : parseUrlChar .reqSchemaSlashSlash 47 = .reqServerStart := by decide
      simp only [httpParserParseUrlLoop, hnext, UrlState.field, reduceCtorEq, decide_false,
        Bool.or_false, Bool.false_eq_true, if_false] at h
      exact ⟨rest, rfl, h⟩

/-- The rest of a schema that is followed by a host: letters up to `"://"`. -/
theorem httpParserParseUrlLoop_schema
    (h : httpParserParseUrlLoop rest p .reqSchema (some .schema) foundAt v = some r)
    (hlen : (v.fieldData .schema).len < 65536) (hv : v.fieldSet .host = false)
    (hr : r.2.fieldSet .host) :
    ∃ a bs, rest = a ++ 58 :: 47 :: 47 :: bs ∧ (∀ c ∈ a, isAlpha c) ∧
      httpParserParseUrlLoop bs (p + a.length + 3) .reqServerStart (some .schema) foundAt
        (v.lengthen .schema a.length) = some r := by
  induction rest generalizing p v with
  | nil =>
    cases h
    exact absurd hr (ne_true_of_eq_false hv)
  | cons ch rest ih =>
    obtain ⟨hd, -⟩ := httpParserParseUrlLoop_cons h
    have hch : isAlpha ch ∨ ch = chr ':' := by
      simp only [parseUrlChar] at hd
      split_ifs at hd <;> simp_all
    -- Either another letter, or the colon.
    obtain hletter | rfl := hch
    · have hnext : parseUrlChar .reqSchema ch = .reqSchema := by
        simp only [parseUrlChar] at hd ⊢
        split_ifs at hd ⊢ <;> first | rfl | exact absurd rfl hd
      simp only [httpParserParseUrlLoop, hnext, UrlState.field, reduceCtorEq, decide_false,
        Bool.or_false, Bool.false_eq_true, if_false, if_true] at h
      obtain ⟨a, bs, rfl, ha, hbs⟩ := ih h HttpParserUrl.grow_len_lt hv
      refine ⟨ch :: a, bs, rfl, List.forall_mem_cons.2 ⟨hletter, ha⟩, ?_⟩
      rw [HttpParserUrl.lengthen_grow] at hbs
      rw [List.length_cons, ← Nat.add_assoc, Nat.add_right_comm p a.length 1]
      exact hbs
    · -- The two slashes have a state each.
      have hcolon : parseUrlChar .reqSchema (chr ':') = .reqSchemaSlash := by decide
      simp only [httpParserParseUrlLoop, hcolon, UrlState.field, reduceCtorEq, decide_false,
        Bool.or_false, Bool.false_eq_true, if_false] at h
      obtain ⟨bs, rfl, hbs⟩ := httpParserParseUrlLoop_slashes h hv hr
      refine ⟨[], bs, rfl, List.forall_mem_nil _, ?_⟩
      rw [List.length_nil, HttpParserUrl.lengthen_zero hlen]
      exact hbs

/-- A byte behind the start of an authority: one of it, or the delimiter behind it. -/
theorem parseUrlChar_server {s : UrlState}
    (hs : s = .reqServerStart ∨ s = .reqServer ∨ s = .reqServerWithAt)
    (hd : parseUrlChar s ch ≠ .dead) :
    (ch ∈ Uri.authorityStops ∧ 6 ≤ (parseUrlChar s ch).rank) ∨
      ch ∉ Uri.authorityStops ∧ (ch = 64 ∧ parseUrlChar s ch = .reqServerWithAt ∨
        ch ≠ 64 ∧ parseUrlChar s ch = .reqServer) := by
  by_cases hstop : ch ∈ Uri.authorityStops
  · refine .inl ⟨hstop, ?_⟩
    simp only [Uri.authorityStops, List.mem_cons, List.not_mem_nil, or_false] at hstop
    obtain rfl | rfl | rfl := hstop <;> obtain rfl | rfl | rfl := hs <;> revert hd <;> decide
  · refine .inr ⟨hstop, ?_⟩
    have hslash : ch ≠ chr '/' := fun h => hstop (h ▸ by decide)
    have hquery : ch ≠ chr '?' := fun h => hstop (h ▸ by decide)
    by_cases hat : ch = 64
    · subst hat
      refine .inl ⟨rfl, ?_⟩
      obtain rfl | rfl | rfl := hs <;> revert hd <;> decide
    · refine .inr ⟨hat, ?_⟩
      have hat' : ch ≠ chr '@' := hat
      obtain rfl | rfl | rfl := hs <;>
        simp only [parseUrlChar, if_neg hslash, if_neg hquery, if_neg hat'] at hd ⊢ <;>
        split_ifs at hd ⊢ <;> first | rfl | exact absurd rfl hd

/-- The rest of an authority. -/
theorem httpParserParseUrlLoop_server {s : UrlState}
    (h : httpParserParseUrlLoop rest p s (some .host) foundAt v = some r)
    (hs : s = .reqServer ∨ s = .reqServerWithAt) (hlen : (v.fieldData .host).len < 65536) :
    r.1 = (foundAt || decide (64 ∈ Uri.before Uri.authorityStops rest)) ∧
      ∀ f, f = .schema ∨ f = .host → r.2.fieldData f =
        (v.lengthen .host (Uri.before Uri.authorityStops rest).length).fieldData f := by
  induction rest generalizing p s foundAt v with
  | nil =>
    cases h
    refine ⟨by simp [Uri.before], fun f _ => ?_⟩
    rw [show (Uri.before Uri.authorityStops []).length = 0 from rfl,
      HttpParserUrl.lengthen_zero hlen]
  | cons ch rest ih =>
    obtain ⟨hd, hb⟩ := httpParserParseUrlLoop_cons h
    obtain ⟨hstop, hrank⟩ | ⟨hin, hch⟩ := parseUrlChar_server (.inr hs) hd
    · rw [Uri.before_cons_of_mem hstop, List.length_nil, HttpParserUrl.lengthen_zero hlen]
      obtain ⟨hat, hframe⟩ := httpParserParseUrlLoop_behind h fun c hc => Option.some.inj hc ▸ hrank
      exact ⟨by simpa using hat, fun f hf => (hframe f hf).1⟩
    · rw [Uri.before_cons_of_not_mem hin, List.length_cons, ← HttpParserUrl.lengthen_grow]
      obtain ⟨rfl, hnext⟩ | ⟨hne, hnext⟩ := hch <;>
        simp only [httpParserParseUrlLoop, hnext, UrlState.field, reduceCtorEq, decide_false,
          decide_true, Bool.or_false, Bool.or_true, Bool.false_eq_true, if_false, if_true] at h
      · obtain ⟨hat, hdata⟩ := ih h (.inr rfl) HttpParserUrl.grow_len_lt
        refine ⟨?_, hdata⟩
        rw [hat, Bool.true_or, decide_eq_true List.mem_cons_self, Bool.or_true]
      · obtain ⟨hat, hdata⟩ := ih h (.inl rfl) HttpParserUrl.grow_len_lt
        refine ⟨?_, hdata⟩
        simp only [hat, List.mem_cons, Ne.symm hne, false_or]

/-- An authority from its first byte on. -/
theorem httpParserParseUrlLoop_authority
    (h : httpParserParseUrlLoop rest p .reqServerStart (some .schema) false v = some r)
    (hv : v.fieldSet .host = false) (hr : r.2.fieldSet .host) :
    r.1 = decide (64 ∈ Uri.before Uri.authorityStops rest) ∧
      r.2.fieldData .schema = v.fieldData .schema ∧
      r.2.fieldData .host = ⟨p % 65536, (Uri.before Uri.authorityStops rest).length % 65536⟩ := by
  cases rest with
  | nil =>
    cases h
    exact absurd hr (ne_true_of_eq_false hv)
  | cons ch rest =>
    obtain ⟨hd, hb⟩ := httpParserParseUrlLoop_cons h
    obtain ⟨hstop, hrank⟩ | ⟨hin, hch⟩ := parseUrlChar_server (.inl rfl) hd
    · obtain ⟨-, hframe⟩ := httpParserParseUrlLoop_behind h fun c hc => Option.some.inj hc ▸ hrank
      rw [(hframe .host (.inr rfl)).2, hv] at hr
      cases hr
    · rw [Uri.before_cons_of_not_mem hin, List.length_cons]
      obtain ⟨rfl, hnext⟩ | ⟨hne, hnext⟩ := hch <;>
        simp only [httpParserParseUrlLoop, hnext, UrlState.field, reduceCtorEq, decide_false,
          decide_true, Bool.or_false, Bool.or_true, Bool.false_eq_true, if_false,
          Option.some.injEq] at h
      · obtain ⟨hat, hdata⟩ := httpParserParseUrlLoop_server h (.inr rfl) (by simp)
        refine ⟨?_, hdata .schema (.inl rfl), (hdata .host (.inr rfl)).trans ?_⟩
        · rw [hat, Bool.true_or, decide_eq_true List.mem_cons_self]
        · simp [Nat.add_comm]
      · obtain ⟨hat, hdata⟩ := httpParserParseUrlLoop_server h (.inl rfl) (by simp)
        refine ⟨?_, hdata .schema (.inl rfl), (hdata .host (.inr rfl)).trans ?_⟩
        · simp only [hat, List.mem_cons, Ne.symm hne, false_or, Bool.false_or]
        · simp [Nat.add_comm]

end Loop

/-- **The schema and the authority of a URL that has both**, and the entries the loop leaves. -/
theorem httpParserParseUrlLoop_head {url : List UInt8} {r : Bool × HttpParserUrl}
    (h : httpParserParseUrlLoop url 0 .reqSpacesBeforeUrl none false {} = some r)
    (hs : r.2.fieldSet .schema) (hh : r.2.fieldSet .host) :
    ∃ a bs, url = a ++ 58 :: 47 :: 47 :: bs ∧ a ≠ [] ∧ (∀ c ∈ a, isAlpha c) ∧
      r.1 = decide (64 ∈ Uri.before Uri.authorityStops bs) ∧
      r.2.fieldData .schema = ⟨0, a.length % 65536⟩ ∧
      r.2.fieldData .host =
        ⟨(a.length + 3) % 65536, (Uri.before Uri.authorityStops bs).length % 65536⟩ := by
  cases url with
  | nil =>
    cases h
    cases hs
  | cons ch rest =>
    obtain ⟨hd, -⟩ := httpParserParseUrlLoop_cons h
    have hfirst : parseUrlChar .reqSpacesBeforeUrl ch = .reqPath ∨
        isAlpha ch ∧ parseUrlChar .reqSpacesBeforeUrl ch = .reqSchema := by
      simp only [parseUrlChar] at hd ⊢
      split_ifs at hd ⊢ <;> simp_all
    obtain hpath | ⟨hletter, hnext⟩ := hfirst
    · -- A path has no schema.
      have hframe := httpParserParseUrlLoop_behind h fun c hc =>
        Option.some.inj hc ▸ (hpath ▸ Nat.le_refl 6 : 6 ≤ (parseUrlChar .reqSpacesBeforeUrl ch).rank)
      rw [(hframe.2 .schema (.inl rfl)).2] at hs
      cases hs
    · simp only [httpParserParseUrlLoop, hnext, UrlState.field, reduceCtorEq, decide_false,
        Bool.or_false, Bool.false_eq_true, if_false] at h
      obtain ⟨a, bs, rfl, ha, hbs⟩ := httpParserParseUrlLoop_schema h (by simp) rfl hh
      obtain ⟨hat, hschema, hhost⟩ := httpParserParseUrlLoop_authority hbs rfl hh
      refine ⟨ch :: a, bs, rfl, List.cons_ne_nil _ _, List.forall_mem_cons.2 ⟨hletter, ha⟩, hat,
        hschema.trans ?_, hhost.trans ?_⟩
      · simp [Nat.add_comm]
      · rw [List.length_cons, Nat.zero_add, Nat.add_comm 1]

/-! ## The parts of the authority -/

section Host

variable {ch : UInt8} {rest : List UInt8} {p : Nat} {s t : HostState} {v w : HttpParserUrl}

theorem httpParseHostLoop_cons (h : httpParseHostLoop (ch :: rest) p s v = some (t, w)) :
    httpParseHostChar s ch ≠ .dead := by
  intro hd
  simp only [httpParseHostLoop, hd] at h
  cases h

/-- The user information goes up to the at sign. -/
theorem httpParseHostLoop_userinfo (h : httpParseHostLoop rest p s v = some (t, w))
    (hs : s = .userinfoStart ∨ s = .userinfo) (ht : t.accepting) :
    ∃ u bs v', rest = u ++ 64 :: bs ∧ 64 ∉ u ∧ v'.fieldData .host = v.fieldData .host ∧
      v'.fieldSet .port = v.fieldSet .port ∧
      httpParseHostLoop bs (p + u.length + 1) .hostStart v' = some (t, w) := by
  induction rest generalizing p s v with
  | nil =>
    cases h
    obtain rfl | rfl := hs <;> cases ht
  | cons ch rest ih =>
    have hd := httpParseHostLoop_cons h
    by_cases hat : ch = 64
    · subst hat
      have hnext : httpParseHostChar s 64 = .hostStart := by
        obtain rfl | rfl := hs <;> decide
      simp only [httpParseHostLoop, hnext] at h
      exact ⟨[], rest, v, rfl, List.not_mem_nil, rfl, rfl, h⟩
    · have hnext : httpParseHostChar s ch = .userinfo := by
        obtain rfl | rfl := hs <;> simp only [httpParseHostChar] at hd ⊢ <;>
          split_ifs at hd ⊢ <;> first | rfl | exact absurd rfl hd | exact absurd ‹_› hat
      simp only [httpParseHostLoop, hnext] at h
      obtain ⟨u, bs, v', rfl, hu, hdata, hset, hbs⟩ := ih h (.inr rfl)
      refine ⟨ch :: u, bs, v', rfl, ?_, hdata.trans ?_, hset.trans ?_, ?_⟩
      · exact List.not_mem_cons_of_ne_of_not_mem (Ne.symm hat) hu
      · split <;> simp
      · split <;> simp
      · rw [List.length_cons, ← Nat.add_assoc, Nat.add_right_comm p u.length 1]
        exact hbs

/-- The digits of a port. -/
theorem httpParseHostLoop_digits (h : httpParseHostLoop rest p .hostPort v = some (t, w))
    (hlen : (v.fieldData .port).len < 65536) :
    w = v.lengthen .port rest.length ∧ ∀ c ∈ rest, isNum c := by
  induction rest generalizing p v with
  | nil =>
    cases h
    exact ⟨(HttpParserUrl.lengthen_zero hlen).symm, List.forall_mem_nil _⟩
  | cons ch rest ih =>
    have hd := httpParseHostLoop_cons h
    have hnum : isNum ch := by
      by_contra hnum
      exact hd (if_neg hnum)
    have hnext : httpParseHostChar .hostPort ch = .hostPort := if_pos hnum
    simp only [httpParseHostLoop, hnext, if_true] at h
    obtain ⟨hw, hall⟩ := ih h HttpParserUrl.grow_len_lt
    rw [HttpParserUrl.lengthen_grow] at hw
    exact ⟨hw, List.forall_mem_cons.2 ⟨hnum, hall⟩⟩

/-- What follows a host: nothing, or a colon and the digits of a port. -/
theorem httpParseHostLoop_port (h : httpParseHostLoop rest p s v = some (t, w))
    (hs : s = .hostV6End ∨ s = .host ∧ ∀ c, rest.head? = some c → c = 58) (ht : t.accepting) :
    rest = [] ∧ w = v ∨ ∃ digits, rest = 58 :: digits ∧ (∀ c ∈ digits, isNum c) ∧
      w.fieldData .host = v.fieldData .host ∧ w.fieldSet .port ∧
      w.fieldData .port = ⟨(p + 1) % 65536, digits.length % 65536⟩ := by
  cases rest with
  | nil =>
    cases h
    exact .inl ⟨rfl, rfl⟩
  | cons ch rest =>
    have hd := httpParseHostLoop_cons h
    -- Behind a host comes a colon or the end.
    obtain ⟨rfl, hnext⟩ : ch = 58 ∧ httpParseHostChar s ch = .hostPortStart := by
      obtain rfl | ⟨rfl, hhead⟩ := hs
      · simp only [httpParseHostChar] at hd ⊢
        split_ifs at hd ⊢ <;> first | exact absurd rfl hd | exact ⟨‹_›, rfl⟩
      · obtain rfl := hhead ch rfl
        exact ⟨rfl, by decide⟩
    simp only [httpParseHostLoop, hnext] at h
    cases rest with
    | nil =>
      cases h
      cases ht
    | cons ch rest =>
      have hd := httpParseHostLoop_cons h
      -- A port has one digit at least, as the loop may not end behind the colon.
      have hnum : isNum ch := by
        by_contra hnum
        exact hd (if_neg hnum)
      have hnext : httpParseHostChar .hostPortStart ch = .hostPort := if_pos hnum
      simp only [httpParseHostLoop, hnext, reduceCtorEq, if_false] at h
      obtain ⟨rfl, hall⟩ := httpParseHostLoop_digits h HttpParserUrl.grow_len_lt
      refine .inr ⟨ch :: rest, rfl, List.forall_mem_cons.2 ⟨hnum, hall⟩, ?_, ?_, ?_⟩
      · simp
      · simp
      · simp [Nat.add_comm]

/-- The rest of a host that is not in brackets. -/
theorem httpParseHostLoop_host (h : httpParseHostLoop rest p .host v = some (t, w))
    (hlen : (v.fieldData .host).len < 65536) :
    httpParseHostLoop (Uri.behind [58] rest) (p + (Uri.before [58] rest).length) .host
      (v.lengthen .host (Uri.before [58] rest).length) = some (t, w) := by
  induction rest generalizing p v with
  | nil =>
    rw [show Uri.before [58] [] = [] from rfl, List.length_nil, HttpParserUrl.lengthen_zero hlen]
    exact h
  | cons ch rest ih =>
    have hd := httpParseHostLoop_cons h
    by_cases hcolon : ch = 58
    · subst hcolon
      rw [Uri.before_cons_of_mem (by decide), Uri.behind_cons_of_mem (by decide), List.length_nil,
        HttpParserUrl.lengthen_zero hlen]
      exact h
    · have hnext : httpParseHostChar .host ch = .host := by
        simp only [httpParseHostChar] at hd ⊢
        split_ifs at hd ⊢ <;> first | rfl | exact absurd rfl hd | exact absurd ‹_› hcolon
      have hstop : ch ∉ [(58 : UInt8)] := by simpa using hcolon
      simp only [httpParseHostLoop, hnext, if_true] at h
      rw [Uri.before_cons_of_not_mem hstop, Uri.behind_cons_of_not_mem hstop, List.length_cons,
        ← HttpParserUrl.lengthen_grow, ← Nat.add_assoc, Nat.add_right_comm p]
      exact ih h HttpParserUrl.grow_len_lt

/-- The rest of a host in brackets, with its zone. -/
theorem httpParseHostLoop_hostV6 (h : httpParseHostLoop rest p s v = some (t, w))
    (hs : s = .hostV6 ∨ s = .hostV6ZoneStart ∨ s = .hostV6Zone) (ht : t.accepting)
    (hlen : (v.fieldData .host).len < 65536) :
    ∃ bs, Uri.behind [93] rest = 93 :: bs ∧
      httpParseHostLoop bs (p + (Uri.before [93] rest).length + 1) .hostV6End
        (v.lengthen .host (Uri.before [93] rest).length) = some (t, w) := by
  induction rest generalizing p s v with
  | nil =>
    cases h
    obtain rfl | rfl | rfl := hs <;> cases ht
  | cons ch rest ih =>
    have hd := httpParseHostLoop_cons h
    -- The bracket closes the address, or the zone in it.
    by_cases hend : ch = 93
    · subst hend
      have hnext : httpParseHostChar s 93 = .hostV6End := by
        obtain rfl | rfl | rfl := hs
        · decide
        · exact absurd (by decide) hd
        · decide
      simp only [httpParseHostLoop, hnext] at h
      rw [Uri.before_cons_of_mem (by decide), Uri.behind_cons_of_mem (by decide), List.length_nil,
        HttpParserUrl.lengthen_zero hlen]
      exact ⟨rest, rfl, h⟩
    · have hnext : (s = .hostV6 ∧ httpParseHostChar s ch = .hostV6) ∨
          httpParseHostChar s ch = .hostV6ZoneStart ∨ httpParseHostChar s ch = .hostV6Zone := by
        obtain rfl | rfl | rfl := hs <;> simp only [httpParseHostChar] at hd ⊢ <;>
          split_ifs at hd ⊢ <;> simp_all [chr]
      have hstop : ch ∉ [(93 : UInt8)] := by simpa using hend
      -- Every other byte is part of the host.
      have hgrow : ∃ s', (s' = .hostV6 ∨ s' = .hostV6ZoneStart ∨ s' = .hostV6Zone) ∧
          httpParseHostLoop rest (p + 1) s' (v.grow .host) = some (t, w) := by
        obtain ⟨rfl, hnext⟩ | hnext | hnext := hnext <;>
          simp only [httpParseHostLoop, hnext, if_true] at h
        · exact ⟨_, .inl rfl, h⟩
        · exact ⟨_, .inr (.inl rfl), h⟩
        · exact ⟨_, .inr (.inr rfl), h⟩
      obtain ⟨s', hs', h⟩ := hgrow
      rw [Uri.before_cons_of_not_mem hstop, Uri.behind_cons_of_not_mem hstop, List.length_cons,
        ← HttpParserUrl.lengthen_grow, ← Nat.add_assoc, Nat.add_right_comm p]
      exact ih h hs' HttpParserUrl.grow_len_lt

/-- What follows a host, as a part of all the bytes from offset `q` on. -/
theorem httpParseHostLoop_behindName {bs front back : List UInt8} {q : Nat}
    (h : httpParseHostLoop back (q + front.length) s v = some (t, w)) (ht : t.accepting)
    (hv : v.fieldSet .port = false) (hbs : bs = front ++ back) (hback : Uri.behindName bs = back)
    (hs : s = .hostV6End ∨ s = .host ∧ ∀ c, back.head? = some c → c = 58) :
    w.fieldData .host = v.fieldData .host ∧ w.fieldSet .port = (Uri.portOf bs).isSome ∧
      ∀ digits, Uri.portOf bs = some digits →
        (w.fieldData .port).Covers q (bs.length - digits.length) bs digits ∧
          ∀ c ∈ digits, isNum c := by
  obtain ⟨rfl, rfl⟩ | ⟨digits, rfl, hall, hhost, hset, hport⟩ := httpParseHostLoop_port h hs ht
  · have hnone : Uri.portOf bs = none := by
      rw [Uri.portOf, hback]
    rw [hnone]
    refine ⟨rfl, hv, fun digits hd => ?_⟩
    cases hd
  · have hsome : Uri.portOf bs = some digits := by
      rw [Uri.portOf, hback]
      rfl
    rw [hsome]
    refine ⟨hhost, hset, ?_⟩
    rintro _ ⟨⟩
    have hoff : bs.length - digits.length = front.length + 1 := by
      rw [hbs, List.length_append, List.length_cons]
      omega
    rw [hoff]
    refine ⟨⟨front ++ [58], [], ?_, List.length_append, ?_⟩, hall⟩
    · rw [hbs, List.append_nil, List.append_assoc]
      rfl
    · rw [hport, Nat.add_assoc]

/-- The entries of the host and of the port cover these parts of an authority, which begins at offset
`p`. -/
def HttpParserUrl.Parts (w : HttpParserUrl) (p : Nat) (bs : List UInt8) : Prop :=
  (w.fieldData .host).Covers p (Uri.nameOffset bs) bs (Uri.nameOf bs) ∧
    w.fieldSet .port = (Uri.portOf bs).isSome ∧
    ∀ digits, Uri.portOf bs = some digits →
      (w.fieldData .port).Covers p (bs.length - digits.length) bs digits ∧ ∀ c ∈ digits, isNum c

/-- An address in brackets. -/
theorem httpParseHostLoop_partsV6 {rest : List UInt8}
    (h : httpParseHostLoop (91 :: rest) p .hostStart v = some (t, w)) (ht : t.accepting)
    (hlen : (v.fieldData .host).len = 0) (hv : v.fieldSet .port = false) :
    w.Parts p (91 :: rest) := by
  have hnext : httpParseHostChar .hostStart 91 = .hostV6Start := by decide
  simp only [httpParseHostLoop, hnext] at h
  cases rest with
  | nil =>
    cases h
    cases ht
  | cons c rest =>
    have hd := httpParseHostLoop_cons h
    -- An address has one byte at least.
    have hnext : httpParseHostChar .hostV6Start c = .hostV6 := by
      simp only [httpParseHostChar] at hd ⊢
      split_ifs at hd ⊢ <;> simp_all
    have hstop : c ∉ [(93 : UInt8)] := by
      rintro hc
      obtain rfl := List.mem_singleton.1 hc
      exact absurd hnext (by decide)
    simp only [httpParseHostLoop, hnext, reduceCtorEq, if_false] at h
    obtain ⟨back, hback, h⟩ := httpParseHostLoop_hostV6 h (.inl rfl) ht HttpParserUrl.grow_len_lt
    have hsplit := Uri.before_append_behind [93] rest
    rw [hback] at hsplit
    -- The closing bracket is not part of the name, but in front of what follows it.
    have hbehind : Uri.behindName (91 :: c :: rest) = back := by
      rw [Uri.behindName, Uri.behind_cons_of_not_mem hstop, hback, List.tail_cons]
    have hfront : (91 :: c :: rest) = (91 :: c :: (Uri.before [93] rest ++ [93])) ++ back := by
      simp only [List.cons_append, List.append_assoc, List.nil_append, hsplit]
    have hoff : p + 1 + 1 + (Uri.before [93] rest).length + 1 =
        p + (91 :: c :: (Uri.before [93] rest ++ [93])).length := by
      simp only [List.length_cons, List.length_append, List.length_nil]
      omega
    rw [hoff] at h
    obtain ⟨hhost, hset, hport⟩ :=
      httpParseHostLoop_behindName h ht hv hfront hbehind (.inl rfl)
    refine ⟨⟨[91], 93 :: back, ?_, rfl, ?_⟩, hset, hport⟩
    · rw [Uri.nameOf, Uri.before_cons_of_not_mem hstop]
      simp only [List.cons_append, List.nil_append, hsplit]
    · rw [hhost, Uri.nameOf, Uri.nameOffset, Uri.before_cons_of_not_mem hstop]
      simp [hlen, Nat.add_comm]

/-- A name. -/
theorem httpParseHostLoop_partsName {ch : UInt8} {rest : List UInt8} (hbracket : ch ≠ 91)
    (h : httpParseHostLoop (ch :: rest) p .hostStart v = some (t, w)) (ht : t.accepting)
    (hlen : (v.fieldData .host).len = 0) (hv : v.fieldSet .port = false) :
    w.Parts p (ch :: rest) := by
  have hd := httpParseHostLoop_cons h
  -- The name goes up to a colon, which no byte of it is.
  obtain ⟨hchar, hnext⟩ : isHostChar ch ∧ httpParseHostChar .hostStart ch = .host := by
    simp only [httpParseHostChar] at hd ⊢
    split_ifs at hd ⊢ <;> simp_all [chr]
  have hstop : ch ∉ [(58 : UInt8)] := by
    rintro hc
    obtain rfl := List.mem_singleton.1 hc
    exact absurd hchar (by decide)
  simp only [httpParseHostLoop, hnext, reduceCtorEq, if_false] at h
  have h := httpParseHostLoop_host h HttpParserUrl.grow_len_lt
  obtain ⟨hname, hzero, hbehind⟩ := Uri.nameOf_cons hbracket rest
  rw [Uri.before_cons_of_not_mem hstop] at hname
  rw [Uri.behind_cons_of_not_mem hstop] at hbehind
  have hsplit := Uri.before_append_behind [58] rest
  have hfront : ch :: rest = (ch :: Uri.before [58] rest) ++ Uri.behind [58] rest := by
    rw [List.cons_append, hsplit]
  have hoff : p + 1 + (Uri.before [58] rest).length =
      p + (ch :: Uri.before [58] rest).length := by
    rw [List.length_cons, Nat.add_assoc, Nat.add_comm 1]
  rw [hoff] at h
  obtain ⟨hhost, hset, hport⟩ := httpParseHostLoop_behindName h ht hv hfront hbehind
    (.inr ⟨rfl, fun c hc => Uri.head?_behind hc⟩)
  refine ⟨⟨[], Uri.behind [58] rest, ?_, hzero.symm, ?_⟩, hset, hport⟩
  · rw [hname, List.nil_append]
    exact hfront
  · rw [hhost, hname, hzero]
    simp [hlen, Nat.add_comm]

/-- **The host and the port**: the entries cover the parts of an accepted authority. -/
theorem httpParseHostLoop_parts {bs : List UInt8}
    (h : httpParseHostLoop bs p .hostStart v = some (t, w)) (ht : t.accepting)
    (hlen : (v.fieldData .host).len = 0) (hv : v.fieldSet .port = false) : w.Parts p bs := by
  cases bs with
  | nil =>
    cases h
    cases ht
  | cons ch rest =>
    by_cases hbracket : ch = 91
    · subst hbracket
      exact httpParseHostLoop_partsV6 h ht hlen hv
    · exact httpParseHostLoop_partsName hbracket h ht hlen hv

end Host

/-- **The parts of an authority**, from its first byte at offset `p` on. -/
theorem httpParseHostLoop_authority {authority : List UInt8} {p : Nat} {t : HostState}
    {v w : HttpParserUrl}
    (h : httpParseHostLoop authority p
      (if decide (64 ∈ authority) then .userinfoStart else .hostStart) v = some (t, w))
    (ht : t.accepting) (hlen : (v.fieldData .host).len = 0) (hv : v.fieldSet .port = false) :
    (w.fieldData .host).Covers p (Uri.hostOffset authority) authority (Uri.hostName authority) ∧
      w.fieldSet .port = (Uri.port authority).isSome ∧
      ∀ digits, Uri.port authority = some digits →
        (w.fieldData .port).Covers p (authority.length - digits.length) authority digits ∧
          ∀ c ∈ digits, isNum c := by
  -- The user information moves the host by its own length and that of the at sign.
  by_cases hat : 64 ∈ authority
  · rw [if_pos (decide_eq_true hat)] at h
    obtain ⟨u, bs, v', rfl, hu, hdata, hset, h⟩ := httpParseHostLoop_userinfo h (.inl rfl) ht
    obtain ⟨hhost, hport, hdigits⟩ :=
      httpParseHostLoop_parts h ht (hdata ▸ hlen) (hset.trans hv)
    have hoff : p + u.length + 1 = p + (u ++ [64]).length := by
      rw [List.length_append, List.length_singleton, Nat.add_assoc]
    have hsplit : u ++ 64 :: bs = (u ++ [64]) ++ bs := by
      rw [List.append_assoc]
      rfl
    have hlength : (u ++ 64 :: bs).length = (u ++ [64]).length + bs.length := by
      rw [hsplit, List.length_append]
    rw [Uri.hostName, Uri.hostOffset, Uri.port, Uri.hostPort_of_userinfo hu, hlength,
      Nat.add_sub_cancel]
    refine ⟨hsplit ▸ hhost.behind hoff, hport, fun digits hd => ?_⟩
    obtain ⟨hcovers, hall⟩ := hdigits digits hd
    have hle := hcovers.length_le
    rw [Nat.add_sub_assoc (by omega)]
    exact ⟨hsplit ▸ hcovers.behind hoff, hall⟩
  · rw [if_neg (by simpa using hat)] at h
    rw [Uri.hostName, Uri.hostOffset, Uri.port, Uri.hostPort_of_not_mem hat, Nat.sub_self,
      Nat.zero_add]
    exact httpParseHostLoop_parts h ht hlen hv

/-! ## The whole URL -/

/-- The value of digits. -/
theorem portValue_digits {digits : List UInt8} (hall : ∀ c ∈ digits, isNum c) {m n : Nat}
    (h : portValue digits m = some n) :
    n = digits.foldl (fun n c => 10 * n + (c.toNat - 48)) m := by
  induction digits generalizing m with
  | nil => exact (Option.some.inj h).symm
  | cons c digits ih =>
    obtain ⟨hc, hall⟩ := List.forall_mem_cons.1 hall
    have h48 : 48 ≤ c.toNat := by
      simp only [isNum, Bool.and_eq_true, decide_eq_true_eq] at hc
      exact UInt8.le_iff_toNat_le.1 hc.1
    simp only [portValue, show (chr '0').toNat = 48 from rfl] at h
    split at h
    · cases h
    split at h
    · cases h
    rw [List.foldl_cons, ih hall h]
    congr 1
    omega

/-- No entry of a URL with this scheme and this authority wraps: not that of the authority as a
whole, nor those of its host and its port. -/
structure Unwrapped (scheme authority : List UInt8) : Prop where
  length : authority.length < 65536
  host : scheme.length + 3 + Uri.hostOffset authority < 65536
  port : ∀ digits, Uri.port authority = some digits →
    scheme.length + 3 + (authority.length - digits.length) < 65536

/-- **The components of an accepted URL that has a schema.** -/
theorem httpParserParseUrl_components {url : List UInt8} {w : HttpParserUrl}
    (h : httpParserParseUrl url {} = some w) (hs : w.fieldSet .schema) :
    ∃ scheme authority, Uri.scheme url = some scheme ∧ Uri.authority url = some authority ∧
      w.text .schema url = scheme.take (scheme.length % 65536) ∧
      (Unwrapped scheme authority →
        w.text .host url = Uri.hostName authority ∧
        w.fieldSet .port = (Uri.port authority).isSome ∧
        ∀ digits, Uri.port authority = some digits → w.port = Uri.decimal digits) := by
  obtain ⟨foundAt, v, v', hl, ha, hp⟩ := httpParserParseUrl_eq_some h
  obtain ⟨s, old, hshape⟩ := httpParserParseUrlLoop_shape hl shape_start
  obtain ⟨n, rfl⟩ := readPort_eq_some hp
  obtain ⟨-, hnone, rfl⟩ | ⟨hhost, t, ht, hloop⟩ := readAuthority_eq_some ha
  · exact absurd hs (ne_true_of_eq_false hnone)
  have hset : v'.fieldSet .schema = v.fieldSet .schema :=
    httpParseHostLoop_fieldSet hloop (by decide) (by decide)
  have hframe : v'.fieldData .schema = v.fieldData .schema :=
    httpParseHostLoop_frame hloop (by simp [UrlField.ofAuthority])
  obtain ⟨a, bs, rfl, hne, hletters, hat, hschema, hspan⟩ :=
    httpParserParseUrlLoop_head hl (hset ▸ hs) hhost
  have hletters' : ∀ c ∈ a, Uri.isLetter c := fun c hc => isLetter_of_isAlpha (hletters c hc)
  refine ⟨a, _, Uri.scheme_of_letters hne hletters' bs, Uri.authority_of_letters hne hletters' bs,
    ?_, fun hfits => ?_⟩
  · show ((a ++ 58 :: 47 :: 47 :: bs).drop (v'.fieldData .schema).off).take
      (v'.fieldData .schema).len = _
    rw [hframe, hschema, List.drop_zero, List.take_append_of_le_length (Nat.mod_le _ _)]
  -- The authority and what is behind it.
  have htail : (a ++ 58 :: 47 :: 47 :: bs).drop (a.length + 3) =
      Uri.before Uri.authorityStops bs ++ Uri.behind Uri.authorityStops bs := by
    rw [Uri.before_append_behind, ← List.drop_drop, List.drop_left]
    rfl
  dsimp only at hat hspan
  have hoff : a.length + 3 < 65536 := Nat.lt_of_le_of_lt (Nat.le_add_right _ _) hfits.host
  rw [hspan, Nat.mod_eq_of_lt hoff, Nat.mod_eq_of_lt hfits.length, htail, List.take_left, hat]
    at hloop
  obtain ⟨hhostName, hportSet, hdigits⟩ :=
    httpParseHostLoop_authority hloop ht (by simp) hshape.no_port
  refine ⟨hhostName.text htail hfits.host hfits.length, hportSet, fun digits hd => ?_⟩
  obtain ⟨hcovers, hall⟩ := hdigits digits hd
  have hport : v'.fieldSet .port := by
    rw [hportSet, hd]
    rfl
  rw [readPort, if_pos hport] at hp
  obtain ⟨n', hn, hw⟩ := Option.map_eq_some_iff.1 hp
  obtain rfl : n' = n := congrArg HttpParserUrl.port hw
  rw [show v'.text .port _ = digits from
    hcovers.text htail (hfits.port digits hd) hfits.length] at hn
  exact portValue_digits hall hn

end Wic.Http
