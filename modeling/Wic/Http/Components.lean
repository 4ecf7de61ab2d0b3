import Wic.Http.Url
import Mathlib.Tactic.SplitIfs

/-!
# The components a URL has

`http_parser_parse_url` writes an entry of `field_data` exactly for a component the URL has, and
its bit in `field_set` says so. This module separates the two kinds of entry: the ones the parser
found, which lie inside the URL and depend on the URL alone, and the others, which are what the
struct held before.

## Main results

* `httpParserParseUrl_onto`: the struct after the parser, from the struct a cleared one becomes
* `httpParserParseUrl_within`: the entries of the components lie inside the URL
* `httpParserParseUrl_host`: an accepted URL has a host if and only if it has a schema
-/

namespace Wic.Http

/-! ## What the struct held before -/

/-- `v` with the entries of the components it does not have taken from `u`. -/
def HttpParserUrl.onto (v u : HttpParserUrl) : HttpParserUrl :=
  { v with fieldData := fun f => if v.fieldSet f then v.fieldData f else u.fieldData f }

namespace HttpParserUrl

variable (v u : HttpParserUrl)

@[simp] theorem onto_fieldSet : (v.onto u).fieldSet = v.fieldSet := rfl

@[simp] theorem onto_port : (v.onto u).port = v.port := rfl

variable {v} {f : UrlField}

theorem onto_fieldData (h : v.fieldSet f) : (v.onto u).fieldData f = v.fieldData f := by
  simp [onto, h]

theorem onto_fieldData_of_not (h : v.fieldSet f = false) :
    (v.onto u).fieldData f = u.fieldData f := by
  simp [onto, h]

theorem onto_text (h : v.fieldSet f) (buf : List UInt8) :
    (v.onto u).text f buf = v.text f buf := by
  simp only [text, onto_fieldData u h]

theorem onto_setSpan (h : v.fieldSet f) (s : Span) :
    (v.onto u).setSpan f s = (v.setSpan f s).onto u := by
  simp only [setSpan, onto, mk.injEq, true_and]
  ext g
  by_cases hg : g = f
  · subst hg
    simp [h]
  · simp [hg]

theorem onto_grow (h : v.fieldSet f) : (v.onto u).grow f = (v.grow f).onto u := by
  simp only [grow, onto_fieldData u h]
  exact onto_setSpan u h _

theorem onto_start (p len : Nat) : (v.onto u).start f p len = (v.start f p len).onto u := by
  simp only [start, mark, setSpan, onto, mk.injEq, true_and]
  ext g
  by_cases hg : g = f
  · subst hg
    simp
  · simp [hg]

@[simp] theorem setSpan_fieldSet (s : Span) : (v.setSpan f s).fieldSet = v.fieldSet := rfl

@[simp] theorem grow_fieldSet : (v.grow f).fieldSet = v.fieldSet := rfl

@[simp] theorem start_fieldSet (p len : Nat) (g : UrlField) :
    (v.start f p len).fieldSet g = if g = f then true else v.fieldSet g := rfl

theorem start_fieldSet_self (p len : Nat) : (v.start f p len).fieldSet f := by simp

@[simp] theorem setSpan_fieldData (s : Span) (g : UrlField) :
    (v.setSpan f s).fieldData g = if g = f then s else v.fieldData g := rfl

@[simp] theorem grow_fieldData (g : UrlField) :
    (v.grow f).fieldData g =
      if g = f then { v.fieldData f with len := ((v.fieldData f).len + 1) % 65536 }
      else v.fieldData g := rfl

@[simp] theorem start_fieldData (p len : Nat) (g : UrlField) :
    (v.start f p len).fieldData g = if g = f then ⟨p % 65536, len⟩ else v.fieldData g := rfl

end HttpParserUrl

variable (u : HttpParserUrl)

theorem httpParserParseUrlLoop_onto :
    ∀ (rest : List UInt8) (p : Nat) (s : UrlState) (old : Option UrlField) (foundAt : Bool)
      (v : HttpParserUrl), (∀ f, old = some f → v.fieldSet f) →
      httpParserParseUrlLoop rest p s old foundAt (v.onto u) =
        (httpParserParseUrlLoop rest p s old foundAt v).map (Prod.map id (·.onto u))
  | [], _, _, _, _, _, _ => rfl
  | ch :: rest, p, s, old, foundAt, v, hold => by
    simp only [httpParserParseUrlLoop]
    by_cases hd : parseUrlChar s ch = .dead || parseUrlChar s ch = .reqSpacesBeforeUrl
    · rw [if_pos hd, if_pos hd]
      rfl
    rw [if_neg hd, if_neg hd]
    cases hf : (parseUrlChar s ch).field with
    | none => exact httpParserParseUrlLoop_onto rest _ _ _ _ v hold
    | some f =>
      by_cases ho : old = some f
      · simp only [if_pos ho, HttpParserUrl.onto_grow u (hold f ho)]
        exact httpParserParseUrlLoop_onto rest _ _ _ _ _ (by simpa using hold)
      · simp only [if_neg ho, HttpParserUrl.onto_start]
        refine httpParserParseUrlLoop_onto rest _ _ _ _ _ fun g hg => ?_
        cases hg
        exact HttpParserUrl.start_fieldSet_self p 1

/-- The entries `http_parse_host` adds to have been started once it is in their state. -/
def HostState.Started (s : HostState) (v : HttpParserUrl) : Prop :=
  v.fieldSet .host ∧ (s = .hostPort → v.fieldSet .port) ∧ (s = .userinfo → v.fieldSet .userinfo)

theorem httpParseHostLoop_onto :
    ∀ (rest : List UInt8) (p : Nat) (s : HostState) (v : HttpParserUrl), s.Started v →
      httpParseHostLoop rest p s (v.onto u) =
        (httpParseHostLoop rest p s v).map (Prod.map id (·.onto u))
  | [], _, _, _, _ => rfl
  | ch :: rest, p, s, v, h => by
    obtain ⟨hhost, hport, hinfo⟩ := h
    -- The entry of the host is set, so that moving it does not read the struct.
    have hmoved : (v.onto u).setSpan .host { (v.onto u).fieldData .host with off := p % 65536 } =
        (v.setSpan .host { v.fieldData .host with off := p % 65536 }).onto u := by
      rw [HttpParserUrl.onto_fieldData u hhost, HttpParserUrl.onto_setSpan u hhost]
    simp only [httpParseHostLoop]
    cases hn : httpParseHostChar s ch
    case dead => rfl
    -- The entries that grow have been started, by this byte or by one before it.
    case host | hostV6 =>
      simp only [hmoved, ← apply_ite (fun v : HttpParserUrl => v.onto u)]
      rw [HttpParserUrl.onto_grow u (by split <;> simpa using hhost)]
      refine httpParseHostLoop_onto rest _ _ _ ⟨?_, by simp, by simp⟩
      split <;> simpa using hhost
    case hostV6ZoneStart | hostV6Zone =>
      simp only [HttpParserUrl.onto_grow u hhost]
      exact httpParseHostLoop_onto rest _ _ _ ⟨by simpa using hhost, by simp, by simp⟩
    case hostPort =>
      by_cases hs : s = .hostPort
      · simp only [if_pos hs, HttpParserUrl.onto_grow u (hport hs)]
        exact httpParseHostLoop_onto rest _ _ _
          ⟨by simpa using hhost, by simpa using hport hs, by simp⟩
      · simp only [if_neg hs, HttpParserUrl.onto_start]
        rw [HttpParserUrl.onto_grow u (HttpParserUrl.start_fieldSet_self p 0)]
        exact httpParseHostLoop_onto rest _ _ _ ⟨by simpa using hhost, by simp, by simp⟩
    case userinfo =>
      by_cases hs : s = .userinfo
      · simp only [if_pos hs, HttpParserUrl.onto_grow u (hinfo hs)]
        exact httpParseHostLoop_onto rest _ _ _
          ⟨by simpa using hhost, by simp, by simpa using hinfo hs⟩
      · simp only [if_neg hs, HttpParserUrl.onto_start]
        rw [HttpParserUrl.onto_grow u (HttpParserUrl.start_fieldSet_self p 0)]
        exact httpParseHostLoop_onto rest _ _ _ ⟨by simpa using hhost, by simp, by simp⟩
    all_goals exact httpParseHostLoop_onto rest _ _ v ⟨hhost, by simp, by simp⟩

/-- The states in which `http_parse_host` accepts the end of the authority. -/
def HostState.accepting (s : HostState) : Bool :=
  s ∉ [.hostStart, .hostV6Start, .hostV6, .hostV6ZoneStart, .hostV6Zone, .hostPortStart,
    .userinfo, .userinfoStart]

/-- `http_parse_host` as its loop and the test of the last state. -/
theorem httpParseHost_eq (buf : List UInt8) (v : HttpParserUrl) (foundAt : Bool) :
    httpParseHost buf v foundAt =
      (httpParseHostLoop ((buf.drop (v.fieldData .host).off).take (v.fieldData .host).len)
        (v.fieldData .host).off (if foundAt then .userinfoStart else .hostStart)
        (v.setSpan .host ⟨(v.fieldData .host).off, 0⟩)).bind fun (s, v) =>
          if s.accepting then some v else none := by
  simp only [httpParseHost]
  cases httpParseHostLoop ((buf.drop (v.fieldData .host).off).take (v.fieldData .host).len)
      (v.fieldData .host).off (if foundAt then .userinfoStart else .hostStart)
      (v.setSpan .host ⟨(v.fieldData .host).off, 0⟩) with
  | none => rfl
  | some r =>
    obtain ⟨s, v⟩ := r
    cases s <;> rfl

theorem httpParseHost_onto (buf : List UInt8) (v : HttpParserUrl) (foundAt : Bool)
    (h : v.fieldSet .host) :
    httpParseHost buf (v.onto u) foundAt = (httpParseHost buf v foundAt).map (·.onto u) := by
  rw [httpParseHost_eq, httpParseHost_eq, HttpParserUrl.onto_fieldData u h,
    HttpParserUrl.onto_setSpan u h, httpParseHostLoop_onto]
  · rw [Option.bind_map, Option.map_bind]
    congr 1
    funext r
    simp only [Function.comp, Prod.map, id]
    split <;> rfl
  · refine ⟨by simpa using h, ?_, ?_⟩ <;> cases foundAt <;> simp

/-- The part of `http_parser_parse_url` about the authority, after the loop. -/
def readAuthority (buf : List UInt8) (foundAt : Bool) (v : HttpParserUrl) :
    Option HttpParserUrl :=
  if v.fieldSet .host then httpParseHost buf v foundAt
  else if v.fieldSet .schema then none else some v

/-- The last part of `http_parser_parse_url`, about the port. -/
def readPort (buf : List UInt8) (v : HttpParserUrl) : Option HttpParserUrl :=
  if v.fieldSet .port then
    (portValue (v.text .port buf) 0).map fun n => { v with port := n }
  else some v

/-- `http_parser_parse_url` as its loop and the two parts behind it. -/
theorem httpParserParseUrl_eq (buf : List UInt8) :
    httpParserParseUrl buf u =
      if buf.length = 0 then none
      else (httpParserParseUrlLoop buf 0 .reqSpacesBeforeUrl none false
          (({} : HttpParserUrl).onto u)).bind fun (foundAt, v) =>
        (readAuthority buf foundAt v).bind (readPort buf) := by
  have h0 : ({ u with port := 0, fieldSet := fun _ => false } : HttpParserUrl) =
      ({} : HttpParserUrl).onto u := rfl
  simp only [httpParserParseUrl, h0, readAuthority]
  split
  · rfl
  cases httpParserParseUrlLoop buf 0 .reqSpacesBeforeUrl none false
      (({} : HttpParserUrl).onto u) with
  | none => rfl
  | some r =>
    obtain ⟨foundAt, v⟩ := r
    simp only [Option.bind_some]
    cases v.fieldSet .schema <;> cases v.fieldSet .host <;> simp
    all_goals cases httpParseHost buf v foundAt <;> rfl

theorem readAuthority_onto (buf : List UInt8) (foundAt : Bool) (v : HttpParserUrl) :
    readAuthority buf foundAt (v.onto u) = (readAuthority buf foundAt v).map (·.onto u) := by
  simp only [readAuthority]
  cases hh : v.fieldSet .host <;> cases hs : v.fieldSet .schema <;>
    simp [hh, hs, httpParseHost_onto u buf v foundAt]

theorem readPort_onto (buf : List UInt8) (v : HttpParserUrl) :
    readPort buf (v.onto u) = (readPort buf v).map (·.onto u) := by
  simp only [readPort]
  cases hp : v.fieldSet .port with
  | false => simp [hp]
  | true =>
    simp only [HttpParserUrl.onto_fieldSet, hp, if_true, HttpParserUrl.onto_text u hp,
      Option.map_map]
    rfl

/-- The parser over a struct with leftover contents finds what it finds over a cleared one. -/
theorem httpParserParseUrl_onto (buf : List UInt8) :
    httpParserParseUrl buf u = (httpParserParseUrl buf {}).map (·.onto u) := by
  have h0 : ({} : HttpParserUrl).onto {} = {} := by
    simp [HttpParserUrl.onto]
  rw [httpParserParseUrl_eq u, httpParserParseUrl_eq {}, h0,
    httpParserParseUrlLoop_onto u _ _ _ _ _ _ (by simp)]
  split
  · rfl
  rw [Option.bind_map, Option.map_bind]
  congr 1
  funext r
  simp only [Function.comp, Prod.map, id]
  rw [readAuthority_onto, Option.bind_map, Option.map_bind]
  congr 1
  funext v
  exact readPort_onto u buf v

/-! ## Where the components lie -/

/-- The entries of those components that satisfy `K` lie before offset `n`. -/
def HttpParserUrl.Within (K : UrlField → Prop) (n : Nat) (v : HttpParserUrl) : Prop :=
  ∀ f, K f → v.fieldSet f → (v.fieldData f).off + (v.fieldData f).len ≤ n

namespace HttpParserUrl

variable {K : UrlField → Prop} {v : HttpParserUrl} {n p : Nat}

theorem Within.mono (h : v.Within K n) (hnp : n ≤ p) : v.Within K p :=
  fun f hK hf => Nat.le_trans (h f hK hf) hnp

theorem Within.grow (h : v.Within K p) (f : UrlField) : (v.grow f).Within K (p + 1) := by
  intro g hK hg
  have hle := h g hK hg
  by_cases hgf : g = f
  · subst hgf
    have := Nat.mod_le ((v.fieldData g).len + 1) 65536
    simp only [grow_fieldData, if_true]
    omega
  · simp only [grow_fieldData, if_neg hgf]
    omega

theorem Within.start (h : v.Within K p) (f : UrlField) (len : Nat) :
    (v.start f p len).Within K (p + len) := by
  intro g hK hg
  by_cases hgf : g = f
  · have := Nat.mod_le p 65536
    simp only [start_fieldData, if_pos hgf]
    omega
  · simp only [start_fieldSet, if_neg hgf] at hg
    simp only [start_fieldData, if_neg hgf]
    exact Nat.le_trans (h g hK hg) (Nat.le_add_right p len)

theorem Within.setSpan (h : v.Within K p) (f : UrlField) {s : Span}
    (hs : s.off + s.len ≤ p) : (v.setSpan f s).Within K p := by
  intro g hK hg
  by_cases hgf : g = f
  · simpa only [setSpan_fieldData, if_pos hgf] using hs
  · simpa only [setSpan_fieldData, if_neg hgf] using h g hK hg

end HttpParserUrl

variable {K : UrlField → Prop}

theorem httpParserParseUrlLoop_within :
    ∀ {rest : List UInt8} {p : Nat} {s : UrlState} {old : Option UrlField} {foundAt : Bool}
      {v : HttpParserUrl} {r : Bool × HttpParserUrl},
      httpParserParseUrlLoop rest p s old foundAt v = some r → v.Within K p →
      r.2.Within K (p + rest.length)
  | [], _, _, _, _, _, _, h, hv => by
    cases h
    exact hv
  | ch :: rest, p, s, old, foundAt, v, r, h, hv => by
    rw [List.length_cons, ← Nat.add_assoc, Nat.add_right_comm]
    simp only [httpParserParseUrlLoop] at h
    split at h
    · cases h
    split at h
    · exact httpParserParseUrlLoop_within h (hv.mono (Nat.le_succ p))
    · split at h
      · exact httpParserParseUrlLoop_within h (hv.grow _)
      · exact httpParserParseUrlLoop_within h (hv.start _ 1)

/-- The states in which `http_parse_host` has not come to the host yet. -/
def HostState.early (s : HostState) : Bool :=
  s ∈ [.userinfoStart, .userinfo, .hostStart, .hostV6Start]

theorem early_of_httpParseHostChar {s : HostState} {ch : UInt8}
    (h : (httpParseHostChar s ch).early) : s.early := by
  cases s <;> simp only [httpParseHostChar] at h
  case userinfoStart | userinfo | hostStart | hostV6Start => rfl
  case dead => exact h
  all_goals split_ifs at h <;> cases h

theorem early_of_ne_httpParseHostChar {s n : HostState} {ch : UInt8}
    (h : httpParseHostChar s ch = n) (hn : n = .host ∨ n = .hostV6) (hs : s ≠ n) : s.early := by
  subst h
  cases s <;> simp only [httpParseHostChar] at hn hs
  case userinfoStart | userinfo | hostStart | hostV6Start => rfl
  case dead => exact absurd rfl hs
  all_goals split_ifs at hn hs <;> simp at hn hs

theorem httpParseHostLoop_within :
    ∀ {rest : List UInt8} {p : Nat} {s : HostState} {v : HttpParserUrl}
      {r : HostState × HttpParserUrl},
      httpParseHostLoop rest p s v = some r → v.Within K p →
      (s.early → (v.fieldData .host).len = 0) → r.2.Within K (p + rest.length)
  | [], _, _, _, _, h, hv, _ => by
    cases h
    exact hv
  | ch :: rest, p, s, v, r, h, hv, he => by
    rw [List.length_cons, ← Nat.add_assoc, Nat.add_right_comm]
    have hearly : (httpParseHostChar s ch).early → (v.fieldData .host).len = 0 :=
      fun hn => he (early_of_httpParseHostChar hn)
    -- The offset moves only where nothing of the host has been counted.
    have hmoved : ∀ n, httpParseHostChar s ch = n → n = .host ∨ n = .hostV6 →
        (if s = n then v else v.setSpan .host { v.fieldData .host with off := p % 65536 }).Within
          K p := by
      intro n hn hor
      split
      · exact hv
      · refine hv.setSpan .host ?_
        rw [he (early_of_ne_httpParseHostChar hn hor ‹_›)]
        exact Nat.mod_le p 65536
    simp only [httpParseHostLoop] at h
    cases hn : httpParseHostChar s ch <;> simp only [hn] at h hearly
    case dead => cases h
    case host =>
      exact httpParseHostLoop_within h ((hmoved _ hn (.inl rfl)).grow .host)
        (fun hs => absurd hs (by decide))
    case hostV6 =>
      exact httpParseHostLoop_within h ((hmoved _ hn (.inr rfl)).grow .host)
        (fun hs => absurd hs (by decide))
    case hostV6ZoneStart | hostV6Zone =>
      exact httpParseHostLoop_within h (hv.grow .host) (fun hs => absurd hs (by decide))
    case hostPort =>
      refine httpParseHostLoop_within h (HttpParserUrl.Within.grow ?_ _)
        (fun hs => absurd hs (by decide))
      split
      · exact hv
      · exact hv.start .port 0
    case userinfo =>
      refine httpParseHostLoop_within h (HttpParserUrl.Within.grow ?_ _) ?_
      · split
        · exact hv
        · exact hv.start .userinfo 0
      · split <;> simpa using hearly
    all_goals exact httpParseHostLoop_within h (hv.mono (Nat.le_succ p)) hearly

/-! ## Which components there are -/

/-- The components `http_parse_host` finds in the authority. -/
def UrlField.ofAuthority (f : UrlField) : Prop := f = .host ∨ f = .port ∨ f = .userinfo

/-- `http_parse_host` sets the bits of the port and the user info only. -/
theorem httpParseHostLoop_fieldSet :
    ∀ {rest : List UInt8} {p : Nat} {s : HostState} {v : HttpParserUrl}
      {r : HostState × HttpParserUrl} {f : UrlField},
      httpParseHostLoop rest p s v = some r → f ≠ .port → f ≠ .userinfo →
      r.2.fieldSet f = v.fieldSet f
  | [], _, _, _, _, _, h, _, _ => by
    cases h
    rfl
  | ch :: rest, p, s, v, r, f, h, hport, hinfo => by
    simp only [httpParseHostLoop] at h
    cases hn : httpParseHostChar s ch <;> simp only [hn] at h
    case dead => cases h
    case host | hostV6 | hostPort | userinfo =>
      have := httpParseHostLoop_fieldSet h hport hinfo
      split at this <;> simpa [hport, hinfo] using this
    case hostV6ZoneStart | hostV6Zone => simpa using httpParseHostLoop_fieldSet h hport hinfo
    all_goals exact httpParseHostLoop_fieldSet h hport hinfo

/-- `http_parse_host` leaves the entries of the components outside the authority alone. -/
theorem httpParseHostLoop_frame :
    ∀ {rest : List UInt8} {p : Nat} {s : HostState} {v : HttpParserUrl}
      {r : HostState × HttpParserUrl} {f : UrlField},
      httpParseHostLoop rest p s v = some r → ¬f.ofAuthority → r.2.fieldData f = v.fieldData f
  | [], _, _, _, _, _, h, _ => by
    cases h
    rfl
  | ch :: rest, p, s, v, r, f, h, hf => by
    obtain ⟨hhost, hport, hinfo⟩ : f ≠ .host ∧ f ≠ .port ∧ f ≠ .userinfo := by
      simpa only [UrlField.ofAuthority, not_or] using hf
    simp only [httpParseHostLoop] at h
    cases hn : httpParseHostChar s ch <;> simp only [hn] at h
    case dead => cases h
    case host | hostV6 | hostPort | userinfo =>
      have := httpParseHostLoop_frame h hf
      split at this <;> simpa [hhost, hport, hinfo] using this
    case hostV6ZoneStart | hostV6Zone => simpa [hhost] using httpParseHostLoop_frame h hf
    all_goals exact httpParseHostLoop_frame h hf

/-- Where a URL without a schema is. -/
def UrlState.bare (s : UrlState) : Bool :=
  s ∈ [.reqSpacesBeforeUrl, .reqPath, .reqQueryStringStart, .reqQueryString, .reqFragmentStart,
    .reqFragment]

theorem bare_parseUrlChar {s : UrlState} {ch : UInt8} (hs : s.bare)
    (hd : parseUrlChar s ch ≠ .dead) :
    (parseUrlChar s ch).bare ∨ parseUrlChar s ch = .reqSchema := by
  cases s <;> simp only [parseUrlChar] at hd ⊢ <;> first | (cases hs; done) | skip
  all_goals split_ifs at hd ⊢ <;> simp [UrlState.bare] at hd ⊢

/-- What is known of the components in the middle of a URL. -/
structure HttpParserUrl.Shape (s : UrlState) (old : Option UrlField) (v : HttpParserUrl) :
    Prop where
  schema_of_host : v.fieldSet .host → v.fieldSet .schema
  bare_of_no_schema : v.fieldSet .schema = false → s.bare
  old_set : ∀ f, old = some f → v.fieldSet f
  no_port : v.fieldSet .port = false
  no_userinfo : v.fieldSet .userinfo = false

theorem httpParserParseUrlLoop_shape :
    ∀ {rest : List UInt8} {p : Nat} {s : UrlState} {old : Option UrlField} {foundAt : Bool}
      {v : HttpParserUrl} {r : Bool × HttpParserUrl},
      httpParserParseUrlLoop rest p s old foundAt v = some r → v.Shape s old →
      ∃ s' old', r.2.Shape s' old'
  | [], _, s, old, _, _, _, h, hv => by
    cases h
    exact ⟨s, old, hv⟩
  | ch :: rest, p, s, old, foundAt, v, r, h, hv => by
    simp only [httpParserParseUrlLoop] at h
    split at h
    · cases h
    rename_i hd
    simp only [Bool.or_eq_true, decide_eq_true_eq, not_or] at hd
    -- A URL that is still without a schema either gets one here or stays without.
    have hbare : v.fieldSet .schema = false →
        (parseUrlChar s ch).bare ∨ parseUrlChar s ch = .reqSchema :=
      fun hns => bare_parseUrlChar (hv.bare_of_no_schema hns) hd.1
    split at h
    case h_1 hf =>
      refine httpParserParseUrlLoop_shape h { hv with bare_of_no_schema := fun hns => ?_ }
      exact (hbare hns).resolve_right fun hs => by simp [hs, UrlState.field] at hf
    case h_2 f hf =>
      have hne : f ≠ .port ∧ f ≠ .userinfo := by
        constructor <;> rintro rfl <;> cases hs : parseUrlChar s ch <;>
          simp [hs, UrlState.field] at hf
      split at h
      case isTrue ho =>
        have hset : v.fieldSet f := hv.old_set f ho
        refine httpParserParseUrlLoop_shape h
          { hv with bare_of_no_schema := fun hns => (hbare hns).resolve_right fun hs => ?_ }
        simp only [hs, UrlState.field, Option.some.injEq] at hf
        subst hf
        simp_all
      case isFalse ho =>
        refine httpParserParseUrlLoop_shape h ⟨?_, ?_, ?_, ?_, ?_⟩
        · intro hhost
          by_cases hfh : f = .host
          · subst hfh
            cases hsch : v.fieldSet .schema with
            | true => simp [hsch]
            | false =>
              rcases hbare hsch with hb | hb
              · cases hs : parseUrlChar s ch <;> simp [hs, UrlState.field, UrlState.bare] at hf hb
              · simp [hb, UrlState.field] at hf
          · have hsch := hv.schema_of_host (by simpa [Ne.symm hfh] using hhost)
            simp [hsch]
        · intro hns
          have hfs : f ≠ .schema := by
            rintro rfl
            simp at hns
          refine (hbare (by simpa [hfs.symm] using hns)).resolve_right fun hs => hfs ?_
          simpa [hs, UrlState.field] using hf.symm
        · rintro g ⟨⟩
          simp
        · simp [hne.1.symm, hv.no_port]
        · simp [hne.2.symm, hv.no_userinfo]

theorem readAuthority_eq_some {buf : List UInt8} {foundAt : Bool} {v w : HttpParserUrl}
    (h : readAuthority buf foundAt v = some w) :
    (v.fieldSet .host = false ∧ v.fieldSet .schema = false ∧ w = v) ∨
      v.fieldSet .host ∧ ∃ s : HostState, s.accepting ∧
        httpParseHostLoop ((buf.drop (v.fieldData .host).off).take (v.fieldData .host).len)
          (v.fieldData .host).off (if foundAt then .userinfoStart else .hostStart)
          (v.setSpan .host ⟨(v.fieldData .host).off, 0⟩) = some (s, w) := by
  simp only [readAuthority] at h
  cases hhost : v.fieldSet .host with
  | false =>
    cases hs : v.fieldSet .schema <;> simp [hhost, hs] at h
    exact .inl ⟨rfl, rfl, h.symm⟩
  | true =>
    simp only [hhost, if_true, httpParseHost_eq, Option.bind_eq_some_iff,
      Option.ite_none_right_eq_some, Option.some.injEq] at h
    obtain ⟨⟨s, w'⟩, hl, hs, rfl⟩ := h
    exact .inr ⟨rfl, s, hs, hl⟩

theorem readPort_eq_some {buf : List UInt8} {v w : HttpParserUrl} (h : readPort buf v = some w) :
    ∃ n, w = { v with port := n } := by
  simp only [readPort] at h
  split at h
  · obtain ⟨n, -, rfl⟩ := Option.map_eq_some_iff.1 h
    exact ⟨n, rfl⟩
  · cases h
    exact ⟨v.port, rfl⟩

/-- The struct an accepted URL leaves in a cleared one: the loop, the authority and the port. -/
theorem httpParserParseUrl_eq_some {buf : List UInt8} {w : HttpParserUrl}
    (h : httpParserParseUrl buf {} = some w) :
    ∃ foundAt v v', httpParserParseUrlLoop buf 0 .reqSpacesBeforeUrl none false {} =
        some (foundAt, v) ∧
      readAuthority buf foundAt v = some v' ∧ readPort buf v' = some w := by
  have h0 : ({} : HttpParserUrl).onto {} = {} := by
    simp [HttpParserUrl.onto]
  rw [httpParserParseUrl_eq, h0] at h
  split at h
  · cases h
  obtain ⟨⟨foundAt, v⟩, hl, h⟩ := Option.bind_eq_some_iff.1 h
  obtain ⟨v', ha, hp⟩ := Option.bind_eq_some_iff.1 h
  exact ⟨foundAt, v, v', hl, ha, hp⟩

theorem shape_start : ({} : HttpParserUrl).Shape .reqSpacesBeforeUrl none :=
  ⟨by simp, fun _ => rfl, by simp, rfl, rfl⟩

/-- The entries of the components an accepted URL has lie inside it. -/
theorem httpParserParseUrl_within {buf : List UInt8} {w : HttpParserUrl}
    (h : httpParserParseUrl buf {} = some w) : w.Within (fun _ => True) buf.length := by
  obtain ⟨foundAt, v, v', hl, ha, hp⟩ := httpParserParseUrl_eq_some h
  obtain ⟨n, rfl⟩ := readPort_eq_some hp
  have hv : v.Within (fun _ => True) buf.length := by
    simpa using httpParserParseUrlLoop_within hl (K := fun _ => True) (fun f _ hf => by cases hf)
  obtain ⟨s, old, hsh⟩ := httpParserParseUrlLoop_shape hl shape_start
  obtain ⟨-, -, rfl⟩ | ⟨hhost, t, -, ht⟩ := readAuthority_eq_some ha
  · exact hv
  have hle := hv .host trivial hhost
  intro f _ hf
  by_cases hauth : f.ofAuthority
  · -- Nothing of the authority was there before `http_parse_host`, except the offset of the host.
    have hin := httpParseHostLoop_within ht (K := UrlField.ofAuthority) ?_ (by simp)
    · refine Nat.le_trans (hin f hauth hf) ?_
      rw [List.length_take, List.length_drop]
      omega
    · rintro g (rfl | rfl | rfl) hg
      · simp
      · exact absurd hg (ne_true_of_eq_false hsh.no_port)
      · exact absurd hg (ne_true_of_eq_false hsh.no_userinfo)
  · obtain ⟨hhost', hport, hinfo⟩ : f ≠ .host ∧ f ≠ .port ∧ f ≠ .userinfo := by
      simpa only [UrlField.ofAuthority, not_or] using hauth
    have hset := httpParseHostLoop_fieldSet ht hport hinfo
    have hdata := httpParseHostLoop_frame ht hauth
    rw [HttpParserUrl.setSpan_fieldData, if_neg hhost'] at hdata
    show (v'.fieldData f).off + (v'.fieldData f).len ≤ buf.length
    rw [hdata]
    exact hv f trivial (hset ▸ hf)

/-- An accepted URL has a host if and only if it has a schema. -/
theorem httpParserParseUrl_host {buf : List UInt8} {w : HttpParserUrl}
    (h : httpParserParseUrl buf {} = some w) : w.fieldSet .host = w.fieldSet .schema := by
  obtain ⟨foundAt, v, v', hl, ha, hp⟩ := httpParserParseUrl_eq_some h
  obtain ⟨n, rfl⟩ := readPort_eq_some hp
  obtain ⟨s, old, hsh⟩ := httpParserParseUrlLoop_shape hl shape_start
  obtain ⟨hh, hs, rfl⟩ | ⟨hhost, t, -, ht⟩ := readAuthority_eq_some ha
  · exact hh.trans hs.symm
  have hset : ∀ f, f ≠ .port → f ≠ .userinfo → v'.fieldSet f = v.fieldSet f :=
    fun f => httpParseHostLoop_fieldSet ht
  show v'.fieldSet .host = v'.fieldSet .schema
  rw [hset _ (by decide) (by decide), hset _ (by decide) (by decide), hhost,
    hsh.schema_of_host hhost]

end Wic.Http
