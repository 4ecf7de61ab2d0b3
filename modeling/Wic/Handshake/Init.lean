import Wic.Http.Spans
import Wic.Model.Api

/-!
# What `wic_init` takes from memory

`wic_init` clears the instance and then parses the URL into a struct on its stack that nothing has
cleared. It reads the entries of the schema and the host from that struct whether the URL has them
or not. Here `wicInitOn` is `wic_init` with what it leaves in the instance when it fails too, and
without a result where it reads past the end of the URL.

## Main definitions

* `wicInitOn`: `wic_init` on the memory of an instance and of the struct
* `InitArg.Determined`: what was in either memory does not matter
* `InitArg.Faithful`: the instance is set up with the parts of the URL, as the generic syntax has
  them

## Main results

* `wicInit_of_wicInitOn`: `wicInit` is the result of `wicInitOn`
* `wicInitOn_iff`: an argument is determined if and only if its URL has a schema, or is never looked
  at; and with offsets of 16 bits it is faithful then too
-/

namespace Wic

open Http (ascii HttpParserUrl Span httpParserParseUrl httpParserParseUrl_onto
  httpParserParseUrl_within httpParserParseUrl_host)

/-! ## The function with all it leaves -/

/-- The bytes `memcmp` and `memcpy` take from the URL; `none` when they go past its terminator. -/
def urlBytes (url : List UInt8) (s : Span) : Option (List UInt8) :=
  if s.off + s.len ≤ url.length + 1 then some (((url ++ [0]).drop s.off).take s.len) else none

/-- The loop of `wic_init` over `supported_schema`. -/
def findSchema (url : List UInt8) (s : Span) :
    List (List UInt8 × Schema) → Option (Option Schema)
  | [] => some none
  | (name, schema) :: rest =>
    if s.len = name.length then
      (urlBytes url s).bind fun bytes =>
        if bytes = name then some (some schema) else findSchema url s rest
    else findSchema url s rest

/-- The port of a URL that names none. -/
def defaultPort : Schema → Nat
  | .http | .ws => 80
  | _ => 443

/-- `wic_init` behind the parser, which has left `v`. -/
def takeUrl (arg : InitArg) (url : List UInt8) (v : HttpParserUrl) : Option (Bool × Inst) :=
  (findSchema url (v.fieldData .schema) supportedSchema).bind fun
  | none => some (false, {})
  | some schema =>
    let port := if v.fieldSet .port then v.port else defaultPort schema
    if 255 < (v.fieldData .host).len then some (false, {})
    else (urlBytes url (v.fieldData .host)).map fun host =>
      let hostname := host ++ List.replicate (256 - host.length) 0
      if arg.role ≠ .client then (false, { hostname })
      else (true,
        { role := arg.role
          rx := { s := streamInit arg.rxBase arg.rx arg.rxMax }
          onMessage := arg.onMessage
          onOpen := arg.onOpen
          onClose := arg.onClose
          onCloseTransport := arg.onCloseTransport
          onHandshakeFailure := arg.onHandshakeFailure
          rand := arg.rand
          url := some url
          schema
          port
          hostname })

/-- `wic_init` on an instance whose memory holds `_self`, which `memset` clears, and on a struct
that holds `u`: the result and what is left in the instance. The parser of an instance that is only
cleared is not looked at. -/
def wicInitOn (_self : Inst) (arg : InitArg) (u : HttpParserUrl) : Option (Bool × Inst) :=
  if !arg.onSend || !arg.onBuffer then some (false, {})
  else match arg.url with
    | none => some (false, {})
    | some url =>
      match httpParserParseUrl url u with
      | none => some (false, {})
      | some v => takeUrl arg url v

/-! ## The result of the function -/

section UrlBytes

variable {url bytes : List UInt8} {v : HttpParserUrl} {f : Http.UrlField}

/-- What is read from the URL is text of it, and its terminator where the text goes up to it. -/
theorem urlBytes_eq_some (h : urlBytes url (v.fieldData f) = some bytes) :
    bytes = v.text f url ++
        List.replicate ((v.fieldData f).len - (url.length - (v.fieldData f).off)) 0 ∧
      bytes.length = (v.fieldData f).len := by
  simp only [urlBytes, Option.ite_none_right_eq_some, Option.some.injEq] at h
  obtain ⟨hin, rfl⟩ := h
  rw [HttpParserUrl.text]
  generalize v.fieldData f = s at hin ⊢
  constructor
  · rw [List.drop_append, List.take_append, List.length_drop]
    congr 1
    by_cases hoff : s.off ≤ url.length
    · obtain hk | hk : s.len - (url.length - s.off) = 0 ∨ s.len - (url.length - s.off) = 1 := by
        omega
      all_goals simp [hk, Nat.sub_eq_zero_of_le hoff]
    · have hk : s.len - (url.length - s.off) = 0 := by omega
      rw [hk, List.take_zero, List.replicate_zero]
  · simp only [List.length_take, List.length_drop, List.length_append, List.length_singleton]
    omega

theorem urlBytes_eq_name {name : List UInt8} (h : urlBytes url (v.fieldData f) = some bytes)
    (hlen : (v.fieldData f).len = name.length) (h0 : 0 ∉ name) :
    bytes = name ↔ v.text f url = name := by
  obtain ⟨hbytes, hblen⟩ := urlBytes_eq_some h
  constructor
  · intro hname
    have hk : (v.fieldData f).len - (url.length - (v.fieldData f).off) = 0 := by
      by_contra hk
      apply h0
      rw [← hname, hbytes]
      exact List.mem_append_right _ (List.mem_replicate.2 ⟨hk, rfl⟩)
    rw [← hname, hbytes, hk, List.replicate_zero, List.append_nil]
  · intro htext
    have hk := congrArg List.length hbytes
    rw [List.length_append, List.length_replicate, htext, hblen, hlen, Nat.left_eq_add] at hk
    rw [hbytes, hlen, hk, List.replicate_zero, List.append_nil]
    exact htext

end UrlBytes

theorem findSchema_find? {url : List UInt8} {v : HttpParserUrl} {r : Option Schema} :
    ∀ {l : List (List UInt8 × Schema)}, (∀ x ∈ l, 0 ∉ x.1) →
      findSchema url (v.fieldData .schema) l = some r →
      (l.find? fun (name, _) =>
        (v.fieldData .schema).len == name.length && v.text .schema url == name).map Prod.snd = r
  | [], _, h => by
    cases h
    rfl
  | (name, schema) :: l, hl, h => by
    have hrest := fun x hx => hl x (List.mem_cons_of_mem _ hx)
    simp only [findSchema] at h
    split at h
    case isFalse hlen =>
      rw [List.find?_cons_of_neg (by simp [hlen])]
      exact findSchema_find? hrest h
    case isTrue hlen =>
      obtain ⟨bytes, hb, h⟩ := Option.bind_eq_some_iff.1 h
      have hiff := urlBytes_eq_name hb hlen (hl _ List.mem_cons_self)
      split at h
      case isTrue hname =>
        cases h
        rw [List.find?_cons_of_pos (by simp [hlen, hiff.1 hname])]
        rfl
      case isFalse hname =>
        rw [List.find?_cons_of_neg (by simp [hlen, mt hiff.2 hname])]
        exact findSchema_find? hrest h

theorem supportedSchema_terminated : ∀ x ∈ supportedSchema, 0 ∉ x.1 := by
  decide

theorem supportedSchema_length : ∀ x ∈ supportedSchema, x.1.length ≤ 5 := by
  decide

theorem takeUrl_wicInit {arg : InitArg} {url : List UInt8} {u v : HttpParserUrl} {b : Bool}
    {inst : Inst} (hon : (!arg.onSend || !arg.onBuffer) = false) (hurl : arg.url = some url)
    (hv : httpParserParseUrl url u = some v) (h : takeUrl arg url v = some (b, inst)) :
    wicInit arg u = if b then some inst else none := by
  obtain ⟨r, hr, h⟩ := Option.bind_eq_some_iff.1 h
  have hfind := findSchema_find? supportedSchema_terminated hr
  simp only [wicInit, initUrl, hon, hurl, hv, Bool.false_eq_true, if_false, Option.bind_eq_bind,
    Option.bind_some]
  cases r with
  | none =>
    cases h
    rw [Option.map_eq_none_iff] at hfind
    rw [hfind]
    rfl
  | some schema =>
    obtain ⟨⟨name, schema'⟩, hfound, rfl⟩ := Option.map_eq_some_iff.1 hfind
    rw [hfound]
    simp only [Option.bind_some]
    simp only at h
    split at h
    case isTrue hlong =>
      cases h
      rw [if_pos hlong]
      rfl
    case isFalse hlong =>
      obtain ⟨host, hhost, h⟩ := Option.map_eq_some_iff.1 h
      obtain ⟨hbytes, hblen⟩ := urlBytes_eq_some hhost
      -- The terminator of the URL counts as one of the zeros that fill the buffer up.
      have hpad : v.text .host url ++ List.replicate (256 - (v.text .host url).length) 0 =
          host ++ List.replicate (256 - host.length) 0 := by
        have htlen := congrArg List.length hbytes
        rw [List.length_append, List.length_replicate] at htlen
        rw [hbytes, List.append_assoc, List.replicate_append_replicate, ← hbytes]
        congr 2
        omega
      rw [if_neg hlong, hpad]
      cases hrole : decide (arg.role ≠ .client) with
      | true =>
        simp only [decide_eq_true_eq] at hrole
        simp only [if_pos hrole] at h ⊢
        cases h
        rfl
      | false =>
        simp only [decide_eq_false_iff_not] at hrole
        simp only [if_neg hrole] at h ⊢
        cases h
        cases schema' <;> rfl

/-- `wicInit` is what `wicInitOn` returns. -/
theorem wicInit_of_wicInitOn {self inst : Inst} {arg : InitArg} {u : HttpParserUrl} {b : Bool}
    (h : wicInitOn self arg u = some (b, inst)) : wicInit arg u = if b then some inst else none := by
  simp only [wicInitOn] at h
  split at h
  case isTrue hon =>
    cases h
    simp [wicInit, hon]
  case isFalse hon =>
    rw [Bool.not_eq_true] at hon
    cases hurl : arg.url with
    | none =>
      rw [hurl] at h
      cases h
      simp [wicInit, hon, hurl]
    | some url =>
      rw [hurl] at h
      cases hv : httpParserParseUrl url u with
      | none =>
        simp only [hv] at h
        cases h
        simp [wicInit, initUrl, hon, hurl, hv]
      | some v =>
        simp only [hv] at h
        exact takeUrl_wicInit hon hurl hv h

/-! ## Two runs -/

/-- The entries hold `uint16_t` values, as those of any memory do. -/
def Fits (u : HttpParserUrl) : Prop :=
  ∀ f, (u.fieldData f).off < 65536 ∧ (u.fieldData f).len < 65536

/-- What `wic_init` returns and leaves of the URL. -/
def outcome (r : Bool × Inst) : Bool × Schema × Nat × List UInt8 × State :=
  (r.1, r.2.schema, r.2.port, r.2.hostname, r.2.state)

namespace InitArg

variable (arg : InitArg)

/-- Two runs of `wic_init` end alike, whatever the instance and the struct held before. -/
def Determined : Prop :=
  ∀ self self' u u', Fits u → Fits u' → ∃ r,
    (wicInitOn self arg u).map outcome = some r ∧ (wicInitOn self' arg u').map outcome = some r

/-- A client that `wic_init` accepts has a URL with a supported schema and a host that fits the
buffer, and holds them and the port of the URL, or that of the schema where the URL has none. -/
def Faithful : Prop :=
  arg.role = .client → ∀ self u inst, Fits u → wicInitOn self arg u = some (true, inst) →
    ∃ url scheme authority, arg.url = some url ∧
      Uri.scheme url = some scheme ∧ Uri.authority url = some authority ∧
      (scheme, inst.schema) ∈ supportedSchema ∧ (Uri.hostName authority).length ≤ 255 ∧
      inst.hostname =
        Uri.hostName authority ++ List.replicate (256 - (Uri.hostName authority).length) 0 ∧
      inst.port = ((Uri.port authority).map Uri.decimal).getD (defaultPort inst.schema)

/-- No 16-bit offset reads the name of a schema from the URL, or reads past its end. -/
def OutOfReach (url : List UInt8) : Prop :=
  65539 ≤ url.length ∧ ∀ off < 65536, ∀ x ∈ supportedSchema, ¬x.1 <+: url.drop off

/-- The URL has a schema, where `wic_init` gets to look at it and accepts its syntax; or nothing of
it can be taken for one. -/
def Named : Prop :=
  arg.onSend → arg.onBuffer → ∀ url v, arg.url = some url → httpParserParseUrl url {} = some v →
    v.fieldSet .schema ∨ OutOfReach url

/-- The entries of the parser do not wrap, where the scheme, of as many letters as 16 bits say, is a
supported one. -/
def Near : Prop :=
  arg.role = .client → arg.onSend → arg.onBuffer → ∀ url scheme authority,
    arg.url = some url → (httpParserParseUrl url {}).isSome →
    Uri.scheme url = some scheme → Uri.authority url = some authority →
    scheme.take (scheme.length % 65536) ∈ supportedSchema.map Prod.fst →
    Http.Unwrapped scheme authority

end InitArg

theorem urlBytes_of_within {url : List UInt8} {v : HttpParserUrl} {f : Http.UrlField}
    (h : (v.fieldData f).off + (v.fieldData f).len ≤ url.length) :
    urlBytes url (v.fieldData f) = some (v.text f url) := by
  have hin : urlBytes url (v.fieldData f) =
      some (((url ++ [0]).drop (v.fieldData f).off).take (v.fieldData f).len) :=
    if_pos (Nat.le_succ_of_le h)
  have hk : (v.fieldData f).len - (url.length - (v.fieldData f).off) = 0 := by omega
  obtain ⟨hbytes, -⟩ := urlBytes_eq_some hin
  rw [hk, List.replicate_zero, List.append_nil] at hbytes
  rw [hin, hbytes]

theorem findSchema_isSome {url : List UInt8} {s : Span} (h : s.off + s.len ≤ url.length + 1) :
    ∀ l, (findSchema url s l).isSome
  | [] => rfl
  | (name, schema) :: l => by
    simp only [findSchema, urlBytes, if_pos h, Option.bind_some]
    have := findSchema_isSome h l
    split
    · split
      · rfl
      · exact this
    · exact this

/-- A span that reads no name in the URL finds no schema. -/
theorem findSchema_none {url : List UInt8} {s : Span} :
    ∀ {l : List (List UInt8 × Schema)}, (∀ x ∈ l, 0 ∉ x.1 ∧ ¬x.1 <+: url.drop s.off) →
      (∀ x ∈ l, s.len = x.1.length → s.off + s.len ≤ url.length + 1) →
      findSchema url s l = some none
  | [], _, _ => rfl
  | (name, schema) :: l, hl, hin => by
    have hrest := findSchema_none (fun x hx => hl x (List.mem_cons_of_mem _ hx))
      (fun x hx => hin x (List.mem_cons_of_mem _ hx))
    simp only [findSchema]
    split
    case isFalse => exact hrest
    case isTrue hlen =>
      obtain ⟨h0, hpre⟩ := hl _ List.mem_cons_self
      have hb : urlBytes url s = some (((url ++ [0]).drop s.off).take s.len) :=
        if_pos (hin _ List.mem_cons_self hlen)
      have hiff := urlBytes_eq_name (v := { fieldData := fun _ => s }) (f := .schema) hb hlen h0
      have hne : ((url ++ [0]).drop s.off).take s.len ≠ name := by
        intro hname
        apply hpre
        rw [← show (url.drop s.off).take s.len = name from hiff.1 hname]
        exact List.take_prefix _ _
      rw [hb, Option.bind_some, if_neg hne]
      exact hrest

variable {arg : InitArg}

theorem takeUrl_onto {url : List UInt8} {v : HttpParserUrl} (u : HttpParserUrl)
    (hs : v.fieldSet .schema) (hh : v.fieldSet .host) :
    takeUrl arg url (v.onto u) = takeUrl arg url v := by
  simp only [takeUrl, HttpParserUrl.onto_fieldData u hs, HttpParserUrl.onto_fieldData u hh,
    HttpParserUrl.onto_fieldSet, HttpParserUrl.onto_port]
  rfl

/-- What `wic_init` makes of a URL that it can read the schema and the host of. -/
theorem takeUrl_cases (arg : InitArg) {url : List UInt8} {v : HttpParserUrl}
    (hs : (v.fieldData .schema).off + (v.fieldData .schema).len ≤ url.length)
    (hh : (v.fieldData .host).off + (v.fieldData .host).len ≤ url.length) :
    ∃ b inst, takeUrl arg url v = some (b, inst) ∧ (b →
      (v.text .schema url, inst.schema) ∈ supportedSchema ∧ (v.text .host url).length ≤ 255 ∧
      inst.hostname = v.text .host url ++ List.replicate (256 - (v.text .host url).length) 0 ∧
      inst.port = if v.fieldSet .port then v.port else defaultPort inst.schema) := by
  obtain ⟨r, hr⟩ := Option.isSome_iff_exists.1
    (findSchema_isSome (Nat.le_succ_of_le hs) supportedSchema)
  have hfind := findSchema_find? supportedSchema_terminated hr
  simp only [takeUrl, hr, Option.bind_some]
  cases r with
  | none => exact ⟨false, {}, rfl, nofun⟩
  | some schema =>
    obtain ⟨⟨name, schema'⟩, hfound, rfl⟩ := Option.map_eq_some_iff.1 hfind
    have hname := List.find?_some hfound
    simp only [Bool.and_eq_true, beq_iff_eq] at hname
    simp only [urlBytes_of_within hh, Option.map_some]
    -- The schema is known: the host has to fit, and the role to be that of a client.
    by_cases hlong : 255 < (v.fieldData .host).len
    · rw [if_pos hlong]
      exact ⟨false, {}, rfl, nofun⟩
    rw [if_neg hlong]
    by_cases hrole : arg.role ≠ .client
    · rw [if_pos hrole]
      exact ⟨false, _, rfl, nofun⟩
    · rw [if_neg hrole]
      refine ⟨true, _, rfl, fun _ => ⟨?_, ?_, rfl, rfl⟩⟩
      · rw [hname.2]
        exact List.mem_of_find?_eq_some hfound
      · exact Nat.le_trans (List.length_take_le _ _) (Nat.le_of_not_lt hlong)

/-- An argument whose URL has a schema gives one result, which is faithful to the URL. -/
theorem InitArg.Named.result (h : arg.Named) :
    ∃ b inst, (∀ self u, Fits u → wicInitOn self arg u = some (b, inst)) ∧ (b →
      ∃ url v, arg.url = some url ∧ httpParserParseUrl url {} = some v ∧
      v.fieldSet .schema ∧ v.fieldSet .host ∧
      (v.text .schema url, inst.schema) ∈ supportedSchema ∧ (v.text .host url).length ≤ 255 ∧
      inst.hostname = v.text .host url ++ List.replicate (256 - (v.text .host url).length) 0 ∧
      inst.port = if v.fieldSet .port then v.port else defaultPort inst.schema) := by
  by_cases hon : !arg.onSend || !arg.onBuffer
  · exact ⟨false, {}, fun self u _ => if_pos hon, nofun⟩
  have hon' : arg.onSend ∧ arg.onBuffer := by simpa using hon
  cases hurl : arg.url with
  | none =>
    refine ⟨false, {}, fun self u _ => ?_, nofun⟩
    simp only [wicInitOn, if_neg hon, hurl]
  | some url =>
    have hw : ∀ self u, wicInitOn self arg u =
        match httpParserParseUrl url u with
        | none => some (false, {})
        | some v => takeUrl arg url v := by
      intro self u
      simp only [wicInitOn, if_neg hon, hurl]
    simp only [hw]
    cases hv : httpParserParseUrl url {} with
    | none =>
      refine ⟨false, {}, fun self u _ => ?_, nofun⟩
      rw [httpParserParseUrl_onto, hv]
      rfl
    | some v =>
      have hover : ∀ u, httpParserParseUrl url u = some (v.onto u) := by
        intro u
        rw [httpParserParseUrl_onto, hv]
        rfl
      simp only [hover]
      -- With a schema all the entries that are read are written by the parser.
      by_cases hs : v.fieldSet .schema
      · have hh : v.fieldSet .host := (httpParserParseUrl_host hv).trans hs
        obtain ⟨b, inst, htake, hfacts⟩ := takeUrl_cases arg
          (httpParserParseUrl_within hv _ trivial hs) (httpParserParseUrl_within hv _ trivial hh)
        refine ⟨b, inst, fun self u _ => ?_, fun hb => ⟨url, v, rfl, hv, hs, hh, hfacts hb⟩⟩
        rw [takeUrl_onto u hs hh, htake]
      -- Without one the entry of the schema is whatever the struct held.
      · obtain ⟨hlong, hout⟩ := (h hon'.1 hon'.2 url v hurl hv).resolve_left hs
        refine ⟨false, {}, fun self u hu => ?_, nofun⟩
        obtain ⟨hoff, -⟩ := hu .schema
        have hnone : findSchema url (u.fieldData .schema) supportedSchema = some none := by
          refine findSchema_none
            (fun x hx => ⟨supportedSchema_terminated x hx, hout _ hoff x hx⟩) fun x hx hlen => ?_
          have : x.1.length ≤ 5 := supportedSchema_length x hx
          omega
        rw [takeUrl, HttpParserUrl.onto_fieldData_of_not u (Bool.not_eq_true _ ▸ hs), hnone]
        rfl

/-- A struct all of whose entries are the same. -/
def uniform (s : Span) : HttpParserUrl := { fieldData := fun _ => s }

theorem fits_uniform {s : Span} (hoff : s.off < 65536) (hlen : s.len < 65536) :
    Fits (uniform s) := fun _ => ⟨hoff, hlen⟩

theorem urlBytes_of_prefix {url name : List UInt8} {off : Nat} (hn : name ≠ [])
    (h : name <+: url.drop off) : urlBytes url ⟨off, name.length⟩ = some name := by
  have hlen := h.length_le
  have hpos := List.length_pos_iff.2 hn
  rw [List.length_drop] at hlen
  rw [List.prefix_iff_eq_take] at h
  have hread : urlBytes url ⟨off, name.length⟩ = some ((url.drop off).take name.length) :=
    urlBytes_of_within (v := uniform ⟨off, name.length⟩) (f := .schema)
      (by simp only [uniform]; omega)
  rw [hread, ← h]

theorem findSchema_of_urlBytes {url : List UInt8} {off : Nat} {x : List UInt8 × Schema}
    (h : urlBytes url ⟨off, x.1.length⟩ = some x.1) :
    ∀ {l : List (List UInt8 × Schema)}, (l.map (·.1.length)).Nodup → x ∈ l →
      findSchema url ⟨off, x.1.length⟩ l = some (some x.2)
  | (name, schema) :: l, hnodup, hx => by
    obtain ⟨hnot, hnodup⟩ := List.nodup_cons.1 hnodup
    simp only [findSchema]
    obtain rfl | hx := List.mem_cons.1 hx
    · rw [if_pos rfl, h, Option.bind_some, if_pos rfl]
    · have hne : x.1.length ≠ name.length := fun hlen =>
        hnot (List.mem_map.2 ⟨x, hx, hlen⟩)
      rw [if_neg hne]
      exact findSchema_of_urlBytes h hnodup hx

theorem findSchema_undefined {url : List UInt8} {s : Span} (h : urlBytes url s = none) :
    ∀ {l : List (List UInt8 × Schema)}, (∃ x ∈ l, s.len = x.1.length) → findSchema url s l = none
  | [], hx => by
    obtain ⟨x, hx, -⟩ := hx
    cases hx
  | (name, schema) :: l, hx => by
    simp only [findSchema, h, Option.bind_none]
    split
    case isTrue => rfl
    case isFalse hlen =>
      obtain ⟨x, hx, hxl⟩ := hx
      obtain rfl | hx := List.mem_cons.1 hx
      · exact absurd hxl hlen
      · exact findSchema_undefined h ⟨x, hx, hxl⟩

/-- A URL without a schema whose struct can read one makes a difference to the struct. -/
theorem not_determined_of_bare {url : List UInt8} {v : HttpParserUrl} (hon : arg.onSend)
    (hon' : arg.onBuffer) (hurl : arg.url = some url) (hv : httpParserParseUrl url {} = some v)
    (hs : v.fieldSet .schema = false) (hout : ¬InitArg.OutOfReach url) : ¬arg.Determined := by
  intro hdet
  have hh : v.fieldSet .host = false := (httpParserParseUrl_host hv).trans hs
  have hw : ∀ s, wicInitOn {} arg (uniform s) = takeUrl arg url (v.onto (uniform s)) := by
    intro s
    simp only [wicInitOn, hon, hon', hurl, httpParserParseUrl_onto (uniform s), hv,
      Option.map_some]
    rfl
  have hwith : ∀ s, ((v.onto (uniform s)).fieldData .schema) = s ∧
      ((v.onto (uniform s)).fieldData .host) = s := fun s =>
    ⟨HttpParserUrl.onto_fieldData_of_not _ hs, HttpParserUrl.onto_fieldData_of_not _ hh⟩
  by_cases hlong : 65539 ≤ url.length
  · obtain ⟨off, hoff, x, hx, hpre⟩ :
        ∃ off < 65536, ∃ x ∈ supportedSchema, x.1 <+: url.drop off := by
      by_contra hno
      exact hout ⟨hlong, fun off hoff x hx hpre => hno ⟨off, hoff, x, hx, hpre⟩⟩
    have hlen := supportedSchema_length x hx
    have hne : ∀ x ∈ supportedSchema, x.1 ≠ [] ∧ x.1.head? ≠ some 0 := by decide
    have hb := urlBytes_of_prefix (hne x hx).1 hpre
    -- One struct reads no schema, the other one reads it and takes it for the host too.
    obtain ⟨r, hr, hr'⟩ := hdet {} {} (uniform ⟨0, 0⟩) (uniform ⟨off, x.1.length⟩)
      (fits_uniform (by decide) (by decide)) (fits_uniform hoff (by simp only; omega))
    have hclear : takeUrl arg url (v.onto (uniform ⟨0, 0⟩)) = some (false, {}) := by
      rw [takeUrl, (hwith _).1]
      rfl
    rw [hw, hclear, Option.map_some, Option.some.injEq] at hr
    subst hr
    simp only [hw, takeUrl, (hwith _).1, (hwith _).2, findSchema_of_urlBytes hb (by decide) hx,
      Option.bind_some, hb, Option.map_some, if_neg (show ¬255 < x.1.length by omega)] at hr'
    have hhost := congrArg (Option.map (·.2.2.2.1.head?)) hr'
    obtain ⟨c, name, hc⟩ := List.exists_cons_of_ne_nil (hne x hx).1
    have hc0 := (hne x hx).2
    rw [hc, List.head?_cons] at hc0
    split at hhost <;> simp only [Option.map_some, outcome, hc, List.cons_append, List.head?_cons]
      at hhost <;> exact hc0 (Option.some.inj hhost)
  · -- The last offset and the longest name go past the end.
    obtain ⟨r, hr, -⟩ := hdet {} {} (uniform ⟨65535, 5⟩) (uniform ⟨65535, 5⟩)
      (fits_uniform (by decide) (by decide)) (fits_uniform (by decide) (by decide))
    have hnone : urlBytes url ⟨65535, 5⟩ = none := if_neg (by simp only; omega)
    have hfind : findSchema url ⟨65535, 5⟩ supportedSchema = none :=
      findSchema_undefined hnone ⟨(ascii "https", .https), by decide, by decide⟩
    rw [hw, takeUrl, (hwith _).1, hfind] at hr
    cases hr

/-- A URL of which `wic_init` sees the schema, and whose entries do not wrap. -/
theorem InitArg.Named.faithful (h : arg.Named) (hnear : arg.Near) : arg.Faithful := by
  obtain ⟨b, inst, hw, hfacts⟩ := h.result
  intro hrole self u inst' hu hi
  have hon : arg.onSend ∧ arg.onBuffer := by
    by_contra hoff
    rw [wicInitOn, if_pos (by simpa [imp_iff_not_or] using hoff)] at hi
    cases hi
  rw [hw self u hu] at hi
  cases hi
  obtain ⟨url, v, hurl, hv, hs, -, hschema, hlen, hhost, hport⟩ := hfacts rfl
  obtain ⟨scheme, authority, hscheme, hauthority, htext, hparts⟩ :=
    Http.httpParserParseUrl_components hv hs
  rw [htext] at hschema
  have hfits := hnear hrole hon.1 hon.2 url scheme authority hurl (hv ▸ rfl) hscheme hauthority
    (List.mem_map_of_mem hschema)
  have hshort : scheme.length < 65536 :=
    Nat.lt_of_le_of_lt (Nat.le_trans (Nat.le_add_right _ _) (Nat.le_add_right _ _)) hfits.host
  rw [Nat.mod_eq_of_lt hshort, List.take_length] at hschema
  obtain ⟨hname, hset, hdigits⟩ := hparts hfits
  rw [hname] at hlen hhost
  refine ⟨url, scheme, authority, hurl, hscheme, hauthority, hschema, hlen, hhost, ?_⟩
  rw [hport, hset]
  cases hp : Uri.port authority with
  | none => rfl
  | some digits => exact hdigits digits hp

/-- What `wic_init` does depends on its argument alone if and only if the URL has a schema where it
gets as far as that. It is faithful to such a URL, too, whose entries do not wrap. -/
theorem wicInitOn_iff (arg : InitArg) :
    (arg.Determined ↔ arg.Named) ∧ (arg.Near → (arg.Determined ∧ arg.Faithful ↔ arg.Named)) := by
  have hnamed : arg.Determined → arg.Named := by
    intro hdet hon hon' url v hurl hv
    by_contra hno
    rw [not_or, Bool.not_eq_true] at hno
    exact not_determined_of_bare hon hon' hurl hv hno.1 hno.2 hdet
  have hdetermined : arg.Named → arg.Determined := by
    intro h self self' u u' hu hu'
    obtain ⟨b, inst, hw, -⟩ := h.result
    exact ⟨outcome (b, inst), by rw [hw self u hu]; rfl, by rw [hw self' u' hu']; rfl⟩
  exact ⟨⟨hnamed, hdetermined⟩, fun hnear =>
    ⟨fun h => hnamed h.1, fun h => ⟨hdetermined h, h.faithful hnear⟩⟩⟩

/-- The argument of a client for `"/ws"`. -/
def Sample.bareArg : InitArg :=
  { rx := [], rxMax := 0, rxMax_le := Nat.le_refl 0, url := some (ascii "/ws") }

/-- Whether `wic_init` accepts `"/ws"` depends on the struct: it may hold the offset and length of
`"ws"` as those of a schema. -/
theorem Sample.bare_not_determined :
    ((wicInitOn {} bareArg {}).map fun r => (r.1, r.2.schema)) = some (false, .http) ∧
      ((wicInitOn {} bareArg (uniform ⟨1, 2⟩)).map fun r => (r.1, r.2.schema)) =
        some (true, .ws) ∧
      ¬(bareArg.Determined ∧ bareArg.Faithful) := by
  have h₁ : ((wicInitOn {} bareArg {}).map fun r => (r.1, r.2.schema)) = some (false, .http) := by
    decide +kernel
  have h₂ : ((wicInitOn {} bareArg (uniform ⟨1, 2⟩)).map fun r => (r.1, r.2.schema)) =
      some (true, .ws) := by
    decide +kernel
  refine ⟨h₁, h₂, fun h => ?_⟩
  obtain ⟨r, hr, hr'⟩ := h.1 {} {} {} (uniform ⟨1, 2⟩)
    (fits_uniform (by decide) (by decide)) (fits_uniform (by decide) (by decide))
  have hb := congrArg (Option.map Prod.fst) (hr.trans hr'.symm)
  rw [Option.map_map, Option.map_map] at hb
  have hb₁ := congrArg (Option.map Prod.fst) h₁
  have hb₂ := congrArg (Option.map Prod.fst) h₂
  rw [Option.map_map] at hb₁ hb₂
  cases hb₁.symm.trans (hb.trans hb₂)

end Wic
