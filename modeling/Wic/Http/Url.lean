import Wic.Http.Chars

/-!
# The URL parser

`http_parser_parse_url` and the two character machines under it. The struct it fills is an
argument as well as a result: the parser leaves the offset and length of a component that the URL
does not have as they were.

## Main definitions

* `HttpParserUrl`: `struct http_parser_url`
* `parseUrlChar`, `httpParseHostChar`: the character machines
* `httpParserParseUrl`: the parser, which fails with `none`
-/

namespace Wic.Http

/-- `enum http_parser_url_fields` -/
inductive UrlField
  | schema | host | port | path | query | fragment | userinfo
  deriving DecidableEq, Repr

/-- An entry of `field_data`: two `uint16_t`. -/
structure Span where
  off : Nat := 0
  len : Nat := 0
  deriving DecidableEq, Repr

/-- `struct http_parser_url` -/
structure HttpParserUrl where
  fieldSet : UrlField → Bool := fun _ => false
  port : Nat := 0
  fieldData : UrlField → Span := fun _ => {}

/-- The struct with the entry of one field replaced. -/
def HttpParserUrl.setSpan (u : HttpParserUrl) (f : UrlField) (s : Span) : HttpParserUrl :=
  { u with fieldData := fun g => if g = f then s else u.fieldData g }

/-- `u->field_set |= (1 << f)` -/
def HttpParserUrl.mark (u : HttpParserUrl) (f : UrlField) : HttpParserUrl :=
  { u with fieldSet := fun g => if g = f then true else u.fieldSet g }

/-- `u->field_data[f].len++` -/
def HttpParserUrl.grow (u : HttpParserUrl) (f : UrlField) : HttpParserUrl :=
  u.setSpan f { u.fieldData f with len := ((u.fieldData f).len + 1) % 65536 }

/-- The component starts at offset `p`: a new entry and its bit. -/
def HttpParserUrl.start (u : HttpParserUrl) (f : UrlField) (p len : Nat) : HttpParserUrl :=
  (u.setSpan f ⟨p % 65536, len⟩).mark f

/-- `enum state`, the states `parse_url_char` moves between. -/
inductive UrlState
  | dead | reqSpacesBeforeUrl | reqSchema | reqSchemaSlash | reqSchemaSlashSlash
  | reqServerStart | reqServer | reqServerWithAt | reqPath | reqQueryStringStart
  | reqQueryString | reqFragmentStart | reqFragment
  deriving DecidableEq, Repr

/-- `parse_url_char` -/
def parseUrlChar (s : UrlState) (ch : UInt8) : UrlState :=
  if ch = chr ' ' || ch = cr || ch = lf || ch = 9 || ch = 12 then .dead
  else match s with
  | .reqSpacesBeforeUrl =>
    if ch = chr '/' || ch = chr '*' then .reqPath
    else if isAlpha ch then .reqSchema
    else .dead
  | .reqSchema =>
    if isAlpha ch then s
    else if ch = chr ':' then .reqSchemaSlash
    else .dead
  | .reqSchemaSlash => if ch = chr '/' then .reqSchemaSlashSlash else .dead
  | .reqSchemaSlashSlash => if ch = chr '/' then .reqServerStart else .dead
  | .reqServerWithAt | .reqServerStart | .reqServer =>
    if s = .reqServerWithAt && ch = chr '@' then .dead
    else if ch = chr '/' then .reqPath
    else if ch = chr '?' then .reqQueryStringStart
    else if ch = chr '@' then .reqServerWithAt
    else if isUserinfoChar ch || ch = chr '[' || ch = chr ']' then .reqServer
    else .dead
  | .reqPath =>
    if isUrlChar ch then s
    else if ch = chr '?' then .reqQueryStringStart
    else if ch = chr '#' then .reqFragmentStart
    else .dead
  | .reqQueryStringStart | .reqQueryString =>
    if isUrlChar ch then .reqQueryString
    else if ch = chr '?' then .reqQueryString
    else if ch = chr '#' then .reqFragmentStart
    else .dead
  | .reqFragmentStart =>
    if isUrlChar ch then .reqFragment
    else if ch = chr '?' then .reqFragment
    else if ch = chr '#' then s
    else .dead
  | .reqFragment =>
    if isUrlChar ch then s
    else if ch = chr '?' || ch = chr '#' then s
    else .dead
  | .dead => .dead

/-- `enum http_host_state` -/
inductive HostState
  | dead | userinfoStart | userinfo | hostStart | hostV6Start | host | hostV6 | hostV6End
  | hostV6ZoneStart | hostV6Zone | hostPortStart | hostPort
  deriving DecidableEq, Repr

/-- `http_parse_host_char` -/
def httpParseHostChar (s : HostState) (ch : UInt8) : HostState :=
  match s with
  | .userinfo | .userinfoStart =>
    if ch = chr '@' then .hostStart
    else if isUserinfoChar ch then .userinfo
    else .dead
  | .hostStart =>
    if ch = chr '[' then .hostV6Start
    else if isHostChar ch then .host
    else .dead
  | .host =>
    if isHostChar ch then .host
    else if ch = chr ':' then .hostPortStart
    else .dead
  | .hostV6End => if ch = chr ':' then .hostPortStart else .dead
  | .hostV6 | .hostV6Start =>
    if s = .hostV6 && ch = chr ']' then .hostV6End
    else if isHex ch || ch = chr ':' || ch = chr '.' then .hostV6
    else if s = .hostV6 && ch = chr '%' then .hostV6ZoneStart
    else .dead
  | .hostV6Zone | .hostV6ZoneStart =>
    if s = .hostV6Zone && ch = chr ']' then .hostV6End
    else if isAlphanum ch || (ascii "%.-_~").contains ch then .hostV6Zone
    else .dead
  | .hostPort | .hostPortStart => if isNum ch then .hostPort else .dead
  | .dead => .dead

/-- The loop of `http_parse_host` over the bytes of the authority, the first at offset `p`. -/
def httpParseHostLoop : List UInt8 → Nat → HostState → HttpParserUrl →
    Option (HostState × HttpParserUrl)
  | [], _, s, u => some (s, u)
  | ch :: rest, p, s, u =>
    let new := httpParseHostChar s ch
    let moved (f : UrlField) (u : HttpParserUrl) : HttpParserUrl :=
      if s = new then u else u.setSpan f { u.fieldData f with off := p % 65536 }
    match new with
    | .dead => none
    | .host | .hostV6 => httpParseHostLoop rest (p + 1) new ((moved .host u).grow .host)
    | .hostV6ZoneStart | .hostV6Zone => httpParseHostLoop rest (p + 1) new (u.grow .host)
    | .hostPort =>
      httpParseHostLoop rest (p + 1) new ((if s = new then u else u.start .port p 0).grow .port)
    | .userinfo =>
      httpParseHostLoop rest (p + 1) new
        ((if s = new then u else u.start .userinfo p 0).grow .userinfo)
    | _ => httpParseHostLoop rest (p + 1) new u

/-- `http_parse_host` -/
def httpParseHost (buf : List UInt8) (u : HttpParserUrl) (foundAt : Bool) :
    Option HttpParserUrl :=
  let off := (u.fieldData .host).off
  let len := (u.fieldData .host).len
  let u := u.setSpan .host ⟨off, 0⟩
  let s := if foundAt then .userinfoStart else .hostStart
  match httpParseHostLoop ((buf.drop off).take len) off s u with
  | none => none
  | some (.hostStart, _) | some (.hostV6Start, _) | some (.hostV6, _)
  | some (.hostV6ZoneStart, _) | some (.hostV6Zone, _) | some (.hostPortStart, _)
  | some (.userinfo, _) | some (.userinfoStart, _) => none
  | some (_, u) => some u

/-- The component a character belongs to once the machine is in state `s`; `none` for the
delimiters. -/
def UrlState.field : UrlState → Option UrlField
  | .reqSchema => some .schema
  | .reqServerWithAt | .reqServer => some .host
  | .reqPath => some .path
  | .reqQueryString => some .query
  | .reqFragment => some .fragment
  | _ => none

/-- The loop of `http_parser_parse_url`, the next byte at offset `p`. -/
def httpParserParseUrlLoop : List UInt8 → Nat → UrlState → Option UrlField → Bool →
    HttpParserUrl → Option (Bool × HttpParserUrl)
  | [], _, _, _, foundAt, u => some (foundAt, u)
  | ch :: rest, p, s, old, foundAt, u =>
    let s := parseUrlChar s ch
    if s = .dead || s = .reqSpacesBeforeUrl then none
    else
      let foundAt := foundAt || s = .reqServerWithAt
      match s.field with
      | none => httpParserParseUrlLoop rest (p + 1) s old foundAt u
      | some f =>
        if old = some f then httpParserParseUrlLoop rest (p + 1) s old foundAt (u.grow f)
        else httpParserParseUrlLoop rest (p + 1) s (some f) foundAt (u.start f p 1)

/-- The value of the port digits; `none` above `0xffff`, where an `unsigned long` that falls below
zero is too. -/
def portValue : List UInt8 → Nat → Option Nat
  | [], v => some v
  | ch :: rest, v =>
    if v * 10 + ch.toNat < (chr '0').toNat then none
    else
      let v := v * 10 + ch.toNat - (chr '0').toNat
      if 0xffff < v then none else portValue rest v

/-- `http_parser_parse_url` with `is_connect` zero, on the struct `u`. -/
def httpParserParseUrl (buf : List UInt8) (u : HttpParserUrl) : Option HttpParserUrl :=
  if buf.length = 0 then none
  else
    let u := { u with port := 0, fieldSet := fun _ => false }
    match httpParserParseUrlLoop buf 0 .reqSpacesBeforeUrl none false u with
    | none => none
    | some (foundAt, u) =>
      if u.fieldSet .schema && !u.fieldSet .host then none
      else
        match (if u.fieldSet .host then httpParseHost buf u foundAt else some u) with
        | none => none
        | some u =>
          if u.fieldSet .port then
            let s := u.fieldData .port
            (portValue ((buf.drop s.off).take s.len) 0).map fun v => { u with port := v }
          else some u

/-- The bytes of the component `f` of the URL `buf`. -/
def HttpParserUrl.text (u : HttpParserUrl) (f : UrlField) (buf : List UInt8) : List UInt8 :=
  (buf.drop (u.fieldData f).off).take (u.fieldData f).len

end Wic.Http
