import Wic.Http.Chars

/-!
# The response parser

`http_parser_execute` of `http_parser.c` for a parser of type `HTTP_RESPONSE`, the only type a
client instance sets up. One call of `step` is one pass of the source through its `switch`: it
reads one byte and says which callback the source makes and where it goes next. The two inner
loops of the source (over the bytes of a field and of a value) are passes too; `Locals.run` counts
the bytes they have moved over, which the source counts only when the loop ends.

## Main definitions

* `State`, `HeaderState`, `Errno`, `HttpParser`: the data of `struct http_parser`
* `Locals`: the locals of `http_parser_execute`
* `step`: one byte
* `HttpParser.atEof`: a call of length zero
-/

namespace Wic.Http

/-- `enum state`, the states a response parser enters. -/
inductive State
  | dead | startRes | resH | resHT | resHTT | resHTTP | resHttpMajor | resHttpDot | resHttpMinor
  | resHttpEnd | resFirstStatusCode | resStatusCode | resStatusStart | resStatus
  | resLineAlmostDone | headerFieldStart | headerField | headerValueDiscardWs
  | headerValueDiscardWsAlmostDone | headerValueDiscardLws | headerValueStart | headerValue
  | headerValueLws | headerAlmostDone | chunkSizeStart | chunkSize | chunkParameters
  | chunkSizeAlmostDone | headersAlmostDone | headersDone | chunkData | chunkDataAlmostDone
  | chunkDataDone | bodyIdentity | bodyIdentityEof | messageDone
  deriving DecidableEq, Repr

/-- `PARSING_HEADER(state)` -/
def State.parsingHeader : State → Bool
  | .chunkData | .chunkDataAlmostDone | .chunkDataDone | .bodyIdentity | .bodyIdentityEof
  | .messageDone => false
  | _ => true

/-- `enum header_states` -/
inductive HeaderState
  | general | c | co | con | matchingConnection | matchingProxyConnection
  | matchingContentLength | matchingTransferEncoding | matchingUpgrade | connection
  | contentLength | contentLengthNum | contentLengthWs | transferEncoding | upgrade
  | matchingTransferEncodingTokenStart | matchingTransferEncodingChunked
  | matchingTransferEncodingToken | matchingConnectionTokenStart | matchingConnectionKeepAlive
  | matchingConnectionClose | matchingConnectionUpgrade | matchingConnectionToken
  | transferEncodingChunked | connectionKeepAlive | connectionClose | connectionUpgrade
  deriving DecidableEq, Repr

/-- `enum http_errno`, the codes a response parser sets. -/
inductive Errno
  | ok | cbHeaderField | cbHeaderValue | cbMessageComplete | invalidEofState | headerOverflow
  | closedConnection | invalidVersion | invalidStatus | lfExpected | invalidHeaderToken
  | invalidContentLength | unexpectedContentLength | invalidChunkSize | invalidConstant
  | invalidInternalState | strict
  deriving DecidableEq, Repr

/-- `enum flags` and the transfer-encoding bit of `extra_flags`. -/
structure Flags where
  chunked : Bool := false
  connectionKeepAlive : Bool := false
  connectionClose : Bool := false
  connectionUpgrade : Bool := false
  trailing : Bool := false
  upgrade : Bool := false
  skipBody : Bool := false
  contentLength : Bool := false
  transferEncoding : Bool := false
  deriving DecidableEq, Repr

/-- `ULLONG_MAX` -/
def ullongMax : Nat := 2 ^ 64 - 1

/-- `HTTP_MAX_HEADER_SIZE` -/
def maxHeaderSize : Nat := 80 * 1024

/-- `struct http_parser` as `http_parser_init` leaves it for `HTTP_RESPONSE`. -/
structure HttpParser where
  flags : Flags := {}
  state : State := .startRes
  headerState : HeaderState := .general
  index : Nat := 0
  nread : Nat := 0
  contentLength : Nat := 0
  httpMajor : Nat := 0
  httpMinor : Nat := 0
  statusCode : Nat := 0
  httpErrno : Errno := .ok
  upgrade : Bool := false
  deriving DecidableEq, Repr

/-- The callbacks of `http_parser_settings` that `wic_parse` sets, with their bytes. -/
inductive Callback
  | headerField (bytes : List UInt8)
  | headerValue (bytes : List UInt8)
  | messageComplete
  deriving DecidableEq, Repr

/-- The error of a callback that returns nonzero. -/
def Callback.errno : Callback → Errno
  | .headerField _ => .cbHeaderField
  | .headerValue _ => .cbHeaderValue
  | .messageComplete => .cbMessageComplete

/-- The locals of `http_parser_execute` that outlive one byte. A mark is the offset it points at.
`run` is `p - start` inside the inner loop over a field or a value. -/
structure Locals where
  fieldMark : Option Nat := none
  valueMark : Option Nat := none
  run : Option Nat := none
  deriving DecidableEq, Repr

/-- Where control goes after a byte: to the next byte, to `reexecute` with the same byte, to
`error`, or out of the function with the byte counted. -/
inductive Next
  | advance
  | reexecute
  | error (e : Errno)
  | return
  deriving DecidableEq, Repr

/-- What one pass does: the parser and the locals, the callback it makes before it goes on, and
where it goes on. -/
structure Pass where
  parser : HttpParser
  locals : Locals
  call : Option Callback := none
  next : Next := .advance
  deriving DecidableEq, Repr

/-- `http_message_needs_eof` -/
def HttpParser.messageNeedsEof (p : HttpParser) : Bool :=
  if p.statusCode / 100 = 1 || p.statusCode = 204 || p.statusCode = 304 || p.flags.skipBody then
    false
  else if p.flags.transferEncoding && !p.flags.chunked then true
  else if p.flags.chunked || p.contentLength ≠ ullongMax then false
  else true

/-- `http_should_keep_alive` -/
def HttpParser.shouldKeepAlive (p : HttpParser) : Bool :=
  if 0 < p.httpMajor && 0 < p.httpMinor then
    if p.flags.connectionClose then false else !p.messageNeedsEof
  else if !p.flags.connectionKeepAlive then false
  else !p.messageNeedsEof

/-- `NEW_MESSAGE()` -/
def HttpParser.newMessage (p : HttpParser) : State :=
  if p.shouldKeepAlive then .startRes else .dead

/-- The flag a header value sets when it ends in this header state. -/
def Flags.finish (f : Flags) : HeaderState → Flags
  | .connectionKeepAlive => { f with connectionKeepAlive := true }
  | .connectionClose => { f with connectionClose := true }
  | .transferEncodingChunked => { f with chunked := true }
  | .connectionUpgrade => { f with connectionUpgrade := true }
  | _ => f

/-- The character of a matched word at `index`, with the terminator after its last. -/
def wordAt (word : List UInt8) (index : Nat) : UInt8 := word.getD index 0

/-- One step of matching `word`: on to `done` at its last character, to `fail` off the word. -/
def HttpParser.matchWord (p : HttpParser) (word : List UInt8) (c : UInt8)
    (done fail : HeaderState) : HttpParser :=
  let index := (p.index + 1) % 32
  let p := { p with index }
  if word.length < index || c ≠ wordAt word index then { p with headerState := fail }
  else if index = word.length - 1 then { p with headerState := done }
  else p

/-- `header_state` after the token character `ch` of a field name. -/
def HttpParser.fieldChar (p : HttpParser) (ch : UInt8) : HttpParser :=
  let c := token ch
  match p.headerState with
  | .c =>
    { p with index := (p.index + 1) % 32, headerState := if c = chr 'o' then .co else .general }
  | .co =>
    { p with index := (p.index + 1) % 32, headerState := if c = chr 'n' then .con else .general }
  | .con =>
    { p with
      index := (p.index + 1) % 32
      headerState :=
        if c = chr 'n' then .matchingConnection
        else if c = chr 't' then .matchingContentLength
        else .general }
  | .matchingConnection => p.matchWord (ascii "connection") c .connection .general
  | .matchingProxyConnection => p.matchWord (ascii "proxy-connection") c .connection .general
  | .matchingContentLength => p.matchWord (ascii "content-length") c .contentLength .general
  | .matchingTransferEncoding =>
    let p := p.matchWord (ascii "transfer-encoding") c .transferEncoding .general
    if p.headerState = .transferEncoding then
      { p with flags := { p.flags with transferEncoding := true } }
    else p
  | .matchingUpgrade => p.matchWord (ascii "upgrade") c .upgrade .general
  | .connection | .contentLength | .transferEncoding | .upgrade =>
    if ch ≠ chr ' ' then { p with headerState := .general } else p
  | _ => p

/-- `header_state` after the first character of a value; the error of a malformed
`Content-Length`. -/
def HttpParser.valueStart (p : HttpParser) (ch : UInt8) : Except Errno HttpParser :=
  let c := lower ch
  match p.headerState with
  | .upgrade =>
    .ok { p with flags := { p.flags with upgrade := true }, headerState := .general }
  | .transferEncoding =>
    .ok { p with
      headerState :=
        if c = chr 'c' then .matchingTransferEncodingChunked else .matchingTransferEncodingToken }
  | .matchingTransferEncodingTokenStart => .ok p
  | .contentLength =>
    if !isNum ch then .error .invalidContentLength
    else if p.flags.contentLength then .error .unexpectedContentLength
    else
      .ok { p with
        flags := { p.flags with contentLength := true }
        contentLength := ch.toNat - (chr '0').toNat
        headerState := .contentLengthNum }
  | .contentLengthWs => .ok p
  | .connection =>
    .ok { p with
      headerState :=
        if c = chr 'k' then .matchingConnectionKeepAlive
        else if c = chr 'c' then .matchingConnectionClose
        else if c = chr 'u' then .matchingConnectionUpgrade
        else .matchingConnectionToken }
  | .matchingConnectionTokenStart => .ok p
  | _ => .ok { p with headerState := .general }

/-- One more digit of `content_length` in base `b`; `none` past the conservative limit. -/
def HttpParser.digit (p : HttpParser) (b d : Nat) : Option HttpParser :=
  if (ullongMax - b) / b < p.contentLength then none
  else some { p with contentLength := (p.contentLength * b + d) % 2 ^ 64 }

/-- `header_state` after a further character of a value, which is neither `CR` nor `LF`. -/
def HttpParser.valueChar (p : HttpParser) (ch : UInt8) : Except Errno HttpParser :=
  let c := lower ch
  match p.headerState with
  | .contentLength =>
    if ch = chr ' ' then .ok p else number { p with headerState := .contentLengthNum }
  | .contentLengthNum => number p
  | .contentLengthWs => if ch = chr ' ' then .ok p else .error .invalidContentLength
  | .matchingTransferEncodingTokenStart =>
    .ok (if c = chr 'c' then { p with headerState := .matchingTransferEncodingChunked }
      else if token c ≠ 0 then { p with headerState := .matchingTransferEncodingToken }
      else if c = chr ' ' || c = 9 then p
      else { p with headerState := .general })
  | .matchingTransferEncodingChunked =>
    .ok (p.matchWord (ascii "chunked") c .transferEncodingChunked .matchingTransferEncodingToken)
  | .matchingTransferEncodingToken =>
    .ok (if ch = chr ',' then
      { p with headerState := .matchingTransferEncodingTokenStart, index := 0 } else p)
  | .matchingConnectionTokenStart =>
    .ok (if c = chr 'k' then { p with headerState := .matchingConnectionKeepAlive }
      else if c = chr 'c' then { p with headerState := .matchingConnectionClose }
      else if c = chr 'u' then { p with headerState := .matchingConnectionUpgrade }
      else if token c ≠ 0 then { p with headerState := .matchingConnectionToken }
      else if c = chr ' ' || c = 9 then p
      else { p with headerState := .general })
  | .matchingConnectionKeepAlive =>
    .ok (p.matchWord (ascii "keep-alive") c .connectionKeepAlive .matchingConnectionToken)
  | .matchingConnectionClose =>
    .ok (p.matchWord (ascii "close") c .connectionClose .matchingConnectionToken)
  | .matchingConnectionUpgrade =>
    .ok (p.matchWord (ascii "upgrade") c .connectionUpgrade .matchingConnectionToken)
  | .matchingConnectionToken =>
    .ok (if ch = chr ',' then
      { p with headerState := .matchingConnectionTokenStart, index := 0 } else p)
  | .transferEncodingChunked =>
    .ok (if ch ≠ chr ' ' then { p with headerState := .matchingTransferEncodingToken } else p)
  | .connection | .transferEncoding => .ok p
  | .connectionKeepAlive | .connectionClose | .connectionUpgrade =>
    .ok (if ch = chr ',' then
        { p with
          flags := p.flags.finish p.headerState
          headerState := .matchingConnectionTokenStart
          index := 0 }
      else if ch ≠ chr ' ' then { p with headerState := .matchingConnectionToken }
      else p)
  | _ => .ok { p with headerState := .general }
where
  number (p : HttpParser) : Except Errno HttpParser :=
    if ch = chr ' ' then .ok { p with headerState := .contentLengthWs }
    else if !isNum ch then .error .invalidContentLength
    else match p.digit 10 (ch.toNat - (chr '0').toNat) with
      | some p => .ok p
      | none => .error .invalidContentLength

/-- `COUNT_HEADER_SIZE(V)`: the count, and whether it is still in bounds. -/
def HttpParser.countHeaderSize (p : HttpParser) (v : Nat) : HttpParser × Bool :=
  let p := { p with nread := (p.nread + v) % 2 ^ 32 }
  (p, p.nread ≤ maxHeaderSize)

section Step

variable (data : List UInt8) (p : HttpParser) (x : Locals) (pos : Nat) (ch : UInt8)

/-- The bytes between a mark and `upto`. -/
def marked (mark upto : Nat) : List UInt8 := (data.drop mark).take (upto - mark)

/-- Go on to state `s` with the next byte. -/
def Pass.goto (s : State) : Pass := { parser := { p with state := s }, locals := x }

/-- `SET_ERRNO(e); goto error` -/
def Pass.fail (e : Errno) : Pass := { parser := p, locals := x, next := .error e }

/-- `UPDATE_STATE(s)` when the byte is `c`, else `SET_ERRNO(e); goto error`. -/
def Pass.expect (c : UInt8) (s : State) (e : Errno) : Pass :=
  if ch = c then .goto p x s else .fail p x e

/-- `CALLBACK_DATA(header_field)` up to the byte at `upto`, then on to state `s`. -/
def Pass.field (s : State) (upto : Nat) : Pass :=
  { parser := { p with state := s }
    locals := { x with fieldMark := none }
    call := x.fieldMark.map fun m => .headerField (marked data m upto) }

/-- `CALLBACK_DATA(header_value)` up to the byte at `upto`, then on to state `s` by `next`. -/
def Pass.value (s : State) (upto : Nat) (next : Next) : Pass :=
  { parser := { p with state := s }
    locals := { x with valueMark := none }
    call := x.valueMark.map fun m => .headerValue (marked data m upto)
    next }

/-- `UPDATE_STATE(NEW_MESSAGE()); CALLBACK_NOTIFY(message_complete)` -/
def Pass.complete (next : Next) : Pass :=
  { parser := { p with state := p.newMessage }, locals := x, call := some .messageComplete, next }

/-- The case `s_header_field_start`. -/
def headerFieldStart : Pass :=
  if ch = cr then .goto p x .headersAlmostDone
  else if ch = lf then { Pass.goto p x .headersAlmostDone with next := .reexecute }
  else
    let c := token ch
    if c = 0 then .fail p x .invalidHeaderToken
    else
      let headerState : HeaderState :=
        if c = chr 'c' then .c
        else if c = chr 'p' then .matchingProxyConnection
        else if c = chr 't' then .matchingTransferEncoding
        else if c = chr 'u' then .matchingUpgrade
        else .general
      .goto { p with index := 0, headerState } { x with fieldMark := x.fieldMark <|> some pos }
        .headerField

/-- The case `s_header_field`: one byte of its inner loop. -/
def headerField : Pass :=
  let run := x.run.getD 0
  if token ch ≠ 0 then
    { parser := p.fieldChar ch, locals := { x with run := some (run + 1) } }
  else
    let x := { x with run := none }
    match p.countHeaderSize run with
    | (p, false) => .fail p x .headerOverflow
    | (p, true) =>
      if ch = chr ':' then .field data p x .headerValueDiscardWs pos
      else .fail p x .invalidHeaderToken

/-- The case `s_header_value_start`. -/
def headerValueStart : Pass :=
  match { p with index := 0 }.valueStart ch with
  | .error e => .fail p x e
  | .ok p => .goto p { x with valueMark := x.valueMark <|> some pos } .headerValue

/-- The case `s_header_value_discard_ws`, which falls through to `s_header_value_start`. -/
def headerValueDiscardWs : Pass :=
  if ch = chr ' ' || ch = 9 then { parser := p, locals := x }
  else if ch = cr then .goto p x .headerValueDiscardWsAlmostDone
  else if ch = lf then .goto p x .headerValueDiscardLws
  else headerValueStart p x pos ch

/-- The case `s_header_value`: one byte of its inner loop. -/
def headerValue : Pass :=
  let run := x.run.getD 0
  if ch = cr then
    let pass := Pass.value data p { x with run := none } .headerAlmostDone pos .advance
    match pass.parser.countHeaderSize run with
    | (p, true) => { pass with parser := p }
    | (p, false) => { pass with parser := p, next := .error .headerOverflow }
  else if ch = lf then
    let x := { x with run := none }
    match p.countHeaderSize run with
    | (p, true) => .value data p x .headerAlmostDone pos .reexecute
    | (p, false) => .fail p x .headerOverflow
  else if !isHeaderChar ch then .fail p x .invalidHeaderToken
  else match p.valueChar ch with
    | .error e => .fail p x e
    | .ok p => { parser := p, locals := { x with run := some (run + 1) } }

/-- The case `s_header_value_lws`. -/
def headerValueLws : Pass :=
  if ch = chr ' ' || ch = 9 then
    let p := if p.headerState = .contentLengthNum then { p with headerState := .contentLengthWs }
      else p
    { Pass.goto p x .headerValueStart with next := .reexecute }
  else
    { Pass.goto { p with flags := p.flags.finish p.headerState } x .headerFieldStart with
      next := .reexecute }

/-- The case `s_header_value_discard_lws`. -/
def headerValueDiscardLws : Pass :=
  if ch = chr ' ' || ch = 9 then .goto p x .headerValueDiscardWs
  else if p.headerState = .contentLength then .fail p x .invalidContentLength
  else
    .value data { p with flags := p.flags.finish p.headerState }
      { x with valueMark := x.valueMark <|> some pos } .headerFieldStart pos .reexecute

/-- The case `s_headers_almost_done`. -/
def headersAlmostDone : Pass :=
  if ch ≠ lf then .fail p x .strict
  else if p.flags.trailing then { Pass.goto p x .messageDone with next := .reexecute }
  else if p.flags.transferEncoding && p.flags.contentLength then
    .fail p x .unexpectedContentLength
  else
    let upgrade := p.flags.upgrade && p.flags.connectionUpgrade && p.statusCode = 101
    { Pass.goto { p with upgrade } x .headersDone with next := .reexecute }

/-- The case `s_headers_done`. -/
def headersDone : Pass :=
  if ch ≠ lf then .fail p x .strict
  else
    let p := { p with nread := 0 }
    let hasBody := p.flags.chunked || (0 < p.contentLength && p.contentLength ≠ ullongMax)
    if p.upgrade && (p.flags.skipBody || !hasBody) then .complete p x .return
    else if p.flags.skipBody then .complete p x .advance
    else if p.flags.chunked then .goto p x .chunkSizeStart
    else if p.flags.transferEncoding then .goto p x .bodyIdentityEof
    else if p.contentLength = 0 then .complete p x .advance
    else if p.contentLength ≠ ullongMax then .goto p x .bodyIdentity
    else if !p.messageNeedsEof then .complete p x .advance
    else .goto p x .bodyIdentityEof

/-- The case `s_chunk_size`. -/
def chunkSize : Pass :=
  if ch = cr then .goto p x .chunkSizeAlmostDone
  else match unhex ch with
    | none =>
      if ch = chr ';' || ch = chr ' ' then .goto p x .chunkParameters
      else .fail p x .invalidChunkSize
    | some d =>
      match p.digit 16 d with
      | none => .fail p x .invalidContentLength
      | some p => { parser := p, locals := x }

/-- The `switch` of `http_parser_execute` on the byte `ch` at offset `pos`. -/
def step : Pass :=
  match p.state with
  | .dead => if ch = cr || ch = lf then { parser := p, locals := x }
    else .fail p x .closedConnection
  | .startRes =>
    if ch = cr || ch = lf then { parser := p, locals := x }
    else
      let p := { p with flags := {}, contentLength := ullongMax }
      if ch = chr 'H' then .goto p x .resH else .fail p x .invalidConstant
  | .resH => .expect p x ch (chr 'T') .resHT .strict
  | .resHT => .expect p x ch (chr 'T') .resHTT .strict
  | .resHTT => .expect p x ch (chr 'P') .resHTTP .strict
  | .resHTTP => .expect p x ch (chr '/') .resHttpMajor .strict
  | .resHttpMajor =>
    if isNum ch then .goto { p with httpMajor := ch.toNat - (chr '0').toNat } x .resHttpDot
    else .fail p x .invalidVersion
  | .resHttpDot => .expect p x ch (chr '.') .resHttpMinor .invalidVersion
  | .resHttpMinor =>
    if isNum ch then .goto { p with httpMinor := ch.toNat - (chr '0').toNat } x .resHttpEnd
    else .fail p x .invalidVersion
  | .resHttpEnd => .expect p x ch (chr ' ') .resFirstStatusCode .invalidVersion
  | .resFirstStatusCode =>
    if isNum ch then .goto { p with statusCode := ch.toNat - (chr '0').toNat } x .resStatusCode
    else if ch = chr ' ' then { parser := p, locals := x }
    else .fail p x .invalidStatus
  | .resStatusCode =>
    if isNum ch then
      let p := { p with statusCode := p.statusCode * 10 + (ch.toNat - (chr '0').toNat) }
      if 999 < p.statusCode then .fail p x .invalidStatus else { parser := p, locals := x }
    else if ch = chr ' ' then .goto p x .resStatusStart
    else if ch = cr || ch = lf then { Pass.goto p x .resStatusStart with next := .reexecute }
    else .fail p x .invalidStatus
  | .resStatusStart =>
    let next := if ch = cr || ch = lf then .reexecute else .advance
    { Pass.goto { p with index := 0 } x .resStatus with next }
  | .resStatus =>
    if ch = cr then .goto p x .resLineAlmostDone
    else if ch = lf then .goto p x .headerFieldStart
    else { parser := p, locals := x }
  | .resLineAlmostDone => .expect p x ch lf .headerFieldStart .strict
  | .headerFieldStart => headerFieldStart p x pos ch
  | .headerField => headerField data p x pos ch
  | .headerValueDiscardWs => headerValueDiscardWs p x pos ch
  | .headerValueStart => headerValueStart p x pos ch
  | .headerValue => headerValue data p x pos ch
  | .headerAlmostDone => .expect p x ch lf .headerValueLws .lfExpected
  | .headerValueLws => headerValueLws p x ch
  | .headerValueDiscardWsAlmostDone => .expect p x ch lf .headerValueDiscardLws .strict
  | .headerValueDiscardLws => headerValueDiscardLws data p x pos ch
  | .headersAlmostDone => headersAlmostDone p x ch
  | .headersDone => headersDone p x ch
  | .bodyIdentity =>
    let p := { p with contentLength := p.contentLength - 1 }
    if p.contentLength = 0 then { Pass.goto p x .messageDone with next := .reexecute }
    else { parser := p, locals := x }
  | .bodyIdentityEof => { parser := p, locals := x }
  | .messageDone => .complete p x (if p.upgrade then .return else .advance)
  | .chunkSizeStart =>
    match unhex ch with
    | none => .fail p x .invalidChunkSize
    | some d => .goto { p with contentLength := d } x .chunkSize
  | .chunkSize => chunkSize p x ch
  | .chunkParameters =>
    if ch = cr then .goto p x .chunkSizeAlmostDone else { parser := p, locals := x }
  | .chunkSizeAlmostDone =>
    if ch ≠ lf then .fail p x .strict
    else if p.contentLength = 0 then
      .goto { p with nread := 0, flags := { p.flags with trailing := true } } x .headerFieldStart
    else .goto { p with nread := 0 } x .chunkData
  | .chunkData =>
    let p := { p with contentLength := p.contentLength - 1 }
    if p.contentLength = 0 then .goto p x .chunkDataAlmostDone
    else { parser := p, locals := x }
  | .chunkDataAlmostDone => .expect p x ch cr .chunkDataDone .strict
  | .chunkDataDone =>
    if ch ≠ lf then .fail p x .strict else .goto { p with nread := 0 } x .chunkSizeStart

end Step

/-- What `http_parser_execute` does with a length of zero, which means end of file: a callback, an
error, or nothing. -/
inductive Eof
  | complete
  | nothing
  | invalid
  deriving DecidableEq, Repr

/-- The `switch` of `http_parser_execute` on a length of zero. -/
def HttpParser.atEof (p : HttpParser) : Eof :=
  match p.state with
  | .bodyIdentityEof => .complete
  | .dead | .startRes => .nothing
  | _ => .invalid

end Wic.Http
