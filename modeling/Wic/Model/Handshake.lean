import Wic.Http.Url
import Wic.Model.Digest
import Wic.Model.Send

/-!
# The handshake

The client side of the opening handshake: the request `start_client` sends, the callbacks that
collect the headers of the response in the rx buffer, `on_response_complete`, and
`http_parser_execute` driving them over the instance.

## Main definitions

* `onHeaderField`, `onHeaderValue`, `onResponseComplete`: the callbacks of the parser
* `wicGetHeader`, `wicGetNextHeader`, `wicSetHeader`: the header functions
* `httpParserExecute`: the parser run over a block of data
* `startClient`: the request
-/

namespace Wic

open Http (ascii Errno Callback Locals)

variable {σ : Type} (cb : Callbacks σ)

/-! ## Headers -/

/-- `tolower` of the C locale. -/
def tolower (c : UInt8) : UInt8 := if 65 ≤ c ∧ c ≤ 90 then c + 32 else c

/-- The null-terminated string at offset `pos` of a block of memory. -/
def cString (mem : List UInt8) (pos : Nat) : List UInt8 := (mem.drop pos).takeWhile (· ≠ 0)

/-- `str_equal` -/
def strEqual (s₁ s₂ : List UInt8) : Bool := s₁.map tolower == s₂.map tolower

/-- The loop of `wic_get_header` from offset `pos` on; it moves by two strings a turn. -/
def getHeaderLoop (s : Stream) (name : List UInt8) : Nat → Nat → Option Nat
  | 0, _ => none
  | fuel + 1, pos =>
    if pos < s.pos then
      let next := pos + (cString s.mem pos).length + 1
      if strEqual (cString s.mem pos) name then some next
      else getHeaderLoop s name fuel (next + (cString s.mem next).length + 1)
    else none

/-- `wic_get_header`: the offset of the value in the rx buffer. -/
def wicGetHeader (i : Inst) (name : List UInt8) : Option Nat :=
  if i.state = .ready then getHeaderLoop i.rx.s name i.rx.s.pos 0 else none

/-- `wic_rewind_get_next_header` -/
def wicRewindGetNextHeader (w : World σ) : World σ := w.update fun i => { i with pos := 0 }

/-- `wic_get_next_header`: the offsets of the name and the value. -/
def wicGetNextHeader (w : World σ) : Option (Nat × Nat) × World σ :=
  let s := w.inst.rx.s
  if w.inst.pos < s.pos then
    let value := (w.inst.pos + (cString s.mem w.inst.pos).length + 1) % 65536
    let next := (value + (cString s.mem value).length + 1) % 65536
    (some (w.inst.pos, value), w.update fun i => { i with pos := next })
  else (none, w)

/-- `wic_set_header` of the header object at `header`. -/
def wicSetHeader (header : Nat) (w : World σ) : Bool × World σ :=
  let h := w.heap header
  if h.name.isSome && h.value.isSome then
    (true, { w.update fun i => { i with txHeader := some header } with
      heap := Function.update w.heap header { h with next := w.inst.txHeader } })
  else (false, w)

/-! ## The callbacks of the parser -/

/-- A write to the header store. -/
def putHeader (bytes : List UInt8) (next : HeaderState) (w : World σ) : World σ :=
  w.update fun i => { i with rx.s := i.rx.s.write bytes, headerState := next }

/-- A write to the header store behind a terminator. -/
def putHeaderAfterNull (bytes : List UInt8) (next : HeaderState) (w : World σ) : World σ :=
  w.update fun i => { i with rx.s := (i.rx.s.putU8 0).write bytes, headerState := next }

/-- `on_header_field`; it always returns zero. -/
def onHeaderField (bytes : List UInt8) (w : World σ) : World σ :=
  match w.inst.headerState with
  | .idle | .field => putHeader bytes .field w
  | .value => putHeaderAfterNull bytes .field w

/-- `on_header_value`, and whether it returns zero. -/
def onHeaderValue (bytes : List UInt8) (w : World σ) : Bool × World σ :=
  match w.inst.headerState with
  | .idle => (false, w)
  | .field => (true, putHeaderAfterNull bytes .value w)
  | .value => (true, putHeader bytes .value w)

/-- The status codes for which `on_response_complete` keeps the `Location` header. -/
def redirects : List Nat := [300, 301, 302, 303, 304, 307]

/-- The checks of `on_response_complete` that a 101 response has to pass. -/
def acceptsUpgrade (i : Inst) : Bool :=
  i.http.upgrade &&
    match wicGetHeader i (ascii "upgrade") with
    | none => false
    | some header =>
      strEqual (cString i.rx.s.mem header) (ascii "websocket") &&
        match wicGetHeader i (ascii "Sec-WebSocket-Accept") with
        | none => false
        | some header => cString i.rx.s.mem header == b64Encode 64 i.hash 29

/-- `on_response_complete`, and whether it returns zero. -/
def onResponseComplete (w : World σ) : Bool × World σ :=
  let w :=
    if w.inst.headerState = .value then
      w.updateRx fun rx => { rx with s := rx.s.putU8 0 }
    else w
  let w := w.setState .ready
  if w.inst.http.statusCode ≠ 101 then
    (false, if w.inst.http.statusCode ∈ redirects then
      w.update fun i => { i with redirectUrl := wicGetHeader i (ascii "location") } else w)
  else (acceptsUpgrade w.inst, w)

/-! ## The parser run over a block of data -/

/-- A change of the parser. -/
def updateHttp (f : Http.HttpParser → Http.HttpParser) (w : World σ) : World σ :=
  w.update fun i => { i with http := f i.http }

/-- `SET_ERRNO(e)` -/
def setErrno (e : Errno) (w : World σ) : World σ := updateHttp (fun p => { p with httpErrno := e }) w

/-- A callback of the parser with the handlers `wic_parse` sets for a client, and whether it
returns zero. -/
def respond (c : Callback) (w : World σ) : Bool × World σ :=
  match c with
  | .headerField bytes => (true, onHeaderField bytes w)
  | .headerValue bytes => onHeaderValue bytes w
  | .messageComplete => onResponseComplete w

/-- A callback, with the error that stops the parser when it returns nonzero. -/
def respondOr (c : Callback) (w : World σ) : World σ :=
  match respond c w with
  | (true, w) => w
  | (false, w) => setErrno c.errno w

/-- A callback, where there is one to make. -/
def respondIf (c : Option Callback) (w : World σ) : World σ :=
  match c with
  | none => w
  | some c => respondOr c w

/-- Where the parser is after a byte: at the next byte, or out of the function. -/
inductive AfterByte (σ : Type)
  | next (x : Locals) (w : World σ)
  | stop (w : World σ)

/-- One byte of the loop of `http_parser_execute`, from `reexecute` on. A byte is never looked at
more often than the fuel allows. -/
def executeByte (data : List UInt8) (pos : Nat) (ch : UInt8) :
    Nat → Locals → World σ → AfterByte σ
  | 0, x, w => .next x w
  | fuel + 1, x, w =>
    let pass := Http.step data w.inst.http x pos ch
    let w := respondIf pass.call (updateHttp (fun _ => pass.parser) w)
    if w.inst.http.httpErrno ≠ .ok then .stop w
    else match pass.next with
      | .advance => .next pass.locals w
      | .reexecute => executeByte data pos ch fuel pass.locals w
      | .error e => .stop (setErrno e w)
      | .return => .stop w

/-- `COUNT_HEADER_SIZE(V)`; the error past the limit. -/
def countHeader (v : Nat) (w : World σ) : World σ :=
  match w.inst.http.countHeaderSize v with
  | (p, true) => updateHttp (fun _ => p) w
  | (_, false) => setErrno .headerOverflow w

/-- The count of an inner loop that the end of the bytes breaks off. -/
def countRun (run : Option Nat) (w : World σ) : World σ :=
  match run with
  | none => w
  | some n => countHeader (n - 1) w

/-- `CALLBACK_DATA_NOADVANCE(FOR)` for a mark that is left when the bytes run out. -/
def respondMark (data : List UInt8) (c : List UInt8 → Callback) (mark : Option Nat)
    (w : World σ) : World σ :=
  if w.inst.http.httpErrno ≠ .ok then w
  else respondIf (mark.map fun m => c (Http.marked data m data.length)) w

/-- What is left to do when the bytes run out. -/
def leftover (data : List UInt8) (x : Locals) (w : World σ) : World σ :=
  respondMark data .headerValue x.valueMark
    (respondMark data .headerField x.fieldMark (countRun x.run w))

/-- The loop of `http_parser_execute` over the bytes at `pos`: the bytes consumed, which nobody
reads after an error. -/
def executeLoop (data : List UInt8) : List UInt8 → Nat → Locals → World σ → Nat × World σ
  | [], pos, x, w => (pos, leftover data x w)
  | ch :: rest, pos, x, w =>
    let w := if w.inst.http.state.parsingHeader && x.run.isNone then countHeader 1 w else w
    if w.inst.http.httpErrno ≠ .ok then (pos, w)
    else match executeByte data pos ch 4 x w with
      | .next x w => executeLoop data rest (pos + 1) x w
      | .stop w => (pos + 1, w)

/-- `http_parser_execute` -/
def httpParserExecute (data : List UInt8) (w : World σ) : Nat × World σ :=
  if w.inst.http.httpErrno ≠ .ok then (0, w)
  else if data.length = 0 then
    match w.inst.http.atEof with
    | .complete => (0, respondOr .messageComplete w)
    | .nothing => (0, w)
    | .invalid => (1, setErrno .invalidEofState w)
  else
    executeLoop data data 0
      { fieldMark := if w.inst.http.state = .headerField then some 0 else none
        valueMark := if w.inst.http.state = .headerValue then some 0 else none } w

/-! ## The request -/

/-- The loop of `start_client` over the headers from `header` on; `none` when the list is longer
than `fuel`, or a header has lost its name or its value. -/
def putHeaders (heap : Nat → Header) : Nat → Option Nat → Stream → Option Stream
  | _, none, tx => some tx
  | 0, some _, _ => none
  | fuel + 1, some a, tx =>
    match (heap a).name, (heap a).value with
    | some name, some value =>
      putHeaders heap fuel (heap a).next
        ((((tx.putStr name).putStr (ascii ": ")).putStr value).putStr (ascii "\r\n"))
    | _, _ => none

/-- The nonce: four bytes of every `rand`. -/
def drawNonce : Nat → World σ → List UInt8 × World σ
  | 0, w => ([], w)
  | n + 1, w =>
    let (m, w) := cb.rand w
    let (rest, w) := drawNonce n w
    ([m.toUInt8, (m >>> 8).toUInt8, (m >>> 16).toUInt8, (m >>> 24).toUInt8] ++ rest, w)

/-- The request up to the nonce. -/
def putRequest (url : List UInt8) (u : Http.HttpParserUrl) (tx : Stream) : Stream :=
  let tx := (tx.putStr (ascii "GET ")).write (u.text .path url)
  let tx := if 0 < (u.fieldData .query).len then
      (tx.putStr (ascii "?")).write (u.text .query url) else tx
  let tx := if 0 < (u.fieldData .fragment).len then
      (tx.putStr (ascii "#")).write (u.text .fragment url) else tx
  let tx := tx.putStr (ascii " HTTP/1.1\r\n")
  let tx := (tx.putStr (ascii "Host: ")).write (u.text .host url)
  let tx := if u.port ≠ 0 then (tx.putStr (ascii ":")).write (u.text .port url) else tx
  let tx := tx.putStr (ascii "\r\n")
  let tx := tx.putStr (ascii "Upgrade: websocket\r\n")
  let tx := tx.putStr (ascii "Connection: upgrade\r\n")
  tx.putStr (ascii "Sec-WebSocket-Version: 13\r\n")

/-- `start_client`; `none` when the header list is longer than `fuel` or broken. -/
def startClient (fuel : Nat) (w : World σ) : Option (Status × World σ) :=
  if w.inst.state = .init then
    let url := w.inst.url.getD []
    match Http.httpParserParseUrl url {} with
    | none => some (.badInput, w)
    | some u =>
      match lease cb 0 .http w with
      | ((none, _), w) => some (.wouldBlock, w)
      | ((some buf, max), w) =>
        let tx := putRequest url u (streamInit buf (List.replicate (max % 2 ^ 32) 0) max)
        let (nonce, w) :=
          if w.inst.rand then drawNonce cb 4 w else (List.replicate 16 0xaa, w)
        let nonceB64 := b64Encode 64 nonce 24
        let w := w.update fun i => { i with hash := serverHash nonceB64 }
        let tx := tx.putStr (ascii "Sec-WebSocket-Key: ")
        let tx := (tx.write nonceB64).putStr (ascii "\r\n")
        (putHeaders w.heap fuel w.inst.txHeader tx).map fun tx =>
          let tx := tx.putStr (ascii "\r\n")
          if tx.error then (.tooLarge, handOver cb tx 0 .http w)
          else (.success, handOver cb tx tx.pos .http (w.setState .parseHandshake))
  else some (.badState, w)

end Wic
