import Wic.Model.Handshake
import Wic.Model.Receive

/-!
# The interface

`wic_init`, `wic_start` and `wic_parse`, the calls an application makes besides, and the worlds
that a run of such calls reaches. The callbacks of a run may call back into the interface.

## Main definitions

* `InitArg`, `wicInit`: `struct wic_init_arg` and `wic_init`
* `wicStart`, `wicParse`
* `session`: a run of an application that only parses
* `Call`: a call of the interface that a callback may make too
* `Reentrant`: callbacks that make calls, whose callbacks make calls, and so on
* `Reachable`: the worlds a run reaches
-/

namespace Wic

open Http (ascii)

variable {σ : Type}

/-! ## Set-up -/

/-- `struct wic_init_arg`: a flag says whether a pointer is set. `rx` is the block of memory behind
the `rx` pointer, of `rx_max` bytes at least. -/
structure InitArg where
  rxBase : Nat := 0
  rx : List UInt8
  rxMax : Nat
  rxMax_le : rxMax ≤ rx.length
  onMessage : Bool := false
  onOpen : Bool := false
  onClose : Bool := false
  onCloseTransport : Bool := false
  onHandshakeFailure : Bool := false
  onPing : Bool := false
  onPong : Bool := false
  onSend : Bool := true
  onBuffer : Bool := true
  rand : Bool := false
  url : Option (List UInt8)
  role : Role := .client

/-- `supported_schema` with `schema_map` -/
def supportedSchema : List (List UInt8 × Schema) :=
  [(ascii "http", .http), (ascii "https", .https), (ascii "ws", .ws), (ascii "wss", .wss)]

/-- The schema, the port and the host name `wic_init` takes from a URL; `none` when it refuses
it. -/
def initUrl (url : List UInt8) (u : Http.HttpParserUrl) :
    Option (Schema × Nat × List UInt8) := do
  let u ← Http.httpParserParseUrl url u
  let (_, schema) ← supportedSchema.find? fun (name, _) =>
    (u.fieldData .schema).len == name.length && u.text .schema url == name
  let port :=
    if u.fieldSet .port then u.port
    else match schema with
      | .http | .ws => 80
      | _ => 443
  if 255 < (u.fieldData .host).len then none
  else
    let host := u.text .host url
    some (schema, port, host ++ List.replicate (256 - host.length) 0)

/-- `wic_init`; `none` when it returns false. `u` is what the uninitialised `struct
http_parser_url` on its stack holds. -/
def wicInit (arg : InitArg) (u : Http.HttpParserUrl) : Option Inst :=
  if !arg.onSend || !arg.onBuffer then none
  else match arg.url with
    | none => none
    | some url =>
      match initUrl url u with
      | none => none
      | some (schema, port, hostname) =>
        if arg.role ≠ .client then none
        else some
          { role := arg.role
            rx := { s := streamInit arg.rxBase arg.rx arg.rxMax }
            onMessage := arg.onMessage
            onOpen := arg.onOpen
            onClose := arg.onClose
            onCloseTransport := arg.onCloseTransport
            onHandshakeFailure := arg.onHandshakeFailure
            rand := arg.rand
            url := some url
            schema
            port
            hostname }

section Run

variable (cb : Callbacks σ)

/-- `wic_start` of a client. -/
def wicStart (fuel : Nat) (w : World σ) : Option (Status × World σ) := startClient cb fuel w

/-- What `wic_parse` does once `http_parser_execute` has returned. -/
def afterHttp (w : World σ) : World σ :=
  if w.inst.http.httpErrno ≠ .ok then
    let reason := if w.inst.http.httpErrno = .cbMessageComplete then .upgrade else .protocol
    (callOnHandshakeFailure cb reason (callOnCloseTransport cb w)).setState .closed
  else if w.inst.state = .ready then (callOnOpen cb w).setState .open
  else w

/-- The handshake part of `wic_parse`. -/
def parseHandshake (data : List UInt8) (s : Stream) (w : World σ) : Stream × World σ :=
  if w.inst.state = .parseHandshake then
    let (bytes, w) := httpParserExecute data w
    (s.seek bytes, afterHttp cb w)
  else (s, w)

/-- The websocket part of `wic_parse`. It ends within the turns given here, unless the rx buffer
has no room at all. -/
def parseWebsocket (s : Stream) (w : World σ) : Option (World σ × Stream) :=
  if w.inst.state = .open then parseLoop cb (2 * s.size + 4) s w else some (w, s)

/-- `wic_parse`; `none` when it does not return. -/
def wicParse (data : List UInt8) (w : World σ) : Option (Nat × World σ) :=
  let (s, w) := parseHandshake cb data (streamInitRo data data.length) w
  (parseWebsocket cb s w).map fun (w, s) =>
    (if w.inst.state = .open then s.pos else data.length, w)

/-- `wic_parse` on one block of bytes after another. -/
def wicParseAll (blocks : List (List UInt8)) (w : World σ) : Option (World σ) :=
  blocks.foldlM (fun w data => (wicParse cb data w).map Prod.snd) w

/-- `wic_init`, `wic_start` and then `wic_parse` on one block of bytes after another. -/
def session (arg : InitArg) (app : σ) (blocks : List (List UInt8)) : Option (World σ) := do
  let inst ← wicInit arg {}
  let (_, w) ← wicStart cb 0 { inst, heap := fun _ => {}, log := [], app }
  wicParseAll cb blocks w

end Run

/-! ## Calls -/

/-- A call of the interface other than `wic_init`, `wic_start` and `wic_parse`. -/
inductive Call
  | sendBinary (fin : Bool) (data : Payload)
  | sendText (fin : Bool) (data : Payload)
  | send (encoding : Encoding) (fin : Bool) (data : Payload)
  | sendPing
  | sendPingWithPayload (data : Payload)
  | close
  | closeWithReason (code : UInt16) (reason : Payload)
  | setHeader (header : Nat)
  | rewindGetNextHeader
  | getNextHeader

/-- The world after a call. -/
def Call.run (cb : Callbacks σ) : Call → World σ → World σ
  | .sendBinary fin data, w => (wicSendBinary cb fin data w).2
  | .sendText fin data, w => (wicSendText cb fin data w).2
  | .send encoding fin data, w => (wicSend cb encoding fin data w).2
  | .sendPing, w => (wicSendPing cb w).2
  | .sendPingWithPayload data, w => (wicSendPingWithPayload cb data w).2
  | .close, w => wicClose cb w
  | .closeWithReason code reason, w => wicCloseWithReason cb code reason w
  | .setHeader header, w => (wicSetHeader header w).2
  | .rewindGetNextHeader, w => wicRewindGetNextHeader w
  | .getNextHeader, w => (wicGetNextHeader w).2

/-- Where a call comes from. -/
inductive Caller
  | application
  | onOpen
  | callback
  deriving DecidableEq

/-- A change of the application's own: its state and its header objects. -/
def Edits (w w' : World σ) : Prop :=
  w' = { w with heap := w'.heap, app := w'.app }

/-- A sequence of calls that `allowed` lets through, made with the callbacks `cb`, and of changes
of the application's own. -/
inductive Does (cb : Callbacks σ) (allowed : Call → Prop) : World σ → World σ → Prop
  | refl (w) : Does cb allowed w w
  | edit {w w' w''} : Edits w w' → Does cb allowed w' w'' → Does cb allowed w w''
  | call {c w w'} : allowed c → Does cb allowed (c.run cb w) w' → Does cb allowed w w'

/-- Callbacks that only change what is the application's own. -/
structure Callbacks.Passive (cb : Callbacks σ) : Prop where
  onMessage (encoding fin data w) : Edits w (cb.onMessage encoding fin data w).2
  onOpen (w) : Edits w (cb.onOpen w)
  onClose (code reason w) : Edits w (cb.onClose code reason w)
  onCloseTransport (w) : Edits w (cb.onCloseTransport w)
  onHandshakeFailure (reason w) : Edits w (cb.onHandshakeFailure reason w)
  onPing (w) : Edits w (cb.onPing w)
  onPong (w) : Edits w (cb.onPong w)
  rand (w) : Edits w (cb.rand w).2
  onSend (buf data type w) : Edits w (cb.onSend buf data type w)
  onBuffer (minSize type w) : Edits w (cb.onBuffer minSize type w).2

/-- Callbacks of which `on_message`, `on_open`, `on_close`, `on_close_transport` and
`on_handshake_failure` may make calls that `allowed` lets through; the callbacks they meet in these
are `inner`. -/
structure Callbacks.Nested (cb : Callbacks σ) (allowed : Caller → Call → Prop)
    (inner : Callbacks σ) : Prop where
  onMessage (encoding fin data w) :
    Does inner (allowed .callback) w (cb.onMessage encoding fin data w).2
  onOpen (w) : Does inner (allowed .onOpen) w (cb.onOpen w)
  onClose (code reason w) : Does inner (allowed .callback) w (cb.onClose code reason w)
  onCloseTransport (w) : Does inner (allowed .callback) w (cb.onCloseTransport w)
  onHandshakeFailure (reason w) :
    Does inner (allowed .callback) w (cb.onHandshakeFailure reason w)
  onPing (w) : Edits w (cb.onPing w)
  onPong (w) : Edits w (cb.onPong w)
  rand (w) : Edits w (cb.rand w).2
  onSend (buf data type w) : Edits w (cb.onSend buf data type w)
  onBuffer (minSize type w) : Edits w (cb.onBuffer minSize type w).2

/-- Callbacks that call back into the interface to some depth. -/
inductive Reentrant (allowed : Caller → Call → Prop) : Callbacks σ → Prop
  | passive {cb} : cb.Passive → Reentrant allowed cb
  | nested {inner cb} : Reentrant allowed inner → cb.Nested allowed inner → Reentrant allowed cb

/-- The worlds a run reaches from a `wic_init` that succeeds, when `allowed` says which calls are
made and from where. Every step may have other callbacks. -/
inductive Reachable (allowed : Caller → Call → Prop) : World σ → Prop
  | init {arg u inst heap app} :
    wicInit arg u = some inst → Reachable allowed { inst, heap, log := [], app }
  | edit {w w'} : Reachable allowed w → Edits w w' → Reachable allowed w'
  | call {cb c w} :
    Reachable allowed w → Reentrant allowed cb → allowed .application c →
      Reachable allowed (c.run cb w)
  | start {cb fuel w status w'} :
    Reachable allowed w → Reentrant allowed cb → wicStart cb fuel w = some (status, w') →
      Reachable allowed w'
  | parse {cb data w n w'} :
    Reachable allowed w → Reentrant allowed cb → wicParse cb data w = some (n, w') →
      Reachable allowed w'

end Wic
