import Wic.Model.Stream
import Wic.Model.Utf8

/-!
# Sending and closing

The functions that put frames on the wire: the frame encoder, the `wic_send_*` functions, the
pong, and the closing code with the frame it sends.

## Main definitions

* `offer`, `handOver`, `lease`: the callbacks `on_message`, `on_send` and `on_buffer`
* `TxFrame`, `minFrameSize`, `streamPutFrame`: the frame encoder
* `closeWithReason`: closing, from every state
* `wicSendBinary`, `wicSendText`, `wicSendPingWithPayload`, `wicClose`, `wicCloseWithReason`
-/

namespace Wic

variable {σ : Type} (cb : Callbacks σ)

/-! ## Callbacks -/

/-- The arguments `s.read, s.pos` where a `uint16_t` size is expected. -/
def Stream.payload (s : Stream) : Payload :=
  ⟨s.mem.take (s.pos % 65536), by
    rw [List.length_take]
    exact Nat.lt_of_le_of_lt (Nat.min_le_left _ _) (Nat.mod_lt _ (by decide))⟩

/-- `self->on_message(self, encoding, fin, self->rx.s.read, self->rx.s.pos)`. Where the
application gave no handler, the instance holds the static `on_message`, which accepts. -/
def offer (encoding : Encoding) (fin : Bool) (w : World σ) : Bool × World σ :=
  if w.inst.onMessage then
    let data := w.inst.rx.s.payload.bytes
    let (accepted, w) := cb.onMessage encoding fin data (w.emit (.message encoding fin data))
    (accepted, w.emit (.answer accepted))
  else (true, w)

/-- `self->on_send(self, tx.read, count, type)` -/
def handOver (tx : Stream) (count : Nat) (type : BufferType) (w : World σ) : World σ :=
  cb.onSend tx.base (tx.mem.take count) type (w.emit (.send tx.base (tx.mem.take count) type))

/-- `self->on_buffer(self, minSize, type, &max)` -/
def lease (minSize : Nat) (type : BufferType) (w : World σ) : (Option Nat × Nat) × World σ :=
  let ((buf, max), w) := cb.onBuffer minSize type w
  ((buf, max), w.emit (.buffer minSize type buf max))

/-- `if(self->on_open != NULL) self->on_open(self)` -/
def callOnOpen (w : World σ) : World σ :=
  if w.inst.onOpen then cb.onOpen (w.emit .onOpen) else w

/-- `if(self->on_close != NULL) self->on_close(self, code, reason, size)` -/
def callOnClose (code : UInt16) (reason : List UInt8) (w : World σ) : World σ :=
  if w.inst.onClose then cb.onClose code reason (w.emit (.onClose code reason)) else w

/-- `if(self->on_close_transport != NULL) self->on_close_transport(self)` -/
def callOnCloseTransport (w : World σ) : World σ :=
  if w.inst.onCloseTransport then cb.onCloseTransport (w.emit .onCloseTransport) else w

/-- `if(self->on_handshake_failure != NULL) self->on_handshake_failure(self, reason)` -/
def callOnHandshakeFailure (reason : HandshakeFailure) (w : World σ) : World σ :=
  if w.inst.onHandshakeFailure then
    cb.onHandshakeFailure reason (w.emit (.onHandshakeFailure reason))
  else w

/-- `if(self->on_ping != NULL) self->on_ping(self)` -/
def callOnPing (w : World σ) : World σ :=
  if w.inst.onPing then cb.onPing (w.emit .onPing) else w

/-- `if(self->on_pong != NULL) self->on_pong(self)` -/
def callOnPong (w : World σ) : World σ :=
  if w.inst.onPong then cb.onPong (w.emit .onPong) else w

/-! ## The frame encoder -/

/-- `struct wic_tx_frame` -/
structure TxFrame where
  fin : Bool
  rsv1 : Bool := false
  rsv2 : Bool := false
  rsv3 : Bool := false
  opcode : Opcode
  type : BufferType
  code : UInt16 := 0
  masked : Bool := false
  mask : Mask := .replicate 4 0
  payload : Payload
  deriving DecidableEq, Repr

/-- `opcode_to_byte` -/
def opcodeToByte : Opcode → UInt8
  | .continue => 0
  | .text => 1
  | .binary => 2
  | .reserve3 => 3
  | .reserve4 => 4
  | .reserve5 => 5
  | .reserve6 => 6
  | .reserve7 => 7
  | .close => 8
  | .ping => 9
  | .pong => 10
  | .reserve11 => 11
  | .reserve12 => 12
  | .reserve13 => 13
  | .reserve14 => 14
  | .reserve15 => 15

/-- `min_frame_size` -/
def minFrameSize (opcode : Opcode) (masked : Bool) (payloadSize : Nat) : Nat :=
  let n := payloadSize + if opcode = .close then 2 else 0
  let n := n + if 125 < n then 2 else 0
  n + 2 + if masked then 4 else 0

/-- `init_mask`, with `memcpy` of the random number in little-endian order. -/
def initMask (f : TxFrame) (w : World σ) : TxFrame × World σ :=
  let (m, w) := if w.inst.rand then cb.rand w else (0xaaaaaaaa, w)
  ({ f with
      masked := w.inst.role = .client
      mask := #v[m.toUInt8, (m >>> 8).toUInt8, (m >>> 16).toUInt8, (m >>> 24).toUInt8] }, w)

/-- The loop that writes masked bytes, the first of them masked as byte `i` of the payload. -/
def Stream.putMasked (mask : Mask) : Nat → List UInt8 → Stream → Stream
  | _, [], tx => tx
  | i, b :: bs, tx => putMasked mask (i + 1) bs (tx.putU8 (b ^^^ mask[i % 4]))

/-- The writes of `stream_put_frame` into a buffer of the frame's size. An unmasked frame writes
`payload_size` bytes from the payload, two more than it has when the frame is a close. -/
def TxFrame.put (f : TxFrame) (tx : Stream) : Stream :=
  let payloadSize := f.payload.bytes.length + if f.opcode = .close then 2 else 0
  let tx := tx.putU8 ((if f.fin then 0x80 else 0) ||| (if f.rsv1 then 0x40 else 0) |||
    (if f.rsv2 then 0x20 else 0) ||| (if f.rsv3 then 0x10 else 0) ||| opcodeToByte f.opcode)
  let maskBit : UInt8 := if f.masked then 0x80 else 0
  let tx := if payloadSize ≤ 125 then tx.putU8 (maskBit ||| UInt8.ofNat payloadSize)
    else (tx.putU8 (maskBit ||| 126)).putU16 payloadSize
  if f.masked then
    let tx := tx.write f.mask.toList
    if f.opcode = .close then
      let tx := tx.putU8 ((f.code >>> 8).toUInt8 ^^^ f.mask[0])
      let tx := tx.putU8 (f.code.toUInt8 ^^^ f.mask[1])
      tx.putMasked f.mask 2 f.payload.bytes
    else tx.putMasked f.mask 0 f.payload.bytes
  else
    let tx := if f.opcode = .close then
        (tx.putU8 (f.code >>> 8).toUInt8).putU8 f.code.toUInt8
      else tx
    tx.write (f.payload.bytes ++ List.replicate (payloadSize - f.payload.bytes.length) 0)

/-- `stream_put_frame` -/
def streamPutFrame (f : TxFrame) (w : World σ) : Status × Stream × World σ :=
  let frameSize := minFrameSize f.opcode f.masked f.payload.bytes.length
  let ((buf, max), w) := lease cb frameSize f.type w
  if frameSize ≤ max then
    match buf with
    | some buf =>
      let tx := f.put (streamInit buf (List.replicate frameSize 0) frameSize)
      (if tx.error then .wouldBlock else .success, tx, w)
    | none => (.wouldBlock, {}, w)
  else (.tooLarge, {}, w)

/-! ## Sending -/

/-- `allowed_to_send` -/
def allowedToSend (w : World σ) : Bool × World σ :=
  let w := if w.inst.role = .client ∧ w.inst.state = .ready then w.setState .open else w
  (w.inst.state = .open, w)

/-- The tail the `wic_send_*` functions share: encode the frame, and on success record the
progress `done` in the instance and hand the frame over. -/
def putAndSend (f : TxFrame) (done : Inst → Inst) (w : World σ) : Status × World σ :=
  let (f, w) := initMask cb f w
  match streamPutFrame cb f w with
  | (.success, tx, w) => (.success, handOver cb tx tx.pos f.type (w.update done))
  | (status, _, w) => (status, w)

/-- `wic_send_binary` -/
def wicSendBinary (fin : Bool) (data : Payload) (w : World σ) : Status × World σ :=
  let (allowed, w) := allowedToSend w
  let (status, w) :=
    if allowed then
      match w.inst.frag with
      | .continue | .binary =>
        let opcode := if w.inst.frag = .binary then .continue else .binary
        putAndSend cb { fin, opcode, type := .user, payload := data }
          (fun i => { i with frag := if fin then .continue else .binary }) w
      | _ => (.badState, w)
    else (.notOpen, w)
  (status, w.emit (.status status))

/-- `wic_send_text` -/
def wicSendText (fin : Bool) (data : Payload) (w : World σ) : Status × World σ :=
  let (allowed, w) := allowedToSend w
  let (status, w) :=
    if allowed then
      match w.inst.frag with
      | .continue | .text =>
        let opcode := if w.inst.frag = .text then .continue else .text
        let state :=
          utf8ParseString (if w.inst.frag = .continue then 0 else w.inst.utf8Tx) data.bytes
        if utf8IsInvalid state then (.badInput, w)
        else if !fin || utf8IsComplete state then
          putAndSend cb { fin, opcode, type := .user, payload := data }
            (fun i => { i with utf8Tx := state, frag := if fin then .continue else .text }) w
        else (.badInput, w)
      | _ => (.badState, w)
    else (.notOpen, w)
  (status, w.emit (.status status))

/-- `wic_send` -/
def wicSend (encoding : Encoding) (fin : Bool) (data : Payload) (w : World σ) :
    Status × World σ :=
  if encoding = .binary then wicSendBinary cb fin data w else wicSendText cb fin data w

/-- `wic_send_ping_with_payload` -/
def wicSendPingWithPayload (data : Payload) (w : World σ) : Status × World σ :=
  let (allowed, w) := allowedToSend w
  let (status, w) :=
    if allowed then
      putAndSend cb { fin := true, opcode := .ping, type := .ping, payload := data } id w
    else (.notOpen, w)
  (status, w.emit (.status status))

/-- `wic_send_ping` -/
def wicSendPing (w : World σ) : Status × World σ := wicSendPingWithPayload cb .null w

/-- `send_pong_with_payload` -/
def sendPongWithPayload (data : Payload) (w : World σ) : Status × World σ :=
  let (allowed, w) := allowedToSend w
  if allowed then
    putAndSend cb { fin := true, opcode := .pong, type := .pong, payload := data } id w
  else (.notOpen, w)

/-! ## Closing -/

/-- `WIC_CLOSE_NORMAL` -/
def closeNormal : UInt16 := 1000

/-- `WIC_CLOSE_PROTOCOL_ERROR` -/
def closeProtocolError : UInt16 := 1002

/-- `WIC_CLOSE_ABNORMAL_1` -/
def closeAbnormal1 : UInt16 := 1005

/-- `WIC_CLOSE_ABNORMAL_2` -/
def closeAbnormal2 : UInt16 := 1006

/-- `WIC_CLOSE_INVALID_DATA` -/
def closeInvalidData : UInt16 := 1007

/-- `WIC_CLOSE_TOO_BIG` -/
def closeTooBig : UInt16 := 1009

/-- `WIC_CLOSE_TLS` -/
def closeTls : UInt16 := 1015

/-- The codes `close_with_reason` does not write. -/
def unwritten (code : UInt16) : Bool :=
  code == closeAbnormal1 || code == closeAbnormal2 || code == closeTls

/-- The failure reported when the handshake is closed with `code`. -/
def failureOf (code : UInt16) : HandshakeFailure :=
  if code = closeAbnormal1 then .abnormal1
  else if code = closeAbnormal2 then .abnormal2
  else if code = closeTls then .tls
  else .irrelevant

/-- The payload of the close frame: a reason that is not UTF-8 is discarded. -/
def closePayload (reason : Payload) : Payload :=
  if utf8IsComplete (utf8ParseString 0 reason.bytes) then reason else .null

/-- The close frame `close_with_reason` sends, when the code is one it writes and a buffer is
there for it. -/
def sendClose (code : UInt16) (reason : Payload) (type : BufferType) (w : World σ) : World σ :=
  if unwritten code then w
  else
    (putAndSend cb { fin := true, opcode := .close, type, code, payload := closePayload reason }
      id w).2

/-- `close_with_reason` -/
def closeWithReason (code : UInt16) (reason : Payload) (type : BufferType) (w : World σ) :
    World σ :=
  match w.inst.state with
  | .init => (w.emit (.closing code)).setState .closed
  | .closed => w
  | .parseHandshake =>
    callOnHandshakeFailure cb (failureOf code)
      (callOnCloseTransport cb ((w.emit (.closing code)).setState .closed))
  | .open | .ready =>
    callOnClose cb code reason.bytes
      (callOnCloseTransport cb
        (sendClose cb code reason type ((w.emit (.closing code)).setState .closed)))

/-- `wic_close_with_reason` -/
def wicCloseWithReason (code : UInt16) (reason : Payload) (w : World σ) : World σ :=
  closeWithReason cb code reason .close w

/-- `wic_close` -/
def wicClose (w : World σ) : World σ := wicCloseWithReason cb closeNormal .null w

end Wic
