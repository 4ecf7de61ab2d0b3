import Wic.Model.Send

/-!
# Receiving frames

The receiver of `wic_parse`: one `parse_*` function for each group of receive states, and the loop
over them. Each reads at most one byte of the input and says whether it is blocked. Behind a byte of
a mask `parse_mask` returns a variable it has not set, so that the loop may stop there.

## Main definitions

* `opcodeByte`, `sizeByte`, `extendedSizeByte`, `maskByte`, `dataByte`: what a function does with
  the byte it reads
* `flush`: a full buffer is passed on as a fragment
* `finish`: the payload is complete
* `parseStep`, `parseLoop`: one turn of the loop, and the loop
-/

namespace Wic

variable {σ : Type} (cb : Callbacks σ)

/-- `opcodes` -/
def opcodes : List Opcode :=
  [.continue, .text, .binary, .reserve3, .reserve4, .reserve5, .reserve6, .reserve7,
    .close, .ping, .pong, .reserve11, .reserve12, .reserve13, .reserve14, .reserve15]

/-- `byte_to_opcode` -/
def byteToOpcode (b : UInt8) : Opcode := opcodes.getD (b &&& 0xf).toNat .reserve15

/-- `(rx.opcode == WIC_OPCODE_CONTINUE) ? rx.frag : rx.opcode` -/
def RxFrame.dataOpcode (rx : RxFrame) : Opcode :=
  if rx.opcode = .continue then rx.frag else rx.opcode

/-- `close_with_reason(self, code, NULL, 0U, type)` -/
def closeWithCode (code : UInt16) (type : BufferType) (w : World σ) : World σ :=
  closeWithReason cb code .null type w

/-! ## The header -/

/-- The opcode filter of `parse_opcode`. -/
def filterOpcode (w : World σ) : World σ :=
  match w.inst.rx.opcode with
  | .close | .ping | .pong =>
    if !w.inst.rx.fin then closeWithCode cb closeProtocolError .close w else w
  | .continue =>
    if w.inst.rx.frag = .continue then closeWithCode cb closeProtocolError .close w
    else w.updateRx fun rx => { rx with utf8 := w.inst.utf8Rx }
  | .text | .binary =>
    if w.inst.rx.frag ≠ .continue then closeWithCode cb closeProtocolError .close w else w
  | _ => closeWithCode cb closeProtocolError .close w

/-- `parse_opcode` with the byte `b`. A set RSV bit leaves the receive state as it was. -/
def opcodeByte (b : UInt8) (w : World σ) : World σ :=
  let w := w.updateRx fun rx =>
    { rx with
      s := rx.s.rewind
      fin := b &&& 0x80 ≠ 0
      rsv1 := b &&& 0x40 ≠ 0
      rsv2 := b &&& 0x20 ≠ 0
      rsv3 := b &&& 0x10 ≠ 0
      utf8 := 0 }
  if w.inst.rx.rsv1 || w.inst.rx.rsv2 || w.inst.rx.rsv3 then
    closeWithCode cb closeProtocolError .close w
  else
    let w := w.updateRx fun rx => { rx with opcode := byteToOpcode b }
    (filterOpcode cb w).updateRx fun rx => { rx with state := .size }

/-- The checks `parse_size` makes of the length of a control frame. -/
def filterSize (w : World σ) : World σ :=
  let size := w.inst.rx.size
  match w.inst.rx.opcode with
  | .close =>
    if 125 < size ∨ size = 1 then closeWithCode cb closeProtocolError .close w
    else if size = 0 then closeWithCode cb closeNormal .close w
    else if w.inst.rx.s.max < size then closeWithCode cb closeTooBig .close w
    else w
  | .ping | .pong =>
    if 125 < size then closeWithCode cb closeProtocolError .close w
    else if w.inst.rx.s.max < size then closeWithCode cb closeTooBig .close w
    else w
  | _ => w

/-- The state behind the last byte of the length. -/
def RxFrame.afterSize (rx : RxFrame) : RxState := if rx.masked then .mask0 else .data

/-- `parse_size` with the byte `b`. -/
def sizeByte (b : UInt8) (w : World σ) : World σ :=
  let w := w.updateRx fun rx =>
    { rx with masked := b &&& 0x80 ≠ 0, size := (b &&& 0x7f).toNat }
  (filterSize cb w).updateRx fun rx =>
    if rx.size = 127 then { rx with state := .size2, size := 0 }
    else if rx.size = 126 then { rx with state := .size0, size := 0 }
    else { rx with state := rx.afterSize }

/-- The receive state behind a byte of the extended length. -/
def RxFrame.nextSize (rx : RxFrame) : RxState :=
  match rx.state with
  | .size2 => .size3
  | .size3 => .size4
  | .size4 => .size5
  | .size5 => .size6
  | .size6 => .size7
  | .size7 => .size8
  | .size8 => .size9
  | .size1 | .size9 => rx.afterSize
  | _ => .size1

/-- `parse_extended_size` with the byte `b`. -/
def extendedSizeByte (b : UInt8) (w : World σ) : World σ :=
  w.updateRx fun rx =>
    { rx with size := (rx.size * 256 + b.toNat) % 2 ^ 64, state := rx.nextSize }

/-- `rx.state - WIC_RX_STATE_MASK_0` -/
def RxState.maskIndex : RxState → Fin 4
  | .mask1 => 1
  | .mask2 => 2
  | .mask3 => 3
  | _ => 0

/-- The receive state behind a byte of the mask. -/
def RxState.nextMask : RxState → RxState
  | .mask1 => .mask2
  | .mask2 => .mask3
  | .mask3 => .data
  | _ => .mask1

/-- What `parse_mask` does with the byte `b`. -/
def maskByte (b : UInt8) (w : World σ) : World σ :=
  w.updateRx fun rx =>
    { rx with mask := rx.mask.set rx.state.maskIndex b, state := rx.state.nextMask }

/-! ## The payload -/

/-- `parse_data` when the buffer is full: pass it on as a fragment. Says whether it is blocked. -/
def flush (w : World σ) : Bool × World σ :=
  let (accepted, w) := match w.inst.rx.dataOpcode with
    | .text => offer cb .utf8 false w
    | .binary => offer cb .binary false w
    | _ => (true, w)
  (!accepted, if accepted then w.updateRx fun rx => { rx with s := rx.s.rewind } else w)

/-- `rx.utf8 = utf8_parse(rx.utf8, b)`, closing when that is invalid. -/
def checkUtf8 (b : UInt8) (type : BufferType) (w : World σ) : World σ :=
  let w := w.updateRx fun rx => { rx with utf8 := utf8Parse rx.utf8 b }
  if utf8IsInvalid w.inst.rx.utf8 then closeWithCode cb closeInvalidData type w else w

/-- `parse_data` with the byte `b`. -/
def dataByte (b : UInt8) (w : World σ) : World σ :=
  let rx := w.inst.rx
  let (s, b) := if rx.masked then rx.s.putU8Masked b rx.mask else (rx.s.putU8 b, b)
  let w := w.updateRx fun rx => { rx with size := rx.size - 1, s }
  match w.inst.rx.dataOpcode with
  | .text => checkUtf8 cb b .close w
  | .close => if 2 < w.inst.rx.s.pos then checkUtf8 cb b .closeResponse w else w
  | _ => w

/-- The code and the reason in the buffer of a close frame. -/
def closeCode (s : Stream) : UInt16 :=
  ((s.mem.getD 0 0).toUInt16 <<< 8) ||| (s.mem.getD 1 0).toUInt16

/-- The arguments `&rx.s.read[sizeof(code)], rx.s.pos - sizeof(code)`. -/
def closeReason (s : Stream) : Payload :=
  ⟨(s.mem.drop 2).take ((s.pos + 2 ^ 64 - 2) % 65536), by
    rw [List.length_take]
    exact Nat.lt_of_le_of_lt (Nat.min_le_left _ _) (Nat.mod_lt _ (by decide))⟩

/-- The close codes `parse_data` answers with the code and the reason received. -/
def echoed : List UInt16 := [1000, 1001, 1002, 1003, 1007, 1008, 1009, 1010, 1011]

/-- A complete close frame. -/
def finishClose (w : World σ) : World σ :=
  let code := closeCode w.inst.rx.s
  if code ∈ echoed then
    if utf8IsComplete w.inst.rx.utf8 then
      closeWithReason cb code (closeReason w.inst.rx.s) .closeResponse w
    else closeWithCode cb closeProtocolError .closeResponse w
  else if 3000 ≤ code ∧ code ≤ 3999 then closeWithCode cb closeNormal .closeResponse w
  else if 4000 ≤ code ∧ code ≤ 4999 then closeWithCode cb closeNormal .closeResponse w
  else closeWithCode cb closeProtocolError .closeResponse w

/-- Offer a complete payload and, when it is accepted, record it with `done`. Says whether it is
blocked. -/
def offerAll (encoding : Encoding) (done : Inst → Inst) (w : World σ) : Bool × World σ :=
  let (accepted, w) := offer cb encoding w.inst.rx.fin w
  (!accepted, if accepted then w.update done else w)

/-- The `switch` of `parse_data` on a complete payload. Says whether it is blocked. -/
def finish (w : World σ) : Bool × World σ :=
  let rx := w.inst.rx
  match rx.dataOpcode with
  | .text =>
    if !rx.fin then
      offerAll cb .utf8 (fun i => { i with rx.frag := .text, utf8Rx := i.rx.utf8 }) w
    else if utf8IsComplete rx.utf8 then
      offerAll cb .utf8 (fun i => { i with rx.frag := .continue }) w
    else (false, closeWithCode cb closeInvalidData .close w)
  | .binary =>
    offerAll cb .binary (fun i => { i with rx.frag := if i.rx.fin then .continue else .binary }) w
  | .close => (false, finishClose cb w)
  | .ping =>
    match sendPongWithPayload cb rx.s.payload w with
    | (.wouldBlock, w) => (true, w)
    | (_, w) => (false, callOnPing cb w)
  | .pong => (false, callOnPong cb w)
  | _ => (false, w)

/-! ## The loop -/

/-- `parse_opcode`, `parse_size` and `parse_extended_size` with what they do with a byte: read one, or
be blocked. -/
def parseHeader (act : UInt8 → World σ → World σ) (s : Stream) (w : World σ) :
    Bool × World σ × Stream :=
  match s.getU8 with
  | (some b, s) => (false, act b w, s)
  | (none, s) => (true, w, s)

/-- `parse_mask`. It sets `blocked` only when there is no byte. -/
def parseMask (s : Stream) (w : World σ) : Bool × World σ × Stream :=
  match s.getU8 with
  | (some b, s) => (cb.unset s w, maskByte b w, s)
  | (none, s) => (true, w, s)

/-- `parse_data` -/
def parseData (s : Stream) (w : World σ) : Bool × World σ × Stream :=
  let (blocked, w, s) :=
    if 0 < w.inst.rx.size then
      if w.inst.rx.s.eof then
        let (blocked, w) := flush cb w
        (blocked, w, s)
      else match s.getU8 with
        | (some b, s) => (false, dataByte cb b w, s)
        | (none, s) => (true, w, s)
    else (false, w, s)
  if w.inst.state = .open ∧ w.inst.rx.size = 0 then
    let (refused, w) := finish cb w
    let blocked := blocked || refused
    (blocked, if blocked then w else w.updateRx fun rx => { rx with state := .opcode }, s)
  else (blocked, w, s)

/-- One turn of the loop of `wic_parse`. -/
def parseStep (s : Stream) (w : World σ) : Bool × World σ × Stream :=
  let (blocked, w, s) := match w.inst.rx.state with
    | .opcode => parseHeader (opcodeByte cb) s w
    | .size => parseHeader (sizeByte cb) s w
    | .size0 | .size1 | .size2 | .size3 | .size4 | .size5 | .size6 | .size7 | .size8 | .size9 =>
      parseHeader extendedSizeByte s w
    | .mask0 | .mask1 | .mask2 | .mask3 => parseMask cb s w
    | .data => (false, w, s)
  match w.inst.rx.state with
  | .data => parseData cb s w
  | _ => (blocked, w, s)

/-- The loop of `wic_parse`; `none` when it takes more turns than `fuel`. -/
def parseLoop : Nat → Stream → World σ → Option (World σ × Stream)
  | 0, _, _ => none
  | fuel + 1, s, w =>
    match parseStep cb s w with
    | (blocked, w, s) =>
      if !blocked && w.inst.state = .open then parseLoop fuel s w else some (w, s)

end Wic
