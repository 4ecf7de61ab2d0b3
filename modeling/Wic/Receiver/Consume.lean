import Wic.Calls.Quiet

/-!
# One byte of a frame

What the receiver does with a byte is a function of the frame under reception alone: the frame
behind the byte, and the code the instance is closed with, if it is. The functions of the source
interleave the two; here they are apart, and `consume` is put together from them again.

## Main definitions

* `consume`: the function of the source that reads the next byte
* `RxFrame.take`: the frame behind a byte
* `RxFrame.verdict`: whether a byte closes the instance
* `KeepsSetup`: what no receiving changes

## Main results

* `consume_obeys`: the two cases of a byte
* `consume_rx`: the frame behind a byte, in both
-/

namespace Wic

variable {σ : Type} (cb : Callbacks σ)

/-- What the receiver does with a byte. -/
def consume (b : UInt8) (w : World σ) : World σ :=
  match w.inst.rx.state with
  | .opcode => opcodeByte cb b w
  | .size => sizeByte cb b w
  | .size0 | .size1 | .size2 | .size3 | .size4 | .size5 | .size6 | .size7 | .size8 | .size9 =>
    extendedSizeByte b w
  | .mask0 | .mask1 | .mask2 | .mask3 => maskByte b w
  | .data => dataByte cb b w

theorem consume_data {w : World σ} (hd : w.inst.rx.state = .data) (b : UInt8) :
    consume cb b w = dataByte cb b w := by
  rw [consume, hd]

/-! ## The frame behind a byte -/

namespace RxFrame

/-- The frame once `parse_opcode` has split the byte `b`. -/
def opened (b : UInt8) (rx : RxFrame) : RxFrame :=
  { rx with
    s := rx.s.rewind
    fin := b &&& 0x80 ≠ 0
    rsv1 := b &&& 0x40 ≠ 0
    rsv2 := b &&& 0x20 ≠ 0
    rsv3 := b &&& 0x10 ≠ 0
    utf8 := 0 }

/-- An RSV bit is set. -/
def rsv (rx : RxFrame) : Bool := rx.rsv1 || rx.rsv2 || rx.rsv3

/-- The frame behind its first byte; a continuation goes on with the text at `utf8Rx`. -/
def takeOpcode (utf8Rx : Nat) (b : UInt8) (rx : RxFrame) : RxFrame :=
  let rx := rx.opened b
  if rx.rsv then rx
  else
    { rx with
      opcode := byteToOpcode b
      utf8 := if byteToOpcode b = .continue ∧ rx.frag ≠ .continue then utf8Rx else 0
      state := .size }

/-- The frame once `parse_size` has split the byte `b`. -/
def sized (b : UInt8) (rx : RxFrame) : RxFrame :=
  { rx with masked := b &&& 0x80 ≠ 0, size := (b &&& 0x7f).toNat }

/-- The state behind the second byte. -/
def branch (rx : RxFrame) : RxFrame :=
  if rx.size = 127 then { rx with state := .size2, size := 0 }
  else if rx.size = 126 then { rx with state := .size0, size := 0 }
  else { rx with state := rx.afterSize }

theorem branch_s (rx : RxFrame) : rx.branch.s = rx.s := by
  unfold branch
  split_ifs <;> rfl

/-- The frame behind a byte of the extended length. -/
def takeExtendedSize (b : UInt8) (rx : RxFrame) : RxFrame :=
  { rx with size := (rx.size * 256 + b.toNat) % 2 ^ 64, state := rx.nextSize }

theorem maskIndex_lt (rx : RxFrame) : (rx.state.maskIndex : Nat) < 4 := rx.state.maskIndex.isLt

/-- The frame behind a byte of the mask. -/
def takeMask (b : UInt8) (rx : RxFrame) : RxFrame :=
  { rx with
    mask := rx.mask.set rx.state.maskIndex b rx.maskIndex_lt
    state := rx.state.nextMask }

/-- The byte of the payload that is sent as `b`. -/
def unmask (b : UInt8) (rx : RxFrame) : UInt8 :=
  if rx.masked then b ^^^ rx.mask[rx.s.pos % 4] else b

/-- The frame with one more byte of its payload in the buffer. -/
def stored (b : UInt8) (rx : RxFrame) : RxFrame :=
  { rx with size := rx.size - 1, s := rx.s.putU8 (rx.unmask b) }

@[simp] theorem stored_utf8 (b : UInt8) (rx : RxFrame) : (rx.stored b).utf8 = rx.utf8 := rfl

/-- The byte just stored is one of a text: of a text message, or of the reason of a close. -/
def inText (rx : RxFrame) : Bool :=
  rx.dataOpcode = .text || rx.dataOpcode = .close && 2 < rx.s.pos

/-- The frame behind a byte of its payload. -/
def takeData (b : UInt8) (rx : RxFrame) : RxFrame :=
  let rx' := rx.stored b
  if rx'.inText then { rx' with utf8 := utf8Parse rx.utf8 (rx.unmask b) } else rx'

/-- The frame behind a byte. -/
def take (utf8Rx : Nat) (b : UInt8) (rx : RxFrame) : RxFrame :=
  match rx.state with
  | .opcode => rx.takeOpcode utf8Rx b
  | .size => (rx.sized b).branch
  | .size0 | .size1 | .size2 | .size3 | .size4 | .size5 | .size6 | .size7 | .size8 | .size9 =>
    rx.takeExtendedSize b
  | .mask0 | .mask1 | .mask2 | .mask3 => rx.takeMask b
  | .data => rx.takeData b

/-! ## The verdict on a byte -/

/-- The opcode filter closes the instance. -/
def refusesOpcode (rx : RxFrame) : Bool :=
  match rx.opcode with
  | .close | .ping | .pong => !rx.fin
  | .continue => rx.frag = .continue
  | .text | .binary => rx.frag ≠ .continue
  | _ => true

/-- The code the length of a control frame closes the instance with. -/
def refusesSize (rx : RxFrame) : Option UInt16 :=
  match rx.opcode with
  | .close =>
    if 125 < rx.size ∨ rx.size = 1 then some closeProtocolError
    else if rx.size = 0 then some closeNormal
    else if rx.s.max < rx.size then some closeTooBig
    else none
  | .ping | .pong =>
    if 125 < rx.size then some closeProtocolError
    else if rx.s.max < rx.size then some closeTooBig
    else none
  | _ => none

/-- The type of the buffer for the close frame that answers a text that is not UTF-8. -/
def textClose (rx : RxFrame) : BufferType :=
  if rx.dataOpcode = .text then .close else .closeResponse

/-- The code and the buffer with which a byte closes the instance. -/
def verdict (utf8Rx : Nat) (b : UInt8) (rx : RxFrame) : Option (UInt16 × BufferType) :=
  match rx.state with
  | .opcode =>
    let rx := rx.opened b
    if rx.rsv || { rx with opcode := byteToOpcode b }.refusesOpcode then
      some (closeProtocolError, .close)
    else none
  | .size => (rx.sized b).refusesSize.map fun code => (code, .close)
  | .data =>
    if (rx.stored b).inText && utf8IsInvalid (rx.take utf8Rx b).utf8 then
      some (closeInvalidData, rx.textClose)
    else none
  | _ => none

end RxFrame

/-! ## The two cases of a byte -/

section Consume

variable {cb} {w : World σ} {b : UInt8}

theorem World.updateRx_updateRx (f g : RxFrame → RxFrame) (w : World σ) :
    (w.updateRx f).updateRx g = w.updateRx (g ∘ f) := rfl

theorem World.updateRx_congr {f g : RxFrame → RxFrame} {w : World σ}
    (h : f w.inst.rx = g w.inst.rx) : w.updateRx f = w.updateRx g := by
  simp only [World.updateRx, World.update, h]

variable (cb w b) in
/-- What a byte does to a world: the frame changes, and with a verdict the instance is closed on the
way. -/
inductive Obeys : World σ → Prop
  | stays (f : RxFrame → RxFrame) (h : w.inst.rx.verdict w.inst.utf8Rx b = none)
      (hf : f w.inst.rx = w.inst.rx.take w.inst.utf8Rx b) : Obeys (w.updateRx f)
  | closes (f g : RxFrame → RxFrame) (code : UInt16) (type : BufferType)
      (h : w.inst.rx.verdict w.inst.utf8Rx b = some (code, type))
      (hf : g (f w.inst.rx) = w.inst.rx.take w.inst.utf8Rx b)
      (hs : (f w.inst.rx).s = (w.inst.rx.take w.inst.utf8Rx b).s)
      (hg : (f w.inst.rx).frag = w.inst.rx.frag) :
      Obeys ((closeWithCode cb code type (w.updateRx f)).updateRx g)

/-- A continuation is refused when there is nothing to go on with. -/
theorem RxFrame.refusesOpcode_continue {rx : RxFrame} (h : rx.opcode = .continue) :
    rx.refusesOpcode = decide (rx.frag = .continue) := by
  simp [refusesOpcode, h]

theorem filterOpcode_eq (w : World σ) :
    filterOpcode cb w =
      if w.inst.rx.refusesOpcode then closeWithCode cb closeProtocolError .close w
      else w.updateRx fun rx =>
        { rx with utf8 := if rx.opcode = .continue then w.inst.utf8Rx else rx.utf8 } := by
  have hid (h : w.inst.rx.opcode ≠ .continue) : w = w.updateRx fun rx =>
      { rx with utf8 := if rx.opcode = .continue then w.inst.utf8Rx else rx.utf8 } := by
    conv_lhs => rw [show w = w.updateRx id from rfl]
    exact World.updateRx_congr (by simp [h])
  unfold filterOpcode RxFrame.refusesOpcode
  cases h : w.inst.rx.opcode with
  | «continue» =>
    by_cases hf : w.inst.rx.frag = .continue
    · simp [hf]
    · simpa [hf] using World.updateRx_congr (by simp [h])
  | text | binary =>
    by_cases hf : w.inst.rx.frag = .continue
    · simpa [hf] using hid (by simp [h])
    · simp [hf]
  | close | ping | pong =>
    by_cases hf : w.inst.rx.fin = true
    · simpa [hf] using hid (by simp [h])
    · simp [hf]
  | _ => rfl

theorem obeys_opcode (h : w.inst.rx.state = .opcode) : Obeys cb w b (opcodeByte cb b w) := by
  have hrun : opcodeByte cb b w =
      if (w.inst.rx.opened b).rsv then
        closeWithCode cb closeProtocolError .close (w.updateRx (RxFrame.opened b))
      else (filterOpcode cb (w.updateRx fun rx =>
        { rx.opened b with opcode := byteToOpcode b })).updateRx fun rx =>
          { rx with state := .size } := rfl
  rw [hrun]
  -- an RSV bit closes the instance before the opcode is looked at
  by_cases hrsv : (w.inst.rx.opened b).rsv = true
  · rw [if_pos hrsv]
    have htake : w.inst.rx.take w.inst.utf8Rx b = w.inst.rx.opened b := by
      simp [RxFrame.take, RxFrame.takeOpcode, h, hrsv]
    refine .closes (RxFrame.opened b) id closeProtocolError .close ?_ htake.symm ?_ rfl
    · simp [RxFrame.verdict, h, hrsv]
    · rw [htake]
  rw [if_neg hrsv, filterOpcode_eq]
  have htake : w.inst.rx.take w.inst.utf8Rx b =
      { w.inst.rx.opened b with
        opcode := byteToOpcode b
        utf8 := if byteToOpcode b = .continue ∧ w.inst.rx.frag ≠ .continue then w.inst.utf8Rx else 0
        state := .size } := by
    simp only [RxFrame.take, RxFrame.takeOpcode, h, hrsv]
    rfl
  have hcont (ho : byteToOpcode b = .continue) :
      ({ w.inst.rx.opened b with opcode := byteToOpcode b } : RxFrame).refusesOpcode =
        decide (w.inst.rx.frag = .continue) := RxFrame.refusesOpcode_continue ho
  by_cases href : ({ w.inst.rx.opened b with opcode := byteToOpcode b } : RxFrame).refusesOpcode
  · rw [if_pos (by exact href)]
    refine .closes _ _ closeProtocolError .close ?_ ?_ (by rw [htake]) rfl
    · simp [RxFrame.verdict, h, href]
    · have hutf8 : ¬(byteToOpcode b = .continue ∧ w.inst.rx.frag ≠ .continue) := by
        rintro ⟨ho, hf⟩
        rw [hcont ho] at href
        exact hf (of_decide_eq_true href)
      rw [htake, if_neg hutf8]
      rfl
  · rw [if_neg (by exact href), World.updateRx_updateRx, World.updateRx_updateRx]
    refine .stays _ ?_ ?_
    · simp [RxFrame.verdict, h, href, hrsv]
    · rw [htake]
      by_cases ho : byteToOpcode b = .continue
      · have hf : w.inst.rx.frag ≠ .continue := by
          rw [hcont ho] at href
          exact fun hf => href (by simp [hf])
        simp [ho, hf]
      · simp [ho, RxFrame.opened]

theorem filterSize_eq (w : World σ) :
    filterSize cb w = match w.inst.rx.refusesSize with
      | some code => closeWithCode cb code .close w
      | none => w := by
  unfold filterSize RxFrame.refusesSize
  cases w.inst.rx.opcode with
  | close | ping | pong =>
    dsimp only
    split_ifs <;> rfl
  | _ => rfl

theorem obeys_size (h : w.inst.rx.state = .size) : Obeys cb w b (sizeByte cb b w) := by
  have hrun : sizeByte cb b w =
      (filterSize cb (w.updateRx (RxFrame.sized b))).updateRx RxFrame.branch := rfl
  rw [hrun, filterSize_eq]
  have htake : w.inst.rx.take w.inst.utf8Rx b = (w.inst.rx.sized b).branch := by
    simp [RxFrame.take, h]
  cases hc : (w.inst.rx.sized b).refusesSize with
  | some code =>
    rw [show (w.updateRx (RxFrame.sized b)).inst.rx.refusesSize = some code from hc]
    refine .closes _ _ code .close (by simp [RxFrame.verdict, h, hc]) htake.symm ?_ rfl
    rw [htake, RxFrame.branch_s]
  | none =>
    rw [show (w.updateRx (RxFrame.sized b)).inst.rx.refusesSize = none from hc]
    exact .stays (RxFrame.branch ∘ RxFrame.sized b) (by simp [RxFrame.verdict, h, hc]) htake.symm

theorem checkUtf8_eq (type : BufferType) (w : World σ) :
    checkUtf8 cb b type w =
      let w := w.updateRx fun rx => { rx with utf8 := utf8Parse rx.utf8 b }
      if utf8IsInvalid w.inst.rx.utf8 then closeWithCode cb closeInvalidData type w else w := rfl

theorem dataByte_eq (w : World σ) :
    dataByte cb b w =
      if (w.inst.rx.stored b).inText then
        checkUtf8 cb (w.inst.rx.unmask b) w.inst.rx.textClose (w.updateRx (RxFrame.stored b))
      else w.updateRx (RxFrame.stored b) := by
  have hstored : w.updateRx (RxFrame.stored b) = w.updateRx fun rx =>
      { rx with size := rx.size - 1, s := w.inst.rx.s.putU8 (w.inst.rx.unmask b) } :=
    World.updateRx_congr rfl
  have hbyte : (if w.inst.rx.masked then w.inst.rx.s.putU8Masked b w.inst.rx.mask
      else (w.inst.rx.s.putU8 b, b)) =
      (w.inst.rx.s.putU8 (w.inst.rx.unmask b), w.inst.rx.unmask b) := by
    unfold RxFrame.unmask
    split_ifs <;> rfl
  have hop : (w.inst.rx.stored b).dataOpcode = w.inst.rx.dataOpcode := rfl
  unfold dataByte
  dsimp only
  rw [hbyte, hstored]
  simp only [World.updateRx_inst, RxFrame.inText, RxFrame.textClose, hop]
  rw [show ({ w.inst.rx with
      size := w.inst.rx.size - 1
      s := w.inst.rx.s.putU8 (w.inst.rx.unmask b) } : RxFrame).dataOpcode =
    w.inst.rx.dataOpcode from rfl]
  cases w.inst.rx.dataOpcode with
  | text => rfl
  | close =>
    by_cases hp : 2 < (w.inst.rx.s.putU8 (w.inst.rx.unmask b)).pos <;> simp [RxFrame.stored, hp]
  | _ => rfl

theorem obeys_data (h : w.inst.rx.state = .data) : Obeys cb w b (dataByte cb b w) := by
  rw [dataByte_eq]
  have htake : w.inst.rx.take w.inst.utf8Rx b = w.inst.rx.takeData b := by
    simp [RxFrame.take, h]
  by_cases ht : (w.inst.rx.stored b).inText = true
  · rw [if_pos ht, checkUtf8_eq]
    have htext : w.inst.rx.takeData b =
        { w.inst.rx.stored b with utf8 := utf8Parse w.inst.rx.utf8 (w.inst.rx.unmask b) } := by
      simp [RxFrame.takeData, ht]
    rw [World.updateRx_updateRx]
    dsimp only
    split_ifs with hi
    · refine .closes _ id closeInvalidData w.inst.rx.textClose ?_ (htake.trans htext).symm
        (by rw [htake, htext]; rfl) rfl
      simpa [RxFrame.verdict, h, ht, htake, htext] using hi
    · refine .stays _ ?_ (htake.trans htext).symm
      simpa [RxFrame.verdict, h, ht, htake, htext] using hi
  · rw [if_neg ht]
    refine .stays _ (by simp [RxFrame.verdict, h, ht]) ?_
    rw [htake]
    simp [RxFrame.takeData, ht]

variable (cb) in
/-- **A byte changes the frame as `take` says, and closes the instance when there is a verdict.** -/
theorem consume_obeys (w : World σ) (b : UInt8) : Obeys cb w b (consume cb b w) := by
  unfold consume
  cases h : w.inst.rx.state with
  | opcode => exact obeys_opcode h
  | size => exact obeys_size h
  | data => exact obeys_data h
  | mask0 | mask1 | mask2 | mask3 =>
    exact .stays (RxFrame.takeMask b) (by simp [RxFrame.verdict, h]) (by simp [RxFrame.take, h])
  | _ =>
    exact .stays (RxFrame.takeExtendedSize b) (by simp [RxFrame.verdict, h])
      (by simp [RxFrame.take, h])

theorem consume_of_none (h : w.inst.rx.verdict w.inst.utf8Rx b = none) :
    consume cb b w = w.updateRx fun rx => rx.take w.inst.utf8Rx b := by
  have hobeys := consume_obeys cb w b
  generalize consume cb b w = w' at hobeys ⊢
  cases hobeys with
  | stays f _ hf => exact World.updateRx_congr hf
  | closes f g code type h' => simp [h] at h'

end Consume

/-! ## What receiving keeps -/

/-- The fields of an instance that receiving does not write, the direction of the state, and the
progress of sending. -/
structure KeepsSetup (w w' : World σ) : Prop where
  inst : w'.inst = { w.inst with
    rx := w'.inst.rx, utf8Rx := w'.inst.utf8Rx, state := w'.inst.state, frag := w'.inst.frag,
    utf8Tx := w'.inst.utf8Tx, pos := w'.inst.pos, txHeader := w'.inst.txHeader }
  state : w.inst.state.Leads w'.inst.state
  sends : w.inst.progress.Sane → w'.inst.progress.Sane

namespace KeepsSetup

variable {w w' w'' : World σ}

theorem role (h : KeepsSetup w w') : w'.inst.role = w.inst.role := by rw [h.inst]

theorem refl (w : World σ) : KeepsSetup w w := ⟨rfl, .refl _, id⟩

theorem trans (h : KeepsSetup w w') (h' : KeepsSetup w' w'') : KeepsSetup w w'' :=
  ⟨by rw [h'.inst, h.inst], h.state.trans h'.state, h'.sends ∘ h.sends⟩

theorem updateRx (f : RxFrame → RxFrame) : KeepsSetup w (w.updateRx f) := ⟨rfl, .refl _, id⟩

end KeepsSetup

theorem Keeps.setup {w w' : World σ} (h : Keeps w w') : KeepsSetup w w' :=
  ⟨by rw [h.inst], h.state, h.sends⟩

section Respect

variable {G : Prop} {cb} {w : World σ}

theorem closeWithCode_quiet (hcb : cb.Respect (QuietAt G)) (w : World σ)
    (hr : w.inst.role = .client) (code : UInt16) {type : BufferType}
    (ht : type = .close ∨ type = .closeResponse) :
    Quiet G w (closeWithCode cb code type w) :=
  closeWithReason_quiet hcb hr ht fun _ => .inr (by decide)

/-- A verdict asks for one of the two buffers for close frames. -/
theorem RxFrame.verdict_type {rx : RxFrame} {u : Nat} {b : UInt8} {code : UInt16}
    {type : BufferType} (h : rx.verdict u b = some (code, type)) :
    type = .close ∨ type = .closeResponse := by
  unfold verdict at h
  split at h
  · dsimp only at h
    split_ifs at h
    simp_all
  · obtain ⟨_, _, h⟩ := Option.map_eq_some_iff.mp h
    simp_all
  · split_ifs at h
    unfold textClose at h
    split_ifs at h <;> simp_all
  · cases h

/-- **The frame behind a byte is `take` of the frame before, whatever the callbacks do.** -/
theorem consume_rx (hcb : cb.Respect (QuietAt G)) (hr : w.inst.role = .client) (b : UInt8) :
    (consume cb b w).inst.rx = w.inst.rx.take w.inst.utf8Rx b := by
  have hobeys := consume_obeys cb w b
  generalize consume cb b w = w' at hobeys ⊢
  cases hobeys with
  | stays f _ hf => exact hf
  | closes f g code type h hf =>
    have hq : Quiet G (w.updateRx f) (closeWithCode cb code type (w.updateRx f)) :=
      closeWithCode_quiet hcb (w.updateRx f) hr code (RxFrame.verdict_type h)
    rw [World.updateRx_inst, hq.rx]
    exact hf

theorem consume_setup (hcb : cb.Respect (QuietAt G)) (hr : w.inst.role = .client) (b : UInt8) :
    KeepsSetup w (consume cb b w) := by
  have hobeys := consume_obeys cb w b
  generalize consume cb b w = w' at hobeys ⊢
  cases hobeys with
  | stays f => exact .updateRx f
  | closes f g code type h =>
    have hq : Quiet G (w.updateRx f) (closeWithCode cb code type (w.updateRx f)) :=
      closeWithCode_quiet hcb (w.updateRx f) hr code (RxFrame.verdict_type h)
    exact (KeepsSetup.updateRx f).trans (hq.toKeeps.setup.trans (.updateRx g))

end Respect

end Wic
