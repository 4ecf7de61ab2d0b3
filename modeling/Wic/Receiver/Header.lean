import Wic.Commons.Frame
import Wic.Receiver.Obliging

/-!
# The header of a frame

What the receiver makes of the header of a websocket frame, from the boundary between two frames on.
A header that is let through leaves the frame under reception with the fields of that frame; any
other closes the instance, with `WIC_CLOSE_PROTOCOL_ERROR` exactly when the frame may not come next.

## Main definitions

* `Boundary`: an open instance between two frames
* `RxFrame.inside`: the message in progress
* `RxFrame.Flows`, `RxFrame.Breaks`: bytes that are read without anything else happening, and bytes
  that are up to one with a verdict
* `RxFrame.entered`: the frame behind its header
* `headerVerdict`: the code a header closes the instance with

## Main results

* `headerVerdict_eq_protocolError_iff`: the protocol error is for the frames that may not come next
* `received_header`: a header that is let through
* `received_header_verdict`: a header that is not
-/

namespace Wic

open Websocket (Frame Kind LengthForm bigEndian)

variable {σ : Type}

/-! ## Bytes that flow -/

namespace RxFrame

/-- Bytes that are read without a verdict and without work on the way. -/
def Flows (u : Nat) : List UInt8 → RxFrame → Prop
  | [], _ => True
  | b :: bs, rx => rx.Rests ∧ rx.verdict u b = none ∧ Flows u bs (rx.take u b)

/-- Bytes that flow up to one that closes the instance. -/
def Breaks (u : Nat) (r : UInt16 × BufferType) : List UInt8 → RxFrame → Prop
  | [], _ => False
  | b :: bs, rx =>
    rx.Rests ∧ (rx.verdict u b = some r ∨ rx.verdict u b = none ∧ Breaks u r bs (rx.take u b))

/-- The frame behind a list of bytes. -/
def takeAll (u : Nat) (bs : List UInt8) (rx : RxFrame) : RxFrame :=
  bs.foldl (fun rx b => rx.take u b) rx

variable {u : Nat} {rx : RxFrame}

theorem takeAll_cons (b : UInt8) (bs : List UInt8) (rx : RxFrame) :
    rx.takeAll u (b :: bs) = (rx.take u b).takeAll u bs := rfl

theorem takeAll_append (as bs : List UInt8) (rx : RxFrame) :
    rx.takeAll u (as ++ bs) = (rx.takeAll u as).takeAll u bs := List.foldl_append

/-- **Bytes that flow leave a lawful frame.** -/
theorem Flows.lawful {bs : List UInt8} (h : rx.Flows u bs) (hl : rx.Lawful) :
    (rx.takeAll u bs).Lawful := by
  induction bs generalizing rx with
  | nil => exact hl
  | cons b bs ih =>
    obtain ⟨hrest, hv, hflows⟩ := h
    exact ih hflows (hl.take hrest hv)

theorem flows_append {as bs : List UInt8} :
    rx.Flows u (as ++ bs) ↔ rx.Flows u as ∧ (rx.takeAll u as).Flows u bs := by
  induction as generalizing rx with
  | nil => simp [Flows, takeAll]
  | cons a as ih => simp only [List.cons_append, Flows, ih, takeAll_cons, and_assoc]

/-- What breaks behind bytes that flow. -/
theorem Flows.breaks {as bs : List UInt8} {r : UInt16 × BufferType} (h : rx.Flows u as)
    (hb : (rx.takeAll u as).Breaks u r bs) : rx.Breaks u r (as ++ bs) := by
  induction as generalizing rx with
  | nil => exact hb
  | cons a as ih =>
    obtain ⟨hrest, hv, hflows⟩ := h
    exact ⟨hrest, .inr ⟨hv, ih hflows hb⟩⟩

/-- The first of the bytes flow, and no work is due behind them, or they break already. -/
theorem Breaks.take {bs : List UInt8} {r : UInt16 × BufferType} (h : rx.Breaks u r bs) (n : Nat) :
    rx.Flows u (bs.take n) ∧ (rx.takeAll u (bs.take n)).Rests ∨ rx.Breaks u r (bs.take n) := by
  induction bs generalizing rx n with
  | nil => exact h.elim
  | cons b bs ih =>
    obtain ⟨hrest, hv⟩ := h
    cases n with
    | zero => exact .inl ⟨trivial, hrest⟩
    | succ n =>
      rcases hv with hv | ⟨hv, hbreaks⟩
      · exact .inr ⟨hrest, .inl hv⟩
      · rcases ih hbreaks n with ⟨hf, hr⟩ | hb
        · exact .inl ⟨⟨hrest, hv, hf⟩, hr⟩
        · exact .inr ⟨hrest, .inr ⟨hv, hb⟩⟩

end RxFrame

section Flows

variable {G : Prop} {cb : Callbacks σ} {w : World σ}

/-- **Bytes that flow change the frame and nothing else**, whatever the callbacks do. -/
theorem drain_flows (ho : w.inst.state = .open) {bs : List UInt8}
    (h : w.inst.rx.Flows w.inst.utf8Rx bs) (cs : List UInt8) :
    drain cb (bs ++ cs) w = drain cb cs (w.updateRx fun rx => rx.takeAll w.inst.utf8Rx bs) := by
  induction bs generalizing w with
  | nil => rfl
  | cons b bs ih =>
    obtain ⟨hrest, hv, hflows⟩ := h
    rw [List.cons_append, drain_cons_of_rests ho hrest, consume_of_none hv]
    exact ih ho hflows

theorem received_flows (ho : w.inst.state = .open) {bs : List UInt8}
    (h : w.inst.rx.Flows w.inst.utf8Rx bs) (cs : List UInt8) :
    received cb (bs ++ cs) w =
      received cb cs (w.updateRx fun rx => rx.takeAll w.inst.utf8Rx bs) :=
  congrArg Prod.snd (drain_flows ho h cs)

/-- A byte with a verdict leaves the instance closed. -/
theorem consume_closed (hcb : cb.Respect (QuietAt G)) (hr : w.inst.role = .client)
    (ho : w.inst.state = .open) {b : UInt8} {r : UInt16 × BufferType}
    (hv : w.inst.rx.verdict w.inst.utf8Rx b = some r) : (consume cb b w).inst.state = .closed := by
  have hlead := (consume_setup hcb hr b).state
  rw [ho] at hlead
  refine hlead.open_or.resolve_left fun ho' => ?_
  simp [verdict_of_open hcb hr ho'] at hv

/-- **Bytes that break close the instance**, whatever the callbacks do. -/
theorem drain_breaks (hcb : cb.Respect (QuietAt G)) (hr : w.inst.role = .client)
    (ho : w.inst.state = .open) {bs : List UInt8} {r : UInt16 × BufferType}
    (h : w.inst.rx.Breaks w.inst.utf8Rx r bs) :
    ∃ f b, (f w.inst.rx).verdict w.inst.utf8Rx b = some r ∧
      ∀ cs, (drain cb (bs ++ cs) w).2 = consume cb b (w.updateRx f) := by
  induction bs generalizing w with
  | nil => exact h.elim
  | cons b bs ih =>
    obtain ⟨hrest, hv | ⟨hv, hbreaks⟩⟩ := h
    · refine ⟨id, b, hv, fun cs => ?_⟩
      have hc := consume_closed hcb hr ho hv
      rw [List.cons_append, drain_cons_of_rests ho hrest, drain_of_not_open (by simp [hc])]
      rfl
    · obtain ⟨f, c, hv', hrun⟩ :=
        ih (w := w.updateRx fun rx => rx.take w.inst.utf8Rx b) hr ho hbreaks
      refine ⟨f ∘ fun rx => rx.take w.inst.utf8Rx b, c, hv', fun cs => ?_⟩
      rw [List.cons_append, drain_cons_of_rests ho hrest, consume_of_none hv, hrun,
        World.updateRx_updateRx]

end Flows

/-! ## The length -/

theorem foldl_size_mod (acc : Nat) (bs : List UInt8) :
    bs.foldl (fun a b => (a * 256 + b.toNat) % 2 ^ 64) (acc % 2 ^ 64) =
      bs.foldl (fun a b => a * 256 + b.toNat) acc % 2 ^ 64 := by
  induction bs generalizing acc with
  | nil => rfl
  | cons b bs ih =>
    have hstep : (acc % 2 ^ 64 * 256 + b.toNat) % 2 ^ 64 = (acc * 256 + b.toNat) % 2 ^ 64 := by
      omega
    rw [List.foldl_cons, List.foldl_cons, hstep, ih]

/-- The bytes of a length add up to it. -/
theorem size_bigEndian {n v : Nat} (h : v < 256 ^ n) (hv : v < 2 ^ 64) :
    (bigEndian n v).foldl (fun a b => (a * 256 + b.toNat) % 2 ^ 64) 0 = v := by
  have hfold := foldl_size_mod 0 (bigEndian n v)
  rw [Websocket.foldl_bigEndian, Nat.zero_mul, Nat.zero_add, Nat.mod_eq_of_lt h,
    Nat.mod_eq_of_lt hv] at hfold
  exact hfold

namespace RxFrame

/-- `parse_extended_size` over the bytes of a length. -/
def sizeOf (bs : List UInt8) : Nat := bs.foldl (fun a b => (a * 256 + b.toNat) % 2 ^ 64) 0

theorem takeAll_two (u : Nat) (rx : RxFrame) (a b : UInt8) :
    ({ rx with state := .size0, size := 0 } : RxFrame).takeAll u [a, b] =
      { rx with state := rx.afterSize, size := sizeOf [a, b] } := rfl

theorem takeAll_eight (u : Nat) (rx : RxFrame) (a b c d e f g h : UInt8) :
    ({ rx with state := .size2, size := 0 } : RxFrame).takeAll u [a, b, c, d, e, f, g, h] =
      { rx with state := rx.afterSize, size := sizeOf [a, b, c, d, e, f, g, h] } := by
  simp only [takeAll, sizeOf, List.foldl_cons, List.foldl_nil, take, takeExtendedSize, nextSize,
    afterSize]

theorem flows_two (u : Nat) (rx : RxFrame) (a b : UInt8) :
    ({ rx with state := .size0, size := 0 } : RxFrame).Flows u [a, b] := by
  simp [Flows, Rests, verdict, take, takeExtendedSize, nextSize]

theorem flows_eight (u : Nat) (rx : RxFrame) (a b c d e f g h : UInt8) :
    ({ rx with state := .size2, size := 0 } : RxFrame).Flows u [a, b, c, d, e, f, g, h] := by
  simp [Flows, Rests, verdict, take, takeExtendedSize, nextSize]

theorem toList_key (key : Mask) :
    key.toList = [key.get 0, key.get 1, key.get 2, key.get 3] := by
  have hbytes : key.toList = [key[0], key[1], key[2], key[3]] := by
    refine List.ext_getElem (by simp) fun i hi _ => ?_
    rw [Vector.length_toList] at hi
    rcases i with _ | _ | _ | _ | i <;> simp
    omega
  exact hbytes

theorem takeAll_key (u : Nat) (rx : RxFrame) (key : Mask) :
    ({ rx with state := .mask0 } : RxFrame).takeAll u key.toList =
      { rx with state := .data, mask := key } := by
  have hset : (((rx.mask.set 0 key[0]).set 1 key[1]).set 2 key[2]).set 3 key[3] = key := by
    refine Vector.ext fun i hi => ?_
    rcases i with _ | _ | _ | _ | i <;> simp
    omega
  have hbytes : key.toList = [key[0], key[1], key[2], key[3]] := toList_key key
  rw [hbytes]
  simp only [takeAll, List.foldl_cons, List.foldl_nil, take, takeMask, RxState.nextMask,
    RxState.maskIndex]
  congr

theorem flows_key (u : Nat) (rx : RxFrame) (key : Mask) :
    ({ rx with state := .mask0 } : RxFrame).Flows u key.toList := by
  rw [toList_key]
  simp [Flows, Rests, verdict, take, takeMask, RxState.nextMask]

end RxFrame

/-! ## The two bytes that are judged -/

/-- The opcode with a number. -/
def Opcode.ofFin (o : Fin 16) : Opcode := opcodes.getD o .reserve15

/-- The first byte of a frame, taken apart. -/
theorem firstByte_split (f : Frame) :
    decide (f.firstByte &&& 0x80 ≠ 0) = f.fin ∧
      (decide (f.firstByte &&& 0x40 ≠ 0) || decide (f.firstByte &&& 0x20 ≠ 0) ||
        decide (f.firstByte &&& 0x10 ≠ 0)) = decide (f.rsv ≠ 0) ∧
      byteToOpcode f.firstByte = .ofFin f.opcode := by
  have h : ∀ (fin : Bool) (rsv : Fin 8) (o : Fin 16),
      let b := UInt8.ofNat ((if fin then 128 else 0) + rsv * 16 + o)
      decide (b &&& 0x80 ≠ 0) = fin ∧
        (decide (b &&& 0x40 ≠ 0) || decide (b &&& 0x20 ≠ 0) || decide (b &&& 0x10 ≠ 0)) =
          decide (rsv ≠ 0) ∧ byteToOpcode b = .ofFin o := by decide +kernel
  exact h f.fin f.rsv f.opcode

/-- The second byte of a frame, taken apart. -/
theorem secondByte_split (f : Frame) {form : LengthForm} (h : form.Holds f.payload.length) :
    decide (f.secondByteAs form &&& 0x80 ≠ 0) = f.key.isSome ∧
      (f.secondByteAs form &&& 0x7f).toNat = form.bits f.payload.length := by
  have h : ∀ (masked : Bool) (n : Fin 128),
      let b := UInt8.ofNat ((if masked then 128 else 0) + n)
      decide (b &&& 0x80 ≠ 0) = masked ∧ (b &&& 0x7f).toNat = n := by decide +kernel
  exact h f.key.isSome ⟨_, LengthForm.bits_lt ‹_›⟩

/-- The message in progress. -/
def RxFrame.inside (rx : RxFrame) : Option Kind :=
  match rx.frag with
  | .text => some .text
  | .binary => some .binary
  | _ => none

/-- The first byte of the frame is one that may come next. -/
def startAllowed (inside : Option Kind) (f : Frame) : Bool :=
  f.rsv.val = 0 &&
    match f.opcode.val with
    | 0 => inside.isSome
    | 1 | 2 => inside.isNone
    | 8 | 9 | 10 => f.fin
    | _ => false

theorem rsv_of_startAllowed {inside : Option Kind} {f : Frame} (h : startAllowed inside f = true) :
    f.rsv = 0 := by
  unfold startAllowed at h
  simpa using (Bool.and_eq_true_iff.mp h).1

/-- The code the length of a frame closes the instance with, when the buffer has room for `room`
bytes. -/
def sizeVerdict (room : Nat) (f : Frame) : Option UInt16 :=
  let n := f.payload.length
  match f.opcode.val with
  | 8 =>
    if 125 < n ∨ n = 1 then some closeProtocolError
    else if n = 0 then some closeNormal
    else if room < n then some closeTooBig
    else none
  | 9 | 10 =>
    if 125 < n then some closeProtocolError else if room < n then some closeTooBig else none
  | _ => none

/-- The code a length in the given form closes the instance with: a control frame has only the short
form. -/
def sizeVerdictAs (form : LengthForm) (room : Nat) (f : Frame) : Option UInt16 :=
  if form = .short then sizeVerdict room f
  else if f.opcode.val = 8 ∨ f.opcode.val = 9 ∨ f.opcode.val = 10 then some closeProtocolError
  else none

/-- The code the header of a frame closes the instance with. -/
def headerVerdict (inside : Option Kind) (room : Nat) (f : Frame) : Option UInt16 :=
  if startAllowed inside f then sizeVerdict room f else some closeProtocolError

/-- The code a header with the length in the given form closes the instance with. -/
def headerVerdictAs (form : LengthForm) (inside : Option Kind) (room : Nat) (f : Frame) :
    Option UInt16 :=
  if startAllowed inside f then sizeVerdictAs form room f else some closeProtocolError

/-- The length of a header is in its minimal form. -/
theorem headerVerdict_eq (inside : Option Kind) (room : Nat) (f : Frame) :
    headerVerdict inside room f =
      headerVerdictAs (.minimal f.payload.length) inside room f := by
  have hsize : sizeVerdict room f = sizeVerdictAs (.minimal f.payload.length) room f := by
    unfold sizeVerdictAs LengthForm.minimal
    by_cases hs : f.payload.length ≤ 125
    · simp [hs]
    · have hlong : 125 < f.payload.length := Nat.not_le.mp hs
      rw [if_neg hs, if_neg (by split_ifs <;> simp)]
      unfold sizeVerdict
      dsimp only
      split
      · next h => simp [h, hlong]
      · next h => simp [h, hlong]
      · next h => simp [h, hlong]
      · next h₈ h₉ h₁₀ =>
        rw [if_neg]
        rintro (h | h | h)
        · exact h₈ h
        · exact h₉ h
        · exact h₁₀ h
  rw [headerVerdict, headerVerdictAs, hsize]

/-- The control frames that may not come next because of their length. -/
theorem sizeVerdict_eq_protocolError_iff (room : Nat) (f : Frame) :
    sizeVerdict room f = some closeProtocolError ↔
      (f.opcode.val = 8 ∨ f.opcode.val = 9 ∨ f.opcode.val = 10) ∧ 125 < f.payload.length ∨
        f.opcode.val = 8 ∧ f.payload.length = 1 := by
  have hnormal : closeNormal ≠ closeProtocolError := by decide
  have hbig : closeTooBig ≠ closeProtocolError := by decide
  unfold sizeVerdict
  dsimp only
  split
  · split_ifs <;> simp_all
  · split_ifs <;> simp_all
  · split_ifs <;> simp_all
  · simp_all

/-- **The protocol error is for the frames that may not come next.** -/
theorem headerVerdict_eq_protocolError_iff (inside : Option Kind) (room : Nat) (f : Frame) :
    headerVerdict inside room f = some closeProtocolError ↔ ¬f.Legal inside := by
  have hsize := sizeVerdict_eq_protocolError_iff room f
  unfold headerVerdict startAllowed Frame.Legal
  by_cases hrsv : f.rsv = 0
  swap
  · simp [hrsv]
  simp only [hrsv, Fin.val_zero, decide_true, Bool.true_and, true_and]
  -- one case for each opcode that has rules of its own
  split <;> cases inside <;> cases f.fin <;> simp_all <;> omega

/-- A legal frame is let through unless it is a close or does not fit the buffer. -/
theorem headerVerdict_of_legal {inside : Option Kind} {room : Nat} {f : Frame}
    (hl : f.Legal inside) (h₈ : f.opcode.val ≠ 8)
    (hfit : f.opcode.val = 9 ∨ f.opcode.val = 10 → f.payload.length ≤ room) :
    headerVerdict inside room f = none := by
  have hstart : startAllowed inside f = true := by
    by_contra hno
    refine (headerVerdict_eq_protocolError_iff inside room f).mp ?_ hl
    rw [headerVerdict, if_neg hno]
  have hshort (h : f.opcode.val = 9 ∨ f.opcode.val = 10) : f.payload.length ≤ 125 := by
    rcases h with h | h <;> simp only [Frame.Legal, h] at hl <;> exact hl.2.2
  rw [headerVerdict, if_pos hstart]
  unfold sizeVerdict
  dsimp only
  split
  · next h => exact absurd h h₈
  · next h => rw [if_neg (Nat.not_lt.mpr (hshort (.inl h))), if_neg (Nat.not_lt.mpr (hfit (.inl h)))]
  · next h => rw [if_neg (Nat.not_lt.mpr (hshort (.inr h))), if_neg (Nat.not_lt.mpr (hfit (.inr h)))]
  · rfl

/-- Every part of a message is let through. -/
theorem headerVerdict_of_carries {inside : Option Kind} {kind : Kind} {room : Nat} {f : Frame}
    (h : f.Carries inside kind) : headerVerdict inside room f = none := by
  have hc := h.isControl
  simp only [Frame.isControl, decide_eq_false_iff_not] at hc
  exact headerVerdict_of_legal h.legal (by omega) (by omega)

/-- The numbers of the control opcodes. -/
theorem Opcode.ofFin_cases (o : Fin 16) :
    Opcode.ofFin o = .close ∧ o.val = 8 ∨ Opcode.ofFin o = .ping ∧ o.val = 9 ∨
      Opcode.ofFin o = .pong ∧ o.val = 10 ∨
      (Opcode.ofFin o).isControl = false ∧ o.val ≠ 8 ∧ o.val ≠ 9 ∧ o.val ≠ 10 := by
  revert o
  decide

namespace RxFrame

variable {u : Nat} {rx : RxFrame} {f : Frame} {form : LengthForm}

/-- The frame with the fields of `f`, behind its header. -/
def entered (u : Nat) (f : Frame) (rx : RxFrame) : RxFrame :=
  { rx with
    s := rx.s.rewind
    fin := f.fin
    rsv1 := false
    rsv2 := false
    rsv3 := false
    opcode := .ofFin f.opcode
    utf8 := if Opcode.ofFin f.opcode = .continue ∧ rx.frag ≠ .continue then u else 0
    size := f.payload.length
    masked := f.key.isSome
    mask := f.key.getD rx.mask
    state := .data }

/-- The opcode filter on the first byte. -/
theorem refusesOpcode_ofFin (hf : rx.frag.isData = true) (ho : rx.opcode = .ofFin f.opcode)
    (hfin : rx.fin = f.fin) (hrsv : f.rsv = 0) :
    rx.refusesOpcode = !startAllowed rx.inside f := by
  have hdata : rx.frag = .continue ∨ rx.frag = .text ∨ rx.frag = .binary := by
    revert hf
    cases rx.frag <;> simp [Opcode.isData]
  unfold refusesOpcode startAllowed inside
  rw [ho, hfin, hrsv]
  generalize f.fin = fin
  generalize f.opcode = o
  rcases hdata with h | h | h <;> rw [h] <;> revert o fin <;> decide

/-- The frame behind its first byte. -/
theorem take_firstByte (hs : rx.state = .opcode) (hrsv : f.rsv = 0) :
    rx.take u f.firstByte =
      { rx with
        s := rx.s.rewind
        fin := f.fin
        rsv1 := false
        rsv2 := false
        rsv3 := false
        opcode := .ofFin f.opcode
        utf8 := if Opcode.ofFin f.opcode = .continue ∧ rx.frag ≠ .continue then u else 0
        state := .size } := by
  obtain ⟨hfin, hbits, hop⟩ := firstByte_split f
  have hclear : (rx.opened f.firstByte).rsv = false := by
    rw [hrsv] at hbits
    exact hbits
  simp only [hrsv, ne_eq, not_true_eq_false, decide_false, Bool.or_eq_false_iff] at hbits
  obtain ⟨⟨h₁, h₂⟩, h₃⟩ := hbits
  simp only [take, hs, takeOpcode, hclear, Bool.false_eq_true, if_false]
  simp only [opened, ne_eq, hfin, h₁, h₂, h₃, hop]

/-- The verdict on the first byte. -/
theorem verdict_firstByte (hs : rx.state = .opcode) (hf : rx.frag.isData = true) :
    rx.verdict u f.firstByte =
      if startAllowed rx.inside f then none else some (closeProtocolError, .close) := by
  obtain ⟨hfin, hbits, hop⟩ := firstByte_split f
  have hrsv : (rx.opened f.firstByte).rsv = decide (f.rsv ≠ 0) := hbits
  simp only [verdict, hs, hrsv]
  by_cases hr : f.rsv = 0
  · have href : ({ rx.opened f.firstByte with opcode := byteToOpcode f.firstByte } :
        RxFrame).refusesOpcode = !startAllowed rx.inside f :=
      refusesOpcode_ofFin hf hop hfin hr
    rw [href]
    cases startAllowed rx.inside f <;> simp [hr]
  · simp [hr, startAllowed]

/-- The frame behind its second byte. -/
theorem take_secondByte (hs : rx.state = .size) (hform : form.Holds f.payload.length) :
    rx.take u (f.secondByteAs form) =
      ({ rx with masked := f.key.isSome, size := form.bits f.payload.length } : RxFrame).branch := by
  obtain ⟨hmask, hlen⟩ := secondByte_split f hform
  simp only [take, hs, sized, ne_eq, hmask, hlen]

theorem refusesSize_of_data (h : rx.opcode.isControl = false) : rx.refusesSize = none := by
  unfold refusesSize
  revert h
  cases rx.opcode <;> simp [Opcode.isControl]

theorem sizeVerdict_of_data {room : Nat}
    (h : f.opcode.val ≠ 8 ∧ f.opcode.val ≠ 9 ∧ f.opcode.val ≠ 10) : sizeVerdict room f = none := by
  obtain ⟨h₈, h₉, h₁₀⟩ := h
  unfold sizeVerdict
  dsimp only
  split <;> simp_all

/-- The verdict on the second byte. -/
theorem verdict_secondByte (hs : rx.state = .size) (ho : rx.opcode = .ofFin f.opcode)
    (hform : form.Holds f.payload.length) :
    rx.verdict u (f.secondByteAs form) =
      (sizeVerdictAs form rx.s.size f).map fun code => (code, .close) := by
  obtain ⟨hmask, hlen⟩ := secondByte_split f hform
  have hop : (rx.sized (f.secondByteAs form)).opcode = .ofFin f.opcode := ho
  have hsize : (rx.sized (f.secondByteAs form)).size = form.bits f.payload.length := hlen
  have hroom : (rx.sized (f.secondByteAs form)).s.max = rx.s.size := rfl
  -- the seven bits are a length up to 125 or name a longer form, which no control frame has
  have hsmall : (rx.sized (f.secondByteAs form)).refusesSize = sizeVerdictAs form rx.s.size f := by
    unfold sizeVerdictAs
    by_cases hshort : form = .short
    · subst hshort
      rw [if_pos rfl]
      -- the control frames have checks of their own, the others have none
      rcases Opcode.ofFin_cases f.opcode with ⟨h, hv⟩ | ⟨h, hv⟩ | ⟨h, hv⟩ | ⟨h, hv⟩
      · simp only [refusesSize, sizeVerdict, hop, hsize, hroom, h, hv, LengthForm.bits]
      · simp only [refusesSize, sizeVerdict, hop, hsize, hroom, h, hv, LengthForm.bits]
      · simp only [refusesSize, sizeVerdict, hop, hsize, hroom, h, hv, LengthForm.bits]
      · rw [refusesSize_of_data (hop ▸ h), sizeVerdict_of_data hv]
    · have hlong : 125 < form.bits f.payload.length := by
        cases form with
        | short => exact absurd rfl hshort
        | medium => exact (by decide : 125 < 126)
        | long => exact (by decide : 125 < 127)
      rw [if_neg hshort]
      rcases Opcode.ofFin_cases f.opcode with ⟨h, hv⟩ | ⟨h, hv⟩ | ⟨h, hv⟩ | ⟨h, hv⟩
      · simp only [refusesSize, hop, hsize, h, hv, hlong, true_or, if_true]
      · simp [refusesSize, hop, hsize, h, hv, hlong]
      · simp [refusesSize, hop, hsize, h, hv, hlong]
      · simp [refusesSize_of_data (hop ▸ h), hv]
  simp only [verdict, hs, hsmall]

/-- The bytes of the extended length. -/
theorem takeAll_extendedLength (u : Nat) (rx : RxFrame) {n : Nat} (hn : n < 2 ^ 64)
    (hform : form.Holds n) :
    (({ rx with size := form.bits n } : RxFrame).branch).takeAll u (form.extension n) =
        { rx with size := n, state := rx.afterSize } ∧
      (({ rx with size := form.bits n } : RxFrame).branch).Flows u (form.extension n) := by
  cases form with
  | short =>
    have hbranch : ({ rx with size := n } : RxFrame).branch =
        { rx with size := n, state := rx.afterSize } := branch_state hform
    exact ⟨hbranch, trivial⟩
  | medium =>
    have hlt : n < 2 ^ 16 := hform
    have hsize : sizeOf (bigEndian 2 n) = n := size_bigEndian (by omega) hn
    refine ⟨?_, flows_two u rx _ _⟩
    conv_rhs => rw [← hsize]
    exact takeAll_two u rx _ _
  | long =>
    have hsize : sizeOf (bigEndian 8 n) = n := size_bigEndian (by omega) hn
    refine ⟨?_, flows_eight u rx _ _ _ _ _ _ _ _⟩
    conv_rhs => rw [← hsize]
    exact takeAll_eight u rx _ _ _ _ _ _ _ _

/-- The bytes behind the second one that belong to the header. -/
theorem takeAll_extension (rx : RxFrame) (f : Frame) (hform : form.Holds f.payload.length) :
    (({ rx with masked := f.key.isSome, size := form.bits f.payload.length } :
        RxFrame).branch).takeAll u (form.extension f.payload.length ++ f.keyBytes) =
        { rx with
          masked := f.key.isSome
          size := f.payload.length
          mask := f.key.getD rx.mask
          state := .data } ∧
      (({ rx with masked := f.key.isSome, size := form.bits f.payload.length } :
        RxFrame).branch).Flows u (form.extension f.payload.length ++ f.keyBytes) := by
  obtain ⟨htake, hflows⟩ := takeAll_extendedLength u
    { rx with masked := f.key.isSome } f.length_lt hform
  rw [takeAll_append, flows_append, htake]
  unfold Frame.keyBytes
  cases hk : f.key with
  | none =>
    rw [hk] at hflows
    exact ⟨rfl, hflows, trivial⟩
  | some key =>
    rw [hk] at hflows
    exact ⟨takeAll_key u { rx with masked := true, size := f.payload.length } key, hflows,
      flows_key u { rx with masked := true, size := f.payload.length } key⟩

/-- **The frame behind a header has the fields of the frame**, whatever the form of the length. -/
theorem takeAll_headerAs (hs : rx.state = .opcode) (hrsv : f.rsv = 0)
    (hform : form.Holds f.payload.length) : rx.takeAll u (f.headerAs form) = rx.entered u f := by
  unfold Frame.headerAs
  rw [takeAll_cons, takeAll_cons, take_firstByte hs hrsv, take_secondByte rfl hform]
  exact (takeAll_extension _ f hform).1

theorem takeAll_header (hs : rx.state = .opcode) (hrsv : f.rsv = 0) :
    rx.takeAll u f.header = rx.entered u f := by
  rw [f.header_eq]
  exact takeAll_headerAs hs hrsv (LengthForm.minimal_holds f.length_lt)

/-- A header without a verdict flows. -/
theorem flows_headerAs (hs : rx.state = .opcode) (hf : rx.frag.isData = true)
    (hform : form.Holds f.payload.length)
    (hv : headerVerdictAs form rx.inside rx.s.size f = none) : rx.Flows u (f.headerAs form) := by
  unfold headerVerdictAs at hv
  split_ifs at hv with hstart
  have hrsv := rsv_of_startAllowed hstart
  unfold Frame.headerAs
  refine ⟨fun h => by simp [hs] at h, by rw [verdict_firstByte hs hf, if_pos hstart], ?_⟩
  rw [take_firstByte hs hrsv]
  refine ⟨fun h => by simp at h, ?_, ?_⟩
  · rw [verdict_secondByte rfl rfl hform]
    simpa using hv
  · rw [take_secondByte rfl hform]
    exact (takeAll_extension _ f hform).2

theorem flows_header (hs : rx.state = .opcode) (hf : rx.frag.isData = true)
    (hv : headerVerdict rx.inside rx.s.size f = none) : rx.Flows u f.header := by
  rw [f.header_eq]
  rw [headerVerdict_eq] at hv
  exact flows_headerAs hs hf (LengthForm.minimal_holds f.length_lt) hv

/-- A header with a verdict breaks. -/
theorem breaks_headerAs (hs : rx.state = .opcode) (hf : rx.frag.isData = true)
    (hform : form.Holds f.payload.length) {code : UInt16}
    (hv : headerVerdictAs form rx.inside rx.s.size f = some code) :
    rx.Breaks u (code, .close) (f.headerAs form) := by
  unfold headerVerdictAs at hv
  unfold Frame.headerAs
  refine ⟨fun h => by simp [hs] at h, ?_⟩
  rw [verdict_firstByte hs hf]
  split_ifs at hv ⊢ with hstart
  · refine .inr ⟨rfl, ?_⟩
    rw [take_firstByte hs (rsv_of_startAllowed hstart)]
    refine ⟨fun h => by simp at h, .inl ?_⟩
    rw [verdict_secondByte rfl rfl hform]
    exact congrArg (Option.map _) hv
  · exact .inl (by rw [Option.some.inj hv])

theorem breaks_header (hs : rx.state = .opcode) (hf : rx.frag.isData = true) {code : UInt16}
    (hv : headerVerdict rx.inside rx.s.size f = some code) :
    rx.Breaks u (code, .close) f.header := by
  rw [f.header_eq]
  rw [headerVerdict_eq] at hv
  exact breaks_headerAs hs hf (LengthForm.minimal_holds f.length_lt) hv

end RxFrame

/-! ## Headers at a boundary -/

/-- An open instance between two frames. -/
structure Boundary (w : World σ) : Prop extends Live w where
  boundary : w.inst.rx.state = .opcode

section Header

variable {cb : Callbacks σ} {w : World σ} {f : Frame}

/-- **A header that is let through.** -/
theorem received_header (h : Boundary w)
    (hv : headerVerdict w.inst.rx.inside w.inst.rx.s.size f = none) (bs : List UInt8) :
    received cb (f.header ++ bs) w =
      received cb bs (w.updateRx fun rx => rx.entered w.inst.utf8Rx f) := by
  have hrsv : f.rsv = 0 := by
    unfold headerVerdict at hv
    split_ifs at hv with hstart
    exact rsv_of_startAllowed hstart
  rw [received_flows h.state (RxFrame.flows_header h.boundary h.lawful.frag hv)]
  congr 1
  exact World.updateRx_congr (RxFrame.takeAll_header h.boundary hrsv)

/-- The instance is closed with `code`: first the code is noted, and then closing takes its
course. -/
structure Closes (code : UInt16) (w w' : World σ) : Prop where
  state : w'.inst.state = .closed
  log : ∃ es, w'.log = w.log ++ .closing code :: es ∧ ∀ e ∈ es, e.Farewell

/-- A byte with a verdict closes the instance. -/
theorem consume_closes (hcb : cb.Passive) (hr : w.inst.role = .client) (ho : w.inst.state = .open)
    {b : UInt8} {code : UInt16} {type : BufferType}
    (hv : w.inst.rx.verdict w.inst.utf8Rx b = some (code, type)) :
    Closes code w (consume cb b w) := by
  have hobeys := consume_obeys cb w b
  generalize consume cb b w = w' at hobeys ⊢
  cases hobeys with
  | stays f h => simp [hv] at h
  | closes f g code' type' h =>
    obtain ⟨rfl, rfl⟩ : code = code' ∧ type = type' := by simpa [hv] using h
    have hr' : (w.updateRx f).inst.role = .client := hr
    obtain ⟨hinst, hlog⟩ :=
      closeWithReason_emits hcb hr' ho code .null (RxFrame.verdict_type hv)
    exact ⟨by rw [World.updateRx_inst, closeWithCode, hinst], hlog⟩

/-- Bytes that break close an instance whose application makes no calls. -/
theorem received_breaks (hcb : cb.Passive) (h : Live w) {bs : List UInt8} {code : UInt16}
    {type : BufferType} (hb : w.inst.rx.Breaks w.inst.utf8Rx (code, type) bs) :
    ∃ w', Closes code w w' ∧ ∀ cs, received cb (bs ++ cs) w = w' := by
  have hq : cb.Respect (QuietAt False) := hcb.quiet
  obtain ⟨f, b, hv, hrun⟩ := drain_breaks hq h.role h.state hb
  have hr : (w.updateRx f).inst.role = .client := h.role
  obtain ⟨hc, hlog⟩ := consume_closes hcb hr h.state hv
  exact ⟨_, ⟨hc, hlog⟩, hrun⟩

/-- **A header that is not let through closes the instance with its code.** -/
theorem received_header_verdict (hcb : cb.Passive) (h : Boundary w) {code : UInt16}
    (hv : headerVerdict w.inst.rx.inside w.inst.rx.s.size f = some code) (bs : List UInt8) :
    Closes code w (received cb (f.header ++ bs) w) ∧
      received cb (f.header ++ bs) w = received cb f.header w := by
  obtain ⟨w', hcl, hrun⟩ := received_breaks hcb h.toLive
    (RxFrame.breaks_header h.boundary h.lawful.frag hv)
  have hnil := hrun []
  rw [List.append_nil] at hnil
  rw [hrun, hnil]
  exact ⟨hcl, rfl⟩

end Header

end Wic
