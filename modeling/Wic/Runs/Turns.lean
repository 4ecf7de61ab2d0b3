import Wic.Commons.Frame
import Wic.Runs.Free

/-!
# The turns of the parsing loop

A turn of the loop of `wic_parse` reads a byte of a header, or a byte of a payload, or both, and may
end the frame. With callbacks that make any call, every turn that leaves the instance open leaves a
lawful frame and fewer turns to go, and the rx buffer holds the bytes that were read last.

## Main definitions

* `headerPart`, `payloadPart`: a turn up to the payload, and up to the end of the frame
* `RxFrame.Holds`: what the rx buffer holds inside a payload
* `Looping`, `Turned`: before a turn, and behind it

## Main results

* `parseStep_turned`: a turn keeps the invariant and comes closer to the end of the loop
-/

namespace Wic

open Websocket (xorKey)

variable {σ : Type} (cb : Callbacks σ)

/-! ## The parts of a turn -/

/-- A turn up to the payload: it reads a byte while the frame is in its header. -/
def headerPart (s : Stream) (w : World σ) : Bool × World σ × Stream :=
  if w.inst.rx.state = .data then (false, w, s)
  else match s.getU8 with
    | (some b, s) => (breaksOff cb s w, consume cb b w, s)
    | (none, s) => (true, w, s)

/-- `parse_data` up to the end of the frame. -/
def payloadPart (s : Stream) (w : World σ) : Bool × World σ × Stream :=
  if 0 < w.inst.rx.size then
    if w.inst.rx.s.eof then ((flush cb w).1, (flush cb w).2, s)
    else match s.getU8 with
      | (some b, s) => (false, dataByte cb b w, s)
      | (none, s) => (true, w, s)
  else (false, w, s)

theorem parseStep_parts (s : Stream) (w : World σ) : parseStep cb s w =
    if (headerPart cb s w).2.1.inst.rx.state = .data then
      parseData cb (headerPart cb s w).2.2 (headerPart cb s w).2.1
    else headerPart cb s w := by
  unfold headerPart
  by_cases hd : w.inst.rx.state = .data
  · simp [parseStep_data hd, hd]
  · rw [parseStep_header hd, if_neg hd]
    rcases s.getU8 with ⟨_ | b, s'⟩
    · exact (if_neg hd).symm
    · rfl

theorem parseData_parts (s : Stream) (w : World σ) : parseData cb s w =
    if (payloadPart cb s w).2.1.inst.state = .open ∧
        (payloadPart cb s w).2.1.inst.rx.size = 0 then
      ((payloadPart cb s w).1 || (finish cb (payloadPart cb s w).2.1).1,
        if (payloadPart cb s w).1 || (finish cb (payloadPart cb s w).2.1).1 then
          (finish cb (payloadPart cb s w).2.1).2
        else (finish cb (payloadPart cb s w).2.1).2.updateRx fun rx => { rx with state := .opcode },
        (payloadPart cb s w).2.2)
    else payloadPart cb s w := rfl

/-! ## What the rx buffer holds -/

namespace Stream

variable {s : Stream}

/-- What a reader has read. -/
theorem text_advance {b : UInt8} {bs : List UInt8} (hs : s.Ok) (h : s.rest = b :: bs) :
    ({ s with pos := s.pos + 1 } : Stream).text = s.text ++ [b] := by
  have hlen := congrArg List.length h
  have hl := hs.size_le
  simp only [rest, List.length_drop, List.length_take, List.length_cons] at hlen
  have hlt : s.pos < s.mem.length := by omega
  have hget : s.mem[s.pos] = b := by
    have hhead := congrArg List.head? h
    rw [rest, List.head?_drop, List.getElem?_take_of_lt (by omega),
      List.getElem?_eq_getElem hlt] at hhead
    exact Option.some.inj hhead
  show s.mem.take (s.pos + 1) = s.mem.take s.pos ++ [b]
  rw [List.take_succ_eq_append_getElem hlt, hget]

end Stream

namespace RxFrame

variable {rx : RxFrame}

/-- Bytes of the payload as they were before they were masked. -/
def unmasked (rx : RxFrame) (bs : List UInt8) : List UInt8 :=
  if rx.masked then xorKey rx.mask 0 bs else bs

/-- Inside a payload the rx buffer holds the last bytes of `h`. -/
def Holds (rx : RxFrame) (h : List UInt8) : Prop :=
  rx.state = .data → ∃ pre bs, h = pre ++ bs ∧ rx.s.text = rx.unmasked bs

theorem length_unmasked (bs : List UInt8) : (rx.unmasked bs).length = bs.length := by
  unfold unmasked
  split_ifs
  · exact Websocket.length_xorKey _ _ _
  · rfl

theorem unmasked_snoc (bs : List UInt8) (b : UInt8) (h : rx.s.pos = bs.length) :
    rx.unmasked (bs ++ [b]) = rx.unmasked bs ++ [rx.unmask b] := by
  unfold unmasked unmask
  split_ifs
  · simp only [Websocket.xorKey_append, Websocket.xorKey_cons, Websocket.xorKey_nil,
      Nat.zero_add, h]
  · rfl

theorem Holds.of_text {h : List UInt8} (ht : rx.s.text = []) : rx.Holds h := fun _ =>
  ⟨h, [], by simp, by rw [ht, List.length_eq_zero_iff.mp (length_unmasked [])]⟩

theorem Holds.of_state {h : List UInt8} (hs : rx.state ≠ .data) : rx.Holds h := fun hd =>
  absurd hd hs

/-- A byte of a header leaves the buffer alone, or empties it. -/
theorem take_s (hd : rx.state ≠ .data) (u : Nat) (b : UInt8) :
    (rx.take u b).s = if rx.state = .opcode then rx.s.rewind else rx.s := by
  unfold take
  cases hst : rx.state with
  | data => exact absurd hst hd
  | opcode => exact takeOpcode_s u b rx
  | size => exact branch_s _
  | _ => rfl

/-- No byte moves the fragmentation. -/
theorem take_frag (u : Nat) (b : UInt8) : (rx.take u b).frag = rx.frag := by
  unfold take
  cases rx.state with
  | opcode =>
    simp only [takeOpcode]
    split_ifs <;> rfl
  | size => exact (branch_fields _).2.2
  | data => exact (takeData_fields b rx).2.2.1
  | _ => rfl

theorem takeData_mask (b : UInt8) :
    (rx.takeData b).masked = rx.masked ∧ (rx.takeData b).mask = rx.mask := by
  unfold takeData
  dsimp only
  split_ifs <;> exact ⟨rfl, rfl⟩

/-- The room for one more byte. -/
theorem Sound.fits (h : rx.Sound) (he : rx.s.eof = false) (b : UInt8) :
    [rx.unmask b].length ≤ rx.s.size - rx.s.pos := by
  have hlt := h.lt_size he
  simp only [List.length_cons, List.length_nil]
  omega

/-- **A byte that is read is the last of those the rx buffer holds.** -/
theorem Holds.take {h : List UInt8} (hs : rx.Sound) (hrest : rx.Rests) (hh : rx.Holds h) (u : Nat)
    (b : UInt8) : (rx.take u b).Holds (h ++ [b]) := by
  by_cases hd : rx.state = .data
  · obtain ⟨pre, bs, rfl, htext⟩ := hh hd
    have hpos : rx.s.pos = bs.length := by
      rw [← hs.ok.length_text, htext, length_unmasked]
    have htake : rx.take u b = rx.takeData b := by simp [RxFrame.take, hd]
    obtain ⟨hmasked, hmask⟩ : (rx.takeData b).masked = rx.masked ∧ (rx.takeData b).mask = rx.mask :=
      takeData_mask b
    have hun (cs : List UInt8) : (rx.takeData b).unmasked cs = rx.unmasked cs := by
      simp only [unmasked, hmasked, hmask]
    refine fun _ => ⟨pre, bs ++ [b], List.append_assoc _ _ _, ?_⟩
    rw [htake, hun, takeData_s, unmasked_snoc bs b hpos, ← htext]
    exact Stream.text_write hs.ok hs.writable (hs.error (by simp [hd])) (hs.fits (hrest hd).2 b)
  · apply Holds.of_text
    rw [take_s hd]
    split_ifs with ho
    · exact Stream.rewind_text
    · rw [Stream.text, hs.header ho hd, List.take_zero]

end RxFrame

/-! ## A byte -/

/-- The instance is open between two turns. -/
structure Looping (w : World σ) : Prop where
  state : w.inst.state = .open
  lawful : w.inst.rx.Lawful

theorem RxFrame.Lawful.based {rx : RxFrame} (h : rx.Lawful) : rx.Based :=
  ⟨h.ok, h.writable, h.frag⟩

theorem Looping.kept {w : World σ} (h : Looping w) : w.inst.Kept :=
  ⟨h.lawful.based, by simp [h.state], fun _ _ => h.lawful⟩

theorem Looping.moves {w w' : World σ} (h : Looping w) (hm : Moves w w')
    (ho : w'.inst.state = .open) : Looping w' :=
  ⟨ho, by rw [hm.rx]; exact h.lawful⟩

theorem Looping.open_or {w w' : World σ} (h : Looping w) (hm : Moves w w') :
    w'.inst.state = .open ∨ w'.inst.state = .closed := by
  have hstate := hm.state
  rw [h.state] at hstate
  exact hstate.open_or

section Turn

variable {cb} {w : World σ}

theorem RxFrame.Sound.based {rx : RxFrame} (h : rx.Sound) (hf : rx.frag.isData = true) :
    rx.Based := ⟨h.ok, h.writable, hf⟩

/-- **A byte of a frame: the frame is the one behind the byte, and is lawful unless the instance has
been closed.** -/
theorem consume_free (hcb : cb.Each Steps) (h : Looping w) (hrest : w.inst.rx.Rests) (b : UInt8) :
    (consume cb b w).inst.rx = w.inst.rx.take w.inst.utf8Rx b ∧
      (Looping (consume cb b w) ∨ (consume cb b w).inst.state = .closed) := by
  have hsound := h.lawful.toSound.take hrest w.inst.utf8Rx b
  have hfrag : (w.inst.rx.take w.inst.utf8Rx b).frag.isData = true := by
    rw [RxFrame.take_frag]
    exact h.lawful.frag
  have hobeys := consume_obeys cb w b
  generalize consume cb b w = w' at hobeys ⊢
  cases hobeys with
  | stays f hv hf =>
    refine ⟨hf, .inl ⟨h.state, ?_⟩⟩
    rw [World.updateRx_inst]
    exact hf ▸ h.lawful.take hrest hv
  | closes f g code type hv hf hs hg =>
    have hbased : (w.updateRx f).inst.rx.Based := by
      refine ⟨?_, ?_, ?_⟩ <;> rw [World.updateRx_inst]
      · rw [hs]
        exact hsound.ok
      · rw [hs]
        exact hsound.writable
      · rw [hg]
        exact h.lawful.frag
    have hmoves : Moves (w.updateRx f) (closeWithCode cb code type (w.updateRx f)) :=
      closeWithReason_moves hcb hbased code .null type
    refine ⟨?_, .inr ?_⟩
    · rw [World.updateRx_inst, hmoves.rx]
      exact hf
    · exact closeWithReason_shut hcb hbased code .null type

/-! ## The end of a frame -/

theorem offer_steps (hcb : cb.Each Steps) (encoding : Encoding) (fin : Bool) :
    Steps w (offer cb encoding fin w).2 := by
  unfold offer
  split_ifs
  · exact (Moves.emit _).steps.trans ((hcb.onMessage _ _ _ _).trans (Moves.emit _).steps)
  · exact .refl w

theorem passOn_steps (hcb : cb.Each Steps) : Steps w (passOn cb w).2 := by
  unfold passOn
  split
  · exact offer_steps hcb .utf8 false
  · exact offer_steps hcb .binary false
  · exact .refl w

/-- A full buffer is passed on, and is empty then. -/
theorem flush_free (hcb : cb.Each Steps) (h : Looping w) :
    (flush cb w).1 = true ∧ Moves w (flush cb w).2 ∨
      (flush cb w).1 = false ∧ ∃ w', Moves w w' ∧
        (flush cb w).2 = w'.updateRx fun rx => { rx with s := rx.s.rewind } := by
  have hpass := passOn_steps (w := w) hcb h.kept
  rw [flush_eq]
  generalize passOn cb w = r at hpass ⊢
  obtain ⟨accepted, w'⟩ := r
  cases accepted with
  | true => exact .inr ⟨rfl, w', hpass, rfl⟩
  | false => exact .inl ⟨rfl, hpass⟩

/-- The end of a frame: only the fragmentation has moved, and not when the end was refused. -/
structure Finished (w : World σ) (r : Bool × World σ) : Prop where
  intro ::
  moves : ∃ w', Moves w w' ∧ ∃ frag utf8Rx, frag.isData = true ∧
    r.2 = if r.1 then w' else w'.update fun i => { i with rx.frag := frag, utf8Rx }

theorem Finished.of_moves {w' : World σ} (h : Looping w) (hm : Moves w w') (refused : Bool) :
    Finished w (refused, w') :=
  ⟨w', hm, w'.inst.rx.frag, w'.inst.utf8Rx, by rw [hm.rx]; exact h.lawful.frag, by
    cases refused <;> rfl⟩

theorem offerAll_finished (hcb : cb.Each Steps) (h : Looping w) (encoding : Encoding)
    {done : Inst → Inst}
    (hd : ∀ i : Inst, ∃ frag utf8Rx, frag.isData = true ∧
      done i = { i with rx.frag := frag, utf8Rx }) : Finished w (offerAll cb encoding done w) := by
  have hmoves := offer_steps (w := w) hcb encoding w.inst.rx.fin h.kept
  unfold offerAll
  generalize offer cb encoding w.inst.rx.fin w = r at hmoves ⊢
  obtain ⟨accepted, w'⟩ := r
  cases accepted with
  | false => exact .of_moves h hmoves true
  | true =>
    obtain ⟨frag, utf8Rx, hfrag, hdone⟩ := hd w'.inst
    refine ⟨w', hmoves, frag, utf8Rx, hfrag, ?_⟩
    simp only [World.update, hdone, Bool.not_true, Bool.false_eq_true, if_false, if_true]

theorem finish_finished (hcb : cb.Each Steps) (h : Looping w) : Finished w (finish cb w) := by
  have hbased := h.lawful.based
  unfold finish
  dsimp only
  split
  · split_ifs
    · exact offerAll_finished hcb h .utf8 fun i => ⟨.text, i.rx.utf8, rfl, rfl⟩
    · exact offerAll_finished hcb h .utf8 fun i => ⟨.continue, i.utf8Rx, rfl, rfl⟩
    · exact .of_moves h (closeWithReason_moves hcb hbased _ _ _) false
  · exact offerAll_finished hcb h .binary fun i =>
      ⟨if i.rx.fin then .continue else .binary, i.utf8Rx, by split_ifs <;> rfl, rfl⟩
  · obtain ⟨code, reason, heq, -⟩ := finishClose_eq cb w
    rw [heq]
    exact .of_moves h (closeWithReason_moves hcb hbased code reason _) false
  · have hpong := sendPongWithPayload_steps (w := w) hcb w.inst.rx.s.payload
    split
    · next heq =>
      rw [heq] at hpong
      exact .of_moves h (hpong h.kept) true
    · next heq =>
      rw [heq] at hpong
      exact .of_moves h (hpong.trans (callOnPing_steps hcb) h.kept) false
  · exact .of_moves h (callOnPong_steps hcb h.kept) false
  · exact .of_moves h (.refl w) false

end Turn

/-! ## A turn -/

/-- What a turn from `w` and `s` leaves, when the bytes in `H` have been read before. -/
structure Turned (H : List UInt8) (s : Stream) (w : World σ) (r : Bool × World σ × Stream) :
    Prop where
  ok : r.2.2.Ok
  mem : r.2.2.mem = s.mem
  size : r.2.2.size = s.size
  kept : r.2.1.inst.Kept
  state : r.2.1.inst.state = .open ∨ r.2.1.inst.state = .closed
  looping : r.2.1.inst.state = .open →
    Looping r.2.1 ∧ r.2.1.inst.rx.Holds (H ++ r.2.2.text)
  error : r.1 = false → r.2.2.error = false
  less : r.1 = false → r.2.1.inst.state = .open → turnsLeft r.2.2 r.2.1 < turnsLeft s w

section Turn

variable {cb} {w : World σ} {s : Stream} {H : List UInt8}

theorem Turned.trans {w' : World σ} {s' : Stream} {r : Bool × World σ × Stream}
    (h : Turned H s w (false, w', s')) (ho : w'.inst.state = .open) (h' : Turned H s' w' r) :
    Turned H s w r where
  ok := h'.ok
  mem := h'.mem.trans h.mem
  size := h'.size.trans h.size
  kept := h'.kept
  state := h'.state
  looping := h'.looping
  error := h'.error
  less hb ho' := Nat.lt_trans (h'.less hb ho') (h.less rfl ho)

/-- Before a turn. -/
structure Turning (H : List UInt8) (s : Stream) (w : World σ) : Prop extends Looping w where
  ok : s.Ok
  error : s.error = false
  holds : w.inst.rx.Holds (H ++ s.text)

/-- The bytes are used up. -/
theorem turned_nil (h : Turning H s w) : Turned H s w (true, w, { s with error := true }) where
  ok := ⟨h.ok.pos_le, h.ok.size_le⟩
  mem := rfl
  size := rfl
  kept := h.kept
  state := .inl h.state
  looping _ := ⟨h.toLooping, h.holds⟩
  error h := by cases h
  less h := by cases h

/-- A byte is read. -/
theorem turned_cons (hcb : cb.Each Steps) (h : Turning H s w) (hrest : w.inst.rx.Rests) {b : UInt8}
    {bs : List UInt8} (hb : s.rest = b :: bs) :
    Turned H s w (false, consume cb b w, { s with pos := s.pos + 1 }) := by
  obtain ⟨hrx, hnext⟩ := consume_free hcb h.toLooping hrest b
  have hsound := h.lawful.toSound.take hrest w.inst.utf8Rx b
  have hbased : (consume cb b w).inst.rx.Based := by
    rw [hrx]
    refine hsound.based ?_
    rw [RxFrame.take_frag]
    exact h.lawful.frag
  refine ⟨h.ok.advance hb, rfl, rfl, ?_, hnext.imp_left Looping.state, fun ho => ⟨?_, ?_⟩,
    fun _ => h.error, fun _ _ => ?_⟩
  · rcases hnext with hl | hc
    · exact hl.kept
    · exact .of_closed hbased hc
  · refine hnext.resolve_right fun hc => ?_
    rw [hc] at ho
    cases ho
  · rw [hrx, Stream.text_advance h.ok hb, ← List.append_assoc]
    exact h.holds.take h.lawful.toSound hrest _ b
  · exact turnsLeft_advance hrest hb

/-- A full buffer is passed on. -/
theorem turned_flush (hcb : cb.Each Steps) (h : Turning H s w) (hd : w.inst.rx.state = .data)
    (hz : w.inst.rx.size ≠ 0) (he : w.inst.rx.s.eof = true) :
    Turned H s w ((flush cb w).1, (flush cb w).2, s) := by
  have hdue : ¬w.inst.rx.Rests := fun hrest => by simp [(hrest hd).2] at he
  rcases flush_free hcb h.toLooping with ⟨hb, hm⟩ | ⟨hb, w', hm, heq⟩
  · rw [hb]
    refine ⟨h.ok, rfl, rfl, hm.kept h.kept, h.toLooping.open_or hm, fun ho => ?_,
      fun hf => (by cases hf), fun hf => (by cases hf)⟩
    exact ⟨h.toLooping.moves hm ho, by rw [hm.rx]; exact h.holds⟩
  · have hrx : (flush cb w).2.inst.rx = { w.inst.rx with s := w.inst.rx.s.rewind } := by
      rw [heq, World.updateRx_inst, hm.rx]
    have hset := RxFrame.Settled.flushed hd hz he
    have hlawful := hset.lawful h.lawful
    have hstate : (flush cb w).2.inst.state = w'.inst.state := by rw [heq]; rfl
    have hkept := hm.kept h.kept
    rw [hb]
    refine ⟨h.ok, rfl, rfl, ?_, by rw [hstate]; exact h.toLooping.open_or hm,
      fun ho => ⟨⟨ho, by rw [hrx]; exact hlawful⟩, ?_⟩, fun _ => h.error, fun _ _ => ?_⟩
    · refine ⟨by rw [hrx]; exact hlawful.based, fun hs => ?_, fun _ _ => by rw [hrx]; exact hlawful⟩
      rw [hstate] at hs
      rw [hrx, ← hm.rx]
      exact hkept.fresh hs
    · rw [hrx]
      exact .of_text Stream.rewind_text
    · exact turnsLeft_lt hdue (by rw [hrx]; exact hset.rests h.lawful.toSound)

/-- A frame ends. -/
theorem turned_finish (hcb : cb.Each Steps) (h : Turning H s w) (hd : w.inst.rx.state = .data)
    (hz : w.inst.rx.size = 0) :
    Turned H s w ((finish cb w).1, if (finish cb w).1 then (finish cb w).2
      else (finish cb w).2.updateRx fun rx => { rx with state := .opcode }, s) := by
  have hdue : ¬w.inst.rx.Rests := fun hrest => (hrest hd).1 hz
  obtain ⟨w', hm, frag, utf8Rx, hfrag, heq⟩ := (finish_finished hcb h.toLooping).moves
  generalize finish cb w = r at heq ⊢
  obtain ⟨refused, w''⟩ := r
  cases refused with
  | true =>
    obtain rfl : w'' = w' := heq
    refine ⟨h.ok, rfl, rfl, hm.kept h.kept, h.toLooping.open_or hm, fun ho => ?_,
      fun hf => (by cases hf), fun hf => (by cases hf)⟩
    exact ⟨h.toLooping.moves hm ho, by rw [if_pos rfl, hm.rx]; exact h.holds⟩
  | false =>
    obtain rfl : w'' = w'.update fun i => { i with rx.frag := frag, utf8Rx } := heq
    have hset : w.inst.rx.Settled { w.inst.rx with frag, state := .opcode } :=
      .ended frag (fun _ => hfrag) hd hz
    have hrx : ({ w'.inst.rx with frag, state := .opcode } : RxFrame) =
        { w.inst.rx with frag, state := .opcode } := by rw [hm.rx]
    have hlawful := hset.lawful h.lawful
    rw [← hrx] at hlawful hset
    have hstate := h.toLooping.open_or hm
    refine ⟨h.ok, rfl, rfl, ?_, hstate, fun ho => ⟨⟨ho, hlawful⟩, .of_state (by simp)⟩,
      fun _ => h.error, fun _ _ => ?_⟩
    · exact ⟨hlawful.based, fun _ => rfl, fun _ _ => hlawful⟩
    · exact turnsLeft_lt hdue (hset.rests h.lawful.toSound)

/-- `parse_data` up to the end of the frame, while bytes of the payload are due. -/
theorem payloadPart_turned (hcb : cb.Each Steps) (h : Turning H s w)
    (hd : w.inst.rx.state = .data) (hz : w.inst.rx.size ≠ 0) :
    Turned H s w (payloadPart cb s w) ∧ (payloadPart cb s w).2.1.inst.rx.state = .data ∧
      ((payloadPart cb s w).1 = true → (payloadPart cb s w).2.1.inst.rx.size ≠ 0) := by
  have hpos : 0 < w.inst.rx.size := Nat.pos_of_ne_zero hz
  by_cases he : w.inst.rx.s.eof = true
  · have hpart : payloadPart cb s w = ((flush cb w).1, (flush cb w).2, s) := by
      simp [payloadPart, hpos, he]
    rw [hpart]
    refine ⟨turned_flush hcb h hd hz he, ?_⟩
    rcases flush_free hcb h.toLooping with ⟨-, hm⟩ | ⟨-, w', hm, heq⟩
    · rw [hm.rx]
      exact ⟨hd, fun _ => hz⟩
    · rw [heq, World.updateRx_inst, hm.rx]
      exact ⟨hd, fun _ => hz⟩
  have hrest : w.inst.rx.Rests := fun _ => ⟨hz, by simpa using he⟩
  cases hb : s.rest with
  | nil =>
    have hpart : payloadPart cb s w = (true, w, { s with error := true }) := by
      simp [payloadPart, hpos, he, Stream.getU8_nil h.ok h.error hb]
    rw [hpart]
    exact ⟨turned_nil h, hd, fun _ => hz⟩
  | cons b bs =>
    have hpart : payloadPart cb s w = (false, consume cb b w, { s with pos := s.pos + 1 }) := by
      simp [payloadPart, hpos, he, Stream.getU8_cons h.error hb, consume_data cb hd]
    rw [hpart]
    refine ⟨turned_cons hcb h hrest hb, ?_, fun hf => by cases hf⟩
    rw [(consume_free hcb h.toLooping hrest b).1, RxFrame.take, hd]
    exact (RxFrame.takeData_state b _).trans hd

/-- `parse_data` of an open instance. -/
theorem parseData_turned (hcb : cb.Each Steps) (h : Turning H s w) (hd : w.inst.rx.state = .data) :
    Turned H s w (parseData cb s w) := by
  rw [parseData_parts]
  by_cases hz : w.inst.rx.size = 0
  · have hpart : payloadPart cb s w = (false, w, s) := by simp [payloadPart, hz]
    rw [hpart, if_pos ⟨h.state, hz⟩]
    simpa using turned_finish hcb h hd hz
  obtain ⟨hturned, hdata, hmore⟩ := payloadPart_turned hcb h hd hz
  generalize payloadPart cb s w = r at hturned hdata hmore ⊢
  obtain ⟨blocked, w', s'⟩ := r
  dsimp only at hdata hmore ⊢
  by_cases hend : w'.inst.state = .open ∧ w'.inst.rx.size = 0
  · rw [if_pos hend]
    obtain ⟨hlooping, hholds⟩ := hturned.looping hend.1
    cases blocked with
    | false =>
      have hnext : Turning H s' w' := ⟨hlooping, hturned.ok, hturned.error rfl, hholds⟩
      simpa using hturned.trans hend.1 (turned_finish hcb hnext hdata hend.2)
    | true => exact absurd hend.2 (hmore rfl)
  · rw [if_neg hend]
    exact hturned

/-- `parse_data` of an instance that a byte of the header has just closed. -/
theorem parseData_turned_closed {w₀ : World σ} {s₀ : Stream}
    (h : Turned H s₀ w₀ (false, w, s)) (hc : w.inst.state = .closed) (hd : w.inst.rx.state = .data)
    (hs : w.inst.rx.Sound) (he : w.inst.rx.s.eof = false) :
    parseData cb s w = payloadPart cb s w ∧ Turned H s₀ w₀ (payloadPart cb s w) ∧
      (payloadPart cb s w).2.1.inst.state = .closed := by
  have hclosed (f : RxFrame → RxFrame) : (w.updateRx f).inst.state = .closed := hc
  have hpart : Turned H s₀ w₀ (payloadPart cb s w) ∧
      (payloadPart cb s w).2.1.inst.state = .closed := by
    -- whatever the payload, the turn leaves the instance closed
    unfold payloadPart
    by_cases hz : w.inst.rx.size = 0
    · simp only [hz, Nat.lt_irrefl, if_false]
      exact ⟨h, hc⟩
    have hpos : 0 < w.inst.rx.size := Nat.pos_of_ne_zero hz
    simp only [hpos, he, if_true, Bool.false_eq_true, if_false]
    cases hb : s.rest with
    | nil =>
      rw [Stream.getU8_nil h.ok (h.error rfl) hb]
      exact ⟨⟨⟨h.ok.pos_le, h.ok.size_le⟩, h.mem, h.size, h.kept, h.state, fun ho => by simp [hc] at ho,
        fun hf => (by cases hf), fun hf => (by cases hf)⟩, hc⟩
    -- a byte that is still read changes nothing but the frame
    | cons b bs =>
      have hrest : w.inst.rx.Rests := fun _ => ⟨hz, he⟩
      have hbyte := consume_of_closed cb hc b
      rw [consume_data cb hd] at hbyte
      have hbased : (w.inst.rx.take w.inst.utf8Rx b).Based := by
        refine (hs.take hrest _ b).based ?_
        rw [RxFrame.take_frag]
        exact h.kept.based.frag
      rw [Stream.getU8_cons (h.error rfl) hb]
      dsimp only
      rw [hbyte]
      exact ⟨⟨h.ok.advance hb, h.mem, h.size, .of_closed hbased hc, .inr hc,
        fun ho => absurd (hc.symm.trans ho) (by simp), fun _ => h.error rfl,
        fun _ ho => absurd (hc.symm.trans ho) (by simp)⟩, hclosed _⟩
  refine ⟨?_, hpart⟩
  rw [parseData_parts, if_neg (by simp [hpart.2])]

/-- A turn that is broken off leaves what it would leave otherwise. -/
theorem Turned.blocks {w' : World σ} {s' : Stream} (h : Turned H s w (false, w', s'))
    (blocked : Bool) : Turned H s w (blocked, w', s') :=
  ⟨h.ok, h.mem, h.size, h.kept, h.state, h.looping, fun _ => h.error rfl, fun _ => h.less rfl⟩

/-- A turn up to the payload: the byte of the header has been read, and if it closed the instance the
buffer is not full. -/
theorem headerPart_turned (hcb : cb.Each Steps) (h : Turning H s w) (hd : w.inst.rx.state ≠ .data) :
    Turned H s w (headerPart cb s w) ∧ ((headerPart cb s w).2.1.inst.rx.state = .data →
      Turned H s w (false, (headerPart cb s w).2) ∧ (headerPart cb s w).2.1.inst.rx.Sound ∧
        (headerPart cb s w).2.1.inst.rx.s.eof = false ∧
        ((headerPart cb s w).2.1.inst.state ≠ .open →
          (headerPart cb s w).2.1.inst.state = .closed)) := by
  have hrest : w.inst.rx.Rests := fun h => absurd h hd
  unfold headerPart
  rw [if_neg hd]
  cases hb : s.rest with
  | nil =>
    rw [Stream.getU8_nil h.ok h.error hb]
    exact ⟨turned_nil h, fun h => absurd h hd⟩
  | cons b bs =>
    rw [Stream.getU8_cons h.error hb]
    have hturned := turned_cons hcb h hrest hb
    refine ⟨hturned.blocks _, fun _ => ⟨hturned, ?_⟩⟩
    obtain ⟨hrx, hnext⟩ := consume_free hcb h.toLooping hrest b
    refine ⟨?_, ?_, fun hno => hnext.resolve_left fun hl => hno hl.state⟩ <;> rw [hrx]
    · exact h.lawful.toSound.take hrest _ b
    · exact h.lawful.toSound.take_not_eof hd _ b

/-- **A turn keeps the invariant and comes closer to the end of the loop.** -/
theorem parseStep_turned (hcb : cb.Each Steps) (h : Turning H s w) :
    Turned H s w (parseStep cb s w) := by
  rw [parseStep_parts]
  by_cases hd : w.inst.rx.state = .data
  · have hpart : headerPart cb s w = (false, w, s) := by simp [headerPart, hd]
    rw [hpart, if_pos hd]
    exact parseData_turned hcb h hd
  obtain ⟨hturned, hlast⟩ := headerPart_turned hcb h hd
  generalize headerPart cb s w = r at hturned hlast ⊢
  obtain ⟨blocked, w', s'⟩ := r
  split_ifs with hd'
  · obtain ⟨hturned, hsound, heof, hclosed⟩ := hlast hd'
    by_cases ho : w'.inst.state = .open
    · obtain ⟨hlooping, hholds⟩ := hturned.looping ho
      exact hturned.trans ho
        (parseData_turned hcb ⟨hlooping, hturned.ok, hturned.error rfl, hholds⟩ hd')
    · obtain ⟨heq, hpart, -⟩ := parseData_turned_closed hturned (hclosed ho) hd' hsound heof
      rw [heq]
      exact hpart
  · exact hturned

end Turn

/-! ## The loop -/

/-- The streams and worlds from which the loop starts a turn. -/
inductive Loops : Stream → World σ → Stream → World σ → Prop
  | refl (s w) : Loops s w s w
  | turn {s w s' w' s'' w''} : Loops s w s' w' →
    parseStep cb s' w' = (false, w'', s'') → w''.inst.state = .open → Loops s w s'' w''

section Loop

variable {cb} {w : World σ} {s : Stream} {H : List UInt8}

theorem Loops.turning (hcb : cb.Each Steps) (h : Turning H s w) {s' : Stream} {w' : World σ}
    (hl : Loops cb s w s' w') : Turning H s' w' := by
  induction hl with
  | refl => exact h
  | turn _ hstep ho ih =>
    have hturned := parseStep_turned hcb ih
    rw [hstep] at hturned
    obtain ⟨hlooping, hholds⟩ := hturned.looping ho
    exact ⟨hlooping, hturned.ok, hturned.error rfl, hholds⟩

/-- **The loop ends.** -/
theorem parseLoop_turned (hcb : cb.Each Steps) (h : Turning H s w) {fuel : Nat}
    (hf : turnsLeft s w < fuel) :
    ∃ w' s', parseLoop cb fuel s w = some (w', s') ∧ Turned H s w (true, w', s') := by
  induction fuel generalizing s w with
  | zero => exact absurd hf (Nat.not_lt_zero _)
  | succ fuel ih =>
    have hturned := parseStep_turned hcb h
    unfold parseLoop
    generalize parseStep cb s w = r at hturned ⊢
    obtain ⟨blocked, w', s'⟩ := r
    by_cases hon : blocked = false ∧ w'.inst.state = .open
    · obtain ⟨rfl, ho⟩ := hon
      obtain ⟨hlooping, hholds⟩ := hturned.looping ho
      have hless : turnsLeft s' w' < turnsLeft s w := hturned.less rfl ho
      have hnext : Turning H s' w' := ⟨hlooping, hturned.ok, hturned.error rfl, hholds⟩
      obtain ⟨w'', s'', hrun, hend⟩ := ih hnext (by omega)
      exact ⟨w'', s'', by simpa [ho] using hrun, hturned.trans ho hend⟩
    · refine ⟨w', s', ?_, hturned.ok, hturned.mem, hturned.size, hturned.kept, hturned.state,
        hturned.looping, fun hb => (by cases hb), fun hb => (by cases hb)⟩
      cases blocked with
      | true => rfl
      | false => simp [show w'.inst.state ≠ .open from fun ho => hon ⟨rfl, ho⟩]

end Loop

end Wic
