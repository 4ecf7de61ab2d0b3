import Wic.Receiver.Mail

/-!
# What earlier frames leave behind

A receiver that waits for a frame still holds what the frames before have left in it: bytes in the
buffer, a length, a mask, a state of the text that is over. None of it gets into a message. What
counts is the kind of the message that is not complete, and the state of its text.

## Main definitions

* `RxFrame.core`: the receiver without the bytes behind its cursor and without an old mask
* `RxFrame.TextAlike`: receivers that differ in the state of a text that is over

## Main results

* `RxFrame.output_core`: receivers with the same core hand on the same messages
* `RxFrame.TextAlike.output`: the state of a text that is over is not read
* `RxFrame.output_begins`: receivers that wait for a frame hand on the same messages
-/

namespace Wic

/-! ## The stream -/

/-- The stream without the bytes behind its cursor. -/
def Stream.core (s : Stream) : Stream := { s with base := 0, mem := s.text }

namespace Stream

variable {s s' : Stream}

@[simp] theorem core_pos : s.core.pos = s.pos := rfl
@[simp] theorem core_size : s.core.size = s.size := rfl
@[simp] theorem core_writable : s.core.writable = s.writable := rfl
@[simp] theorem core_error : s.core.error = s.error := rfl
@[simp] theorem core_core : s.core.core = s.core := by simp [core, text, List.take_take]

theorem core_write (bytes : List UInt8) : (s.write bytes).core = s.core.write bytes := by
  unfold write
  rw [core_writable, core_error, core_size, core_pos]
  split_ifs
  · rfl
  · -- what is behind the bytes written is dropped
    have htext : (s.mem.take s.pos ++ bytes ++ s.mem.drop (s.pos + bytes.length)).take
        (s.pos + bytes.length) = (s.mem.take s.pos).take s.pos ++ bytes ++
          (s.mem.take s.pos).drop (s.pos + bytes.length) := by
      have hnone : (s.mem.take s.pos).drop (s.pos + bytes.length) = [] := by
        apply List.drop_of_length_le
        exact Nat.le_trans (List.length_take_le _ _) (Nat.le_add_right _ _)
      rw [hnone, List.append_nil, List.take_take, Nat.min_self]
      by_cases hle : s.pos ≤ s.mem.length
      · apply List.take_left'
        rw [List.length_append, List.length_take_of_le hle]
      · have hdrop : s.mem.drop (s.pos + bytes.length) = [] := by
          apply List.drop_of_length_le
          omega
        rw [hdrop, List.append_nil, List.take_of_length_le]
        rw [List.length_append, List.length_take]
        omega
    unfold core text
    dsimp only
    rw [htext]
  · rfl

theorem core_rewind : s.core.rewind.core = s.rewind.core := by
  simp [core, rewind, text]

theorem core_payload : s.core.payload = s.payload := by
  have hle : s.pos % 65536 ≤ s.pos := Nat.mod_le _ _
  simp [payload, core, text, List.take_take, Nat.min_eq_left hle]

end Stream

/-! ## The buffer and the mask -/

namespace RxFrame

/-- How many bytes of the mask count. -/
def known (rx : RxFrame) : Nat :=
  match rx.state with
  | .mask1 => 1
  | .mask2 => 2
  | .mask3 => 3
  | .data => if rx.masked then 4 else 0
  | _ => 0

/-- The mask, as far as it counts. -/
def maskRead (rx : RxFrame) : Mask := .ofFn fun i => if i.val < rx.known then rx.mask.get i else 0

/-- The receiver without the bytes behind its cursor and without an old mask. -/
def core (rx : RxFrame) : RxFrame := { rx with s := rx.s.core, mask := rx.maskRead }

/-- What becomes of the work that is due, as far as the messages go. -/
inductive Resembles : Performed → Performed → Prop
  | closes {ps ps' : List Part} : ps.filter Part.isMessage = [] → ps'.filter Part.isMessage = [] →
      Resembles (.closes ps) (.closes ps')
  | goes {ps : List Part} {u : Nat} {rx rx' : RxFrame} : rx'.core = rx.core →
      Resembles (.goes ps u rx) (.goes ps u rx')

variable {rx rx' : RxFrame} {hs : Handlers} {u : Nat}

theorem maskRead_of_lt {i : Nat} (hi : i < 4) (h : i < rx.known) :
    rx.maskRead[i] = rx.mask[i] := by
  rw [maskRead, Vector.getElem_ofFn, if_pos h]
  rfl

theorem maskRead_core : rx.core.maskRead = rx.maskRead := by
  have hknown : rx.core.known = rx.known := rfl
  apply Vector.ext
  intro i hi
  simp only [maskRead, Vector.getElem_ofFn, hknown]
  split_ifs with h
  · exact maskRead_of_lt hi h
  · rfl

theorem core_core : rx.core.core = rx.core := by
  rw [core, maskRead_core]
  simp [core]

/-- Nothing is kept of a mask that does not count. -/
theorem core_of_unknown (h : rx.known = 0) :
    rx.core = { rx with s := rx.s.core, mask := .replicate 4 0 } := by
  have hmask : rx.maskRead = .replicate 4 0 := by
    apply Vector.ext
    intro i hi
    simp [maskRead, h]
  rw [core, hmask]

theorem core_congr {r r' : RxFrame} (h : r.known = 0) (h' : r'.known = 0)
    (heq : ({ r' with s := r'.s.core, mask := .replicate 4 0 } : RxFrame) =
      { r with s := r.s.core, mask := .replicate 4 0 }) : r'.core = r.core := by
  rw [core_of_unknown h, core_of_unknown h', heq]

theorem offers_core (encoding : Encoding) (fin : Bool) :
    rx.core.offers hs encoding fin = rx.offers hs encoding fin := by
  unfold offers core
  dsimp only
  rw [Stream.core_payload]

/-- The receiver behind a frame. -/
theorem ended_core (frag : Opcode) : ({ rx.core with frag := frag, state := .opcode } : RxFrame).core =
    ({ rx with frag := frag, state := .opcode } : RxFrame).core := by
  apply core_congr rfl rfl
  simp [core]

/-- The end of a frame. -/
theorem ends_core : Resembles (rx.ends hs u) (rx.core.ends hs u) := by
  have hop : rx.core.dataOpcode = rx.dataOpcode := rfl
  have hfin : rx.core.fin = rx.fin := rfl
  have hutf8 : rx.core.utf8 = rx.utf8 := rfl
  unfold ends
  rw [hop, hfin, hutf8, offers_core, offers_core, offers_core]
  cases rx.dataOpcode with
  | text =>
    dsimp only
    split_ifs
    · exact .goes (ended_core _)
    · exact .goes (ended_core _)
    · exact .closes (farewell_mail _ _ _ _) (farewell_mail _ _ _ _)
  | binary => exact .goes (ended_core _)
  | close => exact .closes (farewell_mail _ _ _ _) (farewell_mail _ _ _ _)
  | ping =>
    have hpayload : rx.core.s.payload = rx.s.payload := Stream.core_payload
    dsimp only
    rw [hpayload]
    exact .goes (ended_core rx.frag)
  | _ => exact .goes (ended_core rx.frag)

theorem performs_core : Resembles (rx.performs hs u) (rx.core.performs hs u) := by
  have hstate : rx.core.state = rx.state := rfl
  have hsize : rx.core.size = rx.size := rfl
  have heof : rx.core.s.eof = rx.s.eof := rfl
  have hflush : rx.core.flushes hs = rx.flushes hs := by
    have hop : rx.core.dataOpcode = rx.dataOpcode := rfl
    unfold flushes
    rw [hop, offers_core, offers_core]
  by_cases hd : rx.state = .data
  · rw [performs_of_data hd, performs_of_data (hstate.trans hd), hsize, heof, hflush]
    split_ifs
    · exact ends_core
    · refine .goes ?_
      show ({ rx with s := rx.s.core.rewind.core, mask := rx.core.maskRead } : RxFrame) =
        { rx with s := rx.s.rewind.core, mask := rx.maskRead }
      rw [maskRead_core, Stream.core_rewind]
    · exact .goes core_core
  · have hrest : rx.Rests := fun hd' => absurd hd' hd
    have hrest' : rx.core.Rests := fun hd' => absurd hd' hd
    rw [performs_of_rests hrest, performs_of_rests hrest']
    exact .goes core_core

/-! ### Bytes -/

/-- The bytes of a payload are decoded with a mask that counts. -/
theorem unmask_core (hd : rx.state = .data) (b : UInt8) : rx.core.unmask b = rx.unmask b := by
  show (if rx.masked then b ^^^ rx.maskRead[rx.s.pos % 4] else b) = rx.unmask b
  unfold unmask
  split_ifs with hm
  · -- all of the mask has been read when the payload begins
    have hknown : rx.known = 4 := by
      rw [known, hd]
      exact if_pos hm
    have hlt : rx.s.pos % 4 < 4 := Nat.mod_lt _ (by decide)
    exact congrArg _ (maskRead_of_lt hlt (by omega))
  · rfl

/-- A byte is stored. -/
theorem stored_core (hd : rx.state = .data) (b : UInt8) :
    (rx.core.stored b).core = (rx.stored b).core := by
  unfold stored
  rw [unmask_core hd]
  show ({ rx with
      size := rx.size - 1
      s := (rx.s.core.putU8 (rx.unmask b)).core
      mask := rx.core.maskRead } : RxFrame) =
    { rx with
      size := rx.size - 1
      s := (rx.s.putU8 (rx.unmask b)).core
      mask := rx.maskRead }
  rw [maskRead_core, Stream.putU8, Stream.putU8, ← Stream.core_write, Stream.core_core]

theorem inText_core (hd : rx.state = .data) (b : UInt8) :
    (rx.core.stored b).inText = (rx.stored b).inText := by
  have hcore : (rx.core.stored b).core = _ := stored_core hd b
  have hpos : (rx.core.stored b).s.pos = (rx.stored b).s.pos := congrArg (fun r => r.s.pos) hcore
  unfold inText
  rw [hpos]
  rfl

theorem takeData_core (hd : rx.state = .data) (b : UInt8) :
    (rx.core.takeData b).core = (rx.takeData b).core := by
  have hcore : (rx.core.stored b).core = _ := stored_core hd b
  unfold takeData
  dsimp only
  rw [inText_core hd, unmask_core hd]
  split_ifs
  · exact congrArg (fun r : RxFrame => { r with utf8 := utf8Parse rx.utf8 (rx.unmask b) }) hcore
  · exact hcore

/-- **A byte is judged the same**, whatever is left of earlier frames. -/
theorem verdict_core (b : UInt8) : rx.core.verdict u b = rx.verdict u b := by
  have hstate : rx.core.state = rx.state := rfl
  have htext : rx.core.textClose = rx.textClose := rfl
  unfold verdict take
  rw [hstate, htext]
  cases hst : rx.state with
  | data =>
    -- only the verdict on a payload looks at what is kept of the frame
    have hutf8 : (rx.core.takeData b).utf8 = (rx.takeData b).utf8 :=
      congrArg (fun r => r.utf8) (takeData_core hst b)
    dsimp only
    rw [hutf8, inText_core hst]
  | _ => rfl

/-- The first byte of a frame. -/
theorem takeOpcode_core (hst : rx.state = .opcode) (b : UInt8) :
    (rx.core.takeOpcode u b).core = (rx.takeOpcode u b).core := by
  have hknown : (rx.opened b).known = 0 := by
    have hst' : (rx.opened b).state = .opcode := hst
    rw [known, hst']
  have hknown' : (rx.core.opened b).known = 0 := hknown
  have hrsv : (rx.core.opened b).rsv = (rx.opened b).rsv := rfl
  have hfrag : (rx.core.opened b).frag = (rx.opened b).frag := rfl
  unfold takeOpcode
  dsimp only
  rw [hrsv, hfrag]
  split_ifs
  · apply core_congr hknown hknown'
    unfold opened core
    dsimp only
    rw [Stream.core_rewind]
  all_goals
    apply core_congr rfl rfl
    unfold opened core
    dsimp only
    rw [Stream.core_rewind]

/-- Behind the length nothing is known of a mask. -/
theorem known_afterSize : ({ rx with state := rx.afterSize } : RxFrame).known = 0 := by
  unfold known afterSize
  by_cases hm : rx.masked = true
  · rw [if_pos hm]
  · rw [if_neg hm]
    exact if_neg hm

/-- The second byte of a frame begins its length, and nothing is known of its mask. -/
theorem sized_core {r r' : RxFrame}
    (h : r' = { r with masked := r'.masked, size := r'.size, mask := r'.mask, s := r'.s })
    (hs : r'.s.core = r.s.core) (b : UInt8) : (r'.sized b).branch.core = (r.sized b).branch.core := by
  have hunknown (r : RxFrame) : r.branch.known = 0 := by
    unfold branch
    split_ifs
    · rfl
    · rfl
    · exact known_afterSize
  have hsized : r'.sized b = { r.sized b with mask := r'.mask, s := r'.s } := by
    rw [sized, h]
    rfl
  apply core_congr (hunknown _) (hunknown _)
  rw [hsized]
  unfold branch sized
  dsimp only
  split_ifs
  · rw [hs]
  · rw [hs]
  · rw [hs]
    rfl

theorem takeExtendedSize_core (b : UInt8) :
    (rx.core.takeExtendedSize b).core = (rx.takeExtendedSize b).core := by
  have hknown : (rx.takeExtendedSize b).known = 0 := by
    show ({ rx with state := rx.nextSize } : RxFrame).known = 0
    unfold nextSize
    cases rx.state <;> first | exact known_afterSize | rfl
  have hknown' : (rx.core.takeExtendedSize b).known = 0 := hknown
  apply core_congr hknown hknown'
  unfold takeExtendedSize core
  dsimp only
  rw [Stream.core_core]
  rfl

theorem takeMask_known (b : UInt8) : (rx.takeMask b).known ≤ rx.state.maskIndex + 1 := by
  show ({ rx with state := rx.state.nextMask } : RxFrame).known ≤ _
  unfold known
  dsimp only
  cases rx.state with
  | mask3 =>
    show (if rx.masked then 4 else 0) ≤ 3 + 1
    split_ifs <;> decide
  | _ => exact Nat.le_refl _

/-- A byte of the mask is put behind those that count. -/
theorem takeMask_core (hindex : (rx.state.maskIndex : Nat) = rx.known) (b : UInt8) :
    (rx.core.takeMask b).core = (rx.takeMask b).core := by
  have hmask : (rx.core.takeMask b).maskRead = (rx.takeMask b).maskRead := by
    have hknown : (rx.core.takeMask b).known = (rx.takeMask b).known := rfl
    have hle := rx.takeMask_known b
    apply Vector.ext
    intro i hi
    simp only [maskRead, Vector.getElem_ofFn, hknown]
    split_ifs with h
    · show (rx.maskRead.set rx.state.maskIndex b rx.maskIndex_lt)[i] =
        (rx.mask.set rx.state.maskIndex b rx.maskIndex_lt)[i]
      rw [Vector.getElem_set, Vector.getElem_set]
      split_ifs with heq
      · rfl
      · have hlt : i < rx.known := by omega
        exact maskRead_of_lt hi hlt
    · rfl
  show ({ rx with
      s := rx.s.core.core
      mask := (rx.core.takeMask b).maskRead
      state := rx.state.nextMask } : RxFrame) =
    { rx with s := rx.s.core, mask := (rx.takeMask b).maskRead, state := rx.state.nextMask }
  rw [hmask, Stream.core_core]

/-- **A byte is taken the same**, whatever is left of earlier frames. -/
theorem take_core (b : UInt8) : (rx.core.take u b).core = (rx.take u b).core := by
  have hstate : rx.core.state = rx.state := rfl
  unfold take
  rw [hstate]
  cases hst : rx.state with
  | opcode => exact takeOpcode_core hst b
  | size => exact sized_core rfl Stream.core_core b
  | mask0 | mask1 | mask2 | mask3 =>
    apply takeMask_core
    rw [known, hst]
    rfl
  | data => exact takeData_core hst b
  | _ => exact takeExtendedSize_core b

/-- Receivers with the same core hand on the same messages. -/
theorem output_core (bs : List UInt8) : (rx.core.output hs bs u).filter Part.isMessage =
    (rx.output hs bs u).filter Part.isMessage := by
  induction bs generalizing rx u with
  | nil =>
    have hperf : Resembles (rx.performs hs u) _ := performs_core
    rw [output, output]
    generalize rx.performs hs u = p at hperf ⊢
    generalize rx.core.performs hs u = p' at hperf ⊢
    cases hperf with
    | closes hps hps' => exact hps'.trans hps.symm
    | goes hcore => rfl
  | cons b bs ih =>
    have hperf : Resembles (rx.performs hs u) _ := performs_core
    rw [output, output]
    generalize rx.performs hs u = p at hperf ⊢
    generalize rx.core.performs hs u = p' at hperf ⊢
    cases hperf with
    | closes hps hps' => exact hps'.trans hps.symm
    | @goes ps u r r' hcore =>
      have hverdict : r'.verdict u b = r.verdict u b := by
        rw [← verdict_core, hcore, verdict_core]
      have htake : (r'.take u b).core = (r.take u b).core := by
        rw [← take_core, hcore, take_core]
      dsimp only
      rw [hverdict, List.filter_append, List.filter_append]
      cases r.verdict u b with
      | none => exact congrArg _ (ih.symm.trans (htake ▸ ih))
      | some c => rfl

/-! ## The state of a text -/

/-- The payload of such frames is read as text. -/
def readsText : Opcode → Bool
  | .text | .close => true
  | _ => false

/-- Receivers that differ in the state of a text that is over; `u` and `u'` are the states kept for
the next fragment. -/
structure TextAlike (u u' : Nat) (rx rx' : RxFrame) : Prop where
  fields : rx' = { rx with utf8 := rx'.utf8 }
  utf8 : rx.state ≠ .opcode → readsText rx.dataOpcode = true → rx'.utf8 = rx.utf8
  unfinished : readsText rx.frag = true → u' = u

/-- What becomes of the work that is due. -/
inductive TextResembles : Performed → Performed → Prop
  | closes (ps : List Part) : TextResembles (.closes ps) (.closes ps)
  | goes {ps : List Part} {u u' : Nat} {rx rx' : RxFrame} : TextAlike u u' rx rx' →
      TextResembles (.goes ps u rx) (.goes ps u' rx')

namespace TextAlike

variable {u' : Nat} {b : UInt8}

/-- A receiver behind a frame. -/
theorem ended {t frag v v'} (hv : readsText frag = true → v' = v) :
    TextAlike v v' { rx with frag := frag, state := .opcode }
      { rx with frag := frag, state := .opcode, utf8 := t } :=
  ⟨rfl, fun hst => absurd rfl hst, hv⟩

/-- A receiver inside a frame, with the same text. -/
theorem inside (h : TextAlike u u' rx rx') (hst : rx.state ≠ .opcode) {r r' : RxFrame}
    (hr : r' = { r with utf8 := rx'.utf8 }) (hutf8 : r.utf8 = rx.utf8) (hfrag : r.frag = rx.frag)
    (hop : r.dataOpcode = rx.dataOpcode) : TextAlike u u' r r' where
  fields := by rw [hr]
  utf8 _ ho := by
    rw [hop] at ho
    rw [hr, hutf8]
    exact h.utf8 hst ho
  unfinished hf := by
    rw [hfrag] at hf
    exact h.unfinished hf

/-- The end of a frame. -/
theorem ends (h : TextAlike u u' rx rx') (hst : rx.state ≠ .opcode) :
    TextResembles (rx.ends hs u) (rx'.ends hs u') := by
  obtain ⟨t, rfl⟩ : ∃ t, rx' = { rx with utf8 := t } := ⟨_, h.fields⟩
  have hop : ({ rx with utf8 := t } : RxFrame).dataOpcode = rx.dataOpcode := rfl
  have hutf8 : readsText rx.dataOpcode = true → t = rx.utf8 := h.utf8 hst
  have hunfinished : readsText rx.frag = true → u' = u := h.unfinished
  unfold RxFrame.ends
  rw [hop]
  cases hdata : rx.dataOpcode with
  | text =>
    obtain rfl : t = rx.utf8 := hutf8 (by rw [hdata]; rfl)
    dsimp only
    split_ifs
    · exact .goes (ended fun _ => rfl)
    · exact .goes (ended fun hno => by cases hno)
    · exact .closes _
  | binary =>
    refine .goes (ended fun hno => ?_)
    split_ifs at hno <;> cases hno
  | close =>
    obtain rfl : t = rx.utf8 := hutf8 (by rw [hdata]; rfl)
    exact .closes _
  | _ =>
    have hend : TextAlike u u' { rx with frag := rx.frag, state := .opcode }
        { rx with frag := rx.frag, state := .opcode, utf8 := t } := ended hunfinished
    exact .goes hend

theorem performs (h : TextAlike u u' rx rx') :
    TextResembles (rx.performs hs u) (rx'.performs hs u') := by
  have hstate : rx'.state = rx.state := by rw [h.fields]
  by_cases hd : rx.state = .data
  · have hst : rx.state ≠ .opcode := by
      rw [hd]
      decide
    have hsize : rx'.size = rx.size := by rw [h.fields]
    have hs' : rx'.s = rx.s := by rw [h.fields]
    have hflush : rx'.flushes hs = rx.flushes hs := by
      rw [h.fields]
      rfl
    rw [performs_of_data hd, performs_of_data (hstate.trans hd), hsize, hs', hflush]
    split_ifs
    · exact h.ends hst
    · refine .goes (h.inside hst ?_ rfl rfl rfl)
      rw [h.fields]
    · exact .goes h
  · have hrest : rx.Rests := fun hd' => absurd hd' hd
    have hrest' : rx'.Rests := fun hd' => absurd (hstate.symm.trans hd') hd
    rw [performs_of_rests hrest, performs_of_rests hrest']
    exact .goes h

theorem readsText_of_inText (h : rx.inText = true) : readsText rx.dataOpcode = true := by
  unfold inText at h
  cases hop : rx.dataOpcode <;> rw [hop] at h <;> first | rfl | cases h

/-- A byte of a payload. -/
theorem takeData (h : TextAlike u u' rx rx') (hst : rx.state ≠ .opcode) :
    TextAlike u u' (rx.takeData b) (rx'.takeData b) ∧
      ((rx.stored b).inText = true → (rx'.takeData b).utf8 = (rx.takeData b).utf8) := by
  obtain ⟨t, rfl⟩ : ∃ t, rx' = { rx with utf8 := t } := ⟨_, h.fields⟩
  have hin : (({ rx with utf8 := t } : RxFrame).stored b).inText = (rx.stored b).inText := rfl
  have hutf8 : readsText rx.dataOpcode = true → t = rx.utf8 := h.utf8 hst
  unfold RxFrame.takeData
  dsimp only
  rw [hin]
  by_cases hi : (rx.stored b).inText = true
  · have hreads := readsText_of_inText hi
    obtain rfl : t = rx.utf8 := hutf8 hreads
    rw [if_pos hi]
    exact ⟨⟨rfl, fun _ _ => rfl, h.unfinished⟩, fun _ => rfl⟩
  · rw [if_neg hi, if_neg hi]
    exact ⟨h.inside hst rfl rfl rfl rfl, fun hi' => absurd hi' hi⟩

/-- The first byte of a frame. -/
theorem takeOpcode (h : TextAlike u u' rx rx') (hst : rx.state = .opcode) :
    TextAlike u u' (rx.takeOpcode u b) (rx'.takeOpcode u' b) := by
  obtain ⟨t, rfl⟩ : ∃ t, rx' = { rx with utf8 := t } := ⟨_, h.fields⟩
  have hunfinished : readsText rx.frag = true → u' = u := h.unfinished
  have hrsv : (({ rx with utf8 := t } : RxFrame).opened b).rsv = (rx.opened b).rsv := rfl
  have hfrag : (({ rx with utf8 := t } : RxFrame).opened b).frag = (rx.opened b).frag := rfl
  unfold RxFrame.takeOpcode
  dsimp only
  rw [hrsv, hfrag]
  split_ifs with hset hgoes
  · exact ⟨rfl, fun hno => absurd hst hno, hunfinished⟩
  · -- a fragment: the state kept is that of the message it goes on with
    refine ⟨rfl, fun _ ho => hunfinished ?_, hunfinished⟩
    have hop : (if byteToOpcode b = .continue then rx.frag else byteToOpcode b) = rx.frag :=
      if_pos hgoes.1
    rw [← hop]
    exact ho
  · exact ⟨rfl, fun _ _ => rfl, hunfinished⟩

/-- **A byte is taken alike.** -/
theorem take (h : TextAlike u u' rx rx') : TextAlike u u' (rx.take u b) (rx'.take u' b) := by
  have hstate : rx'.state = rx.state := by rw [h.fields]
  by_cases hop : rx.state = .opcode
  · rw [RxFrame.take, hop, RxFrame.take, hstate, hop]
    exact h.takeOpcode hop
  have hdata := (h.takeData (b := b) hop).1
  unfold RxFrame.take
  rw [hstate]
  cases hst : rx.state with
  | opcode => exact absurd hst hop
  | size =>
    have hbranch (r : RxFrame) :
        r.branch = { r with size := r.branch.size, state := r.branch.state } := by
      unfold branch
      split_ifs <;> rfl
    refine h.inside hop ?_ ?_ ?_ ?_
    · rw [h.fields]
      unfold branch sized
      dsimp only
      split_ifs <;> rfl
    all_goals
      rw [hbranch]
      rfl
  | data => exact hdata
  | _ =>
    refine h.inside hop ?_ rfl rfl rfl
    rw [h.fields]
    rfl

/-- **A byte is judged alike.** -/
theorem verdict (h : TextAlike u u' rx rx') (b : UInt8) : rx'.verdict u' b = rx.verdict u b := by
  have hstate : rx'.state = rx.state := by rw [h.fields]
  by_cases hd : rx.state = .data
  · have hst : rx.state ≠ .opcode := by
      rw [hd]
      decide
    have hutf8 := (h.takeData (b := b) hst).2
    have hin : (rx'.stored b).inText = (rx.stored b).inText := by
      rw [h.fields]
      rfl
    have hclose : rx'.textClose = rx.textClose := by
      rw [h.fields]
      rfl
    unfold RxFrame.verdict RxFrame.take
    rw [hstate, hd]
    dsimp only
    rw [hin, hclose]
    by_cases hi : (rx.stored b).inText = true
    · rw [hutf8 hi]
    · rw [Bool.not_eq_true] at hi
      rw [hi, Bool.false_and, Bool.false_and]
  · obtain ⟨t, rfl⟩ : ∃ t, rx' = { rx with utf8 := t } := ⟨_, h.fields⟩
    unfold RxFrame.verdict
    dsimp only
    cases hst : rx.state with
    | data => exact absurd hst hd
    | _ => rfl

/-- **The state of a text that is over is not read.** -/
theorem output (h : TextAlike u u' rx rx') (bs : List UInt8) :
    rx'.output hs bs u' = rx.output hs bs u := by
  induction bs generalizing rx rx' u u' with
  | nil =>
    have hperf : TextResembles (rx.performs hs u) (rx'.performs hs u') := h.performs
    rw [RxFrame.output, RxFrame.output]
    generalize rx.performs hs u = p at hperf ⊢
    generalize rx'.performs hs u' = p' at hperf ⊢
    cases hperf with
    | closes | goes => rfl
  | cons b bs ih =>
    have hperf : TextResembles (rx.performs hs u) (rx'.performs hs u') := h.performs
    rw [RxFrame.output, RxFrame.output]
    generalize rx.performs hs u = p at hperf ⊢
    generalize rx'.performs hs u' = p' at hperf ⊢
    cases hperf with
    | closes => rfl
    | @goes ps v v' r r' halike =>
      dsimp only
      rw [halike.verdict]
      cases r.verdict v b with
      | none => exact congrArg _ (ih halike.take)
      | some c => rfl

end TextAlike

/-! ## A new frame -/

/-- Receivers that judge the next byte alike and are alike behind it hand on the same messages. -/
theorem output_of_byte (h : rx.Rests) (h' : rx'.Rests)
    (hverdict : ∀ b, rx'.verdict u b = rx.verdict u b)
    (htake : ∀ b bs, rx.verdict u b = none → ((rx'.take u b).output hs bs u).filter Part.isMessage =
      ((rx.take u b).output hs bs u).filter Part.isMessage) (bs : List UInt8) :
    (rx'.output hs bs u).filter Part.isMessage = (rx.output hs bs u).filter Part.isMessage := by
  cases bs with
  | nil => rw [output_nil_of_rests h, output_nil_of_rests h']
  | cons b bs =>
    rw [output_cons_of_rests h, output_cons_of_rests h', hverdict]
    cases hv : rx.verdict u b with
    | none => exact htake b bs hv
    | some c => rfl

/-- **A receiver that waits for the length of a frame** hands on the same messages, whatever it holds of
the lengths and masks before. -/
theorem output_sized (hst : rx.state = .size)
    (h : rx' = { rx with masked := rx'.masked, size := rx'.size, mask := rx'.mask, s := rx'.s })
    (hs' : rx'.s.core = rx.s.core) (bs : List UInt8) :
    (rx'.output hs bs u).filter Part.isMessage = (rx.output hs bs u).filter Part.isMessage := by
  have hst' : rx'.state = .size := by
    rw [h]
    exact hst
  have hrest {r : RxFrame} (hr : r.state = .size) : r.Rests := by
    intro hd
    cases hr.symm.trans hd
  have hverdict (b : UInt8) : rx'.verdict u b = rx.verdict u b := by
    have hop : (rx'.sized b).opcode = (rx.sized b).opcode := by
      rw [h]
      rfl
    have hsize : (rx'.sized b).size = (rx.sized b).size := rfl
    have hmax : (rx'.sized b).s.max = (rx.sized b).s.max := by
      have hcore : rx'.s.core.size = rx.s.core.size := by rw [hs']
      exact hcore
    unfold verdict
    rw [hst, hst']
    dsimp only
    unfold refusesSize
    rw [hop, hsize, hmax]
  apply output_of_byte (hrest hst) (hrest hst') hverdict
  intro b bs _
  have htake : (rx'.take u b).core = (rx.take u b).core := by
    rw [take, hst', take, hst]
    exact sized_core h hs' b
  rw [← output_core, htake, output_core]

/-- **A receiver that waits for a frame** hands on the same messages, whatever it holds of the frames
before. -/
theorem output_begins {u' : Nat} (hst : rx.state = .opcode) (hst' : rx'.state = .opcode)
    (hfrag : rx'.frag = rx.frag) (hu : readsText rx.frag = true → u' = u)
    (hsize : rx'.s.size = rx.s.size) (hw : rx'.s.writable = rx.s.writable) (bs : List UInt8) :
    (rx'.output hs bs u').filter Part.isMessage = (rx.output hs bs u).filter Part.isMessage := by
  have htext : TextAlike u u' rx' rx' := by
    refine ⟨rfl, fun _ _ => rfl, ?_⟩
    rw [hfrag]
    exact hu
  rw [htext.output]
  have hrest {r : RxFrame} (hr : r.state = .opcode) : r.Rests := by
    intro hd
    cases hr.symm.trans hd
  have hverdict (b : UInt8) : rx'.verdict u b = rx.verdict u b := by
    have hrefuses : ({ rx'.opened b with opcode := byteToOpcode b } : RxFrame).refusesOpcode =
        ({ rx.opened b with opcode := byteToOpcode b } : RxFrame).refusesOpcode := by
      unfold refusesOpcode opened
      dsimp only
      rw [hfrag]
    unfold verdict
    rw [hst, hst']
    dsimp only
    rw [hrefuses]
    rfl
  apply output_of_byte (hrest hst) (hrest hst') hverdict
  intro b bs hv
  -- the frame goes on, so that no RSV bit is set
  have hset : (rx.opened b).rsv = false := by
    unfold verdict at hv
    rw [hst] at hv
    dsimp only at hv
    cases hr : (rx.opened b).rsv with
    | false => rfl
    | true =>
      rw [hr, Bool.true_or, if_pos rfl] at hv
      cases hv
  have hfirst {r : RxFrame} (hr : r.state = .opcode) (hrsv : (r.opened b).rsv = false) :
      r.take u b = { r.opened b with
        opcode := byteToOpcode b
        utf8 := if byteToOpcode b = Opcode.continue ∧ r.frag ≠ Opcode.continue then u else 0
        state := .size } := by
    rw [take, hr]
    unfold takeOpcode
    dsimp only
    rw [hrsv]
    rfl
  have hrewind : rx'.s.rewind.core = rx.s.rewind.core := by
    simp [Stream.core, Stream.rewind, Stream.text, hsize, hw]
  rw [hfirst hst hset, hfirst hst' hset]
  refine output_sized rfl ?_ hrewind bs
  unfold opened
  dsimp only
  rw [hfrag]

end RxFrame

end Wic
