import Wic.Receiver.Consume

/-!
# The work between two bytes

What `parse_data` does without reading a byte: it passes a full buffer on, or it ends the frame.
Both may be refused by a callback, and then nothing has happened to the receiver.

## Main definitions

* `settle`: the work that is due
* `RxFrame.Rests`: no work is due
* `RxFrame.Sound`: the rx buffer has room, and is empty and without error inside a frame header

## Main results

* `settle_cases`: the work is refused and nothing has happened, or it is done
* `RxFrame.Settled.rests`, `RxFrame.Settled.sound`: afterwards no work is due
-/

namespace Wic

variable {σ : Type} (cb : Callbacks σ)

/-- What `parse_data` does without reading a byte: pass on a full buffer, or end the frame. Emits
whether that is blocked. -/
def settle (w : World σ) : Bool × World σ :=
  match w.inst.rx.state with
  | .data =>
    if w.inst.rx.size = 0 then
      let (refused, w) := finish cb w
      (refused, if refused then w else w.updateRx fun rx => { rx with state := .opcode })
    else if w.inst.rx.s.eof then flush cb w
    else (false, w)
  | _ => (false, w)

theorem settle_of_data {w : World σ} (hd : w.inst.rx.state = .data) :
    settle cb w =
      if w.inst.rx.size = 0 then
        ((finish cb w).1, if (finish cb w).1 then (finish cb w).2
          else (finish cb w).2.updateRx fun rx => { rx with state := .opcode })
      else if w.inst.rx.s.eof then flush cb w
      else (false, w) := by
  rw [settle, hd]

namespace RxFrame

/-- No work is due. -/
def Rests (rx : RxFrame) : Prop := rx.state = .data → rx.size ≠ 0 ∧ rx.s.eof = false

/-- The rx buffer is a stream with room, open to writes, empty inside a frame header. -/
structure Sound (rx : RxFrame) : Prop where
  ok : rx.s.Ok
  writable : rx.s.writable = true
  room : 0 < rx.s.size
  error : rx.state ≠ .opcode → rx.s.error = false
  header : rx.state ≠ .opcode → rx.state ≠ .data → rx.s.pos = 0

variable {rx : RxFrame}

/-- The buffer is not full inside a frame header. -/
theorem Sound.not_eof (h : rx.Sound) (ho : rx.state ≠ .opcode) (hd : rx.state ≠ .data) :
    rx.s.eof = false := by
  have hr := h.room
  simp only [Stream.eof, h.header ho hd, beq_eq_false_iff_ne]
  omega

theorem Sound.rewound (h : rx.Sound) : ({ rx with s := rx.s.rewind } : RxFrame).Sound :=
  ⟨h.ok.rewind, h.writable, h.room, fun _ => rfl, fun _ _ => rfl⟩

end RxFrame

section Respect

variable {G : Prop} {cb} {w : World σ}

/-! ## Callbacks of the receiver -/

/-- A message is offered to the handler of the application. -/
theorem offer_of_handler {encoding : Encoding} {fin : Bool} (hm : w.inst.onMessage = true) :
    offer cb encoding fin w =
      let r := cb.onMessage encoding fin w.inst.rx.s.payload.bytes
        (w.emit (.message encoding fin w.inst.rx.s.payload.bytes))
      (r.1, r.2.emit (.answer r.1)) := by
  simp [offer, hm]

theorem offer_keeps (hcb : cb.Respect (QuietAt G)) (hr : w.inst.role = .client)
    (encoding : Encoding) (fin : Bool) : Keeps w (offer cb encoding fin w).2 := by
  unfold offer
  split_ifs
  · have hcall : Quiet G (w.emit (.message encoding fin w.inst.rx.s.payload.bytes)) _ :=
      hcb.onMessage encoding fin w.inst.rx.s.payload.bytes _ hr
    exact (Keeps.emit _).trans (hcall.toKeeps.trans (.emit _))
  · exact .refl w

theorem putAndSend_keeps (hcb : cb.Respect (QuietAt G)) (hr : w.inst.role = .client)
    (f : TxFrame) : Keeps w (putAndSend cb f id w).2 := by
  have hdraw := drawMask_edits hcb w
  rw [putAndSend_eq cb f id w (by rw [hdraw.inst]; exact hr)]
  have hlease (n : Nat) (w' : World σ) : Keeps w' (lease cb n f.type w').2 :=
    (Keeps.edits (hcb.onBuffer n f.type w')).trans (.emit _)
  have hdeliver (g : TxFrame) (buf : Option Nat) (max : Nat) (w' : World σ) :
      Keeps w' (deliver cb g id buf max w').2 := by
    unfold deliver
    split_ifs
    · cases buf with
      | none => exact .refl w'
      | some buf =>
        have hsend := hcb.onSend buf g.wire g.type ((w'.update id).emit (.send buf g.wire g.type))
        exact (Keeps.emit _).trans (.edits hsend)
    · exact .refl w'
  exact (Keeps.edits hdraw).trans ((hlease _ _).trans (hdeliver _ _ _ _))

theorem sendPongWithPayload_keeps (hcb : cb.Respect (QuietAt G)) (hr : w.inst.role = .client)
    (data : Payload) : Keeps w (sendPongWithPayload cb data w).2 := by
  have ha : Quiet G w (allowedToSend w).2 := allowedToSend_quiet
  have hr₁ : (allowedToSend w).2.inst.role = .client := by rw [ha.role, hr]
  refine ha.toKeeps.trans ?_
  unfold sendPongWithPayload
  generalize allowedToSend w = a at hr₁ ⊢
  obtain ⟨allowed, w₁⟩ := a
  cases allowed with
  | false => exact .refl w₁
  | true => exact putAndSend_keeps hcb hr₁ _

theorem callOnPing_keeps (hcb : cb.Respect (QuietAt G)) : Keeps w (callOnPing cb w) := by
  unfold callOnPing
  split_ifs
  · exact (Keeps.emit _).trans (.edits (hcb.onPing _))
  · exact .refl w

theorem callOnPong_keeps (hcb : cb.Respect (QuietAt G)) : Keeps w (callOnPong cb w) := by
  unfold callOnPong
  split_ifs
  · exact (Keeps.emit _).trans (.edits (hcb.onPong _))
  · exact .refl w

/-! ## A full buffer -/

variable (cb) in
/-- The callback that takes a full buffer, and whether it accepted. -/
def passOn (w : World σ) : Bool × World σ :=
  match w.inst.rx.dataOpcode with
  | .text => offer cb .utf8 false w
  | .binary => offer cb .binary false w
  | _ => (true, w)

theorem flush_eq (w : World σ) :
    flush cb w = (!(passOn cb w).1, if (passOn cb w).1 then
      (passOn cb w).2.updateRx fun rx => { rx with s := rx.s.rewind } else (passOn cb w).2) := rfl

theorem passOn_keeps (hcb : cb.Respect (QuietAt G)) (hr : w.inst.role = .client) :
    Keeps w (passOn cb w).2 := by
  unfold passOn
  split
  · exact offer_keeps hcb hr .utf8 false
  · exact offer_keeps hcb hr .binary false
  · exact .refl w

/-! ## The end of a frame -/

/-- The opcode of a data frame. -/
def Opcode.isData : Opcode → Bool
  | .continue | .text | .binary => true
  | _ => false

/-- What follows the end of a frame: only the fragmentation has moved, and not when the end was
refused. -/
structure Ends (w w' : World σ) (refused : Bool) : Prop where
  intro ::
  keeps : ∃ w₁, Keeps w w₁ ∧ ∃ frag utf8Rx, (w.inst.rx.frag.isData → frag.isData) ∧
    w' = (if refused then w₁ else w₁.update fun i => { i with rx.frag := frag, utf8Rx })

theorem Ends.of_keeps {w w' : World σ} (h : Keeps w w') (refused : Bool) : Ends w w' refused :=
  ⟨w', h, w'.inst.rx.frag, w'.inst.utf8Rx, by rw [h.rx]; exact id, by cases refused <;> rfl⟩

theorem offerAll_ends (hcb : cb.Respect (QuietAt G)) (hr : w.inst.role = .client)
    (encoding : Encoding) {done : Inst → Inst}
    (hd : ∀ i : Inst, ∃ frag utf8Rx, frag.isData ∧ done i = { i with rx.frag := frag, utf8Rx }) :
    Ends w (offerAll cb encoding done w).2 (offerAll cb encoding done w).1 := by
  have hk := offer_keeps hcb hr encoding w.inst.rx.fin
  obtain ⟨frag, utf8Rx, hfrag, hdone⟩ := hd (offer cb encoding w.inst.rx.fin w).2.inst
  refine ⟨_, hk, frag, utf8Rx, fun _ => hfrag, ?_⟩
  unfold offerAll
  generalize offer cb encoding w.inst.rx.fin w = r at hdone ⊢
  obtain ⟨accepted, w₁⟩ := r
  cases accepted with
  | false => rfl
  | true =>
    simp only [World.update, Bool.not_true, Bool.false_eq_true, if_false, if_true]
    rw [hdone]

/-- The opcode of the first frame of a message. -/
def Encoding.opcode : Encoding → Opcode
  | .utf8 => .text
  | .binary => .binary

/-- What is recorded of a part of a message that was accepted; `fin` says whether it was the last. -/
def endMessage (encoding : Encoding) (fin : Bool) (i : Inst) : Inst :=
  match encoding with
  | .utf8 =>
    if fin then { i with rx.frag := .continue }
    else { i with rx.frag := .text, utf8Rx := i.rx.utf8 }
  | .binary => { i with rx.frag := if fin then .continue else .binary }

/-- Only the receiver's own fields record it. -/
theorem endMessage_eq (encoding : Encoding) (fin : Bool) (i : Inst) :
    endMessage encoding fin i = { i with
      rx := (endMessage encoding fin i).rx, utf8Rx := (endMessage encoding fin i).utf8Rx } := by
  unfold endMessage
  split <;> (try split_ifs) <;> rfl

theorem passOn_message {encoding : Encoding} (h : w.inst.rx.dataOpcode = encoding.opcode) :
    passOn cb w = offer cb encoding false w := by
  cases encoding <;> simp [passOn, h, Encoding.opcode]

/-- What is recorded is a matter of the frame, which the callback leaves alone. -/
theorem offerAll_congr (hcb : cb.Respect (QuietAt G)) (hr : w.inst.role = .client)
    {encoding : Encoding} {done done' : Inst → Inst}
    (hd : ∀ i : Inst, i.rx = w.inst.rx → done i = done' i) :
    offerAll cb encoding done w = offerAll cb encoding done' w := by
  have hk := offer_keeps hcb hr encoding w.inst.rx.fin
  unfold offerAll
  generalize offer cb encoding w.inst.rx.fin w = r at hk ⊢
  obtain ⟨accepted, w₁⟩ := r
  simp only [World.update, hd w₁.inst hk.rx]

/-- **The end of a data frame is offered as a part of its message.** -/
theorem finish_message (hcb : cb.Respect (QuietAt G)) (hr : w.inst.role = .client)
    {encoding : Encoding} (h : w.inst.rx.dataOpcode = encoding.opcode)
    (hc : encoding = .utf8 → w.inst.rx.fin = true → utf8IsComplete w.inst.rx.utf8 = true) :
    finish cb w = offerAll cb encoding (endMessage encoding w.inst.rx.fin) w := by
  cases encoding with
  | utf8 =>
    cases hf : w.inst.rx.fin with
    | true =>
      simp only [finish, h, Encoding.opcode, hf, hc rfl hf, Bool.not_true, Bool.false_eq_true,
        if_true, if_false]
      rfl
    | false =>
      simp only [finish, h, Encoding.opcode, hf, Bool.not_false, if_true]
      rfl
  | binary =>
    simp only [finish, h, Encoding.opcode]
    exact offerAll_congr hcb hr fun i hi => by rw [endMessage, hi]

/-- A text that ends in the middle of a character closes the instance. -/
theorem finish_incomplete (h : w.inst.rx.dataOpcode = .text) (hf : w.inst.rx.fin = true)
    (hc : utf8IsComplete w.inst.rx.utf8 = false) :
    finish cb w = (false, closeWithCode cb closeInvalidData .close w) := by
  simp [finish, h, hf, hc]

theorem finish_close (h : w.inst.rx.dataOpcode = .close) :
    finish cb w = (false, finishClose cb w) := by
  simp [finish, h]

/-- The end of a ping is a pong. -/
theorem finish_ping (h : w.inst.rx.dataOpcode = .ping) :
    finish cb w =
      let r := sendPongWithPayload cb w.inst.rx.s.payload w
      if r.1 = .wouldBlock then (true, r.2) else (false, callOnPing cb r.2) := by
  simp only [finish, h]
  generalize sendPongWithPayload cb w.inst.rx.s.payload w = r
  obtain ⟨status, w₁⟩ := r
  cases status <;> rfl

theorem finish_pong (h : w.inst.rx.dataOpcode = .pong) :
    finish cb w = (false, callOnPong cb w) := by
  simp [finish, h]

variable (cb) in
/-- A complete close frame is answered, with its own reason or without one. -/
theorem finishClose_eq (w : World σ) : ∃ code reason,
    finishClose cb w = closeWithReason cb code reason .closeResponse w ∧
      (reason = .null ∨ reason = closeReason w.inst.rx.s) := by
  unfold finishClose
  dsimp only
  by_cases he : closeCode w.inst.rx.s ∈ echoed
  · rw [if_pos he]
    by_cases hu : utf8IsComplete w.inst.rx.utf8 = true
    · exact ⟨_, _, if_pos hu, .inr rfl⟩
    · exact ⟨_, _, if_neg hu, .inl rfl⟩
  · rw [if_neg he]
    by_cases h₃ : 3000 ≤ closeCode w.inst.rx.s ∧ closeCode w.inst.rx.s ≤ 3999
    · exact ⟨_, _, if_pos h₃, .inl rfl⟩
    · rw [if_neg h₃]
      by_cases h₄ : 4000 ≤ closeCode w.inst.rx.s ∧ closeCode w.inst.rx.s ≤ 4999
      · exact ⟨_, _, if_pos h₄, .inl rfl⟩
      · exact ⟨_, _, if_neg h₄, .inl rfl⟩

theorem finishClose_keeps (hcb : cb.Respect (QuietAt G)) (hr : w.inst.role = .client) :
    Keeps w (finishClose cb w) := by
  obtain ⟨code, reason, heq, -⟩ := finishClose_eq cb w
  rw [heq]
  exact closeWithReason_keeps hcb hr code reason (.inr rfl)

theorem finish_ends (hcb : cb.Respect (QuietAt G)) (hr : w.inst.role = .client) :
    Ends w (finish cb w).2 (finish cb w).1 := by
  unfold finish
  dsimp only
  split
  · split_ifs
    · exact offerAll_ends hcb hr .utf8 fun i => ⟨.text, i.rx.utf8, rfl, rfl⟩
    · exact offerAll_ends hcb hr .utf8 fun i => ⟨.continue, i.utf8Rx, rfl, rfl⟩
    · exact .of_keeps (closeWithReason_keeps hcb hr _ _ (.inl rfl)) false
  · exact offerAll_ends hcb hr .binary fun i =>
      ⟨if i.rx.fin then .continue else .binary, i.utf8Rx, by split_ifs <;> rfl, rfl⟩
  · exact .of_keeps (finishClose_keeps hcb hr) false
  · have hpong := sendPongWithPayload_keeps hcb hr w.inst.rx.s.payload
    split
    · next heq => exact .of_keeps (by rw [heq] at hpong; exact hpong) true
    · next heq =>
      rw [heq] at hpong
      exact .of_keeps (hpong.trans (callOnPing_keeps hcb)) false
  · exact .of_keeps (callOnPong_keeps hcb) false
  · exact .of_keeps (.refl w) false

/-! ## Both -/

theorem settle_of_rests (h : w.inst.rx.Rests) : settle cb w = (false, w) := by
  unfold settle
  cases hs : w.inst.rx.state with
  | data =>
    obtain ⟨hsize, heof⟩ := h hs
    simp [hsize, heof]
  | _ => rfl

/-- What the work between two bytes comes to when it is not refused: the frame has rested before,
or its buffer is empty again, or it has ended. -/
inductive RxFrame.Settled (rx : RxFrame) : RxFrame → Prop
  | rested (h : rx.Rests) : rx.Settled rx
  | flushed (hs : rx.state = .data) (hz : rx.size ≠ 0) (he : rx.s.eof = true) :
      rx.Settled { rx with s := rx.s.rewind }
  | ended (frag : Opcode) (hf : rx.frag.isData → frag.isData) (hs : rx.state = .data)
      (hz : rx.size = 0) :
      rx.Settled { rx with frag, state := .opcode }

/-- **The work between two bytes: a refusal leaves the receiver alone, and otherwise the frame is
settled.** -/
theorem settle_cases (hcb : cb.Respect (QuietAt G)) (hr : w.inst.role = .client) :
    (settle cb w).1 = true ∧ Keeps w (settle cb w).2 ∨
      (settle cb w).1 = false ∧ KeepsSetup w (settle cb w).2 ∧
        w.inst.rx.Settled (settle cb w).2.inst.rx := by
  by_cases hrest : w.inst.rx.Rests
  · rw [settle_of_rests hrest]
    exact .inr ⟨rfl, .refl w, .rested hrest⟩
  -- else the receiver is in a payload, which is over or fills its buffer
  have hs : w.inst.rx.state = .data := by
    by_contra hne
    exact hrest fun h => absurd h hne
  unfold settle
  rw [hs]
  dsimp only
  by_cases hz : w.inst.rx.size = 0
  · rw [if_pos hz]
    obtain ⟨w₁, hk, frag, utf8Rx, hfrag, heq⟩ := finish_ends hcb hr
    generalize finish cb w = r at heq ⊢
    obtain ⟨refused, w'⟩ := r
    -- what the end of the frame does, up to the fields it is allowed to change
    cases refused with
    | true =>
      obtain rfl : w' = w₁ := heq
      exact .inl ⟨rfl, hk⟩
    | false =>
      obtain rfl : w' = w₁.update fun i => { i with rx.frag := frag, utf8Rx } := heq
      refine .inr ⟨rfl, hk.setup.trans ⟨rfl, .refl _, id⟩, ?_⟩
      have hrx := RxFrame.Settled.ended frag hfrag hs hz
      rw [← hk.rx] at hrx ⊢
      exact hrx
  · have he : w.inst.rx.s.eof = true := by
      by_contra hne
      exact hrest fun _ => ⟨hz, by simpa using hne⟩
    rw [if_neg hz, if_pos he, flush_eq]
    have hk := passOn_keeps hcb hr
    generalize passOn cb w = r at hk ⊢
    obtain ⟨accepted, w'⟩ := r
    cases accepted with
    | false => exact .inl ⟨rfl, hk⟩
    | true =>
      refine .inr ⟨rfl, hk.setup.trans ⟨rfl, .refl _, id⟩, ?_⟩
      have hrx := RxFrame.Settled.flushed hs hz he
      rw [← hk.rx] at hrx ⊢
      exact hrx

end Respect

/-! ## Soundness -/

namespace RxFrame

variable {rx rx' : RxFrame}

theorem Settled.rests (h : rx.Settled rx') (hs : rx.Sound) : rx'.Rests := by
  cases h with
  | rested h => exact h
  | flushed hd hz he =>
    have hroom := hs.room
    refine fun _ => ⟨hz, ?_⟩
    simp only [Stream.eof, Stream.rewind_pos, Stream.rewind_size, beq_eq_false_iff_ne]
    omega
  | ended frag hf hd hz => exact fun h => absurd h (by simp)

theorem Settled.sound (h : rx.Settled rx') (hs : rx.Sound) : rx'.Sound := by
  cases h with
  | rested h => exact hs
  | flushed hd hz he => exact hs.rewound
  | ended frag hf hd hz =>
    exact ⟨hs.ok, hs.writable, hs.room, fun h => absurd rfl h, fun h => absurd rfl h⟩

theorem takeOpcode_s (u : Nat) (b : UInt8) (rx : RxFrame) :
    (rx.takeOpcode u b).s = rx.s.rewind := by
  unfold takeOpcode
  dsimp only
  split_ifs <;> rfl

theorem takeData_s (b : UInt8) (rx : RxFrame) : (rx.takeData b).s = rx.s.putU8 (rx.unmask b) := by
  unfold takeData
  dsimp only
  split_ifs <;> rfl

theorem takeData_state (b : UInt8) (rx : RxFrame) : (rx.takeData b).state = rx.state := by
  unfold takeData
  dsimp only
  split_ifs <;> rfl

/-- There is room for a byte when the buffer is not full. -/
theorem Sound.lt_size (h : rx.Sound) (he : rx.s.eof = false) : rx.s.pos < rx.s.size := by
  have hp := h.ok.pos_le
  simp only [Stream.eof, beq_eq_false_iff_ne] at he
  omega

/-- The first byte of a frame empties the buffer; the other bytes of a header leave it empty. -/
theorem Sound.take (h : rx.Sound) (hrest : rx.Rests) (u : Nat) (b : UInt8) :
    (rx.take u b).Sound := by
  have hempty (ho : rx.state ≠ .opcode) (hd : rx.state ≠ .data) (rx' : RxFrame)
      (hs : rx'.s = rx.s) : rx'.Sound :=
    ⟨hs ▸ h.ok, hs ▸ h.writable, hs ▸ h.room, fun _ => hs ▸ h.error ho,
      fun _ _ => hs ▸ h.header ho hd⟩
  unfold RxFrame.take
  cases hst : rx.state with
  | opcode =>
    have hs := takeOpcode_s u b rx
    exact ⟨hs ▸ h.ok.rewind, hs ▸ h.writable, hs ▸ h.room, fun _ => hs ▸ rfl, fun _ _ => hs ▸ rfl⟩
  | size => exact hempty (by simp [hst]) (by simp [hst]) _ (branch_s _)
  | data =>
    have hlt := h.lt_size (hrest hst).2
    have he := h.error (by simp [hst])
    have hs := takeData_s b rx
    have hfit : [rx.unmask b].length ≤ rx.s.size - rx.s.pos := by
      simp only [List.length_cons, List.length_nil]
      omega
    refine ⟨hs ▸ h.ok.write _, ?_, ?_, fun _ => ?_, fun _ hd => ?_⟩
    · rw [hs, Stream.putU8, Stream.write_writable, h.writable]
    · rw [hs, Stream.putU8, Stream.write_size]
      exact h.room
    · rw [hs]
      exact Stream.write_error h.writable he hfit
    · exact absurd ((takeData_state b rx).trans hst) hd
  | _ => exact hempty (by simp [hst]) (by simp [hst]) _ rfl

end RxFrame

end Wic
