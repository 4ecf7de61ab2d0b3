import Wic.Receiver.Drain

/-!
# The frame under reception

What holds of the frame under reception as long as the instance is open: its opcode is one that the
filter let through, it fits the message in progress, and the payload of a control frame fits the
buffer and the 125 bytes of a control frame.

## Main definitions

* `RxFrame.Lawful`

## Main results

* `drain_live`: receiving keeps the frame lawful
* `RxFrame.Lawful.length_payload`, `RxFrame.Lawful.length_closeReason`: the sizes of a pong and of
  the reason of a close
-/

namespace Wic

variable {σ : Type}

/-- The opcode of a control frame. -/
def Opcode.isControl : Opcode → Bool
  | .close | .ping | .pong => true
  | _ => false

/-- The payload of the frame is being received, or its mask. -/
def RxState.pastSize : RxState → Bool
  | .mask0 | .mask1 | .mask2 | .mask3 | .data => true
  | _ => false

/-- The frame under reception of an open instance. -/
structure RxFrame.Lawful (rx : RxFrame) : Prop extends rx.Sound where
  frag : rx.frag.isData = true
  accepted : rx.state ≠ .opcode → rx.refusesOpcode = false
  short : rx.opcode.isControl = true → rx.state ≠ .opcode → rx.state ≠ .size →
    rx.state.pastSize = true ∧ rx.s.pos + rx.size ≤ 125 ∧ rx.s.pos + rx.size ≤ rx.s.size ∧
      (rx.opcode = .close → 2 ≤ rx.s.pos + rx.size)

namespace RxFrame

variable {rx rx' : RxFrame}

theorem Settled.lawful (h : rx.Settled rx') (hs : rx.Lawful) : rx'.Lawful := by
  have hsound := h.sound hs.toSound
  cases h with
  | rested h => exact hs
  | flushed hd hz he =>
    refine ⟨hsound, hs.frag, hs.accepted, fun hc ho hsz => ?_⟩
    -- a control frame fits the buffer, so that the buffer is not full before its end
    obtain ⟨-, -, hfit, -⟩ := hs.short hc ho hsz
    simp only [Stream.eof, beq_iff_eq] at he
    omega
  | ended frag hf hd hz =>
    exact ⟨hsound, hf hs.frag, fun h => absurd rfl h, fun _ h => absurd rfl h⟩

theorem refusesOpcode_congr (ho : rx'.opcode = rx.opcode) (hf : rx'.fin = rx.fin)
    (hg : rx'.frag = rx.frag) : rx'.refusesOpcode = rx.refusesOpcode := by
  simp only [refusesOpcode, ho, hf, hg]

/-- The length of a control frame that is let through. -/
theorem short_of_refusesSize (hc : rx.opcode.isControl = true) (h : rx.refusesSize = none) :
    rx.size ≤ 125 ∧ rx.size ≤ rx.s.size ∧ (rx.opcode = .close → 2 ≤ rx.size) := by
  unfold refusesSize Stream.max at h
  cases ho : rx.opcode with
  | close | ping | pong =>
    rw [ho] at h
    dsimp only at h
    split_ifs at h
    simp only [reduceCtorEq, false_imp_iff, and_true, true_imp_iff]
    omega
  | _ => simp [ho, Opcode.isControl] at hc

theorem branch_state (hlen : rx.size ≤ 125) : rx.branch = { rx with state := rx.afterSize } := by
  unfold branch
  rw [if_neg (by omega), if_neg (by omega)]

theorem afterSize_pastSize : rx.afterSize.pastSize = true := by
  unfold afterSize
  split_ifs <;> rfl

/-- The fields of a frame that its later bytes leave alone. -/
theorem branch_fields (rx : RxFrame) : rx.branch.opcode = rx.opcode ∧ rx.branch.fin = rx.fin ∧
    rx.branch.frag = rx.frag := by
  unfold branch
  split_ifs <;> exact ⟨rfl, rfl, rfl⟩

theorem takeData_fields (b : UInt8) (rx : RxFrame) : (rx.takeData b).opcode = rx.opcode ∧
    (rx.takeData b).fin = rx.fin ∧ (rx.takeData b).frag = rx.frag ∧
    (rx.takeData b).size = rx.size - 1 := by
  unfold takeData
  dsimp only
  split_ifs <;> exact ⟨rfl, rfl, rfl, rfl⟩

/-- **A byte that does not close the instance leaves a lawful frame.** -/
theorem Lawful.take (h : rx.Lawful) (hrest : rx.Rests) {u : Nat} {b : UInt8}
    (hv : rx.verdict u b = none) : (rx.take u b).Lawful := by
  have hsound := h.toSound.take hrest u b
  unfold RxFrame.take at hsound ⊢
  -- a lawful frame has a bound for each place the receiver may be at
  cases hst : rx.state with
  | opcode =>
    rw [hst] at hsound
    dsimp only at hsound ⊢
    simp only [verdict, hst, ite_eq_right_iff, reduceCtorEq, imp_false, Bool.or_eq_true, not_or,
      Bool.not_eq_true] at hv
    obtain ⟨hrsv, href⟩ := hv
    simp only [takeOpcode, hrsv, Bool.false_eq_true, if_false] at hsound ⊢
    exact ⟨hsound, h.frag, fun _ => href, fun _ _ hsz => absurd rfl hsz⟩
  | size =>
    rw [hst] at hsound
    have hf := branch_fields (rx.sized b)
    have hacc := h.accepted (by simp [hst])
    simp only [verdict, hst, Option.map_eq_none_iff] at hv
    refine ⟨hsound, by rw [hf.2.2]; exact h.frag, fun _ => ?_, fun hc _ _ => ?_⟩
    · rw [← hacc]
      exact refusesOpcode_congr hf.1 hf.2.1 hf.2.2
    -- a control frame has a short length, which fits the buffer
    · rw [hf.1] at hc
      obtain ⟨hlen, hfit, hclose⟩ := short_of_refusesSize hc hv
      have hpos : (rx.sized b).s.pos = 0 := h.header (by simp [hst]) (by simp [hst])
      dsimp only
      rw [branch_state hlen]
      show _ ∧ (rx.sized b).s.pos + (rx.sized b).size ≤ 125 ∧
        (rx.sized b).s.pos + (rx.sized b).size ≤ (rx.sized b).s.size ∧
          ((rx.sized b).opcode = .close → 2 ≤ (rx.sized b).s.pos + (rx.sized b).size)
      rw [hpos, Nat.zero_add]
      exact ⟨afterSize_pastSize, hlen, hfit, hclose⟩
  | data =>
    rw [hst] at hsound
    obtain ⟨ho, hfin, hfrag, hsize⟩ := takeData_fields b rx
    obtain ⟨hz, he⟩ := hrest hst
    -- there is room for the byte, as a full buffer is passed on first
    have hlt := h.lt_size he
    have hs := takeData_s b rx
    have hfit : [rx.unmask b].length ≤ rx.s.size - rx.s.pos := by
      simp only [List.length_cons, List.length_nil]
      omega
    have hpos : (rx.takeData b).s.pos = rx.s.pos + 1 := by
      rw [hs]
      exact Stream.write_pos h.writable (h.error (by simp [hst])) hfit
    have hmax : (rx.takeData b).s.size = rx.s.size := by
      rw [hs]
      exact Stream.write_size _
    refine ⟨hsound, by rw [hfrag]; exact h.frag, fun _ => ?_, fun hc _ _ => ?_⟩
    · rw [← h.accepted (by simp [hst])]
      exact refusesOpcode_congr ho hfin hfrag
    -- one byte more in the buffer is one byte less to come
    · dsimp only at hc ⊢
      rw [ho] at hc
      obtain ⟨-, h₁, h₂, h₃⟩ := h.short hc (by simp [hst]) (by simp [hst])
      rw [takeData_state, hst, hpos, hsize, hmax, ho]
      refine ⟨rfl, by omega, by omega, fun hclose => ?_⟩
      have := h₃ hclose
      omega
  | size0 | size1 | size2 | size3 | size4 | size5 | size6 | size7 | size8 | size9 =>
    rw [hst] at hsound
    have hno : rx.opcode.isControl ≠ true := fun hc => by
      have hpast := (h.short hc (by simp [hst]) (by simp [hst])).1
      simp [hst, RxState.pastSize] at hpast
    exact ⟨hsound, h.frag, fun _ => h.accepted (by simp [hst]), fun hc => absurd hc hno⟩
  | mask0 | mask1 | mask2 | mask3 =>
    rw [hst] at hsound
    refine ⟨hsound, h.frag, fun _ => h.accepted (by simp [hst]), fun hc _ _ => ?_⟩
    refine ⟨?_, (h.short hc (by simp [hst]) (by simp [hst])).2⟩
    simp [takeMask, hst, RxState.nextMask, RxState.pastSize]

end RxFrame

/-! ## Payloads of control frames -/

namespace RxFrame

variable {rx : RxFrame}

/-- A frame whose payload is that of a control frame is a control frame. -/
theorem Lawful.opcode_of_control (h : rx.Lawful) (hc : rx.dataOpcode.isControl = true) :
    rx.opcode = rx.dataOpcode := by
  unfold dataOpcode at hc ⊢
  split_ifs at hc ⊢ with ho
  · have hf := h.frag
    revert hc hf
    cases rx.frag <;> simp [Opcode.isControl, Opcode.isData]
  · rfl

/-- A pong is no longer than a control frame may be. -/
theorem Lawful.length_payload (h : rx.Lawful) (hd : rx.state = .data)
    (hc : rx.dataOpcode.isControl = true) : rx.s.payload.bytes.length ≤ 125 := by
  rw [← h.opcode_of_control hc] at hc
  obtain ⟨-, hlen, -, -⟩ := h.short hc (by simp [hd]) (by simp [hd])
  have hmod := Nat.mod_le rx.s.pos 65536
  simp only [Stream.payload, List.length_take]
  omega

/-- The reason of a close frame leaves room for its code. -/
theorem Lawful.length_closeReason (h : rx.Lawful) (hd : rx.state = .data) (hz : rx.size = 0)
    (hc : rx.dataOpcode = .close) : (closeReason rx.s).bytes.length ≤ 123 := by
  have ho := h.opcode_of_control (by simp [hc, Opcode.isControl])
  obtain ⟨-, hlen, -, hmin⟩ :=
    h.short (by simp [ho, hc, Opcode.isControl]) (by simp [hd]) (by simp [hd])
  have hmin := hmin (ho.trans hc)
  simp only [closeReason, List.length_take]
  omega

end RxFrame

/-! ## Receiving -/

/-- A world whose instance is open and well. -/
structure Live (w : World σ) : Prop where
  state : w.inst.state = .open
  role : w.inst.role = .client
  lawful : w.inst.rx.Lawful

section Live

variable {G : Prop} {cb : Callbacks σ} {w : World σ}

theorem Live.receiving (h : Live w) : Receiving w := ⟨h.lawful.toSound, h.role⟩

theorem settle_live (hcb : cb.Respect (QuietAt G)) (h : Live w)
    (ho : (settle cb w).2.inst.state = .open) : Live (settle cb w).2 := by
  rcases settle_cases hcb h.role with ⟨-, hk⟩ | ⟨-, hk, hset⟩
  · exact ⟨ho, by rw [hk.role, h.role], by rw [hk.rx]; exact h.lawful⟩
  · exact ⟨ho, by rw [hk.role, h.role], hset.lawful h.lawful⟩

/-- An instance that is still open behind a byte has not been given a verdict. -/
theorem verdict_of_open (hcb : cb.Respect (QuietAt G)) (hr : w.inst.role = .client) {b : UInt8}
    (ho : (consume cb b w).inst.state = .open) :
    w.inst.rx.verdict w.inst.utf8Rx b = none := by
  have hobeys := consume_obeys cb w b
  generalize consume cb b w = w' at hobeys ho
  cases hobeys with
  | stays f h => exact h
  | closes f g code type h =>
    have hc : (closeWithCode cb code type (w.updateRx f)).inst.state = .closed :=
      closeWithReason_closed hcb (by exact hr) _ _ (RxFrame.verdict_type h)
    rw [World.updateRx_inst] at ho
    simp [hc] at ho

theorem consume_live (hcb : cb.Respect (QuietAt G)) (h : Live w) (hrest : w.inst.rx.Rests)
    {b : UInt8} (ho : (consume cb b w).inst.state = .open) : Live (consume cb b w) := by
  have hv := verdict_of_open hcb h.role ho
  refine ⟨ho, by rw [(consume_setup hcb h.role b).role, h.role], ?_⟩
  rw [consume_rx hcb h.role]
  exact h.lawful.take hrest hv

/-- **What settling and reading a byte preserve, receiving preserves.** -/
theorem drain_induction (P : World σ → Prop) (hcb : cb.Respect (QuietAt G))
    (hsettle : ∀ w, Live w → P w → P (settle cb w).2)
    (hconsume : ∀ w b, Live w → w.inst.rx.Rests → P w → P (consume cb b w))
    {w : World σ} (h : Live w) (hP : P w) (bs : List UInt8) :
    P (drain cb bs w).2 ∧ ((drain cb bs w).2.inst.state = .open → Live (drain cb bs w).2) := by
  have hset := hsettle w h hP
  rcases drain_cases hcb h.receiving h.state with ⟨-, hd⟩ | ⟨-, hd⟩ | ⟨ho, hrest, hd⟩
  · rw [hd]
    exact ⟨hset, settle_live hcb h⟩
  · rw [hd]
    exact ⟨hset, settle_live hcb h⟩
  rw [hd]
  have hlive := settle_live hcb h ho
  generalize (settle cb w).2 = w' at ho hrest hset hlive
  cases bs with
  | nil =>
    rw [drain_nil_of_rests hrest]
    exact ⟨hset, fun _ => hlive⟩
  | cons b bs =>
    rw [drain_cons_of_rests ho hrest]
    have hnext := hconsume w' b hlive hrest hset
    by_cases ho' : (consume cb b w').inst.state = .open
    · exact drain_induction P hcb hsettle hconsume (consume_live hcb hlive hrest ho') hnext bs
    · rw [drain_of_not_open ho']
      exact ⟨hnext, fun h => absurd h ho'⟩
termination_by bs.length

/-- A receiver that is lawful stays lawful while the instance is open. -/
theorem drain_live (hcb : cb.Respect (QuietAt G)) {w : World σ} (h : Live w) (bs : List UInt8)
    (ho : (drain cb bs w).2.inst.state = .open) : Live (drain cb bs w).2 :=
  (drain_induction (fun _ => True) hcb (fun _ _ _ => trivial) (fun _ _ _ _ _ => trivial) h trivial
    bs).2 ho

/-- What receiving preserves and cannot be told from the frame of a closed instance, the websocket
part of `wic_parse` preserves. -/
theorem parseWebsocket_induction (P : World σ → Prop) (hcb : cb.Respect (QuietAt G))
    (hsettle : ∀ w, Live w → P w → P (settle cb w).2)
    (hconsume : ∀ w b, Live w → w.inst.rx.Rests → P w → P (consume cb b w))
    (hframe : ∀ w f, w.inst.state ≠ .open → P w → P (w.updateRx f))
    (h : Live w) (hP : P w) {s : Stream} (hok : s.Ok) (he : s.error = false) :
    ∃ w' s', parseWebsocket cb s w = some (w', s') ∧ P w' ∧ (w'.inst.state = .open → Live w') := by
  obtain ⟨w', s', hrun, as, cs, hends⟩ :=
    parseWebsocket_drain hcb ⟨hok, he, h.lawful.toSound, h.role⟩ h.state
  obtain ⟨hP', hlive⟩ := drain_induction P hcb hsettle hconsume h hP as
  refine ⟨w', s', hrun, ?_⟩
  by_cases ho : (drain cb as w).2.inst.state = .open
  · rw [(hends.of_open ho).1]
    exact ⟨hP', hlive⟩
  · obtain ⟨f, hf⟩ := hends.of_closed ho
    rw [hf]
    exact ⟨hframe _ f ho hP', fun h => absurd h ho⟩

end Live

end Wic
