import Wic.Receiver.Reception

/-!
# A part of a frame

What an open instance has done when the bytes stop in the middle of a frame. The header alone
changes the frame under reception and nothing else; of the payload of a data frame full buffers have
been passed on; and of a control frame nothing can be seen.

## Main definitions

* `Event.Inside`: an entry of the trace inside a message
* `Partway`: the instance is in the middle of a frame

## Main results

* `received_data_part`, `received_control_part`
-/

namespace Wic

open Websocket (Frame Kind)

variable {σ : Type}

/-- An entry of the trace inside a message: a part of it that is not the last. -/
def Event.Inside : Event → Prop
  | .message _ fin _ => fin = false
  | .answer accepted => accepted = true
  | _ => False

/-- The instance is in the middle of a frame, of which the parts `es` have been passed on. -/
structure Partway (es : List Event) (w w' : World σ) : Prop where
  live : Live w'
  log : w'.log = w.log ++ es
  inside : ∀ e ∈ es, e.Inside

theorem offered_inside (handler : Bool) (encoding : Encoding) (text : List UInt8) :
    ∀ e ∈ offered handler encoding false text, e.Inside := by
  unfold offered
  split_ifs <;> simp [Event.Inside]

theorem flatMap_offered_inside (handler : Bool) (encoding : Encoding)
    (pieces : List (List UInt8)) :
    ∀ e ∈ pieces.flatMap (offered handler encoding false), e.Inside := by
  intro e he
  obtain ⟨p, -, he⟩ := List.mem_flatMap.mp he
  exact offered_inside handler encoding p e he

section Parts

variable {cb : Callbacks σ} {w : World σ} {f : Frame} {kind : Kind} {n : Nat}

/-! ## A part of a header -/

/-- Bytes that flow may stop anywhere. -/
theorem received_flows_part (h : Live w) {bs : List UInt8}
    (hf : w.inst.rx.Flows w.inst.utf8Rx bs) (hn : n < bs.length) :
    Partway [] w (received cb (bs.take n) w) := by
  have hsplit := hf
  rw [← List.take_append_drop n bs, RxFrame.flows_append] at hsplit
  obtain ⟨hflows, hlater⟩ := hsplit
  obtain ⟨b, cs, hb⟩ : ∃ b cs, bs.drop n = b :: cs := by
    cases hd : bs.drop n with
    | nil => exact absurd (List.drop_eq_nil_iff.mp hd) (Nat.not_le.mpr hn)
    | cons b cs => exact ⟨b, cs, rfl⟩
  rw [hb] at hlater
  have hrun : received cb (bs.take n ++ []) w = _ := received_flows h.state hflows []
  rw [List.append_nil, received_nil_of_rests hlater.1] at hrun
  rw [hrun]
  exact ⟨⟨h.state, h.role, hflows.lawful h.lawful⟩, by simp, by simp⟩

/-- The bytes of a frame up to a place in its payload. -/
theorem take_encode (f : Frame) (n : Nat) (hn : f.header.length ≤ n) :
    f.encode.take n = f.header ++ f.body.take (n - f.header.length) := by
  rw [Frame.encode, List.take_append, List.take_of_length_le hn]

theorem take_encode_header (f : Frame) (n : Nat) (hn : n < f.header.length) :
    f.encode.take n = f.header.take n := by
  rw [Frame.encode, List.take_append_of_le_length (Nat.le_of_lt hn)]

/-- A frame whose header is let through, when the bytes stop in the header. -/
theorem received_header_part (h : Boundary w)
    (hv : headerVerdict w.inst.rx.inside w.inst.rx.s.size f = none) (hn : n < f.header.length) :
    Partway [] w (received cb (f.encode.take n) w) := by
  rw [take_encode_header f n hn]
  exact received_flows_part h.toLive (RxFrame.flows_header h.boundary h.lawful.frag hv) hn

/-! ## A part of a payload -/

/-- **A part of a data frame.** -/
theorem received_data_part (hcb : cb.Obliging) (h : Boundary w)
    (hv : headerVerdict w.inst.rx.inside w.inst.rx.s.size f = none)
    (hk : f.kind w.inst.rx.inside = some kind) (hn : n < f.encode.length) :
    let u := utf8ParseString (textStart f w.inst.utf8Rx)
      (decode f.key w.inst.rx.s.size 0 (f.body.take (n - f.header.length)))
    (∃ es, Partway es w (received cb (f.encode.take n) w) ∧
        (f.payload.length ≤ w.inst.rx.s.size → es = []) ∧
        (kind = .text → textStart f w.inst.utf8Rx ≠ 1 → u ≠ 1)) ∨
      kind = .text ∧ u = 1 ∧ Rejected (encodingOf kind) w (received cb (f.encode.take n) w) := by
  dsimp only
  -- a part of the header alone hands on nothing
  by_cases hhead : n < f.header.length
  · refine .inl ⟨[], received_header_part h hv hhead, fun _ => rfl, fun _ hu => ?_⟩
    rw [Nat.sub_eq_zero_of_le (Nat.le_of_lt hhead)]
    exact hu
  -- else the bytes are the header and `k` bytes of the payload
  have hle := Nat.not_lt.mp hhead
  have hk' : n - f.header.length < f.payload.length := by
    rw [Frame.encode, List.length_append, f.length_body] at hn
    omega
  rw [take_encode f n hle]
  generalize n - f.header.length = k at hk'
  have hlen : (f.body.take k).length = k :=
    List.length_take_of_le (by rw [f.length_body]; exact Nat.le_of_lt hk')
  have hfit : (f.body.take k).length ≤ f.payload.length := hlen.symm ▸ Nat.le_of_lt hk'
  have hbody := received_body hcb h hv hk hfit
  have hdslen := (length_decode f.key w.inst.rx.s.size 0 (f.body.take k)).trans hlen
  dsimp only at hbody
  generalize decode f.key w.inst.rx.s.size 0 (f.body.take k) = ds at hbody hdslen ⊢
  obtain ⟨w₁, hload, hend⟩ | ⟨ht, hinvalid, -, w', hrej, hend⟩ := hbody
  · -- A full buffer is passed on before the next byte is read.
    have hend := hend []
    rw [List.append_nil, received_nil hcb hload.live] at hend
    rw [hend]
    have hz : w₁.inst.rx.size ≠ 0 := by
      rw [hload.inst]
      dsimp only
      omega
    have hhandler : w₁.inst.onMessage = w.inst.onMessage := by rw [hload.inst]
    obtain ⟨hset, hlog⟩ :=
      settle_vacates hcb hload.live hload.state hz (hload.dataOpcode hk)
    have hlive := settle_live hcb.quiet hload.live (by rw [hset]; exact hload.live.state)
    rw [hload.log, hhandler, List.append_assoc] at hlog
    refine .inl ⟨_, ⟨hlive, hlog, ?_⟩, fun hfit => ?_, fun ht hu => hload.valid ht (.inl hu)⟩
    · intro e he
      rcases List.mem_append.mp he with he | he
      · exact flatMap_offered_inside _ _ _ e he
      · split_ifs at he
        · exact offered_inside _ _ _ e he
        · simp at he
    · have hfits : ([] : List UInt8).length + ds.length ≤ w.inst.rx.s.size := by
        rw [List.length_nil, hdslen]
        omega
      obtain ⟨hflushed, hheld⟩ := flushed_of_fits hfits
      have hnot : ¬w₁.inst.rx.s.eof = true := by
        rw [Stream.eof_iff, ← hload.live.lawful.ok.length_text, hload.text, hheld,
          List.nil_append, hdslen, hload.size]
        omega
      rw [hflushed, if_neg hnot]
      rfl
  · have hend := hend []
    rw [List.append_nil] at hend
    rw [hend]
    exact .inr ⟨ht, hinvalid, hrej⟩

/-- **A part of a control frame.** -/
theorem received_control_part (hcb : cb.Obliging) (h : Boundary w)
    (hv : headerVerdict w.inst.rx.inside w.inst.rx.s.size f = none)
    (hc : f.opcode.val = 8 ∨ f.opcode.val = 9 ∨ f.opcode.val = 10) (hn : n < f.encode.length) :
    Partway [] w (received cb (f.encode.take n) w) ∨
      f.opcode.val = 8 ∧ Closes closeInvalidData w (received cb (f.encode.take n) w) := by
  rcases h.lawful.flows_encode h.boundary hv hc w.inst.utf8Rx with ⟨hf, -⟩ | ⟨h₈, hb, -⟩
  · exact .inl (received_flows_part h.toLive hf hn)
  rcases hb.take n with ⟨hf, hrest⟩ | hb
  · have hrun : received cb (f.encode.take n ++ []) w = _ := received_flows h.state hf []
    rw [List.append_nil, received_nil_of_rests hrest] at hrun
    rw [hrun]
    exact .inl ⟨⟨h.state, h.role, hf.lawful h.lawful⟩, by simp, by simp⟩
  · obtain ⟨w', hcl, hend⟩ := received_breaks hcb.toPassive h.toLive hb
    have hend := hend []
    rw [List.append_nil] at hend
    rw [hend]
    exact .inr ⟨h₈, hcl⟩

end Parts

end Wic
