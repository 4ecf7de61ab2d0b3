import Wic.Runs.Exchanges

/-!
# Incoming text

A text message that comes in any number of frames, with pings and pongs between them and cut into
blocks anywhere, is checked byte by byte as one text. Behind every byte the instance is closed
exactly when no continuation could make the text well formed, and behind the last one exactly when
the text is not well formed. This is so whatever calls the application makes in its callbacks, as
long as it has a buffer for every pong and does not close the instance in `on_message`.

## Main definitions

* `Refuses`, `Accepts`: what becomes of an instance that receives a text

## Main results

* `Reachable.text_validated`: the instance is closed at the first byte behind which nothing helps
-/

namespace Wic

open Http (ascii)
open Websocket (Frame Kind Fragments encodeAll carried carriedWithin)

variable {σ : Type}

/-- An entry of the trace that neither begins to close nor ends a message. -/
def Event.Unfinished : Event → Prop
  | .message _ fin _ => fin = false
  | .closing _ => False
  | _ => True

/-- The text has closed the instance, and its end has not been passed on. -/
structure Refuses (w w' : World σ) : Prop where
  state : w'.inst.state = .closed
  closing : .closing closeInvalidData ∈ w.since w'
  message : ∀ data, .message .utf8 true data ∉ w.since w'

/-- The instance is still open, and has passed on the end of the text if the text has `ended`. -/
structure Accepts (ended : Prop) (w w' : World σ) : Prop where
  state : w'.inst.state = .open
  closing : ∀ code, .closing code ∉ w.since w'
  message : (∃ data, .message .utf8 true data ∈ w.since w') ↔ ended

/-- The trace of an application that makes no calls when the text closes the instance. -/
structure Declines (w w' : World σ) : Prop where
  state : w'.inst.state = .closed
  log : ∃ es, w'.log = w.log ++ es ∧ .closing closeInvalidData ∈ es ∧
    ∀ data, .message .utf8 true data ∉ es

/-- The trace of an application that makes no calls when the instance stays open. -/
structure Admits (ended : Prop) (w w' : World σ) : Prop where
  state : w'.inst.state = .open
  log : ∃ es, w'.log = w.log ++ es ∧ (∀ code, .closing code ∉ es) ∧
    (ended → ∃ init data, es = init ++ [.message .utf8 true data, .answer true]) ∧
    (¬ended → ∀ data, .message .utf8 true data ∉ es)

/-- Only entries in the middle of a message are added to the trace. -/
def Unfinished (w w' : World σ) : Prop := ∃ es, w'.log = w.log ++ es ∧ ∀ e ∈ es, e.Unfinished

section Unfinished

variable {w w₁ w' : World σ} {ended : Prop}

theorem Event.Inside.unfinished {e : Event} (h : e.Inside) : e.Unfinished := by
  cases e <;> simp_all [Event.Inside, Event.Unfinished]

theorem Unfinished.declines (h : Unfinished w w₁) (h' : Declines w₁ w') : Declines w w' := by
  obtain ⟨es, hes, hall⟩ := h
  obtain ⟨fs, hfs, hclosing, hno⟩ := h'.log
  refine ⟨h'.state, es ++ fs, by rw [hfs, hes, List.append_assoc], by simp [hclosing], ?_⟩
  intro data hd
  rcases List.mem_append.mp hd with hd | hd
  · simpa [Event.Unfinished] using hall _ hd
  · exact hno data hd

theorem Unfinished.admits (h : Unfinished w w₁) (h' : Admits ended w₁ w') : Admits ended w w' := by
  obtain ⟨es, hes, hall⟩ := h
  obtain ⟨fs, hfs, hclosing, hend, hno⟩ := h'.log
  refine ⟨h'.state, es ++ fs, by rw [hfs, hes, List.append_assoc], fun code hd => ?_, fun he => ?_,
    fun he data hd => ?_⟩
  · rcases List.mem_append.mp hd with hd | hd
    · simpa [Event.Unfinished] using hall _ hd
    · exact hclosing code hd
  · obtain ⟨init, data, rfl⟩ := hend he
    exact ⟨es ++ init, data, (List.append_assoc ..).symm⟩
  · rcases List.mem_append.mp hd with hd | hd
    · simpa [Event.Unfinished] using hall _ hd
    · exact hno he data hd

theorem Partway.admits {es : List Event} (h : Partway es w w') (hended : ¬ended) :
    Admits ended w w' := by
  refine ⟨h.live.state, es, h.log, fun code hd => ?_, fun he => absurd he hended, fun _ data hd => ?_⟩
  · simpa [Event.Inside] using h.inside _ hd
  · simpa [Event.Inside] using h.inside _ hd

theorem Rejected.declines {encoding : Encoding} (h : Rejected encoding w w') : Declines w w' := by
  obtain ⟨pieces, es, hlog, hes⟩ := h.log
  rw [List.append_assoc] at hlog
  refine ⟨h.state, _, hlog, by simp, fun data hd => ?_⟩
  rcases List.mem_append.mp hd with hd | hd
  · simpa [Event.Inside] using flatMap_offered_inside _ _ _ _ hd
  · rcases List.mem_cons.mp hd with hd | hd
    · cases hd
    · simpa [Event.Farewell] using hes _ hd

theorem Answers.unfinished {f : Frame} (h : Answers f w w') : Unfinished w w' := by
  obtain ⟨es, hes, hreply⟩ := h.log
  refine ⟨es, hes, ?_⟩
  by_cases h₉ : f.opcode.val = 9
  · rw [Replies, if_pos h₉] at hreply
    obtain ⟨data, m, buf, max, -, rfl⟩ := hreply
    split_ifs <;> simp [Event.Unfinished]
  · rw [Replies, if_neg h₉] at hreply
    rw [hreply]
    split_ifs <;> simp [Event.Unfinished]

theorem passed_inside (handler : Bool) (encoding : Encoding) (room : Nat) (ds : List UInt8) :
    ∀ e ∈ passed handler encoding false room ds, e.Inside := by
  intro e he
  rcases List.mem_append.mp he with he | he
  · exact flatMap_offered_inside _ _ _ e he
  · exact offered_inside _ _ _ e he

/-- A part of a message that is not its last. -/
theorem Delivers.unfinished {f : Frame} {kind : Kind} {ds : List UInt8}
    (h : Delivers f kind ds w w') (hfin : f.fin = false) : Unfinished w w' := by
  refine ⟨_, h.log, fun e he => ?_⟩
  rw [hfin] at he
  exact (passed_inside _ _ _ _ e he).unfinished

/-- The last part of a text. -/
theorem Delivers.admits {f : Frame} {ds : List UInt8} (h : Delivers f .text ds w w')
    (hfin : f.fin = true) (hm : w.inst.onMessage = true) (hended : ended) : Admits ended w w' := by
  refine ⟨h.boundary.state, _, h.log, fun code hd => ?_, fun _ => ?_, fun he => absurd hended he⟩
  · rcases List.mem_append.mp hd with hd | hd
    · simpa [Event.Inside] using flatMap_offered_inside _ _ _ _ hd
    · simp [offered, hm] at hd
  · rw [hfin, hm]
    exact ⟨_, _, rfl⟩

/-- What is made known of the trace, whatever the callbacks do. -/
theorem Declines.refuses {bs : List UInt8} (h : Declines w (received .granting bs w)) (hl : Live w)
    (hm : Mirrors bs w w') : Refuses w w' := by
  obtain ⟨es, hes, hclosing, hno⟩ := h.log
  have hout := received_output Callbacks.granting_obliging hl bs
  rw [World.since, hes, List.drop_left] at hout
  refine ⟨hm.abreast.state.trans h.state, ?_, fun data hd => ?_⟩
  · rw [hm.mem_iff rfl, ← hout]
    exact closing_mem_shown hclosing
  · rw [hm.mem_iff rfl, ← hout] at hd
    exact hno data (message_of_shown hd)

theorem Admits.accepts {bs : List UInt8} (h : Admits ended w (received .granting bs w)) (hl : Live w)
    (hm : Mirrors bs w w') : Accepts ended w w' := by
  obtain ⟨es, hes, hclosing, hend, hno⟩ := h.log
  have hout := received_output Callbacks.granting_obliging hl bs
  rw [World.since, hes, List.drop_left] at hout
  refine ⟨hm.abreast.state.trans h.state, fun code hd => ?_, ?_, fun he => ?_⟩
  · rw [hm.mem_iff rfl, ← hout] at hd
    exact hclosing code (closing_of_shown hd)
  · rintro ⟨data, hd⟩
    rw [hm.mem_iff rfl, ← hout] at hd
    by_contra he
    exact hno he data (message_of_shown hd)
  · obtain ⟨init, data, rfl⟩ := hend he
    refine ⟨data, ?_⟩
    rw [hm.mem_iff rfl, ← hout]
    exact message_mem_shown _ _ _ _

end Unfinished

/-! ## The text so far -/

/-- The text `T` has been received of the message in progress, and can be completed. -/
structure TextSoFar (T : List UInt8) (w : World σ) : Prop where
  none : w.inst.rx.inside = none → T = []
  text : w.inst.rx.inside = some .text → w.inst.utf8Rx = utf8ParseString 0 T
  valid : utf8ParseString 0 T ≠ 1

/-- Nothing can complete the text `T` with what the first `n` bytes of the frames `fs` add to it, or it
is at its end and not complete. -/
def BadSoFar (T : List UInt8) (fs : List Frame) (n : Nat) : Prop :=
  utf8ParseString 0 (T ++ carriedWithin fs n) = 1 ∨
    (encodeAll fs).length ≤ n ∧ utf8ParseString 0 (T ++ carried fs) ≠ 0

/-- What the first `n` bytes of the frames `fs` come to behind the text `T`. -/
def Judges (T : List UInt8) (fs : List Frame) (n : Nat) (w w' : World σ) : Prop :=
  (BadSoFar T fs n → Declines w w') ∧
    (¬BadSoFar T fs n → Admits ((encodeAll fs).length ≤ n) w w')

section Run

variable {cb : Callbacks σ} {w : World σ} {T : List UInt8} {f : Frame} {fs : List Frame} {n : Nat}

theorem TextSoFar.start (h : TextSoFar T w) (hf : f.Carries w.inst.rx.inside .text) :
    textStart f w.inst.utf8Rx = utf8ParseString 0 T := by
  obtain ⟨-, ⟨hin, ho⟩ | ⟨hin, ho⟩⟩ := hf
  · rw [h.none hin, textStart, if_neg (by rw [ho]; decide)]
    rfl
  · rw [textStart, if_pos (by rw [ho]; rfl), h.text hin]

/-- A whole frame of the text. -/
theorem text_frame (hcb : cb.Obliging) (h : Boundary w) (ht : TextSoFar T w)
    (hf : f.Carries w.inst.rx.inside .text) (hkey : f.key = none) :
    let u := utf8ParseString 0 (T ++ f.payload)
    (BadText f u ∧ ∀ cs, Declines w (received cb (f.encode ++ cs) w)) ∨
      ¬BadText f u ∧ ∃ w', Delivers f .text f.payload w w' ∧
        ∀ cs, received cb (f.encode ++ cs) w = received cb cs w' := by
  dsimp only
  rw [utf8ParseString_append, ← ht.start hf]
  have hne := ht.valid
  rw [← ht.start hf] at hne
  rcases received_data hcb h (headerVerdict_of_carries hf) hf.kind_eq with
    ⟨w', hd, hrun⟩ | ⟨-, hbad, -, w', hrej, hrun⟩
  · rw [decode_body_of_none hkey] at hd
    exact .inr ⟨hd.valid rfl (.inl hne), w', hd, hrun⟩
  · rw [decode_body_of_none hkey] at hbad
    exact .inl ⟨hbad, fun cs => by rw [hrun]; exact hrej.declines⟩

theorem TextSoFar.control {w' : World σ} (h : TextSoFar T w) (ha : Answers f w w') :
    TextSoFar T w' := by
  have hutf8 : w'.inst.utf8Rx = w.inst.utf8Rx := by rw [ha.inst]
  exact ⟨fun hin => h.none (ha.inside ▸ hin), fun hin => by rw [hutf8, h.text (ha.inside ▸ hin)],
    h.valid⟩

theorem TextSoFar.part {w' : World σ} (h : TextSoFar T w) (hf : f.Carries w.inst.rx.inside .text)
    (hfin : f.fin = false) (hd : Delivers f .text f.payload w w')
    (hvalid : utf8ParseString 0 (T ++ f.payload) ≠ 1) : TextSoFar (T ++ f.payload) w' := by
  refine ⟨fun hin => ?_, fun _ => ?_, hvalid⟩
  · rw [hd.inside, hf.progress, hfin] at hin
    cases hin
  · rw [hd.utf8 rfl hfin, h.start hf, utf8ParseString_append]

/-- The first bytes of a frame add the beginning of its payload. -/
theorem carriedWithin_inside (fs : List Frame) (hn : n < f.encode.length) :
    carriedWithin (f :: fs) n =
      if f.isControl then [] else f.payload.take (n - f.header.length) := by
  rw [carriedWithin, Nat.sub_eq_zero_of_le (Nat.le_of_lt hn), Websocket.carriedWithin_zero,
    List.append_nil]

/-- All the bytes of a frame add its payload. -/
theorem carriedWithin_behind (fs : List Frame) (hle : f.encode.length ≤ n) :
    carriedWithin (f :: fs) n =
      (if f.isControl then [] else f.payload) ++ carriedWithin fs (n - f.encode.length) := by
  have hall : f.payload.take (n - f.header.length) = f.payload := by
    rw [List.take_of_length_le]
    rw [Frame.encode, List.length_append, f.length_body] at hle
    omega
  rw [carriedWithin, hall]

/-- Inside a frame nothing has ended. -/
theorem not_ended (fs : List Frame) (hn : n < f.encode.length) :
    ¬(encodeAll (f :: fs)).length ≤ n := by
  rw [Websocket.encodeAll_cons, List.length_append]
  omega

theorem take_inside (fs : List Frame) (hn : n < f.encode.length) :
    (encodeAll (f :: fs)).take n = f.encode.take n := by
  rw [Websocket.encodeAll_cons, List.take_append_of_le_length (Nat.le_of_lt hn)]

theorem take_behind (fs : List Frame) (hle : f.encode.length ≤ n) :
    (encodeAll (f :: fs)).take n = f.encode ++ (encodeAll fs).take (n - f.encode.length) := by
  rw [Websocket.encodeAll_cons, List.take_append, List.take_of_length_le hle]

/-- **Within a frame of the text.** -/
theorem text_inside (hcb : cb.Obliging) (h : Boundary w) (ht : TextSoFar T w)
    (hf : f.Carries w.inst.rx.inside .text) (hkey : f.key = none) (hn : n < f.encode.length)
    (fs : List Frame) : Judges T (f :: fs) n w (received cb ((encodeAll (f :: fs)).take n) w) := by
  have hended := not_ended fs hn
  have hbody : f.body = f.payload := by rw [Frame.body, hkey]
  have hne := ht.valid
  rw [← ht.start hf] at hne
  rw [Judges, BadSoFar, carriedWithin_inside fs hn, hf.isControl, take_inside fs hn,
    if_neg Bool.false_ne_true, utf8ParseString_append, ← ht.start hf]
  rcases received_data_part hcb h (headerVerdict_of_carries hf) hf.kind_eq hn with
    ⟨es, hpart, -, hvalid⟩ | ⟨-, hinvalid, hrej⟩
  · rw [hkey, decode_none, hbody] at hvalid
    refine ⟨fun hb => ?_, fun _ => hpart.admits hended⟩
    exact absurd (hb.resolve_right fun h => hended h.1) (hvalid rfl hne)
  · rw [hkey, decode_none, hbody] at hinvalid
    exact ⟨fun _ => hrej.declines, fun hb => absurd (.inl hinvalid) hb⟩

/-- **The last frame of the text.** -/
theorem text_last (hcb : cb.Obliging) (h : Boundary w) (ht : TextSoFar T w)
    (hf : f.Carries w.inst.rx.inside .text) (hkey : f.key = none) (hfin : f.fin = true)
    (hm : w.inst.onMessage = true) (hle : f.encode.length ≤ n) :
    Judges T [f] n w (received cb ((encodeAll [f]).take n) w) := by
  have hended : (encodeAll [f]).length ≤ n := by
    rw [Websocket.encodeAll_cons, Websocket.encodeAll_nil, List.append_nil]
    exact hle
  have hcarried : carried [f] = f.payload := by
    rw [Websocket.carried_cons, hf.isControl, if_neg Bool.false_ne_true]
    exact List.append_nil _
  have hwithin : carriedWithin [f] n = f.payload := by
    rw [carriedWithin_behind [] hle, hf.isControl, if_neg Bool.false_ne_true]
    exact List.append_nil _
  rw [Judges, BadSoFar, hcarried, hwithin, List.take_of_length_le hended,
    Websocket.encodeAll_cons]
  rcases text_frame hcb h ht hf hkey with ⟨hbad, href⟩ | ⟨hgood, w', hd, hrun⟩
  · rw [BadText, if_pos hfin] at hbad
    exact ⟨fun _ => href _, fun hb => absurd (.inr ⟨hended, hbad⟩) hb⟩
  · rw [BadText, if_pos hfin, not_not] at hgood
    rw [hrun, Websocket.encodeAll_nil, received_boundary hd.boundary]
    refine ⟨fun hb => ?_, fun _ => hd.admits hfin hm hended⟩
    rw [hgood] at hb
    rcases hb with hb | ⟨-, hb⟩
    · cases hb
    · exact absurd rfl hb

/-- **Another frame of the text.** The verdict on it is final, or the one on the rest counts. -/
theorem text_part (hcb : cb.Obliging) (h : Boundary w) (ht : TextSoFar T w)
    (hf : f.Carries w.inst.rx.inside .text) (hkey : f.key = none) (hfin : f.fin = false)
    (hle : f.encode.length ≤ n)
    (hrest : ∀ w', Delivers f .text f.payload w w' → TextSoFar (T ++ f.payload) w' →
      Judges (T ++ f.payload) fs (n - f.encode.length) w'
        (received cb ((encodeAll fs).take (n - f.encode.length)) w')) :
    Judges T (f :: fs) n w (received cb ((encodeAll (f :: fs)).take n) w) := by
  have hlen : (encodeAll (f :: fs)).length ≤ n ↔ (encodeAll fs).length ≤ n - f.encode.length := by
    rw [Websocket.encodeAll_cons, List.length_append]
    omega
  rw [Judges, BadSoFar, hlen, carriedWithin_behind fs hle, Websocket.carried_cons, hf.isControl,
    if_neg Bool.false_ne_true, ← List.append_assoc, ← List.append_assoc, take_behind fs hle]
  rcases text_frame hcb h ht hf hkey with ⟨hbad, href⟩ | ⟨hgood, w', hd, hrun⟩
  · rw [BadText, if_neg (by simp [hfin])] at hbad
    have hpast (more : List UInt8) : utf8ParseString 0 (T ++ f.payload ++ more) = 1 := by
      rw [utf8ParseString_append, hbad, utf8ParseString_invalid]
    exact ⟨fun _ => href _, fun hb => absurd (.inl (hpast _)) hb⟩
  · rw [BadText, if_neg (by simp [hfin])] at hgood
    obtain ⟨hbad, hok⟩ := hrest w' hd (ht.part hf hfin hd hgood)
    rw [hrun]
    exact ⟨fun hb => (hd.unfinished hfin).declines (hbad hb),
      fun hb => (hd.unfinished hfin).admits (hok hb)⟩

/-- **Within a ping or a pong.** -/
theorem control_inside (hcb : cb.Obliging) (h : Boundary w) (ht : TextSoFar T w)
    (hv : headerVerdict w.inst.rx.inside w.inst.rx.s.size f = none)
    (hop : f.opcode.val = 9 ∨ f.opcode.val = 10) (hctl : f.isControl = true)
    (hn : n < f.encode.length) (fs : List Frame) :
    Judges T (f :: fs) n w (received cb ((encodeAll (f :: fs)).take n) w) := by
  have hended := not_ended fs hn
  rw [Judges, BadSoFar, carriedWithin_inside fs hn, if_pos hctl, List.append_nil,
    take_inside fs hn]
  have hpart : Partway [] w (received cb (f.encode.take n) w) := by
    rcases received_control_part hcb h hv (.inr hop) hn with hpart | ⟨h₈, -⟩
    · exact hpart
    · omega
  refine ⟨fun hb => ?_, fun _ => hpart.admits hended⟩
  rcases hb with hb | hb
  · exact absurd hb ht.valid
  · exact absurd hb.1 hended

/-- **A ping or a pong.** The verdict is the one on the rest. -/
theorem control_part (hcb : cb.Obliging) (h : Boundary w) (ht : TextSoFar T w)
    (hv : headerVerdict w.inst.rx.inside w.inst.rx.s.size f = none)
    (hop : f.opcode.val = 9 ∨ f.opcode.val = 10) (hctl : f.isControl = true)
    (hle : f.encode.length ≤ n)
    (hrest : ∀ w', Answers f w w' → TextSoFar T w' → Judges T fs (n - f.encode.length) w'
      (received cb ((encodeAll fs).take (n - f.encode.length)) w')) :
    Judges T (f :: fs) n w (received cb ((encodeAll (f :: fs)).take n) w) := by
  have hlen : (encodeAll (f :: fs)).length ≤ n ↔ (encodeAll fs).length ≤ n - f.encode.length := by
    rw [Websocket.encodeAll_cons, List.length_append]
    omega
  rw [Judges, BadSoFar, hlen, carriedWithin_behind fs hle, Websocket.carried_cons,
    if_pos hctl, List.nil_append, List.nil_append, take_behind fs hle]
  obtain ⟨w', ha, hrun⟩ := received_ping_pong hcb h hv hop
  obtain ⟨hbad, hok⟩ := hrest w' ha (ht.control ha)
  rw [hrun]
  exact ⟨fun hb => ha.unfinished.declines (hbad hb), fun hb => ha.unfinished.admits (hok hb)⟩

/-- **Text over its frames.** -/
theorem text_run (hcb : cb.Obliging) {room : Nat} {inside : Option Kind}
    (hfs : Fragments .text room inside fs) :
    ∀ {w : World σ} {T : List UInt8} (n : Nat), Boundary w → w.inst.rx.s.size = room →
      w.inst.rx.inside = inside → w.inst.onMessage = true → TextSoFar T w →
      Judges T fs n w (received cb ((encodeAll fs).take n) w) := by
  induction hfs with
  | @last inside f hf hkey hfin =>
    intro w T n h hsize hin hm ht
    subst hin
    -- the call ends in this frame, or goes beyond it
    by_cases hn : n < f.encode.length
    · exact text_inside hcb h ht hf hkey hn []
    · exact text_last hcb h ht hf hkey hfin hm (Nat.not_lt.mp hn)
  | @part inside f fs hf hkey hfin hfs ih =>
    intro w T n h hsize hin hm ht
    subst hin
    by_cases hn : n < f.encode.length
    · exact text_inside hcb h ht hf hkey hn fs
    · refine text_part hcb h ht hf hkey hfin (Nat.not_lt.mp hn) fun w' hd ht' => ?_
      refine ih _ hd.boundary (hd.size.trans hsize) ?_ ?_ ht'
      · rw [hd.inside, hf.progress, hfin]
        rfl
      · rw [hd.inst]
        exact hm
  | @control inside f fs hl hkey hop hroom hfs ih =>
    intro w T n h hsize hin hm ht
    subst hin hsize
    have hctl : f.isControl = true := by
      simp only [Frame.isControl, decide_eq_true_eq]
      omega
    have hv := headerVerdict_of_legal hl (by omega) fun _ => hroom
    by_cases hn : n < f.encode.length
    · exact control_inside hcb h ht hv hop hctl hn fs
    · refine control_part hcb h ht hv hop hctl (Nat.not_lt.mp hn) fun w' ha ht' => ?_
      refine ih _ ha.boundary ha.size ha.inside ?_ ht'
      rw [ha.inst]
      exact hm

end Run

/-- The beginning of the frames of a message, in any blocks, whatever the callbacks do. -/
theorem Reachable.fragments_read {allowed : Caller → Call → Prop} {cb : Callbacks σ} {w : World σ}
    (hw : Reachable allowed w) (hcb : Reentrant allowed cb) (ha : cb.Accepting) (hs : cb.Steady)
    (ho : w.inst.state = .open) (hb : w.inst.rx.state = .opcode) {kind : Kind} {room : Nat}
    {inside : Option Kind} {fs : List Frame} (hfs : Fragments kind room inside fs)
    (hr : cb.Replying ∨ ∀ f ∈ fs, f.opcode.val ≠ 9) {n : Nat} {blocks : List (List UInt8)}
    (hblocks : blocks.flatten = (encodeAll fs).take n)
    (hlen : ∀ data ∈ blocks, data.length < 2 ^ 32) :
    ∃ w', wicParseAll cb blocks w = some w' ∧ Mirrors ((encodeAll fs).take n) w w' := by
  have hbound := hw.boundary ho hb
  have hkeyless : w.Keyless blocks.flatten := by
    have hall := hbound.keyless hfs.keys
    rw [← List.take_append_drop n (encodeAll fs)] at hall
    rw [hblocks]
    exact hall.left
  have hcomplies : cb.Complies w blocks.flatten :=
    ⟨ha, hs, hr.imp_right fun hno => by rw [hblocks]; exact output_pongless hno hbound n⟩
  rw [← hblocks]
  exact wicParseAll_mirrors hcb.calm hcomplies hbound.toLive hbound.rests hlen hkeyless

/-- **Incoming text is validated across all cuts.** Behind the first `n` bytes of the frames of a
text message, in any blocks, the instance is closed when nothing can complete the text so far, or
when the message is at its end and the text is not well formed; otherwise it is open, and has passed
on the end of the message exactly when that is there. -/
theorem Reachable.text_validated {allowed : Caller → Call → Prop} {cb : Callbacks σ} {w : World σ}
    (hw : Reachable allowed w) (hcb : Reentrant allowed cb) (ha : cb.Accepting) (hs : cb.Steady)
    (ho : w.inst.state = .open) (hb : w.inst.rx.state = .opcode) (hin : w.inst.rx.inside = none)
    (hm : w.inst.onMessage = true) {fs : List Frame}
    (hfs : Fragments .text w.inst.rx.s.size none fs)
    (hr : cb.Replying ∨ ∀ f ∈ fs, f.opcode.val ≠ 9) {n : Nat} {blocks : List (List UInt8)}
    (hblocks : blocks.flatten = (encodeAll fs).take n)
    (hlen : ∀ data ∈ blocks, data.length < 2 ^ 32) :
    let ended := (encodeAll fs).length ≤ n
    let bad := (¬∃ more, Utf8.WellFormed (carriedWithin fs n ++ more)) ∨
      ended ∧ ¬Utf8.WellFormed (carried fs)
    ∃ w', wicParseAll cb blocks w = some w' ∧ (bad → Refuses w w') ∧
      (¬bad → Accepts ended w w') := by
  dsimp only
  have hbound := hw.boundary ho hb
  have hsofar : TextSoFar [] w :=
    ⟨fun _ => rfl, fun h => by simp [hin] at h, by simp⟩
  obtain ⟨w', hall, hmirrors⟩ := hw.fragments_read hcb ha hs ho hb hfs hr hblocks hlen
  have hrun := text_run Callbacks.granting_obliging hfs n hbound rfl hin hm hsofar
  rw [Judges, BadSoFar, List.nil_append, List.nil_append, utf8ParseString_eq_one_iff] at hrun
  have hcomplete : utf8ParseString 0 (carried fs) ≠ 0 ↔ ¬Utf8.WellFormed (carried fs) := by
    rw [← utf8IsComplete_iff, utf8IsComplete, beq_iff_eq]
  rw [hcomplete] at hrun
  exact ⟨w', hall, fun hbad => (hrun.1 hbad).refuses hbound.toLive hmirrors,
    fun hgood => (hrun.2 hgood).accepts hbound.toLive hmirrors⟩

/-- The last part of a message. -/
def Event.lastPart : Event → Bool
  | .message _ fin _ => fin
  | _ => false

namespace Sample

/-- The two bytes of a character in two frames, with a ping between them. -/
def cutText : List Frame :=
  [.of false 1 none [0xc3] (by decide), .of true 9 none [] (Nat.two_pow_pos 64),
    .of true 0 none [0xa9] (by decide)]

theorem cutText_fragments (room : Nat) : Fragments .text room none cutText :=
  .part ⟨rfl, .inl ⟨rfl, rfl⟩⟩ rfl rfl
    (.control (by decide) rfl (.inl rfl) (Nat.zero_le _) (.last ⟨rfl, .inr ⟨rfl, rfl⟩⟩ rfl rfl))

/-- The text that is cut in the middle of a character is passed on. -/
theorem text_validated_cut : ∃ w w' : World Unit,
    wicParseAll giving [encodeAll cutText] w = some w' ∧ Accepts (8 ≤ 8) w w' := by
  obtain ⟨w, hw, ho, hb, hf, -, hm, -⟩ := opens
  have hin : w.inst.rx.inside = none := by simp [RxFrame.inside, hf]
  have hlen : (encodeAll cutText).length = 8 := by decide
  have hwithin : carriedWithin cutText 8 = carried cutText := by decide
  have hwell : Utf8.WellFormed (carried cutText) := utf8IsComplete_iff.mp (by decide)
  have hcb := giving_obliging
  obtain ⟨w', hall, -, hgood⟩ := (hw fun _ _ => True).text_validated (.passive hcb.toPassive)
    hcb.agreeable.accepts hcb.agreeable.steady ho hb hin hm (cutText_fragments _)
    (.inl hcb.agreeable.replies)
    (show [encodeAll cutText].flatten = (encodeAll cutText).take 8 by decide) (by decide)
  rw [hlen] at hgood
  refine ⟨w, w', hall, hgood ?_⟩
  rintro (hbad | hbad)
  · refine hbad ⟨[], ?_⟩
    rw [hwithin, List.append_nil]
    exact hwell
  · exact hbad.2 hwell

/-- A client with a buffer of 100 bytes. -/
def smallArg : InitArg :=
  { arg with
    rx := List.replicate 100 0
    rxMax := 100
    rxMax_le := by rw [List.length_replicate] }

/-- A text in two frames, with a ping of 110 bytes between them. -/
def pingedText : List Frame :=
  [.of false 1 none (ascii "a") (by decide),
    .of true 9 none (List.replicate 110 0) (by rw [List.length_replicate]; decide),
    .of true 0 none (ascii "b") (by decide)]

/-- A ping that does not fit the buffer ends the text, although the frames are legal and the text is
well formed: the instance is closed with `WIC_CLOSE_TOO_BIG`. -/
theorem long_ping_ends_text : ∃ w w' : World Unit, (∀ allowed, Reachable allowed w) ∧
    w.inst.state = .open ∧ w.inst.rx.state = .opcode ∧ w.inst.rx.inside = none ∧
    w.inst.onMessage = true ∧ Websocket.LegalSequence none pingedText ∧
    (∀ f ∈ pingedText, f.key = none) ∧ Utf8.WellFormed (carried pingedText) ∧
    wicParseAll giving [encodeAll pingedText] w = some w' ∧ w'.inst.state = .closed ∧
    .closing closeTooBig ∈ w'.log ∧ .closing closeInvalidData ∉ w'.log ∧
    ∀ encoding data, .message encoding true data ∉ w'.log := by
  have hrun : (session (host id) smallArg () [response]).bind (fun w =>
      (wicParseAll giving [encodeAll pingedText] w).map fun w' =>
        ((w.inst.state, w.inst.rx.state, w.inst.rx.inside, w.inst.onMessage), w'.inst.state,
          decide (.closing closeTooBig ∈ w'.log), decide (.closing closeInvalidData ∈ w'.log),
          w'.log.any Event.lastPart)) =
      some ((.open, .opcode, none, true), .closed, true, false, false) := by
    decide +kernel
  obtain ⟨w, hw, hrun⟩ := Option.bind_eq_some_iff.mp hrun
  obtain ⟨w', hall, heq⟩ := Option.map_eq_some_iff.mp hrun
  simp only [Prod.mk.injEq, decide_eq_true_eq, decide_eq_false_iff_not] at heq
  obtain ⟨⟨ho, hb, hin, hm⟩, hc, hbig, hno, hany⟩ := heq
  refine ⟨w, w', fun _ => session_reachable (.passive host_passive) hw, ho, hb, hin, hm, by decide,
    by decide, utf8IsComplete_iff.mp (by decide), hall, hc, hbig, hno, fun encoding data hd => ?_⟩
  rw [List.any_eq_false] at hany
  exact hany _ hd rfl

/-- An application that closes the instance in `on_message`. -/
def hangUp : Callbacks Unit :=
  { giving with onMessage := fun _ _ _ w => (true, Call.close.run giving w) }

/-- The text that is cut in the middle of a character does not come to its end when there is no buffer
for a pong, nor when `on_message` closes the instance. -/
theorem cutText_stops : ∃ w u v : World Unit, (∀ allowed, Reachable allowed w) ∧
    w.inst.state = .open ∧ w.inst.rx.state = .opcode ∧ w.inst.rx.inside = none ∧
    w.inst.onMessage = true ∧ wicParseAll giving.roomier [encodeAll cutText] w = some u ∧
    wicParseAll hangUp [encodeAll cutText] w = some v ∧ u.inst.state = .open ∧
    v.inst.state = .closed ∧ .closing closeInvalidData ∉ v.log ∧
    ∀ encoding data, .message encoding true data ∉ u.log ∧ .message encoding true data ∉ v.log := by
  have hrun : (session (host id) arg () [response]).bind (fun w =>
      (wicParseAll giving.roomier [encodeAll cutText] w).bind fun u =>
        (wicParseAll hangUp [encodeAll cutText] w).map fun v =>
          ((w.inst.state, w.inst.rx.state, w.inst.rx.inside, w.inst.onMessage),
            u.inst.state, v.inst.state, [decide (.closing closeInvalidData ∈ v.log),
              u.log.any Event.lastPart, v.log.any Event.lastPart])) =
      some ((.open, .opcode, none, true), .open, .closed, [false, false, false]) := by
    decide +kernel
  obtain ⟨w, hw, hrun⟩ := Option.bind_eq_some_iff.mp hrun
  obtain ⟨u, hu, hrun⟩ := Option.bind_eq_some_iff.mp hrun
  obtain ⟨v, hv, heq⟩ := Option.map_eq_some_iff.mp hrun
  simp only [Prod.mk.injEq, List.cons.injEq, decide_eq_false_iff_not, List.any_eq_false] at heq
  obtain ⟨⟨ho, hb, hin, hm⟩, huo, hvc, hno, hua, hva, -⟩ := heq
  exact ⟨w, u, v, fun _ => session_reachable (.passive host_passive) hw, ho, hb, hin, hm, hu, hv, huo,
    hvc, hno, fun encoding data => ⟨fun hd => hua _ hd rfl, fun hd => hva _ hd rfl⟩⟩

/-- **Texts that are well formed and do not come to their end**: a ping does not fit the rx buffer;
there is no buffer for a pong; `on_message` closes the instance. -/
theorem text_stopped :
    (∃ w w' : World Unit, (∀ allowed, Reachable allowed w) ∧
      w.inst.state = .open ∧ w.inst.rx.state = .opcode ∧ w.inst.rx.inside = none ∧
      w.inst.onMessage = true ∧ Websocket.LegalSequence none pingedText ∧
      (∀ f ∈ pingedText, f.key = none) ∧ Utf8.WellFormed (carried pingedText) ∧
      wicParseAll giving [encodeAll pingedText] w = some w' ∧ w'.inst.state = .closed ∧
      .closing closeTooBig ∈ w'.log ∧ .closing closeInvalidData ∉ w'.log ∧
      ∀ encoding data, .message encoding true data ∉ w'.log) ∧
    Utf8.WellFormed (carried cutText) ∧
    ∃ w u v : World Unit, (∀ allowed, Reachable allowed w) ∧
      w.inst.state = .open ∧ w.inst.rx.state = .opcode ∧ w.inst.rx.inside = none ∧
      w.inst.onMessage = true ∧ wicParseAll giving.roomier [encodeAll cutText] w = some u ∧
      wicParseAll hangUp [encodeAll cutText] w = some v ∧ u.inst.state = .open ∧
      v.inst.state = .closed ∧ .closing closeInvalidData ∉ v.log ∧
      ∀ encoding data, .message encoding true data ∉ u.log ∧ .message encoding true data ∉ v.log :=
  ⟨long_ping_ends_text, utf8IsComplete_iff.mp (by decide), cutText_stops⟩

end Sample

end Wic
