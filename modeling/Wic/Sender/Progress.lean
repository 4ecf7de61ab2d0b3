import Wic.Sender.Wire
import Wic.Text.Automaton

/-!
# The sender

A `wic_send_*` function looks at the fragmentation and the text in progress, and either ends at
once or asks for a buffer for one frame; only when it gets the buffer does the progress move. Here
that is a function of the progress, the call and the answers of the application: what the sender
does without the world around it.

## Main definitions

* `Send`, `Send.run`: a call of a `wic_send_*` function
* `Progress`, `Send.frame`: the frame a call asks a buffer for
* `Answer`, `Send.outcome`, `outcomes`, `sent`: a call, and a sequence of calls, with the answers
* `Progress.At`, `Progress.Sane`: the message in progress

## Main results

* `Send.run_eq`: the functions of the source ask for `Send.frame`
* `outcomes_remove`: a call that fails may be left out
* `sent_legal`: the frames of a sequence of calls are legal, and its texts well formed
-/

namespace Wic

open Websocket (Kind Frame Message LegalSequence messages)

variable {σ : Type} (cb : Callbacks σ)

/-- A call of `wic_send_text`, `wic_send_binary` or `wic_send_ping_with_payload`. -/
inductive Send
  | text (fin : Bool) (data : Payload)
  | binary (fin : Bool) (data : Payload)
  | ping (data : Payload)

/-- The function of the source. -/
def Send.run : Send → World σ → Status × World σ
  | .text fin data, w => wicSendText cb fin data w
  | .binary fin data, w => wicSendBinary cb fin data w
  | .ping data, w => wicSendPingWithPayload cb data w

/-! ## The frame of a call -/

/-- The fields of an instance that say how far sending has come. -/
structure Progress where
  frag : Opcode
  utf8Tx : Nat
  deriving DecidableEq

/-- How far sending has come. -/
def Inst.progress (i : Inst) : Progress := ⟨i.frag, i.utf8Tx⟩

/-- The instance with its progress changed. -/
def Inst.advance (f : Progress → Progress) (i : Inst) : Inst :=
  { i with frag := (f i.progress).frag, utf8Tx := (f i.progress).utf8Tx }

@[simp] theorem Inst.advance_progress (f : Progress → Progress) (i : Inst) :
    (i.advance f).progress = f i.progress := rfl

@[simp] theorem Inst.advance_id (i : Inst) : i.advance id = i := rfl

/-- The text a call of `wic_send_text` goes on with. -/
def Progress.text (p : Progress) : Nat := if p.frag = .continue then 0 else p.utf8Tx

/-- The frame a call asks a buffer for, and the progress once it is sent; or the status with which
the call ends before that. -/
def Send.frame (p : Progress) : Send → Except Status (TxFrame × (Progress → Progress))
  | .text fin data =>
    if p.frag = .continue ∨ p.frag = .text then
      let state := utf8ParseString p.text data.bytes
      if utf8IsInvalid state || fin && !utf8IsComplete state then .error .badInput
      else
        let opcode := if p.frag = .text then .continue else .text
        .ok ({ fin, opcode, type := .user, payload := data },
          fun _ => ⟨if fin then .continue else .text, state⟩)
    else .error .badState
  | .binary fin data =>
    if p.frag = .continue ∨ p.frag = .binary then
      let opcode := if p.frag = .binary then .continue else .binary
      .ok ({ fin, opcode, type := .user, payload := data },
        fun q => ⟨if fin then .continue else .binary, q.utf8Tx⟩)
    else .error .badState
  | .ping data => .ok ({ fin := true, opcode := .ping, type := .ping, payload := data }, id)

/-- What a call does once sending is allowed. -/
def Send.attempt (send : Send) (w : World σ) : Status × World σ :=
  match send.frame w.inst.progress with
  | .error status => (status, w)
  | .ok (f, done) => putAndSend cb f (Inst.advance done) w

theorem Send.attempt_text (fin : Bool) (data : Payload) (w : World σ) :
    (Send.text fin data).attempt cb w =
      if w.inst.frag = .continue ∨ w.inst.frag = .text then
        let opcode := if w.inst.frag = .text then .continue else .text
        let state :=
          utf8ParseString (if w.inst.frag = .continue then 0 else w.inst.utf8Tx) data.bytes
        if utf8IsInvalid state then (.badInput, w)
        else if !fin || utf8IsComplete state then
          putAndSend cb { fin, opcode, type := .user, payload := data }
            (fun i => { i with utf8Tx := state, frag := if fin then .continue else .text }) w
        else (.badInput, w)
      else (.badState, w) := by
  -- `frame` makes in one test what the source checks one after the other
  have hput (opcode : Opcode) (state : Nat) :
      (match (if utf8IsInvalid state || fin && !utf8IsComplete state then
        .error .badInput
      else .ok ({ fin, opcode, type := .user, payload := data },
        fun _ => ⟨if fin then .continue else .text, state⟩) :
          Except Status (TxFrame × (Progress → Progress))) with
      | .error status => (status, w)
      | .ok (f, done) => putAndSend cb f (Inst.advance done) w) =
      if utf8IsInvalid state then (.badInput, w)
      else if !fin || utf8IsComplete state then
        putAndSend cb { fin, opcode, type := .user, payload := data }
          (fun i => { i with utf8Tx := state, frag := if fin then .continue else .text }) w
      else (.badInput, w) := by
    cases utf8IsInvalid state with
    | true => rfl
    | false => cases fin <;> cases utf8IsComplete state <;> rfl
  -- either a text may be sent now, or another message is under way
  by_cases h : w.inst.frag = .continue ∨ w.inst.frag = .text
  · rw [if_pos h, attempt, frame, if_pos (by exact h)]
    exact hput _ _
  · rw [if_neg h, attempt, frame, if_neg (by exact h)]

theorem Send.attempt_binary (fin : Bool) (data : Payload) (w : World σ) :
    (Send.binary fin data).attempt cb w =
      if w.inst.frag = .continue ∨ w.inst.frag = .binary then
        let opcode := if w.inst.frag = .binary then .continue else .binary
        putAndSend cb { fin, opcode, type := .user, payload := data }
          (fun i => { i with frag := if fin then .continue else .binary }) w
      else (.badState, w) := by
  by_cases h : w.inst.frag = .continue ∨ w.inst.frag = .binary
  · rw [if_pos h, attempt, frame, if_pos (by exact h)]
    rfl
  · rw [if_neg h, attempt, frame, if_neg (by exact h)]

/-- A status that is noted. -/
private theorem noted {r r' : Status × World σ} (h : r = r') :
    (r.1, r.2.emit (.status r.1)) = (r'.1, r'.2.emit (.status r'.1)) := by
  rw [h]

/-- **A call asks for its frame when sending is allowed, and notes its status.** -/
theorem Send.run_eq (send : Send) (w : World σ) :
    send.run cb w =
      let r := if (allowedToSend w).1 then send.attempt cb (allowedToSend w).2
        else (.notOpen, (allowedToSend w).2)
      (r.1, r.2.emit (.status r.1)) := by
  cases send with
  | text fin data =>
    simp only [run, wicSendText]
    generalize allowedToSend w = a
    obtain ⟨allowed, w₁⟩ := a
    cases allowed with
    | false => rfl
    | true =>
      refine noted ?_
      simp only [if_true, attempt_text]
      -- the source asks first whether the text begins or goes on
      split
      · next h => rw [if_pos (show w₁.inst.frag = .continue ∨ w₁.inst.frag = .text from .inl h)]
      · next h => rw [if_pos (show w₁.inst.frag = .continue ∨ w₁.inst.frag = .text from .inr h)]
      · next h₁ h₂ => rw [if_neg (not_or.mpr ⟨h₁, h₂⟩)]
  | binary fin data =>
    simp only [run, wicSendBinary]
    generalize allowedToSend w = a
    obtain ⟨allowed, w₁⟩ := a
    cases allowed with
    | false => rfl
    | true =>
      refine noted ?_
      simp only [if_true, attempt_binary]
      split
      · next h => rw [if_pos (show w₁.inst.frag = .continue ∨ w₁.inst.frag = .binary from .inl h)]
      · next h => rw [if_pos (show w₁.inst.frag = .continue ∨ w₁.inst.frag = .binary from .inr h)]
      · next h₁ h₂ => rw [if_neg (not_or.mpr ⟨h₁, h₂⟩)]
  | ping data => rfl

/-! ## Outcomes -/

/-- What the application answers during a call: the random number, and the buffer. -/
structure Answer where
  mask : UInt32
  buf : Option Nat
  max : Nat

/-- What a call comes to: its status, the frame handed over, and the progress behind it. -/
structure Outcome where
  status : Status
  frame : Option TxFrame
  progress : Progress

/-- A call, given the answers. -/
def Send.outcome (p : Progress) (send : Send) (a : Answer) : Outcome :=
  match send.frame p with
  | .error status => ⟨status, none, p⟩
  | .ok (f, done) =>
    if (f.withMask a.mask).wire.length ≤ a.max then
      match a.buf with
      | some _ => ⟨.success, some (f.withMask a.mask), done p⟩
      | none => ⟨.wouldBlock, none, p⟩
    else ⟨.tooLarge, none, p⟩

/-- A sequence of calls, given the answers. -/
def outcomes : Progress → List (Send × Answer) → List Outcome
  | _, [] => []
  | p, (send, a) :: script =>
    send.outcome p a :: outcomes (send.outcome p a).progress script

section Outcomes

variable {p : Progress} {send : Send} {a : Answer}

/-- A call that ends before it asks for a buffer has not succeeded. -/
theorem Send.frame_error {status : Status} (h : send.frame p = .error status) :
    status = .badInput ∨ status = .badState := by
  unfold frame at h
  cases send with
  | text fin data =>
    dsimp only at h
    split_ifs at h <;> cases h <;> simp
  | binary fin data =>
    dsimp only at h
    split_ifs at h
    cases h
    simp
  | ping data => cases h

/-- **A call hands over one frame when it succeeds, and nothing otherwise, when the progress stays
as it was.** -/
theorem Send.outcome_cases (p : Progress) (send : Send) (a : Answer) :
    ((send.outcome p a).status = .success ∧ ∃ f done, send.frame p = .ok (f, done) ∧
        (send.outcome p a).frame = some (f.withMask a.mask) ∧
          (send.outcome p a).progress = done p) ∨
      ((send.outcome p a).status ≠ .success ∧ (send.outcome p a).frame = none ∧
        (send.outcome p a).progress = p) := by
  unfold outcome
  cases hf : send.frame p with
  | error status =>
    refine .inr ⟨?_, rfl, rfl⟩
    rcases frame_error hf with rfl | rfl <;> simp
  | ok r =>
    obtain ⟨f, done⟩ := r
    dsimp only
    split_ifs
    · cases a.buf with
      | some buf => exact .inl ⟨rfl, f, done, rfl, rfl, rfl⟩
      | none => exact .inr ⟨by simp, rfl, rfl⟩
    · exact .inr ⟨by simp, rfl, rfl⟩

@[simp] theorem outcomes_nil : outcomes p [] = [] := rfl

@[simp] theorem outcomes_cons (script : List (Send × Answer)) :
    outcomes p ((send, a) :: script) =
      send.outcome p a :: outcomes (send.outcome p a).progress script := rfl

/-- **A call that fails may be left out**: the calls behind it come to the same. -/
theorem outcomes_remove {pre post : List (Send × Answer)}
    (h : ∀ o, (outcomes p (pre ++ (send, a) :: post))[pre.length]? = some o →
      o.status ≠ .success) :
    outcomes p (pre ++ post) = (outcomes p (pre ++ (send, a) :: post)).eraseIdx pre.length := by
  induction pre generalizing p with
  | nil =>
    have hfail := h (send.outcome p a) rfl
    have hstay : (send.outcome p a).progress = p := by
      rcases send.outcome_cases p a with ⟨hs, -⟩ | ⟨-, -, hp⟩
      · exact absurd hs hfail
      · exact hp
    simp [hstay]
  | cons x pre ih =>
    obtain ⟨send', a'⟩ := x
    simp only [List.cons_append, outcomes_cons, List.length_cons, List.eraseIdx_cons_succ]
    rw [ih fun o ho => h o (by simpa using ho)]

end Outcomes

/-! ## The message in progress -/

/-- The progress is that of a message of which `pending` has been sent. -/
def Progress.At (p : Progress) : Option Kind → List UInt8 → Prop
  | none, pending => p.frag = .continue ∧ pending = []
  | some .text, pending => p.frag = .text ∧ p.utf8Tx = utf8ParseString 0 pending
  | some .binary, _ => p.frag = .binary

/-- What the data of a call carries. -/
def Send.kind : Send → Option Kind
  | .text .. => some .text
  | .binary .. => some .binary
  | .ping _ => none

/-- The data of a call. -/
def Send.data : Send → Payload
  | .text _ data | .binary _ data | .ping data => data

/-- The data of a call ends its message. -/
def Send.fin : Send → Bool
  | .text fin _ | .binary fin _ => fin
  | .ping _ => true

/-- The frame of a call is its data, as a part of the message in progress. -/
structure Send.Fits (send : Send) (inside : Option Kind) (pending : List UInt8) (g : Frame) :
    Prop where
  kind : g.kind inside = send.kind
  fin : g.fin = send.fin
  payload : g.payload = send.data.bytes
  control : g.isControl = send.kind.isNone
  legal : g.isControl = false → g.Legal inside
  text : ∀ m, g.completes inside pending = some m → m.kind = .text → Utf8.WellFormed m.payload

section At

variable {p : Progress} {inside : Option Kind} {pending : List UInt8}

/-- The text that a call of `wic_send_text` goes on with. -/
theorem Progress.At.text (h : p.At inside pending) (hi : inside = none ∨ inside = some .text) :
    p.text = utf8ParseString 0 pending ∧ (p.frag = .continue ↔ inside = none) ∧
      (p.frag = .text ↔ inside = some .text) := by
  rcases hi with rfl | rfl
  · obtain ⟨hf, rfl⟩ := h
    simp [Progress.text, hf]
  · obtain ⟨hf, hu⟩ := h
    simp [Progress.text, hf, hu]

theorem TxFrame.content_of_ne_close {f : TxFrame} (h : f.opcode ≠ .close) :
    f.content = f.payload.bytes := by
  simp [content, h]

/-- A frame that carries the data of a call fits the message in progress. -/
theorem Send.Fits.of_carries {send : Send} {kind : Kind} {g : Frame}
    (hc : g.Carries inside kind) (hk : send.kind = some kind) (hf : g.fin = send.fin)
    (hp : g.payload = send.data.bytes)
    (ht : kind = .text → g.fin = true → Utf8.WellFormed (pending ++ g.payload)) :
    send.Fits inside pending g where
  kind := by rw [hc.kind_eq, hk]
  fin := hf
  payload := hp
  control := by rw [hc.isControl, hk]; rfl
  legal _ := hc.legal
  text m hm hkind := by
    rw [hc.completes] at hm
    split_ifs at hm with hfin
    cases hm
    exact ht hkind hfin

/-- The opcode that opens a message. -/
def opening : Kind → Opcode
  | .text => .text
  | .binary => .binary

/-- The frame of a call of `wic_send_text` or `wic_send_binary`. -/
def dataFrame (p : Progress) (kind : Kind) (fin : Bool) (data : Payload) : TxFrame :=
  { fin
    opcode := if p.frag = opening kind then .continue else opening kind
    type := .user
    payload := data }

theorem dataFrame_opcode (p : Progress) (kind : Kind) (fin : Bool) (data : Payload) :
    (dataFrame p kind fin data).opcode = .continue ∨
      (dataFrame p kind fin data).opcode = opening kind :=
  ite_eq_or_eq _ _ _

/-- It is a part of its message. -/
theorem dataFrame_carries {kind : Kind} (hi : inside = none ∨ inside = some kind)
    (hfrag : p.frag = opening kind ↔ inside = some kind) (fin : Bool) (data : Payload)
    (m : UInt32) : ((dataFrame p kind fin data).withMask m).frame.Carries inside kind ∧
      ((dataFrame p kind fin data).withMask m).frame.payload = data.bytes := by
  have hop : ((dataFrame p kind fin data).withMask m).opcode =
      if inside = some kind then .continue else opening kind := by
    simp only [dataFrame, TxFrame.withMask, hfrag]
  refine ⟨⟨rfl, ?_⟩, TxFrame.content_of_ne_close ?_⟩
  · rcases hi with rfl | rfl
    · refine .inl ⟨rfl, ?_⟩
      rw [TxFrame.frame, hop]
      cases kind <;> rfl
    · refine .inr ⟨rfl, ?_⟩
      rw [TxFrame.frame, hop, if_pos rfl]
      rfl
  · rw [hop]
    cases kind <;> split_ifs <;> simp [opening]

/-- The frame a call of `wic_send_text` asks a buffer for. -/
theorem Send.frame_text {fin : Bool} {data : Payload} {r : TxFrame × (Progress → Progress)}
    (h : (Send.text fin data).frame p = .ok r) :
    (p.frag = .continue ∨ p.frag = .text) ∧
      (fin = true → utf8IsComplete (utf8ParseString p.text data.bytes) = true) ∧
      r = (dataFrame p .text fin data,
        fun _ => ⟨if fin then .continue else .text, utf8ParseString p.text data.bytes⟩) := by
  unfold frame at h
  dsimp only at h
  by_cases hfrag : p.frag = .continue ∨ p.frag = .text
  swap
  · rw [if_neg hfrag] at h
    cases h
  rw [if_pos hfrag] at h
  by_cases hbad : (utf8IsInvalid (utf8ParseString p.text data.bytes) ||
      fin && !utf8IsComplete (utf8ParseString p.text data.bytes)) = true
  · rw [if_pos hbad] at h
    cases h
  rw [if_neg hbad] at h
  cases h
  simp only [Bool.or_eq_true, Bool.and_eq_true, Bool.not_eq_true', not_or, not_and] at hbad
  exact ⟨hfrag, fun hfin => by simpa using hbad.2 hfin, rfl⟩

/-- The frame a call of `wic_send_binary` asks a buffer for. -/
theorem Send.frame_binary {fin : Bool} {data : Payload} {r : TxFrame × (Progress → Progress)}
    (h : (Send.binary fin data).frame p = .ok r) :
    (p.frag = .continue ∨ p.frag = .binary) ∧
      r = (dataFrame p .binary fin data,
        fun q => ⟨if fin then .continue else .binary, q.utf8Tx⟩) := by
  unfold frame at h
  dsimp only at h
  by_cases hfrag : p.frag = .continue ∨ p.frag = .binary
  · rw [if_pos hfrag] at h
    cases h
    exact ⟨hfrag, rfl⟩
  · rw [if_neg hfrag] at h
    cases h

/-- **The frame of a call fits the message in progress, and the progress goes on with it.** -/
theorem Send.frame_fits (h : p.At inside pending) {send : Send} {f : TxFrame}
    {done : Progress → Progress} (hf : send.frame p = .ok (f, done)) (m : UInt32) :
    send.Fits inside pending (f.withMask m).frame ∧
      (done p).At ((f.withMask m).frame.progress inside) ((f.withMask m).frame.pending pending) := by
  cases send with
  | text fin data =>
    obtain ⟨hfrag, hcomplete, heq⟩ := frame_text hf
    obtain ⟨rfl, rfl⟩ := Prod.mk.inj heq
    -- a text begins or goes on
    have hinside : inside = none ∨ inside = some .text := by
      rcases inside with _ | _ | _
      · exact .inl rfl
      · exact .inr rfl
      · rw [show p.frag = .binary from h] at hfrag
        simp at hfrag
    obtain ⟨hu, -, hsome⟩ := h.text hinside
    obtain ⟨hc, hp⟩ := dataFrame_carries hinside hsome fin data m
    have hfin : ((dataFrame p .text fin data).withMask m).frame.fin = fin := rfl
    -- what has been sent of it and its new part form one text
    rw [hu, ← utf8ParseString_append] at hcomplete ⊢
    refine ⟨.of_carries hc rfl hfin hp fun _ hend => ?_, ?_⟩
    · rw [hp]
      exact utf8IsComplete_iff.mp (hcomplete hend)
    · rw [hc.progress, hc.pending, hfin, hp]
      cases fin with
      | true => exact ⟨rfl, rfl⟩
      | false => exact ⟨rfl, rfl⟩
  | binary fin data =>
    obtain ⟨hfrag, heq⟩ := frame_binary hf
    obtain ⟨rfl, rfl⟩ := Prod.mk.inj heq
    have hinside : (inside = none ∨ inside = some .binary) ∧
        (p.frag = .binary ↔ inside = some .binary) := by
      rcases inside with _ | _ | _
      · simp [h.1]
      · rw [h.1] at hfrag
        simp at hfrag
      · have hb : p.frag = .binary := h
        simp [hb]
    obtain ⟨hc, hp⟩ := dataFrame_carries hinside.1 hinside.2 fin data m
    have hfin : ((dataFrame p .binary fin data).withMask m).frame.fin = fin := rfl
    refine ⟨.of_carries hc rfl hfin hp (by simp), ?_⟩
    rw [hc.progress, hc.pending, hfin]
    cases fin with
    | true => exact ⟨rfl, rfl⟩
    | false => exact rfl
  | ping data =>
    cases hf
    set g := (TxFrame.withMask { fin := true, opcode := .ping, type := .ping, payload := data } m).frame
    have hc : g.isControl = true := rfl
    -- a control frame belongs to no message
    obtain ⟨hprogress, hpending, hcompletes⟩ := Websocket.Frame.control_eq hc inside pending
    rw [hprogress, hpending]
    refine ⟨⟨rfl, rfl, TxFrame.content_of_ne_close (by simp [TxFrame.withMask]), rfl, fun h => ?_,
      fun m hm => ?_⟩, h⟩
    · rw [hc] at h
      cases h
    · rw [hcompletes] at hm
      cases hm

/-- No call asks a buffer for a close frame. -/
theorem Send.frame_ne_close {send : Send} {f : TxFrame} {done : Progress → Progress}
    (hf : send.frame p = .ok (f, done)) : f.opcode ≠ .close := by
  have hdata (kind : Kind) (fin : Bool) (data : Payload) :
      (dataFrame p kind fin data).opcode ≠ .close := by
    rcases dataFrame_opcode p kind fin data with h | h <;> rw [h] <;> cases kind <;> simp [opening]
  cases send with
  | text fin data =>
    obtain ⟨-, -, heq⟩ := frame_text hf
    obtain ⟨rfl, -⟩ := Prod.mk.inj heq
    exact hdata .text fin data
  | binary fin data =>
    obtain ⟨-, heq⟩ := frame_binary hf
    obtain ⟨rfl, -⟩ := Prod.mk.inj heq
    exact hdata .binary fin data
  | ping data =>
    cases hf
    simp

/-- The frames of calls are written with a length field that holds their length. -/
theorem Send.wire_eq_encode {send : Send} {f : TxFrame} {done : Progress → Progress}
    (hf : send.frame p = .ok (f, done)) (m : UInt32) :
    (f.withMask m).wire = (f.withMask m).frame.encode := by
  have hne : f.opcode ≠ .close := frame_ne_close hf
  have hp : (f.withMask m).content = (f.withMask m).payload.bytes :=
    TxFrame.content_of_ne_close hne
  refine TxFrame.wire_eq_encode _ ?_
  rw [hp]
  exact (f.withMask m).payload.length_lt

/-- The progress is that of some message, or of none. -/
def Progress.Sane (p : Progress) : Prop := ∃ inside pending, p.At inside pending

/-- A frame that is sent leaves a sane progress. -/
theorem Send.frame_sane (h : p.Sane) {send : Send} {f : TxFrame} {done : Progress → Progress}
    (hf : send.frame p = .ok (f, done)) {q : Progress} (hq : q.Sane) : (done q).Sane := by
  obtain ⟨inside, pending, hat⟩ := h
  have hdone := (frame_fits hat hf 0).2
  cases send with
  | text fin data =>
    obtain ⟨-, -, heq⟩ := frame_text hf
    obtain ⟨rfl, rfl⟩ := Prod.mk.inj heq
    exact ⟨_, _, hdone⟩
  | binary fin data =>
    obtain ⟨-, heq⟩ := frame_binary hf
    obtain ⟨rfl, rfl⟩ := Prod.mk.inj heq
    cases fin with
    | true => exact ⟨none, [], rfl, rfl⟩
    | false => exact ⟨some .binary, [], rfl⟩
  | ping data =>
    cases hf
    exact hq

/-! ## Sequences of calls -/

/-- The frames handed over, each with the call it comes from. -/
def sent : Progress → List (Send × Answer) → List (Send × Frame)
  | _, [] => []
  | p, (send, a) :: script =>
    ((send.outcome p a).frame.toList.map fun f => (send, f.frame)) ++
      sent (send.outcome p a).progress script

/-- Every frame carries the data of its call, in a message of the kind the call is for. -/
def Carried : Option Kind → List (Send × Frame) → Prop
  | _, [] => True
  | inside, (send, f) :: rest =>
    (f.kind inside = send.kind ∧ f.fin = send.fin ∧ f.payload = send.data.bytes) ∧
      Carried (f.progress inside) rest

theorem sent_success {send : Send} {a : Answer} {f : TxFrame}
    (h : (send.outcome p a).frame = some f) (script : List (Send × Answer)) :
    sent p ((send, a) :: script) =
      (send, f.frame) :: sent (send.outcome p a).progress script := by
  simp [sent, h]

theorem sent_failure {send : Send} {a : Answer} (h : (send.outcome p a).frame = none)
    (hp : (send.outcome p a).progress = p) (script : List (Send × Answer)) :
    sent p ((send, a) :: script) = sent p script := by
  simp [sent, h, hp]

/-- **The frames of a sequence of calls carry the data of the calls, the data frames among them are
a legal sequence, and the texts they complete are well formed.** -/
theorem sent_legal (h : p.At inside pending) (script : List (Send × Answer)) :
    Carried inside (sent p script) ∧
      LegalSequence inside (((sent p script).map Prod.snd).filter fun f => !f.isControl) ∧
      ∀ m ∈ messages inside pending ((sent p script).map Prod.snd),
        m.kind = .text → Utf8.WellFormed m.payload := by
  induction script generalizing p inside pending with
  | nil => exact ⟨trivial, trivial, by simp [sent, messages]⟩
  | cons x script ih =>
    obtain ⟨send, a⟩ := x
    rcases send.outcome_cases p a with ⟨-, f, done, hf, hframe, hprogress⟩ | ⟨-, hframe, hprogress⟩
    · obtain ⟨hfits, hat⟩ := Send.frame_fits h hf a.mask
      rw [sent_success hframe, hprogress]
      obtain ⟨hcarried, hlegal, htexts⟩ := ih hat
      rw [List.map_cons]
      generalize (f.withMask a.mask).frame = g at hfits hcarried hlegal htexts
      refine ⟨⟨⟨hfits.kind, hfits.fin, hfits.payload⟩, hcarried⟩, ?_, fun m hm hkind => ?_⟩
      · cases hc : g.isControl with
        | true =>
          rw [(Websocket.Frame.control_eq hc inside pending).1] at hlegal
          simpa [hc] using hlegal
        | false =>
          rw [List.filter_cons_of_pos (by simp [hc])]
          exact ⟨hfits.legal hc, hlegal⟩
      · rw [messages, List.mem_append] at hm
        rcases hm with hm | hm
        · exact hfits.text m (by simpa using hm) hkind
        · exact htexts m hm hkind
    · rw [sent_failure hframe hprogress]
      exact ih h

end At

end Wic
