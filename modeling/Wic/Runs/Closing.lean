import Wic.Commons.Monitor
import Wic.Runs.Invariant

/-!
# Closing is final

A monitor of the trace says what closing comes to: before it no close frame and no `on_close`, after
it at most one of each, no message, no `on_open`, no other frame, and no status but
`WIC_STATUS_NOT_OPEN`. Every write of the state after a callback has returned is checked against
everything that callback may have done, to any depth of calls.

The one write that does not look is the one behind `on_open`. So the monitor accepts the runs in
which `on_open` does not close the instance, and refuses the run in which it does.

## Main definitions

* `Phase`, `closing`: the monitor
* `Watched`: the trace of a world is accepted, and the monitor knows whether the instance is closed
* `Guards`: what a call does to a watched world

## Main results

* `Call.run_guards`, `guards_lifts`: every call, and so every callback, keeps a world watched
* `Reachable.watched`: every world a run reaches is watched
-/

namespace Wic

variable {σ : Type}

/-! ## The monitor -/

/-- How far closing has gone: whether the close frame has been handed over, and `on_close` been
called. -/
inductive Phase
  | working
  | closed (framed noticed : Bool)
  deriving DecidableEq

/-- The buffer is one for a close frame. -/
def BufferType.ofClose : BufferType → Bool
  | .close | .closeResponse => true
  | _ => false

/-- The monitor of closing. -/
def closing : Monitor Event Phase where
  next
    | .working, .state s => some (if s = .closed then .closed false false else .working)
    | .working, .send _ _ type => if type.ofClose then none else some .working
    | .working, .onClose .. => none
    | .working, _ => some .working
    | .closed framed noticed, .state s => if s = .closed then some (.closed framed noticed) else none
    | .closed framed noticed, .send _ _ type =>
      if type.ofClose && !framed then some (.closed true noticed) else none
    | .closed framed noticed, .onClose .. => if noticed then none else some (.closed framed true)
    | .closed framed noticed, .status s =>
      if s = .notOpen then some (.closed framed noticed) else none
    | .closed .., .message .. | .closed .., .onOpen => none
    | .closed framed noticed, _ => some (.closed framed noticed)

/-- The trace is accepted, and the monitor knows whether the instance is closed. -/
structure Watched (p : Phase) (w : World σ) : Prop where
  run : closing.run .working w.log = some p
  fits : w.inst.state = .closed ↔ p ≠ .working

/-- An entry that says nothing about closing. -/
def Event.Neutral (e : Event) : Prop := ∀ p, Wic.closing.next p e = some p

namespace Watched

variable {p p' : Phase} {w w' : World σ}

theorem congr (h : Watched p w) (hs : w'.inst.state = w.inst.state) (hl : w'.log = w.log) :
    Watched p w' :=
  ⟨by rw [hl]; exact h.run, by rw [hs]; exact h.fits⟩

theorem edits (h : Watched p w) (he : Edits w w') : Watched p w' :=
  h.congr (by rw [he.inst]) he.log

theorem update (h : Watched p w) {f : Inst → Inst} (hf : (f w.inst).state = w.inst.state) :
    Watched p (w.update f) :=
  h.congr hf rfl

theorem emit (h : Watched p w) {e : Event} (he : closing.next p e = some p')
    (hp : p' = .working ↔ p = .working) : Watched p' (w.emit e) where
  run := by
    rw [World.emit_log, Monitor.run_concat, h.run]
    exact he
  fits := by rw [World.emit_inst, h.fits, Ne, Ne, hp]

theorem neutral (h : Watched p w) {e : Event} (he : e.Neutral) : Watched p (w.emit e) :=
  h.emit (he p) Iff.rfl

/-- Closing begins. -/
theorem close (h : Watched .working w) : Watched (.closed false false) (w.setState .closed) where
  run := by
    rw [World.setState_log, Monitor.run_concat, h.run]
    rfl
  fits := by simp

/-- A state other than `closed` is written only before closing. -/
theorem setState (h : Watched .working w) {s : State} (hs : s ≠ .closed) :
    Watched .working (w.setState s) where
  run := by
    rw [World.setState_log, Monitor.run_concat, h.run]
    simp [closing, hs]
  fits := by simp [hs]

/-- Closing again changes nothing. -/
theorem setClosed (h : Watched p w) (hp : p ≠ .working) : Watched p (w.setState .closed) where
  run := by
    rw [World.setState_log, Monitor.run_concat, h.run]
    cases p with
    | working => exact absurd rfl hp
    | closed framed noticed => rfl
  fits := by simp [hp]

theorem working (h : Watched p w) (hs : w.inst.state ≠ .closed) : p = .working := by
  by_contra hp
  exact hs (h.fits.mpr hp)

end Watched

/-! ## Calls -/

/-- What a call does to a watched world: closing does not go on once it has begun, and the calls
that `on_open` makes do not begin it. -/
structure Guards (caller : Caller) (w w' : World σ) : Prop extends Quiet False w w' where
  watches : ∀ p, Watched p w →
    ∃ p', Watched p' w' ∧ (p ≠ .working ∨ caller = .onOpen → p' = p)

/-- `Guards` for a client, between the worlds around a callback. -/
def GuardsAt (caller : Caller) (w w' : World σ) : Prop :=
  w.inst.role = .client → Guards caller w w'

/-- The calls that close the instance. -/
def Call.Closes : Call → Prop
  | .close | .closeWithReason .. => True
  | _ => False

section Calls

variable {cb : Callbacks σ} {w : World σ} {p p' : Phase}

theorem Callbacks.Respect.quiet (hcb : cb.Respect GuardsAt) : cb.Respect (QuietAt False) :=
  hcb.imp fun _ _ _ h hr => (h hr).toQuiet

/-- A frame is put on the wire, or it is not. -/
theorem putAndSend_watched (hcb : cb.Respect GuardsAt) (hr : w.inst.role = .client) (f : TxFrame)
    {done : Inst → Inst} (hd : ∀ i, (done i).state = i.state)
    (hsend : ∀ buf data, closing.next p (.send buf data f.type) = some p')
    (hp : p' = .working ↔ p = .working) (h : Watched p w) :
    Watched p (putAndSend cb f done w).2 ∨ Watched p' (putAndSend cb f done w).2 := by
  have hdraw := drawMask_edits hcb w
  rw [putAndSend_eq cb f done w (by rw [hdraw.inst]; exact hr)]
  have hlease (n : Nat) (w' : World σ) (h : Watched p w') :
      Watched p (lease cb n f.type w').2 :=
    (h.edits (hcb.onBuffer n f.type w')).neutral fun p => by cases p <;> rfl
  have hleased := hlease (f.withMask (drawMask cb w).1).wire.length _ (h.edits hdraw)
  unfold deliver
  dsimp only
  split_ifs
  · split
    · exact .inr (((hleased.update (hd _)).emit (hsend _ _) hp).edits (hcb.onSend _ _ _ _))
    · exact .inl hleased
  · exact .inl hleased

/-- A frame other than a close is put on the wire before closing. -/
theorem putAndSend_working (hcb : cb.Respect GuardsAt) (hr : w.inst.role = .client) (f : TxFrame)
    {done : Inst → Inst} (hd : ∀ i, (done i).state = i.state) (ht : f.type.ofClose = false)
    (h : Watched .working w) : Watched .working (putAndSend cb f done w).2 := by
  have hsend (buf : Nat) (data : List UInt8) :
      closing.next .working (.send buf data f.type) = some .working := by simp [closing, ht]
  exact or_self_iff.mp (putAndSend_watched hcb hr f hd hsend Iff.rfl h)

/-- A send is allowed before closing only. -/
theorem allowedToSend_watched (hr : w.inst.role = .client) (h : Watched p w) :
    Watched p (allowedToSend w).2 ∧ (allowedToSend w).2.inst.role = .client ∧
      ((allowedToSend w).1 = true → p = .working) := by
  have hq : Quiet False w (allowedToSend w).2 := allowedToSend_quiet
  have hr' := hq.role.trans hr
  unfold allowedToSend at hr' ⊢
  dsimp only at hr' ⊢
  split_ifs at hr' ⊢ with hs
  · obtain rfl := h.working (by simp [hs.2])
    exact ⟨h.setState (by simp), hr', fun _ => rfl⟩
  · refine ⟨h, hr', fun ha => h.working ?_⟩
    simp [of_decide_eq_true ha]

/-- A send before closing may end with any status. -/
theorem Watched.sent (h : Watched .working w) (s : Status) :
    Watched .working (w.emit (.status s)) :=
  h.emit rfl Iff.rfl

/-- A send that is not allowed ends with `WIC_STATUS_NOT_OPEN`. -/
theorem Watched.notOpen (h : Watched p w) : Watched p (w.emit (.status .notOpen)) :=
  h.emit (by cases p <;> rfl) Iff.rfl

/-- A send leaves closing where it is. -/
theorem Send.run_watched (hcb : cb.Respect GuardsAt) (hr : w.inst.role = .client) (send : Send)
    (h : Watched p w) : Watched p (send.run cb w).2 := by
  obtain ⟨ha, hr₁, hallowed⟩ := allowedToSend_watched hr h
  rw [send.run_eq]
  generalize allowedToSend w = a at ha hr₁ hallowed ⊢
  obtain ⟨allowed, w₁⟩ := a
  cases allowed with
  | false => exact ha.notOpen
  | true =>
    obtain rfl := hallowed rfl
    refine Watched.sent ?_ _
    simp only [if_true, attempt]
    split
    · exact ha
    · next f done hf =>
      refine putAndSend_working hcb hr₁ f (fun _ => rfl) ?_ ha
      rcases (frame_proper hf).1 with ht | ht <;> rw [ht] <;> rfl

/-! ## Closing -/

/-- A callback of a closed instance finds closing where it is. -/
theorem Guards.closed {caller : Caller} {w' : World σ} (h : Guards caller w w')
    {framed noticed : Bool} (hw : Watched (.closed framed noticed) w) :
    Watched (.closed framed noticed) w' := by
  obtain ⟨p', hp', heq⟩ := h.watches _ hw
  rwa [heq (.inl (by simp))] at hp'

theorem callOnCloseTransport_guards (hcb : cb.Respect GuardsAt) (hr : w.inst.role = .client)
    (h : Watched p w) : ∃ p', Watched p' (callOnCloseTransport cb w) ∧ (p ≠ .working → p' = p) := by
  unfold callOnCloseTransport
  split_ifs
  · have hcall : Guards .callback (w.emit .onCloseTransport) _ := hcb.onCloseTransport _ hr
    obtain ⟨p', hp', heq⟩ := hcall.watches p (h.neutral fun p => by cases p <;> rfl)
    exact ⟨p', hp', fun hp => heq (.inl hp)⟩
  · exact ⟨p, h, fun _ => rfl⟩

theorem callOnHandshakeFailure_guards (hcb : cb.Respect GuardsAt) (hr : w.inst.role = .client)
    (reason : HandshakeFailure) (h : Watched p w) :
    ∃ p', Watched p' (callOnHandshakeFailure cb reason w) ∧ (p ≠ .working → p' = p) := by
  unfold callOnHandshakeFailure
  split_ifs
  · have hcall : Guards .callback (w.emit (.onHandshakeFailure reason)) _ :=
      hcb.onHandshakeFailure reason _ hr
    obtain ⟨p', hp', heq⟩ := hcall.watches p (h.neutral fun p => by cases p <;> rfl)
    exact ⟨p', hp', fun hp => heq (.inl hp)⟩
  · exact ⟨p, h, fun _ => rfl⟩

theorem callOnClose_watched (hcb : cb.Respect GuardsAt) (hr : w.inst.role = .client) (code : UInt16)
    (reason : List UInt8) {framed : Bool} (h : Watched (.closed framed false) w) :
    ∃ noticed, Watched (.closed framed noticed) (callOnClose cb code reason w) := by
  unfold callOnClose
  split_ifs
  · have hcall : Guards .callback (w.emit (.onClose code reason)) _ := hcb.onClose code reason _ hr
    exact ⟨true, hcall.closed (h.emit rfl (by simp))⟩
  · exact ⟨false, h⟩

theorem sendClose_watched (hcb : cb.Respect GuardsAt) (hr : w.inst.role = .client) (code : UInt16)
    (reason : Payload) {type : BufferType} (ht : type = .close ∨ type = .closeResponse)
    (h : Watched (.closed false false) w) :
    ∃ framed, Watched (.closed framed false) (sendClose cb code reason type w) := by
  unfold sendClose
  split_ifs
  · exact ⟨false, h⟩
  · have hsend (buf : Nat) (data : List UInt8) :
        closing.next (.closed false false) (.send buf data type) = some (.closed true false) := by
      rcases ht with rfl | rfl <;> rfl
    have hput := putAndSend_watched hcb hr
      { fin := true, opcode := .close, type, code, payload := closePayload reason }
      (fun _ => rfl) hsend (by simp) h
    rcases hput with h | h
    · exact ⟨false, h⟩
    · exact ⟨true, h⟩

/-- **Closing leaves a watched world, and is nothing once it has begun.** -/
theorem closeWithReason_watched (hcb : cb.Respect GuardsAt) (hr : w.inst.role = .client)
    (code : UInt16) (reason : Payload) {type : BufferType}
    (ht : type = .close ∨ type = .closeResponse) (h : Watched p w) :
    ∃ p', Watched p' (closeWithReason cb code reason type w) ∧ (p ≠ .working → p' = p) := by
  by_cases hs : w.inst.state = .closed
  · rw [closeWithReason_of_closed hs]
    exact ⟨p, h, fun _ => rfl⟩
  obtain rfl := h.working hs
  -- the instance is open or in its handshake, and closed from here on
  simp only [ne_eq, not_true_eq_false, false_imp_iff, and_true]
  have hclosed : Watched (.closed false false) ((w.emit (.closing code)).setState .closed) :=
    (h.neutral fun p => by cases p <;> rfl).close
  have hr₁ : ((w.emit (.closing code)).setState .closed).inst.role = .client := hr
  unfold closeWithReason
  generalize (w.emit (.closing code)).setState .closed = w₁ at hclosed hr₁
  cases hst : w.inst.state with
  | closed => exact absurd hst hs
  | init => exact ⟨_, hclosed⟩
  -- a failed handshake has two callbacks and no frame
  | parseHandshake =>
    obtain ⟨p₂, h₂, -⟩ := callOnCloseTransport_guards hcb hr₁ hclosed
    have hr₂ := (callOnCloseTransport_quiet hcb.quiet hr₁).role.trans hr₁
    obtain ⟨p₃, h₃, -⟩ := callOnHandshakeFailure_guards hcb hr₂ (failureOf code) h₂
    exact ⟨p₃, h₃⟩
  -- else the close frame comes first, and the two callbacks behind it
  | ready | «open» =>
    obtain ⟨framed, h₂⟩ := sendClose_watched hcb hr₁ code reason ht hclosed
    have hr₂ := (sendClose_quiet hcb.quiet hr₁ code reason ht False.elim).role.trans hr₁
    obtain ⟨p₃, h₃, heq⟩ := callOnCloseTransport_guards hcb hr₂ h₂
    have hr₃ := (callOnCloseTransport_quiet hcb.quiet hr₂).role.trans hr₂
    obtain rfl := heq (by simp)
    obtain ⟨noticed, h₄⟩ := callOnClose_watched hcb hr₃ code reason.bytes h₃
    exact ⟨_, h₄⟩

/-- **Every call keeps a world watched, and only closing moves the monitor.** -/
theorem Call.run_guards (hcb : cb.Respect GuardsAt) (hr : w.inst.role = .client) (c : Call)
    (h : Watched p w) :
    ∃ p', Watched p' (c.run cb w) ∧ (p ≠ .working ∨ ¬c.Closes → p' = p) := by
  -- every call but the two that close leaves the monitor where it is
  have hsame {w' : World σ} (h : Watched p w') :
      ∃ p', Watched p' w' ∧ (p ≠ .working ∨ ¬c.Closes → p' = p) := ⟨p, h, fun _ => rfl⟩
  cases c with
  | sendBinary fin data => exact hsame ((Send.binary fin data).run_watched hcb hr h)
  | sendText fin data => exact hsame ((Send.text fin data).run_watched hcb hr h)
  | send encoding fin data =>
    refine hsame ?_
    simp only [run, wicSend]
    split_ifs
    · exact (Send.binary fin data).run_watched hcb hr h
    · exact (Send.text fin data).run_watched hcb hr h
  | sendPing => exact hsame ((Send.ping .null).run_watched hcb hr h)
  | sendPingWithPayload data => exact hsame ((Send.ping data).run_watched hcb hr h)
  | close =>
    obtain ⟨p', hp', heq⟩ := closeWithReason_watched hcb hr closeNormal .null (.inl rfl) h
    exact ⟨p', hp', fun hp => heq (hp.resolve_right (not_not.mpr trivial))⟩
  | closeWithReason code reason =>
    obtain ⟨p', hp', heq⟩ := closeWithReason_watched hcb hr code reason (.inl rfl) h
    exact ⟨p', hp', fun hp => heq (hp.resolve_right (not_not.mpr trivial))⟩
  | setHeader header =>
    refine hsame ?_
    simp only [run, wicSetHeader]
    split_ifs
    · exact h.congr rfl rfl
    · exact h
  | rewindGetNextHeader => exact hsame (h.congr rfl rfl)
  | getNextHeader =>
    refine hsame ?_
    simp only [run, wicGetNextHeader]
    split_ifs
    · exact h.congr rfl rfl
    · exact h

end Calls

/-- Calls that guard make callbacks that guard. -/
theorem guards_lifts {allowed : Caller → Call → Prop}
    (hopen : ∀ c, allowed .onOpen c → ¬c.Closes) : Lifts allowed (GuardsAt (σ := σ)) where
  refl _ w _ := ⟨.refl w, fun p h => ⟨p, h, fun _ => rfl⟩⟩
  trans h h' hr := by
    have h₁ := h hr
    have h₂ := h' (h₁.role.trans hr)
    refine ⟨h₁.toQuiet.trans h₂.toQuiet, fun p hp => ?_⟩
    obtain ⟨p', hp', heq⟩ := h₁.watches p hp
    obtain ⟨p'', hp'', heq'⟩ := h₂.watches p' hp'
    refine ⟨p'', hp'', fun h => ?_⟩
    obtain rfl := heq h
    exact heq' h
  edit he _ := ⟨.edits he, fun p h => ⟨p, h.edits he, fun _ => rfl⟩⟩
  call {caller c} _ w hc hcb hr := by
    refine ⟨Call.run_quiet hcb.quiet hr c False.elim, fun p h => ?_⟩
    obtain ⟨p', hp', heq⟩ := Call.run_guards hcb hr c h
    refine ⟨p', hp', fun hp => heq (hp.imp_right ?_)⟩
    rintro rfl
    exact hopen c hc

/-! ## Receiving -/

section Receive

variable {cb : Callbacks σ} {w w' : World σ} {p : Phase}

theorem offer_watched (hcb : cb.Respect GuardsAt) (hr : w.inst.role = .client) (encoding : Encoding)
    (fin : Bool) (h : Watched .working w) : ∃ p, Watched p (offer cb encoding fin w).2 := by
  unfold offer
  split_ifs
  · have hcall : Guards .callback (w.emit (.message encoding fin w.inst.rx.s.payload.bytes)) _ :=
      hcb.onMessage encoding fin w.inst.rx.s.payload.bytes _ hr
    obtain ⟨p, hp, -⟩ := hcall.watches .working (h.emit rfl Iff.rfl)
    exact ⟨p, hp.neutral fun p => by cases p <;> rfl⟩
  · exact ⟨.working, h⟩

theorem offerAll_watched (hcb : cb.Respect GuardsAt) (hr : w.inst.role = .client)
    (encoding : Encoding) {done : Inst → Inst} (hd : ∀ i, (done i).state = i.state)
    (h : Watched .working w) : ∃ p, Watched p (offerAll cb encoding done w).2 := by
  obtain ⟨p, hp⟩ := offer_watched hcb hr encoding w.inst.rx.fin h
  refine ⟨p, ?_⟩
  unfold offerAll
  generalize offer cb encoding w.inst.rx.fin w = r at hp ⊢
  obtain ⟨accepted, w'⟩ := r
  cases accepted with
  | false => exact hp
  | true => exact hp.update (hd _)

theorem sendPongWithPayload_watched (hcb : cb.Respect GuardsAt) (hr : w.inst.role = .client)
    (data : Payload) (h : Watched .working w) :
    Watched .working (sendPongWithPayload cb data w).2 := by
  obtain ⟨ha, hr₁, -⟩ := allowedToSend_watched hr h
  unfold sendPongWithPayload
  generalize allowedToSend w = a at ha hr₁ ⊢
  obtain ⟨allowed, w₁⟩ := a
  cases allowed with
  | false => exact ha
  | true => exact putAndSend_working hcb hr₁ _ (fun _ => rfl) rfl ha

theorem callOnPing_watched (hcb : cb.Respect GuardsAt) (h : Watched p w) :
    Watched p (callOnPing cb w) := by
  unfold callOnPing
  split_ifs
  · exact (h.neutral fun p => by cases p <;> rfl).edits (hcb.onPing _)
  · exact h

theorem callOnPong_watched (hcb : cb.Respect GuardsAt) (h : Watched p w) :
    Watched p (callOnPong cb w) := by
  unfold callOnPong
  split_ifs
  · exact (h.neutral fun p => by cases p <;> rfl).edits (hcb.onPong _)
  · exact h

theorem finish_watched (hcb : cb.Respect GuardsAt) (hr : w.inst.role = .client)
    (h : Watched .working w) : ∃ p, Watched p (finish cb w).2 := by
  have hclose (code : UInt16) (reason : Payload) {type : BufferType}
      (ht : type = .close ∨ type = .closeResponse) :
      ∃ p, Watched p (closeWithReason cb code reason type w) := by
    obtain ⟨p, hp, -⟩ := closeWithReason_watched hcb hr code reason ht h
    exact ⟨p, hp⟩
  unfold finish
  dsimp only
  split
  · split_ifs
    · exact offerAll_watched hcb hr .utf8 (fun _ => rfl) h
    · exact offerAll_watched hcb hr .utf8 (fun _ => rfl) h
    · exact hclose _ .null (.inl rfl)
  · exact offerAll_watched hcb hr .binary (fun _ => rfl) h
  · obtain ⟨code, reason, heq, -⟩ := finishClose_eq cb w
    rw [heq]
    exact hclose code reason (.inr rfl)
  · have hpong := sendPongWithPayload_watched hcb hr w.inst.rx.s.payload h
    split
    · next heq => exact ⟨_, by rw [heq] at hpong; exact hpong⟩
    · next heq => exact ⟨_, callOnPing_watched hcb (by rw [heq] at hpong; exact hpong)⟩
  · exact ⟨_, callOnPong_watched hcb h⟩
  · exact ⟨_, h⟩

theorem settle_watched (hcb : cb.Respect GuardsAt) (hl : Live w) (h : Watched p w) :
    ∃ p', Watched p' (settle cb w).2 := by
  obtain rfl := h.working (by simp [hl.state])
  have hflush : ∃ p', Watched p' (flush cb w).2 := by
    have hpass : ∃ p', Watched p' (passOn cb w).2 := by
      unfold passOn
      split
      · exact offer_watched hcb hl.role .utf8 false h
      · exact offer_watched hcb hl.role .binary false h
      · exact ⟨_, h⟩
    obtain ⟨p', hp'⟩ := hpass
    rw [flush_eq]
    refine ⟨p', ?_⟩
    dsimp only
    split_ifs
    · exact hp'.update rfl
    · exact hp'
  unfold settle
  split
  · split_ifs
    · obtain ⟨p', hp'⟩ := finish_watched hcb hl.role h
      refine ⟨p', ?_⟩
      dsimp only
      split_ifs
      · exact hp'
      · exact hp'.update rfl
    · exact hflush
    · exact ⟨_, h⟩
  · exact ⟨_, h⟩

theorem consume_watched (hcb : cb.Respect GuardsAt) (hr : w.inst.role = .client) (b : UInt8)
    (h : Watched p w) : ∃ p', Watched p' (consume cb b w) := by
  have hobeys := consume_obeys cb w b
  generalize consume cb b w = w' at hobeys ⊢
  cases hobeys with
  | stays f => exact ⟨p, h.update rfl⟩
  | closes f g code type hv =>
    have hw : Watched p (w.updateRx f) := h.update rfl
    have hr' : (w.updateRx f).inst.role = .client := hr
    obtain ⟨p', hp', -⟩ :=
      closeWithReason_watched hcb hr' code .null (RxFrame.verdict_type hv) hw
    exact ⟨p', hp'.update rfl⟩

/-! ## The handshake -/

theorem Parsing.watched (hp : Parsing w w') (hs : w.inst.state = .parseHandshake)
    (h : Watched p w) : Watched .working w' := by
  obtain rfl := h.working (by simp [hs])
  obtain ⟨es, hlog, hes⟩ := hp.log
  have hrun : closing.run .working es = some .working := by
    clear hlog
    induction es with
    | nil => rfl
    | cons e es ih =>
      simp only [List.mem_cons, forall_eq_or_imp] at hes
      rw [Monitor.run_cons, hes.1]
      exact ih hes.2
  refine ⟨by rw [hlog, Monitor.run_append, h.run]; exact hrun, ?_⟩
  rcases hp.state with hs' | hs' <;> simp [hs', hs]

theorem callOnOpen_watched (hcb : cb.Respect GuardsAt) (hr : w.inst.role = .client)
    (h : Watched .working w) : Watched .working (callOnOpen cb w) := by
  unfold callOnOpen
  split_ifs
  · have hcall : Guards .onOpen (w.emit .onOpen) _ := hcb.onOpen _ hr
    obtain ⟨p', hp', heq⟩ := hcall.watches .working (h.emit rfl Iff.rfl)
    rwa [heq (.inr rfl)] at hp'
  · exact h

/-- The write of the state behind a failed handshake, whatever its callbacks did. -/
theorem failed_watched (hcb : cb.Respect GuardsAt) (hr : w.inst.role = .client)
    (reason : HandshakeFailure) (h : Watched .working w) :
    ∃ p, Watched p
      ((callOnHandshakeFailure cb reason (callOnCloseTransport cb w)).setState .closed) := by
  obtain ⟨p₁, h₁, -⟩ := callOnCloseTransport_guards hcb hr h
  have hr₁ := (callOnCloseTransport_quiet hcb.quiet hr).role.trans hr
  obtain ⟨p₂, h₂, -⟩ := callOnHandshakeFailure_guards hcb hr₁ reason h₁
  by_cases hp : p₂ = .working
  · exact ⟨_, (hp ▸ h₂).close⟩
  · exact ⟨_, h₂.setClosed hp⟩

/-- The write of the state behind `on_open` finds an instance that is not closed. -/
theorem afterHttp_watched (hcb : cb.Respect GuardsAt) (hr : w.inst.role = .client)
    (h : Watched .working w) : ∃ p, Watched p (afterHttp cb w) := by
  unfold afterHttp
  split
  · exact failed_watched hcb hr _ h
  · split
    · exact ⟨_, (callOnOpen_watched hcb hr h).setState (by simp)⟩
    · exact ⟨_, h⟩

theorem Starts.watched (hst : Starts w w') (hs : w.inst.state = .init) (h : Watched p w) :
    ∃ p', Watched p' w' := by
  obtain rfl := h.working (by simp [hs])
  obtain ⟨es, hlog, hes⟩ := hst.log
  have hrun : closing.run .working es = some .working := by
    clear hlog
    induction es with
    | nil => rfl
    | cons e es ih =>
      simp only [List.mem_cons, forall_eq_or_imp] at hes
      have hnext : closing.next .working e = some .working := by
        have he := hes.1
        cases e with
        | state s =>
          obtain rfl : s = .parseHandshake := he
          rfl
        | buffer => rfl
        | send buf data type =>
          obtain rfl : type = .http := he
          rfl
        | _ => exact he.elim
      rw [Monitor.run_cons, hnext]
      exact ih hes.2
  refine ⟨.working, by rw [hlog, Monitor.run_append, h.run]; exact hrun, ?_⟩
  rcases hst.state with hs' | ⟨-, hs'⟩ <;> simp [hs', hs]

end Receive

/-! ## Runs -/

section Runs

variable {allowed : Caller → Call → Prop} {w : World σ}

/-- **Every world a run reaches is watched, as long as `on_open` does not close the instance.** -/
theorem Reachable.watched (hopen : ∀ c, allowed .onOpen c → ¬c.Closes) (h : Reachable allowed w) :
    ∃ p, Watched p w := by
  -- a callback may call the library, but what it calls keeps a world watched
  have hguards {cb : Callbacks σ} (hcb : Reentrant allowed cb) : cb.Respect GuardsAt :=
    (guards_lifts hopen).respect hcb
  induction h with
  | init hinit =>
    obtain ⟨-, hs, -⟩ := wicInit_eq hinit
    exact ⟨.working, rfl, by simp [hs]⟩
  | edit _ he ih =>
    obtain ⟨p, hp⟩ := ih
    exact ⟨p, hp.edits he⟩
  | call hw hcb _ ih =>
    obtain ⟨p, hp⟩ := ih
    obtain ⟨p', hp', -⟩ := Call.run_guards (hguards hcb) hw.invariant.role _ hp
    exact ⟨p', hp'⟩
  | @start cb fuel w status w' hw hcb hrun ih =>
    obtain ⟨p, hp⟩ := ih
    by_cases hs : w.inst.state = .init
    · exact (startClient_starts hcb.quiet hrun).watched hs hp
    · rw [wicStart, startClient, if_neg hs] at hrun
      cases hrun
      exact ⟨p, hp⟩
  | @parse cb data w n w' hw hcb hrun ih =>
    have hcb' := hguards hcb
    -- the parts of `wic_parse` one by one
    obtain ⟨n', w'', hrun', -, hp⟩ := wicParse_induction (fun w => ∃ p, Watched p w) hcb.quiet
      hw.invariant data
      (fun hs ⟨p, hp⟩ => by
        have hparsing : Parsing w (httpParserExecute data w).2 := httpParserExecute_parsing data
        exact afterHttp_watched hcb' (hparsing.role.trans hw.invariant.role)
          (hparsing.watched hs hp))
      (fun w hl ⟨p, hp⟩ => settle_watched hcb' hl hp)
      (fun w b hl _ ⟨p, hp⟩ => consume_watched hcb' hl.role b hp)
      (fun w f _ ⟨p, hp⟩ => ⟨p, hp.update rfl⟩) ih
    rw [hrun] at hrun'
    obtain ⟨-, rfl⟩ := Prod.mk.inj (Option.some.inj hrun')
    exact hp

/-- `on_close` is called. -/
def Event.isOnClose : Event → Bool
  | .onClose .. => true
  | _ => false

/-- A close frame is handed over. -/
def Event.isCloseFrame : Event → Bool
  | .send _ _ type => type.ofClose
  | _ => false

/-- What the trace holds behind the entry into `WIC_STATE_CLOSED`. -/
structure AfterClosing (es : List Event) : Prop where
  state : ∀ s, .state s ∈ es → s = .closed
  message : ∀ encoding fin data, .message encoding fin data ∉ es
  onOpen : .onOpen ∉ es
  status : ∀ s, .status s ∈ es → s = .notOpen
  send : ∀ buf data type, .send buf data type ∈ es → type.ofClose = true

/-- What the monitor lets through once it knows that the instance is closed. -/
theorem closing_after {p p' : Phase} {es : List Event} (hp : p ≠ .working)
    (h : closing.run p es = some p') : p' ≠ .working ∧ AfterClosing es := by
  -- one event behind the closing
  have hnext : ∀ k e k', k ≠ .working → closing.next k e = some k' →
      k' ≠ .working ∧ AfterClosing [e] := by
    intro k e k' hk hnext
    cases k with
    | working => exact absurd rfl hk
    | closed framed noticed =>
      cases e with
      | message | onOpen => cases hnext
      | state s =>
        simp only [closing, Option.ite_none_right_eq_some] at hnext
        obtain ⟨rfl, hk'⟩ := hnext
        cases hk'
        exact ⟨by simp, by simp, by simp, by simp, by simp, by simp⟩
      | status s =>
        simp only [closing, Option.ite_none_right_eq_some] at hnext
        obtain ⟨rfl, hk'⟩ := hnext
        cases hk'
        exact ⟨by simp, by simp, by simp, by simp, by simp, by simp⟩
      | send buf data type =>
        simp only [closing, Option.ite_none_right_eq_some, Bool.and_eq_true] at hnext
        obtain ⟨⟨ht, -⟩, hk'⟩ := hnext
        cases hk'
        exact ⟨by simp, by simp, by simp, by simp, by simp, by simpa using fun _ _ _ _ _ h => h ▸ ht⟩
      | onClose code reason =>
        simp only [closing, Option.ite_none_left_eq_some] at hnext
        cases hnext.2
        exact ⟨by simp, by simp, by simp, by simp, by simp, by simp⟩
      | _ =>
        cases hnext
        exact ⟨by simp, by simp, by simp, by simp, by simp, by simp⟩
  obtain ⟨hp', hall⟩ := Monitor.run_invariant hnext hp h
  refine ⟨hp', fun s hs => ?_, fun encoding fin data hm => ?_, fun ho => ?_, fun s hs => ?_,
    fun buf data type hs => ?_⟩
  · exact (hall _ hs).state s (by simp)
  · exact (hall _ hm).message encoding fin data (by simp)
  · exact (hall _ ho).onOpen (by simp)
  · exact (hall _ hs).status s (by simp)
  · exact (hall _ hs).send buf data type (by simp)

/-- How often `on_close` has been called. -/
def Phase.notices : Phase → Nat
  | .working => 0
  | .closed _ noticed => if noticed then 1 else 0

/-- How many close frames have been handed over. -/
def Phase.frames : Phase → Nat
  | .working => 0
  | .closed framed _ => if framed then 1 else 0

/-- **There is at most one `on_close`, and at most one close frame.** -/
theorem Watched.once {p : Phase} (h : Watched p w) :
    w.log.countP Event.isOnClose ≤ 1 ∧ w.log.countP Event.isCloseFrame ≤ 1 := by
  have hnotices : p.notices = Phase.notices .working + w.log.countP Event.isOnClose := by
    refine Monitor.run_count (fun k e k' hnext => ?_) h.run
    cases k <;> cases e <;> grind [closing, Phase.notices, Event.isOnClose]
  have hframes : p.frames = Phase.frames .working + w.log.countP Event.isCloseFrame := by
    refine Monitor.run_count (fun k e k' hnext => ?_) h.run
    cases k <;> cases e <;> grind [closing, Phase.frames, Event.isCloseFrame]
  have hle : p.notices ≤ 1 ∧ p.frames ≤ 1 := by
    cases p with
    | working => exact ⟨Nat.zero_le _, Nat.zero_le _⟩
    | closed framed noticed => cases framed <;> cases noticed <;> decide
  simp only [Phase.notices, Phase.frames, Nat.zero_add] at hnotices hframes hle
  omega

/-- **Closing is final in every run in which `on_open` does not close the instance**: behind the entry
into `WIC_STATE_CLOSED` the trace holds no other state, no message, no `on_open`, no status but
`WIC_STATUS_NOT_OPEN` and no frame but a close frame, of which there is at most one, as there is at
most one `on_close`. -/
theorem Reachable.closed_absorbing (hopen : ∀ c, allowed .onOpen c → ¬c.Closes)
    (h : Reachable allowed w) (pre post : List Event)
    (hlog : w.log = pre ++ .state .closed :: post) :
    w.inst.state = .closed ∧ AfterClosing post ∧
      w.log.countP Event.isOnClose ≤ 1 ∧ w.log.countP Event.isCloseFrame ≤ 1 := by
  obtain ⟨p, hp⟩ := h.watched hopen
  have hrun := hp.run
  rw [hlog] at hrun
  obtain ⟨k, -, hk⟩ := Monitor.run_append_some hrun
  obtain ⟨l, hl, hpost⟩ := Option.bind_eq_some_iff.mp hk
  have hl' : l ≠ .working := by
    cases k <;> cases hl <;> simp
  obtain ⟨hp', hafter⟩ := closing_after hl' hpost
  exact ⟨hp.fits.mpr hp', hafter, hp.once⟩

end Runs

/-- A session that the application closes behind the upgrade. -/
theorem closed_absorbing_sample :
    ∃ (w : World Unit) (pre post : List Event), w.log = pre ++ .state .closed :: post ∧
      w.inst.state = .closed ∧ AfterClosing post ∧
      w.log.countP Event.isOnClose ≤ 1 ∧ w.log.countP Event.isCloseFrame ≤ 1 := by
  have hrun : ((session (Sample.host id) Sample.arg () [Sample.response]).map fun w =>
      decide (.state .closed ∈ (wicClose (Sample.host id) w).log)) = some true := by
    decide +kernel
  obtain ⟨w, hw, heq⟩ := Option.map_eq_some_iff.mp hrun
  obtain ⟨pre, post, hlog⟩ := List.append_of_mem (of_decide_eq_true heq)
  have hcb : Reentrant (fun caller _ => caller = .application) (Sample.host id) :=
    .passive Sample.host_passive
  have hreach : Reachable (fun caller _ => caller = .application)
      (wicClose (Sample.host id) w) := by
    have hcall : Reachable (fun caller _ => caller = .application)
        (Call.close.run (Sample.host id) w) := .call (session_reachable hcb hw) hcb rfl
    exact hcall
  exact ⟨_, pre, post, hlog, hreach.closed_absorbing (by simp) pre post hlog⟩

/-- **An instance that `on_open` closes is open afterwards.** -/
theorem closed_not_absorbing :
    ∃ w : World Unit, Reachable (fun _ _ => True) w ∧ .state .closed ∈ w.log ∧
      w.inst.state = .open := by
  have hrun : (session (Sample.host (wicClose (Sample.host id))) Sample.arg ()
      [Sample.response]).map (fun w => (decide (.state .closed ∈ w.log), w.inst.state)) =
        some (true, .open) := by
    decide +kernel
  obtain ⟨w, hw, heq⟩ := Option.map_eq_some_iff.mp hrun
  obtain ⟨hmem, hstate⟩ := Prod.mk.inj heq
  have hclose (w : World Unit) :
      Does (Sample.host id) (fun _ => True) w (Call.close.run (Sample.host id) w) :=
    .call trivial (.refl _)
  have hcb : Reentrant (fun _ _ => True) (Sample.host (wicClose (Sample.host id))) :=
    .nested (.passive Sample.host_passive) (Sample.host_nested hclose)
  exact ⟨w, session_reachable hcb hw, of_decide_eq_true hmem, hstate⟩

end Wic
