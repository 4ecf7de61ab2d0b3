import Wic.Calls.Carried
import Wic.Mbed.Worker

/-!
# How the client follows its instance

The state of the client follows the state of its instance: it is `OPENING` while the instance waits
for the response, `OPEN` while that is open, and `CLOSING` once it has closed, until the worker takes
the poison that closing put in the output queue. While the instance waits for the response the caller
of `connect` waits too, and the callback that ends the handshake completes the job.

## Main definitions

* `SameControl`: nothing but data has changed
* `Steady`, `Sound`: the client follows its instance
* `Served`: what a function of the core does to the client

## Main results

* `wicParse_served`, `closeWithReason_served`, `wicSend_served`: the functions the worker calls
-/

namespace Wic.Mbed

open Http (ascii)

/-- The number of poisons in the output queue. -/
def Client.poisons (c : Client) : Nat := c.txQueue.queue.count none

/-- The events a caller has posted. -/
def Client.posted (c : Client) : List Posted := c.events.filter (· ≠ .doHandshakeTimeout)

/-- Nothing but data has changed. -/
structure SameControl (c c' : Client) : Prop where
  state : c'.state = c.state
  rx : c'.rx = c.rx
  connected : c'.connected = c.connected
  events : c'.events = c.events
  timeout : c'.timeout = c.timeout
  job : c'.job = c.job
  record : c'.record = c.record
  poisons : c'.poisons = c.poisons

theorem SameControl.refl (c : Client) : SameControl c c := ⟨rfl, rfl, rfl, rfl, rfl, rfl, rfl, rfl⟩

theorem SameControl.trans {c c' c'' : Client} (h : SameControl c c') (h' : SameControl c' c'') :
    SameControl c c'' where
  state := h'.state.trans h.state
  rx := h'.rx.trans h.rx
  connected := h'.connected.trans h.connected
  events := h'.events.trans h.events
  timeout := h'.timeout.trans h.timeout
  job := h'.job.trans h.job
  record := h'.record.trans h.record
  poisons := h'.poisons.trans h.poisons

/-! ## The output queue -/

namespace OutputQueue

variable (q : OutputQueue) (order : Order)

/-- A frame in the queue is no poison. -/
theorem count_put_some (buf : Slot) : (q.put order (some buf)).queue.count none = q.queue.count none := by
  unfold put putItem
  split_ifs
  · rw [(order.perm _ _ _).count_eq, List.count_cons_of_ne]
    exact nofun
  · rfl

/-- A poison is put in a queue with room. -/
theorem count_put_none : (q.put order none).queue.count none = q.queue.count none ∨
    (q.put order none).queue.count none = q.queue.count none + 1 := by
  unfold put putItem
  split_ifs
  · right
    rw [(order.perm _ _ _).count_eq, List.count_cons_self]
  · left
    rfl

end OutputQueue

/-! ## The callbacks -/

variable (order : Order)

/-- The callbacks change only the client. -/
theorem callbacks_passive : (callbacks order).Passive where
  onMessage _ _ _ _ := rfl
  onOpen _ := rfl
  onClose _ _ _ := rfl
  onCloseTransport _ := rfl
  onHandshakeFailure _ _ := rfl
  onPing _ := rfl
  onPong _ := rfl
  rand _ := rfl
  onSend _ _ _ _ := rfl
  onBuffer _ _ _ := rfl

/-- The callbacks that carry data change nothing else. -/
theorem callbacks_sameControl : (callbacks order).CarriesData SameControl where
  refl := SameControl.refl
  trans := SameControl.trans
  onMessage encoding fin data w := by
    have hmessage : SameControl w.app (w.app.handleMessage encoding fin data).2 := by
      unfold Client.handleMessage
      split
      · exact ⟨rfl, rfl, rfl, rfl, rfl, rfl, rfl, rfl⟩
      · exact .refl _
    exact hmessage
  onPing _ := .refl _
  onPong _ := .refl _
  rand _ := ⟨rfl, rfl, rfl, rfl, rfl, rfl, rfl, rfl⟩
  -- a frame that is sent is put in the queue, which adds no poison
  onSend buf data type w := by
    have hsend : SameControl w.app (w.app.handleSend order data) := by
      unfold Client.handleSend
      split
      · exact .refl _
      · refine ⟨rfl, rfl, rfl, rfl, rfl, rfl, rfl, ?_⟩
        unfold Client.poisons
        dsimp only
        split_ifs
        · simp
        · rw [OutputQueue.count_put_some, OutputQueue.fill_queue]
    exact hsend
  -- a buffer that is taken changes the flags of the queue only
  onBuffer minSize type w := by
    refine ⟨rfl, rfl, rfl, rfl, rfl, rfl, rfl, ?_⟩
    show List.count none (w.app.txQueue.alloc type minSize).2.queue = _
    rw [OutputQueue.alloc_queue]
    rfl

/-! ## Following the instance -/

/-- The callbacks of the client are set. -/
structure Wired (i : Inst) : Prop where
  onOpen : i.onOpen = true
  onClose : i.onClose = true
  onCloseTransport : i.onCloseTransport = true
  onHandshakeFailure : i.onHandshakeFailure = true

/-- No handshake is being timed. -/
structure Client.Untimed (c : Client) : Prop where
  timeout : c.timeout = false
  events : c.events = c.posted

/-- The client follows its instance. -/
def Steady (w : World Client) : Prop :=
  match w.inst.state with
  | .init => w.app.state = .closed ∧ w.app.poisons = 0 ∧ w.app.Untimed
  | .parseHandshake => w.app.state = .opening ∧ w.app.poisons = 0 ∧ Wired w.inst
  | .ready => False
  | .open => w.app.state = .open ∧ w.app.poisons = 0 ∧ w.app.Untimed ∧ Wired w.inst
  | .closed =>
    (w.app.state = .closing ∧ w.app.poisons ≤ 1 ∨ w.app.state = .closed ∧ w.app.poisons = 0) ∧
      w.app.Untimed

/-- The worlds of the client between the calls of its worker. -/
structure Sound (w : World Client) : Prop where
  role : w.inst.role = .client
  sends : w.inst.progress.Sane
  invariant : w.inst.state ≠ .init → Invariant w
  steady : Steady w

/-- The job has been completed by the end of the handshake. -/
structure Completed (c c' : Client) : Prop where
  done : c'.job.done = true
  outcome : c'.job.retval = .ok ∧ c'.record.notes = c.record.notes ++ [.opened c.record.attempt] ∨
    c'.job.retval ≠ .ok ∧ c'.record.notes = c.record.notes

/-- What a function of the core does to a client that follows its instance. -/
structure Served (w w' : World Client) : Prop where
  steady : Steady w'
  rx : w'.app.rx = w.app.rx
  connected : w'.app.connected = w.app.connected
  posted : w'.app.posted = w.app.posted
  record : w'.app.record = { w.app.record with notes := w'.app.record.notes }
  job : (w'.app.job = w.app.job ∧ w'.app.record.notes = w.app.record.notes) ∧
      (w'.inst.state = .parseHandshake ↔ w.inst.state = .parseHandshake) ∨
    w.inst.state = .parseHandshake ∧ w'.inst.state ≠ .parseHandshake ∧ Completed w.app w'.app

namespace Served

variable {w w' w'' : World Client}

theorem refl (h : Steady w) : Served w w := ⟨h, rfl, rfl, rfl, rfl, .inl ⟨⟨rfl, rfl⟩, .rfl⟩⟩

theorem trans (h : Served w w') (h' : Served w' w'') : Served w w'' where
  steady := h'.steady
  rx := h'.rx.trans h.rx
  connected := h'.connected.trans h.connected
  posted := h'.posted.trans h.posted
  record := by rw [h'.record, h.record]
  job := by
    rcases h.job with ⟨⟨hjob, hnotes⟩, hwaits⟩ | ⟨hw, hleft, hdone⟩
    · rcases h'.job with ⟨⟨hjob', hnotes'⟩, hwaits'⟩ | ⟨hw', hleft', hdone'⟩
      · exact .inl ⟨⟨hjob'.trans hjob, hnotes'.trans hnotes⟩, hwaits'.trans hwaits⟩
      · refine .inr ⟨hwaits.mp hw', hleft', hdone'.done, ?_⟩
        have hattempt : w'.app.record.attempt = w.app.record.attempt := by rw [h.record]
        rw [← hnotes, ← hattempt]
        exact hdone'.outcome
    · rcases h'.job with ⟨⟨hjob', hnotes'⟩, hwaits'⟩ | ⟨hw', -, -⟩
      · refine .inr ⟨hw, fun hw' => hleft (hwaits'.mp hw'), ?_, ?_⟩
        · rw [hjob']
          exact hdone.done
        · rw [hjob', hnotes']
          exact hdone.outcome
      · exact absurd hw' hleft

end Served

/-- A step that carries data only. -/
theorem Served.data {w w' : World Client} (h : Steady w) (hs : w'.inst.state = w.inst.state)
    (hw : Wired w.inst → Wired w'.inst) (hc : SameControl w.app w'.app) : Served w w' where
  steady := by
    have hposted : w.app.Untimed → w'.app.Untimed := by
      intro hu
      refine ⟨hc.timeout.trans hu.timeout, ?_⟩
      unfold Client.posted
      rw [hc.events]
      exact hu.events
    unfold Steady at h ⊢
    rw [hs, hc.state, hc.poisons]
    cases hstate : w.inst.state <;> rw [hstate] at h <;> dsimp only at h ⊢
    · exact ⟨h.1, h.2.1, hposted h.2.2⟩
    · exact ⟨h.1, h.2.1, hw h.2.2⟩
    · exact ⟨h.1, h.2.1, hposted h.2.2.1, hw h.2.2.2⟩
    · exact ⟨h.1, hposted h.2⟩
  rx := hc.rx
  connected := hc.connected
  posted := by
    unfold Client.posted
    rw [hc.events]
  record := by rw [hc.record]
  job := .inl ⟨⟨hc.job, by rw [hc.record]⟩, by rw [hs]⟩

/-! ## Opening and closing -/

section Handlers

variable {w : World Client}

theorem callOnCloseTransport_app (h : Wired w.inst) :
    (callOnCloseTransport (callbacks order) w).app = w.app.handleCloseTransport order := by
  unfold callOnCloseTransport
  rw [if_pos h.onCloseTransport]
  rfl

theorem callOnHandshakeFailure_app (h : Wired w.inst) (reason : HandshakeFailure) :
    (callOnHandshakeFailure (callbacks order) reason w).app =
      w.app.handleHandshakeFailure reason := by
  unfold callOnHandshakeFailure
  rw [if_pos h.onHandshakeFailure]
  rfl

theorem callOnClose_app (h : Wired w.inst) (code : UInt16) (reason : List UInt8) :
    (callOnClose (callbacks order) code reason w).app = { w.app with state := .closing } := by
  unfold callOnClose
  rw [if_pos h.onClose]
  rfl

theorem callOnOpen_app (h : Wired w.inst) :
    (callOnOpen (callbacks order) w).app = w.app.handleOpen := by
  unfold callOnOpen
  rw [if_pos h.onOpen]
  rfl

theorem callOnCloseTransport_inst (w : World Client) :
    (callOnCloseTransport (callbacks order) w).inst = w.inst := by
  unfold callOnCloseTransport
  split_ifs <;> rfl

theorem callOnOpen_inst (w : World Client) : (callOnOpen (callbacks order) w).inst = w.inst := by
  unfold callOnOpen
  split_ifs <;> rfl

end Handlers

/-- One more poison at most, and the rest as it was. -/
theorem handleCloseTransport_poisons (c : Client) (h : c.poisons = 0) :
    (c.handleCloseTransport order).poisons ≤ 1 := by
  have hput := c.txQueue.count_put_none order
  unfold Client.poisons at h ⊢
  show (c.txQueue.put order none).queue.count none ≤ 1
  omega

theorem posted_filter (c : Client) : c.posted.filter (· ≠ .doHandshakeTimeout) = c.posted := by
  simp [Client.posted]

/-- The end of a handshake that has failed. -/
theorem failed_served {w w' : World Client} (h : Steady w) (hs : w.inst.state = .parseHandshake)
    (hs' : w'.inst.state = .closed) {reason : HandshakeFailure}
    (happ : w'.app = (w.app.handleCloseTransport order).handleHandshakeFailure reason) :
    Served w w' := by
  unfold Steady at h
  rw [hs] at h
  obtain ⟨-, hpoisons, -⟩ := h
  have hle := handleCloseTransport_poisons order w.app hpoisons
  have hne : failureError reason ≠ .ok := by cases reason <;> decide
  constructor
  · unfold Steady
    rw [hs', happ]
    exact ⟨.inl ⟨rfl, hle⟩, rfl, (posted_filter _).symm⟩
  · rw [happ]
    rfl
  · rw [happ]
    rfl
  · rw [happ]
    exact posted_filter w.app
  · rw [happ]
    rfl
  · refine .inr ⟨hs, by rw [hs']; exact nofun, ?_, ?_⟩
    · rw [happ]
      rfl
    · rw [happ]
      exact .inr ⟨hne, rfl⟩

/-- The end of a handshake that has succeeded. -/
theorem opened_served {w w' : World Client} (h : Steady w) (hs : w.inst.state = .parseHandshake)
    (hs' : w'.inst.state = .open) (hw : Wired w.inst → Wired w'.inst)
    (happ : w'.app = w.app.handleOpen) : Served w w' := by
  unfold Steady at h
  rw [hs] at h
  obtain ⟨-, hpoisons, hwired⟩ := h
  constructor
  · unfold Steady
    rw [hs', happ]
    exact ⟨rfl, hpoisons, ⟨rfl, (posted_filter _).symm⟩, hw hwired⟩
  · rw [happ]
    rfl
  · rw [happ]
    rfl
  · rw [happ]
    exact posted_filter w.app
  · rw [happ]
    rfl
  · refine .inr ⟨hs, by rw [hs']; exact nofun, ?_, ?_⟩
    · rw [happ]
      rfl
    · rw [happ]
      exact .inl ⟨rfl, rfl⟩

/-- The end of a connection that was open. -/
theorem closed_served {w w' : World Client} (h : Steady w) (hs : w.inst.state = .open)
    (hs' : w'.inst.state = .closed) {c : Client} (hc : SameControl w.app c)
    (happ : w'.app = { c.handleCloseTransport order with state := .closing }) : Served w w' := by
  -- the connection was open: no poison was in the queue, and no timeout pending
  unfold Steady at h
  rw [hs] at h
  obtain ⟨-, hpoisons, huntimed, -⟩ := h
  have hle := handleCloseTransport_poisons order c (hc.poisons.trans hpoisons)
  have hposted : w'.app.posted = w.app.posted := by
    rw [happ]
    exact congrArg (List.filter _) hc.events
  have hrecord : w'.app.record = w.app.record := by
    rw [happ]
    exact hc.record
  -- now one poison may be there, and the caller has not been told anything yet
  constructor
  · unfold Steady
    rw [hs']
    refine ⟨.inl ⟨by rw [happ], by rw [happ]; exact hle⟩, ?_, ?_⟩
    · rw [happ]
      exact hc.timeout.trans huntimed.timeout
    · rw [hposted, ← huntimed.events, happ]
      exact hc.events
  · rw [happ]
    exact hc.rx
  · rw [happ]
    exact hc.connected
  · exact hposted
  · rw [hrecord]
  · left
    rw [hrecord, hs, hs']
    refine ⟨⟨?_, rfl⟩, by simp⟩
    rw [happ]
    exact hc.job

section Functions

variable {w : World Client}

theorem Wired.update {i : Inst} (h : Wired i) (s : State) : Wired { i with state := s } :=
  ⟨h.onOpen, h.onClose, h.onCloseTransport, h.onHandshakeFailure⟩

/-- What calls leave alone includes the callbacks. -/
theorem Wired.keeps {w' : World Client} (h : Wired w.inst) (hk : Keeps w w') : Wired w'.inst := by
  rw [hk.inst]
  exact ⟨h.onOpen, h.onClose, h.onCloseTransport, h.onHandshakeFailure⟩

/-- **Closing.** -/
theorem closeWithReason_served (hr : w.inst.role = .client) (h : Steady w) (code : UInt16)
    (reason : Payload) {type : BufferType} (ht : type = .close ∨ type = .closeResponse) :
    Served w (closeWithReason (callbacks order) code reason type w) := by
  have hq : (callbacks order).Respect (QuietAt False) := (callbacks_passive order).quiet
  have hclosed := closeWithReason_closed hq hr code reason ht
  have hsteady := h
  unfold Steady at h
  -- what happens depends on how far the instance has come
  cases hs : w.inst.state with
  | init =>
    rw [hs] at h
    have heq : closeWithReason (callbacks order) code reason type w =
        (w.emit (.closing code)).setState .closed := by
      unfold closeWithReason
      rw [hs]
    rw [heq]
    refine ⟨?_, rfl, rfl, rfl, rfl, .inl ⟨⟨rfl, rfl⟩, ?_⟩⟩
    swap
    · simp [World.setState, World.update, hs]
    exact ⟨.inr ⟨h.1, h.2.1⟩, h.2.2⟩
  | closed =>
    have heq : closeWithReason (callbacks order) code reason type w = w := by
      unfold closeWithReason
      rw [hs]
    rw [heq]
    exact .refl hsteady
  | ready =>
    rw [hs] at h
    exact h.elim
  | parseHandshake =>
    rw [hs] at h
    have hw : Wired ((w.emit (.closing code)).setState .closed).inst := h.2.2.update .closed
    apply failed_served order hsteady hs hclosed
    swap
    · exact failureOf code
    unfold closeWithReason
    rw [hs]
    dsimp only
    rw [callOnHandshakeFailure_app order (by rwa [callOnCloseTransport_inst]),
      callOnCloseTransport_app order hw]
    rfl
  | «open» =>
    rw [hs] at h
    -- the close frame goes first, and the two callbacks behind it close the client
    have hr' : ((w.emit (.closing code)).setState .closed).inst.role = .client := hr
    have hw : Wired ((w.emit (.closing code)).setState .closed).inst := h.2.2.2.update .closed
    have hframe : SameControl w.app
        (sendClose (callbacks order) code reason type
          ((w.emit (.closing code)).setState .closed)).app :=
      sendClose_carried (callbacks_sameControl order) (callbacks_passive order) hr' _ _ _
    have hw' := hw.keeps (sendClose_quiet hq hr' code reason ht False.elim).toKeeps
    apply closed_served order hsteady hs hclosed hframe
    unfold closeWithReason
    rw [hs]
    dsimp only
    rw [callOnClose_app order (by rwa [callOnCloseTransport_inst]),
      callOnCloseTransport_app order hw']

/-- **The end of the response, or what there is of it.** -/
theorem afterHttp_served (h : Steady w) (hs : w.inst.state = .parseHandshake)
    (data : List UInt8) :
    Served w (afterHttp (callbacks order) (httpParserExecute data w).2) := by
  have hparsing : Parsing w (httpParserExecute data w).2 := httpParserExecute_parsing data
  generalize (httpParserExecute data w).2 = w₁ at hparsing ⊢
  have hwired (hw : Wired w.inst) : Wired w₁.inst := by
    rw [hparsing.inst]
    exact ⟨hw.onOpen, hw.onClose, hw.onCloseTransport, hw.onHandshakeFailure⟩
  have hw : Wired w.inst := by
    unfold Steady at h
    rw [hs] at h
    exact h.2.2
  unfold afterHttp
  -- the parser has no error, and the response may be complete; or the handshake has failed
  by_cases he : w₁.inst.http.httpErrno = .ok
  · rw [if_neg (not_not.mpr he)]
    by_cases hready : w₁.inst.state = .ready
    · rw [if_pos hready]
      apply opened_served h hs rfl
      · intro _
        rw [World.setState_inst, callOnOpen_inst]
        exact (hwired hw).update .open
      · rw [World.setState_app, callOnOpen_app order (hwired hw), hparsing.app]
    · rw [if_neg hready]
      apply Served.data h (hparsing.state.resolve_right hready) hwired
      rw [hparsing.app]
      exact .refl _
  · rw [if_pos he]
    apply failed_served order h hs rfl
    rw [World.setState_app, callOnHandshakeFailure_app order
      (by rw [callOnCloseTransport_inst]; exact hwired hw), callOnCloseTransport_app order (hwired hw),
      hparsing.app]

theorem Steady.not_ready (h : Steady w) : w.inst.state ≠ .ready := by
  intro hready
  unfold Steady at h
  rw [hready] at h
  exact h

theorem wicSend_state (hr : w.inst.role = .client) (h : Steady w) (encoding : Encoding)
    (fin : Bool) (data : Payload) :
    (wicSend (callbacks order) encoding fin data w).2.inst.state = w.inst.state := by
  unfold wicSend
  split_ifs
  · exact (Send.binary fin data).run_state (callbacks_passive order) hr h.not_ready
  · exact (Send.text fin data).run_state (callbacks_passive order) hr h.not_ready

/-- Sending leaves the client as it is. -/
theorem wicSend_served (hr : w.inst.role = .client) (h : Steady w) (encoding : Encoding)
    (fin : Bool) (data : Payload) : Served w (wicSend (callbacks order) encoding fin data w).2 := by
  have hq : (callbacks order).Respect (QuietAt False) := (callbacks_passive order).quiet
  have hsend (send : Send) : Served w (send.run (callbacks order) w).2 := by
    have hk := (send.run_quiet hq hr False.elim).toKeeps
    have hc := send.run_carried (callbacks_sameControl order) (callbacks_passive order) hr
    have hs := send.run_state (callbacks_passive order) hr h.not_ready
    exact Served.data h hs (fun hw => hw.keeps hk) hc
  unfold wicSend
  split_ifs
  · exact hsend (.binary fin data)
  · exact hsend (.text fin data)

/-! ## Receiving -/

theorem offerAll_served (h : Steady w) (encoding : Encoding) {done : Inst → Inst}
    (hs : ∀ i, (done i).state = i.state) (hd : ∀ i, Wired i → Wired (done i)) :
    Served w (offerAll (callbacks order) encoding done w).2 := by
  have hc : SameControl w.app (offerAll (callbacks order) encoding done w).2.app :=
    offerAll_carried (callbacks_sameControl order) encoding done
  rcases offerAll_inst (callbacks_passive order) encoding done with hinst | hinst
  · exact Served.data h (by rw [hinst]) (by rw [hinst]; exact id) hc
  · exact Served.data h (by rw [hinst, hs]) (by rw [hinst]; exact hd _) hc

theorem callOnPing_served (h : Steady w) : Served w (callOnPing (callbacks order) w) := by
  have hinst : (callOnPing (callbacks order) w).inst = w.inst := by
    unfold callOnPing
    split_ifs <;> rfl
  exact Served.data h (by rw [hinst]) (by rw [hinst]; exact id)
    (callOnPing_carried (callbacks_sameControl order))

theorem callOnPong_served (h : Steady w) : Served w (callOnPong (callbacks order) w) := by
  have hinst : (callOnPong (callbacks order) w).inst = w.inst := by
    unfold callOnPong
    split_ifs <;> rfl
  exact Served.data h (by rw [hinst]) (by rw [hinst]; exact id)
    (callOnPong_carried (callbacks_sameControl order))

/-- A pong is data. -/
theorem sendPongWithPayload_served (hl : Live w) (h : Steady w) (data : Payload) :
    Served w (sendPongWithPayload (callbacks order) data w).2 := by
  have hp := callbacks_passive order
  have hq : (callbacks order).Respect (QuietAt False) := hp.quiet
  have hc := sendPongWithPayload_carried (callbacks_sameControl order) hp hl.role data
  have ha : allowedToSend w = (true, w) := by
    unfold allowedToSend
    rw [if_neg fun hready => by simp [hl.state] at hready]
    simp [hl.state]
  have heq : sendPongWithPayload (callbacks order) data w = putAndSend (callbacks order)
      { fin := true, opcode := .pong, type := .pong, payload := data } (Inst.advance id) w := by
    unfold sendPongWithPayload
    rw [ha]
    rfl
  rw [heq] at hc ⊢
  have hinst : (putAndSend (callbacks order)
      { fin := true, opcode := .pong, type := .pong, payload := data } (Inst.advance id) w).2.inst =
        w.inst := by
    rcases putAndSend_inst hp hl.role
      { fin := true, opcode := .pong, type := .pong, payload := data } id with hinst | hinst
    · exact hinst
    · exact hinst
  exact Served.data h (by rw [hinst]) (by rw [hinst]; exact id) hc

theorem finish_served (hl : Live w) (h : Steady w) :
    Served w (finish (callbacks order) w).2 := by
  unfold finish
  dsimp only
  split
  · split_ifs
    · refine offerAll_served order h .utf8 (fun _ => rfl) ?_
      exact fun _ hw => ⟨hw.onOpen, hw.onClose, hw.onCloseTransport, hw.onHandshakeFailure⟩
    · refine offerAll_served order h .utf8 (fun _ => rfl) ?_
      exact fun _ hw => ⟨hw.onOpen, hw.onClose, hw.onCloseTransport, hw.onHandshakeFailure⟩
    · exact closeWithReason_served order hl.role h _ _ (.inl rfl)
  · refine offerAll_served order h .binary (fun _ => rfl) ?_
    exact fun _ hw => ⟨hw.onOpen, hw.onClose, hw.onCloseTransport, hw.onHandshakeFailure⟩
  · obtain ⟨code, reason, heq, -⟩ := finishClose_eq (callbacks order) w
    rw [heq]
    exact closeWithReason_served order hl.role h _ _ (.inr rfl)
  · have hpong := sendPongWithPayload_served order hl h w.inst.rx.s.payload
    split
    · next heq =>
      rw [heq] at hpong
      exact hpong
    · next heq =>
      rw [heq] at hpong
      exact hpong.trans (callOnPing_served order hpong.steady)
  · exact callOnPong_served order h
  · exact .refl h

theorem passOn_served (h : Steady w) : Served w (passOn (callbacks order) w).2 := by
  have hoffer (encoding : Encoding) : Served w (offer (callbacks order) encoding false w).2 := by
    have hinst : (offer (callbacks order) encoding false w).2.inst = w.inst :=
      offer_inst (callbacks_passive order) encoding false
    exact Served.data h (by rw [hinst]) (by rw [hinst]; exact id)
      (offer_carried (callbacks_sameControl order) encoding false)
  unfold passOn
  split
  · exact hoffer .utf8
  · exact hoffer .binary
  · exact .refl h

/-- A change of the frame under reception. -/
theorem Served.updateRx (h : Steady w) (f : RxFrame → RxFrame) : Served w (w.updateRx f) :=
  Served.data h rfl (fun hw => ⟨hw.onOpen, hw.onClose, hw.onCloseTransport, hw.onHandshakeFailure⟩)
    (.refl _)

theorem settle_served (hl : Live w) (h : Steady w) :
    Served w (settle (callbacks order) w).2 := by
  unfold settle
  split
  · split_ifs
    · have hfinish := finish_served order hl h
      dsimp only
      split_ifs
      · exact hfinish
      · exact hfinish.trans (.updateRx hfinish.steady _)
    · have hpass := passOn_served order h
      rw [flush_eq]
      dsimp only
      split_ifs
      · exact hpass.trans (.updateRx hpass.steady _)
      · exact hpass
    · exact .refl h
  · exact .refl h

theorem consume_served (hl : Live w) (h : Steady w) (b : UInt8) :
    Served w (consume (callbacks order) b w) := by
  have hobeys := consume_obeys (callbacks order) w b
  generalize consume (callbacks order) b w = w' at hobeys ⊢
  cases hobeys with
  | stays f => exact .updateRx h f
  | closes f g code type hv =>
    have hf := Served.updateRx h f
    have hr : (w.updateRx f).inst.role = .client := hl.role
    have hclose := closeWithReason_served order hr hf.steady code .null (RxFrame.verdict_type hv)
    exact (hf.trans hclose).trans (.updateRx hclose.steady g)

end Functions

/-! ## The calls of the worker -/

section Worker

variable {w w' : World Client}

/-- **`wic_parse`.** -/
theorem wicParse_served (h : Sound w) {data : List UInt8} {n : Nat}
    (hrun : wicParse (callbacks order) data w = some (n, w')) : Sound w' ∧ Served w w' := by
  by_cases hs : w.inst.state = .init
  · have hidle : wicParse (callbacks order) data w = some (data.length, w) :=
      wicParse_of_idle (by rw [hs]; exact nofun) (by rw [hs]; exact nofun) data
    rw [hrun] at hidle
    cases hidle
    exact ⟨h, .refl h.steady⟩
  · have hq : (callbacks order).Respect (QuietAt False) := (callbacks_passive order).quiet
    obtain ⟨n', w'', hrun', hi, hserved⟩ := wicParse_induction (Served w) hq (h.invariant hs) data
      (fun hw _ => afterHttp_served order h.steady hw data)
      (fun _ hl hserved => hserved.trans (settle_served order hl hserved.steady))
      (fun _ b hl _ hserved => hserved.trans (consume_served order hl hserved.steady b))
      (fun _ f _ hserved => hserved.trans (.updateRx hserved.steady f)) (.refl h.steady)
    rw [hrun] at hrun'
    obtain ⟨-, rfl⟩ := Prod.mk.inj (Option.some.inj hrun')
    exact ⟨⟨hi.role, hi.sends, fun _ => hi, hserved.steady⟩, hserved⟩

/-- **`wic_close_with_reason`.** -/
theorem wicCloseWithReason_served (h : Sound w) (code : UInt16) (reason : Payload) :
    Sound (wicCloseWithReason (callbacks order) code reason w) ∧
      Served w (wicCloseWithReason (callbacks order) code reason w) := by
  have hq : (callbacks order).Respect (QuietAt False) := (callbacks_passive order).quiet
  have hk := closeWithReason_keeps hq h.role code reason (.inl rfl)
  have hclosed := closeWithReason_closed hq h.role code reason (.inl rfl)
  have hserved := closeWithReason_served order h.role h.steady code reason (.inl rfl)
  refine ⟨⟨hk.role.trans h.role, hk.sends h.sends, fun _ => ?_, hserved.steady⟩, hserved⟩
  exact .of_closed (hk.role.trans h.role) hclosed (hk.sends h.sends)

/-- **`wic_send`.** -/
theorem wicSend_sound (h : Sound w) (encoding : Encoding) (fin : Bool) (data : Payload) :
    Sound (wicSend (callbacks order) encoding fin data w).2 ∧
      Served w (wicSend (callbacks order) encoding fin data w).2 := by
  have hq : (callbacks order).Respect (QuietAt False) := (callbacks_passive order).quiet
  have hserved := wicSend_served order h.role h.steady encoding fin data
  have hk : Keeps w (wicSend (callbacks order) encoding fin data w).2 :=
    (Call.run_quiet hq h.role (.send encoding fin data) False.elim).toKeeps
  refine ⟨⟨hk.role.trans h.role, hk.sends h.sends, ?_, hserved.steady⟩, hserved⟩
  intro hne
  rw [wicSend_state order h.role h.steady] at hne
  exact (h.invariant hne).keeps hk

end Worker

end Wic.Mbed
