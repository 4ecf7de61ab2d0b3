import Wic.Mbed.Control
import Wic.Mbed.Loans

/-!
# What `do_open` does

`do_open` is refused while a connection is on, gives up with an error and the socket closed, or leaves
the instance waiting for the response. It reports an error in every exit but one: when `wic_start`
fails it leaves `NSAPI_ERROR_OK`, which happens when the buffer of the request is in use or too small.

## Main definitions

* `Still`: what a client that follows its instance may ignore
* `Startable`: `wic_start` will not fail
* `Opens`: what `do_open` does

## Main results

* `doOpen_opens`
-/

namespace Wic.Mbed

open Http (ascii)

/-! ## What does not touch the instance -/

/-- The instance waits for the response. -/
def Handshaking (w : World Client) : Prop := w.inst.state = .parseHandshake

/-- Nothing has changed that ties the client to its instance. -/
structure Still (c c' : Client) : Prop where
  state : c'.state = c.state
  events : c'.events = c.events
  timeout : c'.timeout = c.timeout
  poisons : c'.poisons = c.poisons

section Still

variable {w w' : World Client}

theorem Still.posted {c c' : Client} (h : Still c c') : c'.posted = c.posted := by
  unfold Client.posted
  rw [h.events]

theorem Still.untimed {c c' : Client} (h : Still c c') (hu : c.Untimed) : c'.Untimed where
  timeout := h.timeout.trans hu.timeout
  events := by
    rw [h.posted, h.events]
    exact hu.events

/-- All but the client is in the instance. -/
theorem Sound.of_inst (h : Sound w) (hi : w'.inst = w.inst) (hs : Steady w') : Sound w' where
  role := by
    rw [hi]
    exact h.role
  sends := by
    rw [hi]
    exact h.sends
  invariant hne := by
    rw [hi] at hne
    exact (h.invariant hne).of_inst hi
  steady := hs

/-- Nothing ties the client to its instance but its state, the poisons, and the timeout of a handshake. -/
theorem Sound.of_client (h : Sound w) (hi : w'.inst = w.inst) (hs : w'.app.state = w.app.state)
    (hp : w'.app.poisons = w.app.poisons)
    (hu : ¬ Handshaking w → w.app.Untimed → w'.app.Untimed) : Sound w' := by
  apply h.of_inst hi
  have hsteady := h.steady
  unfold Handshaking at hu
  unfold Steady at hsteady ⊢
  rw [hi, hs, hp]
  cases hstate : w.inst.state <;> rw [hstate] at hsteady hu <;> dsimp only at hsteady ⊢
  · exact ⟨hsteady.1, hsteady.2.1, hu nofun hsteady.2.2⟩
  · exact hsteady
  · exact ⟨hsteady.1, hsteady.2.1, hu nofun hsteady.2.2.1, hsteady.2.2.2⟩
  · exact ⟨hsteady.1, hu nofun hsteady.2⟩

theorem Sound.still (h : Sound w) (hi : w'.inst = w.inst) (hc : Still w.app w'.app) : Sound w' :=
  h.of_client hi hc.state hc.poisons fun _ => hc.untimed

/-- An event is put behind those that wait. -/
theorem Sound.push (h : Sound w) (hi : w'.inst = w.inst) (hs : w'.app.state = w.app.state)
    (hp : w'.app.poisons = w.app.poisons) {event : Posted}
    (he : w'.app.events = w.app.events ++ [event])
    (hq : ¬ Handshaking w → event ≠ .doHandshakeTimeout ∧ w'.app.timeout = w.app.timeout) :
    Sound w' := by
  apply h.of_client hi hs hp
  intro hnot hu
  obtain ⟨hne, ht⟩ := hq hnot
  refine ⟨ht.trans hu.timeout, ?_⟩
  have hall := hu.events
  unfold Client.posted at hall ⊢
  rw [he, List.filter_append, ← hall]
  simp [hne]

/-- An event is taken. -/
theorem Sound.pop (h : Sound w) {event : Posted} {events : List Posted}
    (he : w.app.events = event :: events) : Sound (updateApp (fun c => { c with events }) w) := by
  apply h.of_client (by rfl) (by rfl) (by rfl)
  refine fun _ hu => ⟨hu.timeout, ?_⟩
  have hall := hu.events
  unfold Client.posted at hall ⊢
  rw [he] at hall
  have hnone := List.filter_eq_self.mp hall.symm
  exact (List.filter_eq_self.mpr fun e he => hnone e (List.mem_cons_of_mem _ he)).symm

/-- A handshake is timed only while the instance waits for the response. -/
theorem Sound.untimed (h : Sound w) (hidle : ¬ Handshaking w) : w.app.Untimed := by
  have hs := h.steady
  unfold Steady at hs
  unfold Handshaking at hidle
  cases hstate : w.inst.state <;> rw [hstate] at hs hidle <;> dsimp only at hs
  · exact hs.2.2
  · exact absurd rfl hidle
  · exact hs.2.2.1
  · exact hs.2

/-- A client without connection. -/
theorem Sound.closed (h : Sound w) (hc : w.app.state = .closed) :
    w.app.poisons = 0 ∧ w.app.Untimed := by
  have hs := h.steady
  unfold Steady at hs
  cases hstate : w.inst.state <;> rw [hstate] at hs <;> dsimp only at hs
  · exact hs.2
  · simp [hc] at hs
  · simp [hc] at hs
  · refine ⟨?_, hs.2⟩
    rcases hs.1 with ⟨hclosing, -⟩ | ⟨-, hzero⟩
    · simp [hc] at hclosing
    · exact hzero

end Still

/-! ## `wic_start` -/

variable (order : Order)

/-- When `do_open` gets as far as `wic_start`, that can parse the URL, and the buffer of the request is
free and large enough. -/
def Startable (env : Environment) (c : Client) : Prop :=
  env.hostname = .ok → env.connect = .ok → (wicInit (initArg env c) env.u).isSome →
    Slot.user.mask &&& c.txQueue.flags = 0 ∧
      ∃ u ∈ Http.httpParserParseUrl c.url {}, requestLength c.url u ≤ c.txQueue.maxSize % 2 ^ 32

instance (env : Environment) (c : Client) : Decidable (Startable env c) :=
  inferInstanceAs (Decidable (_ → _ → _ → _ ∧ ∃ u ∈ Http.httpParserParseUrl c.url {}, _))

section Start

variable {w w' : World Client} {status : Status} {fuel : Nat}

/-- `wic_start` waits for the response when it succeeds, and not otherwise. -/
theorem wicStart_state (hs : w.inst.state = .init)
    (h : wicStart (callbacks order) fuel w = some (status, w')) :
    w'.inst = { w.inst with state := w'.inst.state, hash := w'.inst.hash } ∧
      (status = .success ∧ w'.inst.state = .parseHandshake ∨
        status ≠ .success ∧ w'.inst.state = .init) := by
  have hq : (callbacks order).Respect (QuietAt False) := (callbacks_passive order).quiet
  refine ⟨(startClient_starts hq h).inst, ?_⟩
  have hlease : (lease (callbacks order) 0 .http w).2.inst = w.inst := rfl
  have hstarted := startClient_started h
  generalize hr : (status, w') = r at hstarted
  cases hstarted with
  | refused status' hrefused =>
    cases hr
    refine .inr ⟨?_, hs⟩
    rcases hrefused with rfl | rfl <;> exact nofun
  | blocked =>
    cases hr
    exact .inr ⟨nofun, hs⟩
  | @ended _ buf max w₁ nonce w₂ key u tx hb hk hn ht =>
    rw [hb] at hlease
    have hdraw := (drawKey_edits hq w₁).inst
    rw [hk] at hdraw
    have hinit : w₂.inst.state = .init := by
      rw [hdraw, hlease, hs]
    split_ifs at hr
    · cases hr
      exact .inr ⟨nofun, hinit⟩
    · cases hr
      exact .inl ⟨rfl, rfl⟩

/-- `wic_start` does not fail where it is startable. -/
theorem wicStart_success {u : Http.HttpParserUrl}
    (h : wicStart (callbacks order) fuel w = some (status, w')) (hs : w.inst.state = .init)
    (hheader : w.inst.txHeader = none) (hurl : w.inst.url = some w.app.url)
    (hfree : Slot.user.mask &&& w.app.txQueue.flags = 0)
    (hu : Http.httpParserParseUrl w.app.url {} = some u)
    (hfits : requestLength w.app.url u ≤ w.app.txQueue.maxSize % 2 ^ 32) : status = .success := by
  have hq : (callbacks order).Respect (QuietAt False) := (callbacks_passive order).quiet
  have halloc : w.app.txQueue.alloc .http 0 = ((some .user, w.app.txQueue.maxSize),
      { w.app.txQueue with flags := w.app.txQueue.flags ||| Slot.user.mask }) := by
    unfold OutputQueue.alloc
    dsimp only [typeToBuf]
    rw [if_pos (.inl rfl), if_pos hfree]
  have hlent : (lease (callbacks order) 0 .http w).1 = (some 0, w.app.txQueue.maxSize) := by
    show (w.app.handleBuffer 0 .http).1 = _
    unfold Client.handleBuffer
    rw [halloc]
    rfl
  have hinst : (lease (callbacks order) 0 .http w).2.inst = w.inst := rfl
  rcases hb : lease (callbacks order) 0 .http w with ⟨⟨buf, max⟩, w₁⟩
  rw [hb] at hlent hinst
  obtain ⟨rfl, rfl⟩ := Prod.mk.inj hlent
  apply startClient_success hs (by rw [hurl]; exact hu) hb ?_ (by rw [hurl]; exact hfits) h
  rw [(drawKey_edits hq w₁).inst, hinst, hheader]

end Start

/-! ## `do_open` -/

/-- What `do_open` does; `strict` when `wic_start` may be relied on. -/
structure Opens (strict : Prop) (attempt : Nat) (w w' : World Client) : Prop where
  sound : Sound w'
  posted : w'.app.posted = w.app.posted
  calls : w'.app.record.calls = w.app.record.calls
  attempts : w'.app.record.attempts = w.app.record.attempts
  notes : w'.app.record.notes = w.app.record.notes
  fresh : w.app.state = .closed → Fresh w.app w'.app
  outcome : Handshaking w' ∧ w'.app.job.done = w.app.job.done ∧ w'.app.record.attempt = attempt ∨
    ¬ Handshaking w' ∧ w'.app.job.done = true ∧ (strict → w'.app.job.retval ≠ .ok)

/-- The world once `wic_init` has been called. -/
structure Prepared (attempt : Nat) (w w' : World Client) : Prop where
  role : w'.inst.role = .client
  init : w'.inst.state = .init
  sends : w'.inst.progress.Sane
  state : w'.app.state = .closed
  poisons : w'.app.poisons = 0
  untimed : w'.app.Untimed
  posted : w'.app.posted = w.app.posted
  job : w'.app.job = w.app.job
  calls : w'.app.record.calls = w.app.record.calls
  attempts : w'.app.record.attempts = w.app.record.attempts
  notes : w'.app.record.notes = w.app.record.notes
  attempt : w'.app.record.attempt = attempt
  fresh : Fresh w.app w'.app

section Open

variable {strict : Prop} {attempt : Nat} {env : Environment} {w w' w₁ : World Client}

theorem Prepared.giveUp (h : Prepared attempt w w₁) {retval : NsapiError}
    (hr : strict → retval ≠ .ok) : Opens strict attempt w (giveUp retval w₁) where
  sound := by
    refine ⟨h.role, h.sends, fun hne => absurd h.init hne, ?_⟩
    unfold Steady
    have hinit : (Mbed.giveUp retval w₁).inst.state = .init := h.init
    rw [hinit]
    exact ⟨rfl, h.poisons, h.untimed.timeout, h.untimed.events⟩
  posted := h.posted
  calls := h.calls
  attempts := h.attempts
  notes := h.notes
  fresh _ := h.fresh.holds h.state (.of_txQueue rfl rfl (fun hne => absurd h.state hne) rfl rfl rfl)
    fun _ => rfl
  outcome := by
    refine .inr ⟨?_, rfl, hr⟩
    show ¬ w₁.inst.state = .parseHandshake
    rw [h.init]
    exact nofun

/-- Data has been carried. -/
theorem Prepared.carried (h : Prepared attempt w w₁) {w₂ : World Client}
    (hc : SameControl w₁.app w₂.app) (hf : Fresh w.app w₂.app) (hi : w₂.inst.state = .init)
    (hrole : w₂.inst.role = .client) (hsends : w₂.inst.progress.Sane) : Prepared attempt w w₂ := by
  have hposted : w₂.app.posted = w₁.app.posted := by
    unfold Client.posted
    rw [hc.events]
  refine ⟨hrole, hi, hsends, hc.state.trans h.state, hc.poisons.trans h.poisons, ?_, ?_, ?_, ?_, ?_,
    ?_, ?_, hf⟩
  · refine ⟨hc.timeout.trans h.untimed.timeout, ?_⟩
    rw [hposted, hc.events]
    exact h.untimed.events
  · exact hposted.trans h.posted
  · exact hc.job.trans h.job
  · rw [hc.record, h.calls]
  · rw [hc.record, h.attempts]
  · rw [hc.record, h.notes]
  · rw [hc.record, h.attempt]

/-- What `wic_init` makes of the argument of `do_open`. -/
theorem wicInit_initArg {c : Client} {inst : Inst} (h : wicInit (initArg env c) env.u = some inst) :
    Wired inst ∧ inst.txHeader = none ∧ inst.url = some c.url := by
  unfold wicInit at h
  simp only [initArg, Bool.not_true, Bool.or_self, Bool.false_eq_true, if_false] at h
  split at h
  · cases h
  · simp only [ne_eq, not_true, if_false] at h
    cases h
    exact ⟨⟨rfl, rfl, rfl, rfl⟩, rfl, rfl⟩

/-- The part of `do_open` behind `wic_init`. -/
theorem openSocket_opens (h : Prepared attempt w w₁) (hi : Invariant w₁) (hw : Wired w₁.inst)
    (hstart : strict → env.hostname = .ok → env.connect = .ok →
      ∀ status w₂, wicStart (callbacks order) 0
        (updateApp (fun c => { c with connected := true }) w₁) = some (status, w₂) → status = .success)
    (hrun : openSocket order env w₁ = some w') : Opens strict attempt w w' := by
  unfold openSocket at hrun
  -- no address and no connection are errors of the socket
  by_cases hhost : env.hostname = .ok
  swap
  · rw [if_pos hhost] at hrun
    cases hrun
    exact h.giveUp fun _ => hhost
  rw [if_neg (not_not.mpr hhost)] at hrun
  by_cases hconnect : env.connect = .ok
  swap
  · rw [if_pos hconnect] at hrun
    cases hrun
    exact h.giveUp fun _ => hconnect
  rw [if_neg (not_not.mpr hconnect)] at hrun
  obtain ⟨⟨status, w₂⟩, hwic, hw'⟩ := Option.map_eq_some_iff.mp hrun
  have hstart' := fun hstrict => hstart hstrict hhost hconnect status w₂ hwic
  dsimp only at hw'
  -- the world in which `wic_start` is called: the socket is connected
  generalize hw₁ : updateApp (fun c => { c with connected := true }) w₁ = wc at hwic
  have hp : Prepared attempt w wc := by
    rw [← hw₁]
    exact ⟨h.role, h.init, h.sends, h.state, h.poisons, ⟨h.untimed.timeout, h.untimed.events⟩,
      h.posted, h.job, h.calls, h.attempts, h.notes, h.attempt,
      h.fresh.holds h.state (.of_txQueue rfl rfl id rfl rfl rfl) fun _ => rfl⟩
  have hic : Invariant wc := hi.of_inst (by rw [← hw₁]; rfl)
  have hwc : Wired wc.inst := by
    rw [← hw₁]
    exact hw
  clear hw₁ h hi hw hstart
  have hq : (callbacks order).Respect (QuietAt False) := (callbacks_passive order).quiet
  have hc : SameControl wc.app w₂.app := startClient_carried (callbacks_sameControl order) hwic
  have hholds : Holds wc.app w₂.app := startClient_carried (callbacks_holds order).toCarriesData hwic
  have hinv := hic.starts (startClient_starts hq hwic)
  -- `wic_start` waits for the response, or leaves the instance as it was
  obtain ⟨hinst, ⟨hok, hstate⟩ | ⟨hfail, hstate⟩⟩ := wicStart_state order hp.init hwic
  · rw [if_neg (not_not.mpr hok)] at hw'
    subst hw'
    have hwired : Wired w₂.inst := by
      rw [hinst]
      exact ⟨hwc.onOpen, hwc.onClose, hwc.onCloseTransport, hwc.onHandshakeFailure⟩
    constructor
    · refine ⟨hinv.role, hinv.sends, fun _ => hinv.of_inst rfl, ?_⟩
      unfold Steady
      dsimp only [updateApp]
      rw [hstate]
      exact ⟨rfl, hc.poisons.trans hp.poisons, hwired⟩
    · have hposted : w₂.app.posted = wc.app.posted := congrArg (List.filter _) hc.events
      exact hposted.trans hp.posted
    · exact (congrArg Record.calls hc.record).trans hp.calls
    · exact (congrArg Record.attempts hc.record).trans hp.attempts
    · exact (congrArg Record.notes hc.record).trans hp.notes
    · intro _
      refine hp.fresh.holds hp.state (hholds.trans ?_) nofun
      exact .of_txQueue rfl rfl (fun _ => nofun) rfl rfl rfl
    · refine .inl ⟨hstate, ?_, (congrArg Record.attempt hc.record).trans hp.attempt⟩
      show w₂.app.job.done = w.app.job.done
      rw [hc.job, hp.job]
  · rw [if_pos hfail] at hw'
    subst hw'
    have hqueue := wicStart_queue order hwic hfail
    have hp₂ := hp.carried hc (hp.fresh.holds hp.state hholds fun _ => hqueue) hstate hinv.role
      hinv.sends
    have hgive : Opens strict attempt w (giveUp .ok w₂) :=
      -- the attempt is given up without an error of its own
      hp₂.giveUp fun hstrict => absurd (hstart' hstrict) hfail
    refine ⟨hgive.sound.still rfl ⟨rfl, rfl, rfl, rfl⟩, hgive.posted, hgive.calls, hgive.attempts,
      hgive.notes, fun hclosed => ?_, hgive.outcome⟩
    exact (hgive.fresh hclosed).holds rfl (.of_txQueue rfl rfl id rfl rfl rfl) fun _ => rfl

theorem allocRx_eq (c : Client) : ∃ rx q, c.allocRx = { c with rx, inputQueue := q } ∧
    q.size = c.inputQueue.size := by
  unfold Client.allocRx InputQueue.alloc
  split_ifs
  · exact ⟨c.rx, c.inputQueue, rfl, rfl⟩
  · exact ⟨true, _, rfl, rfl⟩
  · exact ⟨false, c.inputQueue, rfl, rfl⟩

/-- `do_open` is refused while a connection is on. -/
theorem doOpen_busy (hopen : w.app.state ≠ .closed)
    (hrun : doOpen order env attempt w = some w') : ∃ rx q job,
      w' = { w with app := { w.app with rx, inputQueue := q, job } } ∧ job.done = true ∧
        job.retval ≠ .ok := by
  obtain ⟨rx, q, happ, -⟩ := allocRx_eq w.app
  unfold doOpen updateApp at hrun
  dsimp only at hrun
  rw [happ, if_pos hopen] at hrun
  refine ⟨rx, q, _, (Option.some.inj hrun).symm, rfl, ?_⟩
  show (if w.app.state = .open then NsapiError.isConnected else .busy) ≠ .ok
  split_ifs <;> exact nofun

/-- **`do_open`.** -/
theorem doOpen_opens (h : Sound w) (hidle : ¬ Handshaking w)
    (hstart : strict → w.app.state = .closed → Startable env w.app)
    (hrun : doOpen order env attempt w = some w') : Opens strict attempt w w' := by
  by_cases hclosed : w.app.state = .closed
  swap
  -- a client that is not closed refuses another connection
  · obtain ⟨rx, q, job, rfl, hdone, hretval⟩ := doOpen_busy order hclosed hrun
    exact ⟨h.still rfl ⟨rfl, rfl, rfl, rfl⟩, rfl, rfl, rfl, rfl, fun h => absurd h hclosed,
      .inr ⟨hidle, hdone, fun _ => hretval⟩⟩
  · unfold doOpen at hrun
    obtain ⟨rx, q, happ, hsize⟩ := allocRx_eq w.app
    have hw : updateApp Client.allocRx w = { w with app := { w.app with rx, inputQueue := q } } := by
      unfold updateApp
      rw [happ]
    rw [hw] at hrun
    dsimp only at hrun
    rw [if_neg (not_not.mpr hclosed)] at hrun
    obtain ⟨hpoisons, huntimed⟩ := h.closed hclosed
    by_cases hnull : (!rx) = true
    · rw [if_pos hnull] at hrun
      cases hrun
    rw [if_neg hnull] at hrun
    -- what `wic_init` is given: the client with its queues emptied
    have hprepared {inst : Inst} (hrole : inst.role = .client) (hinit : inst.state = .init)
        (hsends : inst.progress.Sane) : Prepared attempt w
          { updateApp (Client.flushInputQueue attempt)
              { w with app := { w.app with rx, inputQueue := q } } with inst, log := [] } :=
      ⟨hrole, hinit, hsends, hclosed, hpoisons, ⟨huntimed.timeout, huntimed.events⟩, rfl, rfl, rfl,
        rfl, rfl, rfl, fun _ htx => ⟨htx.nodup, htx.flagged⟩, fun _ => rfl, rfl, rfl, rfl⟩
    have harg : initArg env (Client.flushInputQueue attempt { w.app with rx, inputQueue := q }) =
        initArg env w.app := by
      unfold initArg Client.flushInputQueue
      dsimp only
      simp only [hsize]
    cases hinit : wicInit (initArg env w.app) env.u with
    | none =>
      have hnone : wicInit (initArg env (updateApp (Client.flushInputQueue attempt)
          { w with app := { w.app with rx, inputQueue := q } }).app) env.u = none := by
        rw [← hinit, ← harg]
        rfl
      rw [hnone] at hrun
      cases hrun
      have hsane : ({} : Inst).progress.Sane := ⟨none, [], rfl, rfl⟩
      exact (hprepared rfl rfl hsane).giveUp fun _ => nofun
    | some inst =>
      have hsome : wicInit (initArg env (updateApp (Client.flushInputQueue attempt)
          { w with app := { w.app with rx, inputQueue := q } }).app) env.u = some inst := by
        rw [← hinit, ← harg]
        rfl
      rw [hsome] at hrun
      have hinv := wicInit_invariant hinit w.heap
        (Client.flushInputQueue attempt { w.app with rx, inputQueue := q })
      obtain ⟨hrole, hstate, -, -, -⟩ := wicInit_eq hinit
      obtain ⟨hwired, hheader, hurl⟩ := wicInit_initArg hinit
      refine openSocket_opens order (hprepared hrole hstate hinv.sends) hinv hwired ?_ hrun
      -- a start that fails finds the buffer in use or too small
      intro hstrict hhost hconnect status w₂ hwic
      obtain ⟨hfree, u, hu, hfits⟩ :=
        hstart hstrict hclosed hhost hconnect (by rw [hinit]; rfl)
      exact wicStart_success order hwic hstate hheader hurl hfree hu hfits

end Open

/-! ## The poison -/

/-- A queue without poison is emptied. -/
theorem OutputQueue.drainItems_queue {items : List (Option Slot)} (q : OutputQueue)
    (h : items.count none = 0) : (drainItems items q).2.queue = [] := by
  induction items generalizing q with
  | nil => rfl
  | cons item items ih =>
    cases item with
    | none => simp at h
    | some buf =>
      rw [List.count_cons_of_ne (by simp)] at h
      exact ih _ h

/-- The poison comes when the instance has closed, and takes all that is left with it. -/
theorem Sound.poisoned {w : World Client} (h : Sound w) {items : List (Option Slot)}
    (hq : w.app.txQueue.queue = none :: items) :
    w.inst.state = .closed ∧ items.count none = 0 ∧ w.app.Untimed := by
  have hs := h.steady
  have hpoisons : w.app.poisons = items.count none + 1 := by
    unfold Client.poisons
    rw [hq, List.count_cons_self]
  unfold Steady at hs
  cases hstate : w.inst.state <;> rw [hstate] at hs <;> dsimp only at hs
  · omega
  · omega
  · omega
  · refine ⟨rfl, ?_, hs.2⟩
    rcases hs.1 with ⟨-, hle⟩ | ⟨-, hzero⟩
    · omega
    · omega

/-- The connection is shut at the poison, with nothing left to send. -/
theorem System.take_sound {s : System} (h : Sound s.world) {items : List (Option Slot)}
    (htx : s.worker.tx = none) (hq : s.world.app.txQueue.queue = none :: items) :
    Sound s.take.world ∧ s.take.world.app.txQueue.queue = [] := by
  obtain ⟨hclosed, hcount, huntimed⟩ := h.poisoned hq
  have hempty := OutputQueue.drainItems_queue { s.world.app.txQueue with queue := items } hcount
  rw [System.take_poison htx hq]
  refine ⟨h.of_inst (by rfl) ?_, hempty⟩
  unfold Steady
  dsimp only [updateApp, Client.doCloseSocket]
  rw [hclosed]
  refine ⟨.inr ⟨rfl, ?_⟩, huntimed.timeout, huntimed.events⟩
  unfold Client.poisons OutputQueue.drain
  rw [hempty]
  rfl

/-! ## Sessions -/

namespace Session

theorem word_lt : ([1, 2, 3] : List UInt8).length < 65536 := by decide

/-- A build whose queue has one order for all items. -/
def build : Config where
  order := .fifo
  mss := 1000
  mss_lt := by decide

/-- A client with `txMax` for its `TX_MAX`; its random numbers give the key that `response` answers. -/
def client (txMax : Nat) : System := initial 300 txMax 100 (fun _ => 0xaaaaaaaa) fun _ _ _ => false

/-- A `connect` that is posted and dispatched. -/
def connecting : List Action :=
  [.call (.connect (ascii "ws://localhost/") 0), .caller, .caller, .dispatch {}]

/-- A `connect` that opens. -/
def upgraded : List Action :=
  connecting ++ [.poll, .read (.received Wic.Sample.response), .parse, .take, .write (.accepted 148),
    .caller, .caller]

/-- What can be seen of a run is seen of a system that is reached. -/
theorem reaches_of_run {α : Type*} {meets : System → Action → Prop}
    [∀ s action, Decidable (meets s action)] {actions : List Action} {txMax : Nat}
    {f : System → α} {a : α} (h : (runWhere build meets actions (client txMax)).map f = some a) :
    ∃ s, Reaches build meets s ∧ f s = a := by
  obtain ⟨s, hrun, hf⟩ := Option.map_eq_some_iff.mp h
  exact ⟨s, (Reaches.initial 300 txMax 100 _ _).runWhere hrun, hf⟩

end Session

end Wic.Mbed
