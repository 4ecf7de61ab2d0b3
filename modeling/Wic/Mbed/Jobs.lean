import Mathlib.Order.Basic
import Wic.Commons.Monitor
import Wic.Mbed.Opening

/-!
# The job

Caller and worker share one job: the caller resets it, posts an event, waits until the job is done and
reads it. The worker completes it in the function the event asked for, and where the handshake of a
connection ends; but also at the poison, whoever waits then. When it takes no poison between the reset
of a job and the dispatch of the event behind it, what a caller reads belongs to its own call.

## Main definitions

* `Truthful`: what the notes of `connect` rest on
* `Matched`: what the notes of `send` rest on
* `Undisturbed`, `Fitting`: the conditions
* `Orderly`: where the caller, its event and the job are

## Main results

* `Reaches.connect_truthful`, `Reaches.send_matched`
-/

namespace Wic.Mbed

/-! ## The notes -/

/-- The number of attempts a call of `connect` has made. -/
def attemptsOf (call : Nat) (notes : List Note) : Nat :=
  notes.countP fun
    | .attempt call' _ => call' == call
    | _ => false

/-- **`connect` tells the truth**: when it returns `NSAPI_ERROR_OK`, the last attempt was its own and
has been opened, and it follows at most `max_redirects` redirects. -/
def Truthful (notes : List Note) : Note → Prop
  | .connected call attempt .ok =>
    [.attempt call attempt, .opened attempt].Sublist notes ∧
      ∀ call' attempt', .attempt call' attempt' ∈ notes → attempt' ≤ attempt
  | .attempt call _ => attemptsOf call notes ≤ maxRedirects
  | _ => True

/-- **The job of a `send` is its own**: when it returns a size, `do_send` has run for this call with
success, and no `do_send` runs for a call that has returned. -/
def Matched (notes : List Note) : Note → Prop
  | .sent call (some _) => .ran call .success ∈ notes
  | .ran call _ => ∀ retval, .sent call retval ∉ notes
  | _ => True

/-! ## The conditions -/

/-- A caller has reset the job, and the event behind it has not been dispatched. -/
def System.Unanswered (s : System) : Prop :=
  match s.caller with
  | some { phase := .post, .. } => True
  | some { phase := .wait, .. } => s.world.app.posted ≠ []
  | _ => False

/-- The worker takes no poison while a caller is unanswered. -/
def Undisturbed (s : System) : Action → Prop
  | .take => s.worker.tx = none → s.world.app.txQueue.queue.head? = some none → ¬ s.Unanswered
  | _ => True

/-- A `do_open` that gets as far as `wic_start` finds the URL, the buffer and its size in order. -/
def Fitting (s : System) : Action → Prop
  | .dispatch env =>
    match s.world.app.events with
    | .doOpen _ :: _ => s.world.app.state = .closed → Startable env s.world.app
    | _ => True
  | _ => True

instance (s : System) : Decidable s.Unanswered :=
  match h : s.caller with
  | some ⟨_, .post⟩ => .isTrue (by unfold System.Unanswered; rw [h]; trivial)
  | some ⟨_, .wait⟩ =>
    decidable_of_iff (s.world.app.posted ≠ []) (by unfold System.Unanswered; rw [h])
  | none | some ⟨_, .reset⟩ | some ⟨_, .read⟩ =>
    .isFalse (by unfold System.Unanswered; rw [h]; exact id)

instance (s : System) : ∀ action, Decidable (Undisturbed s action)
  | .take => inferInstanceAs (Decidable (_ → _ → ¬ s.Unanswered))
  | .call _ | .caller | .recv | .timeout | .dispatch _ | .poll | .read _ | .parse | .write _ =>
    .isTrue trivial

instance (s : System) : ∀ action, Decidable (Fitting s action)
  | .dispatch env =>
    match h : s.world.app.events with
    | .doOpen _ :: _ => decidable_of_iff (s.world.app.state = .closed → Startable env s.world.app)
        (by unfold Fitting; rw [h])
    | [] | .doClose :: _ | .doSend .. :: _ | .doHandshakeTimeout :: _ =>
      .isTrue (by unfold Fitting; rw [h]; trivial)
  | .call _ | .caller | .recv | .timeout | .poll | .read _ | .parse | .take | .write _ =>
    .isTrue trivial

/-! ## The invariant -/

/-- The event of a request. -/
def Request.event (r : Record) : Request → Posted
  | .connect _ _ => .doOpen r.attempts
  | .close => .doClose
  | .send encoding fin data => .doSend r.calls encoding fin data

/-- The attempts a caller may still make. -/
def Caller.budget : Caller → Nat
  | ⟨.connect _ n, .reset⟩ | ⟨.connect _ n, .post⟩ => n + 1
  | ⟨.connect _ n, _⟩ => n
  | _ => 0

/-- The attempt under way is on record. -/
def Announced (r : Record) : Request → Prop
  | .connect _ _ => .attempt r.calls r.attempts ∈ r.notes
  | _ => True

/-- The event of a request has been dispatched. -/
def Answered (strict : Prop) (w : World Client) : Request → Prop
  | .connect _ _ =>
    Handshaking w ∧ w.app.job.done = false ∧ w.app.record.attempt = w.app.record.attempts ∨
      ¬ Handshaking w ∧ w.app.job.done = true ∧ (strict → w.app.job.retval = .ok →
        [.attempt w.app.record.calls w.app.record.attempts, .opened w.app.record.attempts].Sublist
          w.app.record.notes)
  | .close => ¬ Handshaking w
  | .send _ _ _ => ¬ Handshaking w ∧ w.app.job.done = true ∧
    .ran w.app.record.calls w.app.job.status ∈ w.app.record.notes

/-- No event of a caller waits, and no caller is waited for. -/
structure Idle (w : World Client) : Prop where
  posted : w.app.posted = []
  done : ¬ Handshaking w

/-- The event of the caller waits. -/
structure Waiting (w : World Client) (request : Request) : Prop where
  posted : w.app.posted = [request.event w.app.record]
  done : ¬ Handshaking w
  job : w.app.job = {}

/-- Where the event and the job of a caller are. -/
def Stands (strict : Prop) (w : World Client) : Caller → Prop
  | ⟨_, .reset⟩ => Idle w
  | ⟨_, .post⟩ => Idle w ∧ w.app.job = {}
  | ⟨request, .wait⟩ => Announced w.app.record request ∧
    (Waiting w request ∨ w.app.posted = [] ∧ Answered strict w request)
  | ⟨request, .read⟩ => Announced w.app.record request ∧
    w.app.posted = [] ∧ Answered strict w request ∧ w.app.job.done = true

/-- A caller inside a function. -/
structure Engaged (strict : Prop) (w : World Client) (caller : Caller) : Prop where
  fresh : ∀ retval, .sent w.app.record.calls retval ∉ w.app.record.notes
  budget : attemptsOf w.app.record.calls w.app.record.notes + caller.budget ≤ maxRedirects + 1
  stands : Stands strict w caller

/-- The notes so far; `strict` when those of `connect` are to be trusted. -/
structure Recorded (strict : Prop) (r : Record) : Prop where
  truthful : strict → Justified Truthful r.notes
  matched : Justified Matched r.notes
  sent : ∀ call retval, .sent call retval ∈ r.notes → call ≤ r.calls
  attempted : ∀ call attempt, .attempt call attempt ∈ r.notes → call ≤ r.calls ∧ attempt ≤ r.attempts

/-- Where the caller, its event and the job are. -/
structure Orderly (strict : Prop) (s : System) : Prop where
  sound : Sound s.world
  recorded : Recorded strict s.world.app.record
  caller : match s.caller with
    | none => Idle s.world
    | some caller => Engaged strict s.world caller

/-! ## The record -/

section Recorded

variable {strict : Prop} {r r' : Record}

theorem Recorded.same (h : Recorded strict r) (hn : r'.notes = r.notes) (hc : r.calls ≤ r'.calls)
    (ha : r.attempts ≤ r'.attempts) : Recorded strict r' where
  truthful := by
    rw [hn]
    exact h.truthful
  matched := by
    rw [hn]
    exact h.matched
  sent call retval hmem := by
    rw [hn] at hmem
    exact (h.sent call retval hmem).trans hc
  attempted call attempt hmem := by
    rw [hn] at hmem
    have hle := h.attempted call attempt hmem
    exact ⟨hle.1.trans hc, hle.2.trans ha⟩

/-- The record grows by notes that rest on it. -/
theorem Recorded.note (h : Recorded strict r) {n : Note} (hn : r'.notes = r.notes ++ [n])
    (hc : r'.calls = r.calls) (ha : r.attempts ≤ r'.attempts) (ht : strict → Truthful r.notes n)
    (hm : Matched r.notes n) (hs : ∀ call retval, n = .sent call retval → call ≤ r.calls)
    (hat : ∀ call attempt, n = .attempt call attempt → call ≤ r.calls ∧ attempt ≤ r'.attempts) :
    Recorded strict r' where
  truthful hstrict := by
    rw [hn]
    exact (h.truthful hstrict).concat (ht hstrict)
  matched := by
    rw [hn]
    exact h.matched.concat hm
  sent call retval hmem := by
    rw [hn] at hmem
    rw [hc]
    rcases List.mem_append.mp hmem with hmem | hmem
    · exact h.sent call retval hmem
    · exact hs call retval (List.mem_singleton.mp hmem).symm
  attempted call attempt hmem := by
    rw [hn] at hmem
    rw [hc]
    rcases List.mem_append.mp hmem with hmem | hmem
    · have hle := h.attempted call attempt hmem
      exact ⟨hle.1, hle.2.trans ha⟩
    · exact hat call attempt (List.mem_singleton.mp hmem).symm

theorem attemptsOf_concat {call : Nat} {notes : List Note} {n : Note}
    (hn : ∀ attempt, n ≠ .attempt call attempt) :
    attemptsOf call (notes ++ [n]) = attemptsOf call notes := by
  unfold attemptsOf
  rw [List.countP_append, List.countP_singleton]
  cases n with
  | attempt call' attempt =>
    have hne : call' ≠ call := fun heq => hn attempt (by rw [heq])
    simp [hne]
  | _ => rfl

/-- A call that has just begun has made no attempt. -/
theorem Recorded.attemptsOf_new (h : Recorded strict r) : attemptsOf (r.calls + 1) r.notes = 0 := by
  apply List.countP_eq_zero.mpr
  intro n hmem
  cases n with
  | attempt call attempt =>
    have hle := (h.attempted call attempt hmem).1
    simp
    omega
  | _ => simp

end Recorded

/-! ## What the caller does not see -/

/-- What a step of the worker without a posted event does. -/
structure Passes (w w' : World Client) : Prop where
  sound : Sound w'
  posted : w'.app.posted = w.app.posted
  calls : w'.app.record.calls = w.app.record.calls
  attempts : w'.app.record.attempts = w.app.record.attempts
  attempt : w'.app.record.attempt = w.app.record.attempt
  job : (w'.app.job = w.app.job ∧ w'.app.record.notes = w.app.record.notes) ∧
      (Handshaking w' ↔ Handshaking w) ∨
    Handshaking w ∧ ¬ Handshaking w' ∧ Completed w.app w'.app

theorem Served.passes {w w' : World Client} (h : Sound w' ∧ Served w w') : Passes w w' where
  sound := h.1
  posted := h.2.posted
  calls := by rw [h.2.record]
  attempts := by rw [h.2.record]
  attempt := by rw [h.2.record]
  job := h.2.job

section Passes

variable {strict : Prop} {w w' : World Client}

theorem Passes.trans {w'' : World Client} (h : Passes w w') (h' : Passes w' w'') : Passes w w'' where
  sound := h'.sound
  posted := h'.posted.trans h.posted
  calls := h'.calls.trans h.calls
  attempts := h'.attempts.trans h.attempts
  attempt := h'.attempt.trans h.attempt
  job := by
    rcases h.job with ⟨⟨hjob, hnotes⟩, hwaits⟩ | ⟨hw, hleft, hdone⟩
    · rcases h'.job with ⟨⟨hjob', hnotes'⟩, hwaits'⟩ | ⟨hw', hleft', hdone'⟩
      · exact .inl ⟨⟨hjob'.trans hjob, hnotes'.trans hnotes⟩, hwaits'.trans hwaits⟩
      · refine .inr ⟨hwaits.mp hw', hleft', hdone'.done, ?_⟩
        rw [← hnotes, ← h.attempt]
        exact hdone'.outcome
    · rcases h'.job with ⟨⟨hjob', hnotes'⟩, hwaits'⟩ | ⟨hw', -, -⟩
      · refine .inr ⟨hw, fun hw' => hleft (hwaits'.mp hw'), ?_, ?_⟩
        · rw [hjob']
          exact hdone.done
        · rw [hjob', hnotes']
          exact hdone.outcome
      · exact absurd hw' hleft

theorem Passes.recorded (h : Passes w w') (hr : Recorded strict w.app.record) :
    Recorded strict w'.app.record := by
  have hsame (hn : w'.app.record.notes = w.app.record.notes) : Recorded strict w'.app.record :=
    hr.same hn h.calls.ge h.attempts.ge
  rcases h.job with ⟨⟨-, hnotes⟩, -⟩ | ⟨-, -, -, ⟨-, hnotes⟩ | ⟨-, hnotes⟩⟩
  · exact hsame hnotes
  · apply hr.note hnotes h.calls h.attempts.ge
    · exact fun _ => trivial
    · exact trivial
    · exact fun _ _ => nofun
    · exact fun _ _ => nofun
  · exact hsame hnotes

theorem Idle.passes (hi : Idle w) (h : Passes w w') : Idle w' where
  posted := h.posted.trans hi.posted
  done := by
    rcases h.job with ⟨-, hwaits⟩ | ⟨hw, -, -⟩
    · rw [hwaits]
      exact hi.done
    · exact absurd hw hi.done

/-- While the instance does not wait for the response, the job stays as it is. -/
theorem Passes.job_eq (h : Passes w w') (hw : ¬ Handshaking w) :
    w'.app.job = w.app.job ∧ w'.app.record.notes = w.app.record.notes := by
  rcases h.job with ⟨hsame, -⟩ | ⟨hw', -, -⟩
  · exact hsame
  · exact absurd hw' hw

theorem Waiting.passes {request : Request} (hi : Waiting w request) (h : Passes w w') :
    Waiting w' request where
  posted := by
    rw [h.posted, hi.posted]
    cases request <;> simp [Request.event, h.calls, h.attempts]
  done := by
    rcases h.job with ⟨-, hwaits⟩ | ⟨hw, -, -⟩
    · rw [hwaits]
      exact hi.done
    · exact absurd hw hi.done
  job := (h.job_eq hi.done).1.trans hi.job

/-- The notes only grow. -/
theorem Passes.notes (h : Passes w w') :
    ∃ notes, w'.app.record.notes = w.app.record.notes ++ notes := by
  rcases h.job with ⟨⟨-, hnotes⟩, -⟩ | ⟨-, -, -, ⟨-, hnotes⟩ | ⟨-, hnotes⟩⟩
  · exact ⟨[], by simp [hnotes]⟩
  · exact ⟨_, hnotes⟩
  · exact ⟨[], by simp [hnotes]⟩

theorem Announced.passes {request : Request} (ha : Announced w.app.record request)
    (h : Passes w w') : Announced w'.app.record request := by
  obtain ⟨notes, hnotes⟩ := h.notes
  cases request with
  | connect url n =>
    unfold Announced at ha ⊢
    rw [hnotes, h.calls, h.attempts]
    exact List.mem_append_left _ ha
  | _ => trivial

theorem Answered.passes {request : Request} (ha : Answered strict w request)
    (hn : Announced w.app.record request) (h : Passes w w') : Answered strict w' request := by
  rcases h.job with ⟨⟨hjob, hnotes⟩, hwaits⟩ | ⟨hw, hleft, hdone⟩
  · cases request <;> unfold Answered at ha ⊢
    · rw [hjob, hnotes, hwaits, h.calls, h.attempts, h.attempt]
      exact ha
    · rwa [hwaits]
    · rwa [hjob, hnotes, hwaits, h.calls]
  · cases request with
    | connect url n =>
      -- the handshake ends here, and the job with it
      rcases ha with ⟨-, -, hattempt⟩ | ⟨hw', -⟩
      · refine .inr ⟨hleft, hdone.done, fun _ hok => ?_⟩
        rcases hdone.outcome with ⟨-, hnotes⟩ | ⟨hne, -⟩
        · rw [hnotes, h.calls, h.attempts, hattempt]
          exact (List.singleton_sublist.mpr hn).append (List.Sublist.refl [_])
        · exact absurd hok hne
      · exact absurd hw hw'
    | close => exact absurd hw ha
    | send => exact absurd hw ha.1

theorem Stands.passes {caller : Caller} (hs : Stands strict w caller) (h : Passes w w') :
    Stands strict w' caller := by
  obtain ⟨request, phase⟩ := caller
  cases phase with
  | reset => exact Idle.passes hs h
  | post => exact ⟨hs.1.passes h, (h.job_eq hs.1.done).1.trans hs.2⟩
  | wait =>
    obtain ⟨hn, hwait | ⟨hposted, ha⟩⟩ := hs
    · exact ⟨hn.passes h, .inl (hwait.passes h)⟩
    · exact ⟨hn.passes h, .inr ⟨h.posted.trans hposted, ha.passes hn h⟩⟩
  | read =>
    obtain ⟨hn, hposted, ha, hdone⟩ := hs
    refine ⟨hn.passes h, h.posted.trans hposted, ha.passes hn h, ?_⟩
    rcases h.job with ⟨⟨hjob, -⟩, -⟩ | ⟨-, -, hdone'⟩
    · rw [hjob]
      exact hdone
    · exact hdone'.done

theorem Engaged.passes {caller : Caller} (he : Engaged strict w caller) (h : Passes w w') :
    Engaged strict w' caller where
  fresh retval hmem := by
    rw [h.calls] at hmem
    apply he.fresh retval
    rcases h.job with ⟨⟨-, hnotes⟩, -⟩ | ⟨-, -, -, ⟨-, hnotes⟩ | ⟨-, hnotes⟩⟩
    · rwa [hnotes] at hmem
    · rw [hnotes] at hmem
      simpa using hmem
    · rwa [hnotes] at hmem
  budget := by
    have hbudget := he.budget
    rw [h.calls]
    rcases h.job with ⟨⟨-, hnotes⟩, -⟩ | ⟨-, -, -, ⟨-, hnotes⟩ | ⟨-, hnotes⟩⟩
    · rwa [hnotes]
    · rwa [hnotes, attemptsOf_concat (fun _ => by simp)]
    · rwa [hnotes]
  stands := he.stands.passes h

/-- A step that the caller does not see. -/
theorem Orderly.passes {s s' : System} (ho : Orderly strict s) (h : Passes s.world s'.world)
    (hc : s'.caller = s.caller) : Orderly strict s' where
  sound := h.sound
  recorded := h.recorded ho.recorded
  caller := by
    have hcaller := ho.caller
    rw [hc]
    split
    · next heq =>
      rw [heq] at hcaller
      exact Idle.passes hcaller h
    · next heq =>
      rw [heq] at hcaller
      exact Engaged.passes hcaller h

end Passes

/-! ## Steps aside -/

/-- Nothing has changed that a caller or the instance depends on. -/
structure Aside (c c' : Client) : Prop extends Still c c' where
  job : c'.job = c.job
  calls : c'.record.calls = c.record.calls
  attempts : c'.record.attempts = c.record.attempts
  notes : c'.record.notes = c.record.notes
  attempt : c'.record.attempt = c.record.attempt

section Aside

variable {w w' : World Client}

theorem Aside.passes (h : Aside w.app w'.app) (hw : Sound w) (hi : w'.inst = w.inst) :
    Passes w w' where
  sound := hw.still hi h.toStill
  posted := h.posted
  calls := h.calls
  attempts := h.attempts
  attempt := h.attempt
  job := .inl ⟨⟨h.job, h.notes⟩, by unfold Handshaking; rw [hi]⟩

theorem Orderly.aside {strict : Prop} {s s' : System} (ho : Orderly strict s)
    (h : Aside s.world.app s'.world.app) (hi : s'.world.inst = s.world.inst)
    (hc : s'.caller = s.caller) : Orderly strict s' := ho.passes (h.passes ho.sound hi) hc

end Aside

/-! ## The worker -/

section Worker

variable {strict : Prop} {cfg : Config} {s s' : System}

theorem Orderly.poll (ho : Orderly strict s) (h : s.poll cfg = some s') : Orderly strict s' := by
  unfold System.poll at h
  dsimp only at h
  split_ifs at h with hstate
  · obtain ⟨⟨n, w'⟩, hrun, rfl⟩ := Option.map_eq_some_iff.mp h
    exact ho.passes (Served.passes (wicParse_served cfg.order ho.sound hrun)) rfl
  · cases h
    exact ho.passes (Served.passes ⟨ho.sound, .refl ho.sound.steady⟩) rfl

theorem Orderly.parse (ho : Orderly strict s) (h : s.parse cfg = some s') : Orderly strict s' := by
  have hrefl : Passes s.world s.world := Served.passes ⟨ho.sound, .refl ho.sound.steady⟩
  unfold System.parse at h
  dsimp only at h
  split at h
  · cases h
    exact ho.passes hrefl rfl
  · cases h
    exact ho.passes hrefl rfl
  · obtain ⟨⟨n, w'⟩, hrun, rfl⟩ := Option.map_eq_some_iff.mp h
    exact ho.passes (Served.passes (wicParse_served cfg.order ho.sound hrun)) rfl

theorem Orderly.read {result : RecvResult} (ho : Orderly strict s)
    (h : s.read cfg result = some s') : Orderly strict s' := by
  have hrefl : Passes s.world s.world := Served.passes ⟨ho.sound, .refl ho.sound.steady⟩
  unfold System.read at h
  dsimp only at h
  by_cases hrx : s.worker.allocRx.rx ≠ some []
  · rw [if_pos hrx] at h
    cases h
    exact ho.passes hrefl rfl
  · rw [if_neg hrx] at h
    cases result with
    | received bytes =>
      dsimp only at h
      split_ifs at h
      cases h
      exact ho.aside ⟨⟨rfl, rfl, rfl, rfl⟩, rfl, rfl, rfl, rfl, rfl⟩ rfl rfl
    | wouldBlock =>
      cases h
      exact ho.passes hrefl rfl
    | noSocket =>
      cases h
      exact ho.passes hrefl rfl
    | ended =>
      cases h
      have hserved := wicCloseWithReason_served cfg.order ho.sound closeAbnormal2 .null
      exact ho.passes (Served.passes hserved) rfl

theorem Orderly.write {result : SendResult} (ho : Orderly strict s)
    (h : s.write cfg result = some s') : Orderly strict s' := by
  have hrefl : Passes s.world s.world := Served.passes ⟨ho.sound, .refl ho.sound.steady⟩
  unfold System.write at h
  dsimp only at h
  cases htx : s.worker.tx with
  | none =>
    rw [htx] at h
    cases h
    exact ho.passes hrefl rfl
  | some buf =>
    rw [htx] at h
    cases result with
    | accepted count =>
      dsimp only at h
      split_ifs at h
      · cases h
        refine ho.aside ⟨⟨rfl, rfl, rfl, ?_⟩, rfl, rfl, rfl, rfl, rfl⟩ rfl rfl
        exact congrArg (List.count none) (OutputQueue.free_queue _ _)
      · cases h
        exact ho.aside ⟨⟨rfl, rfl, rfl, rfl⟩, rfl, rfl, rfl, rfl, rfl⟩ rfl rfl
    | wouldBlock =>
      cases h
      exact ho.passes hrefl rfl
    | failed =>
      cases h
      refine ho.aside ⟨⟨rfl, rfl, rfl, ?_⟩, rfl, rfl, rfl, rfl, rfl⟩ rfl rfl
      exact congrArg (List.count none) (OutputQueue.free_queue _ _)

/-! ### The poison -/

/-- `do_close_socket` does not disturb a caller that has been answered. -/
theorem Answered.closeSocket {w w' : World Client} {request : Request}
    (ha : Answered strict w request) (hw : ¬ Handshaking w) (hw' : ¬ Handshaking w')
    (hj : w'.app.job = { w.app.job with done := true }) (hc : w'.app.record.calls = w.app.record.calls)
    (hat : w'.app.record.attempts = w.app.record.attempts)
    (hn : w'.app.record.notes = w.app.record.notes) : Answered strict w' request := by
  cases request with
  | connect url n =>
    rcases ha with ⟨hwaits, -⟩ | ⟨-, -, hopened⟩
    · exact absurd hwaits hw
    · refine .inr ⟨hw', by rw [hj], ?_⟩
      rw [hj, hn, hc, hat]
      exact hopened
  | close => exact hw'
  | send encoding fin data =>
    refine ⟨hw', by rw [hj], ?_⟩
    rw [hj, hn, hc]
    exact ha.2.2

/-- The world behind a poison. -/
structure Shut (w w' : World Client) : Prop where
  sound : Sound w'
  idle : ¬ Handshaking w
  done : ¬ Handshaking w'
  posted : w'.app.posted = w.app.posted
  job : w'.app.job = { w.app.job with done := true }
  calls : w'.app.record.calls = w.app.record.calls
  attempts : w'.app.record.attempts = w.app.record.attempts
  notes : w'.app.record.notes = w.app.record.notes

theorem System.take_shut (ho : Orderly strict s) {items : List (Option Slot)}
    (htx : s.worker.tx = none) (hq : s.world.app.txQueue.queue = none :: items) :
    Shut s.world s.take.world ∧ s.take.caller = s.caller := by
  obtain ⟨hclosed, -, -⟩ := ho.sound.poisoned hq
  obtain ⟨hsound, -⟩ := System.take_sound ho.sound htx hq
  have hnot : ¬ Handshaking s.world := by
    unfold Handshaking
    rw [hclosed]
    exact nofun
  rw [System.take_poison htx hq] at hsound ⊢
  exact ⟨⟨hsound, hnot, hnot, rfl, rfl, rfl, rfl, rfl⟩, rfl⟩

theorem Orderly.shut (ho : Orderly strict s) (h : Shut s.world s'.world)
    (hc : s'.caller = s.caller) (hu : ¬ s.Unanswered) : Orderly strict s' where
  sound := h.sound
  recorded := ho.recorded.same h.notes h.calls.ge h.attempts.ge
  caller := by
    have hcaller := ho.caller
    unfold System.Unanswered at hu
    rw [hc]
    rcases heq : s.caller with - | ⟨request, phase⟩
    · rw [heq] at hcaller
      exact ⟨h.posted.trans hcaller.posted, h.done⟩
    · rw [heq] at hcaller hu
      obtain ⟨hfresh, hbudget, hstands⟩ := hcaller
      -- what the caller has announced stays in the record
      have hannounced (ha : Announced s.world.app.record request) :
          Announced s'.world.app.record request := by
        cases request with
        | connect url n =>
          unfold Announced at ha ⊢
          rwa [h.notes, h.calls, h.attempts]
        | _ => trivial
      refine ⟨by rw [h.calls, h.notes]; exact hfresh, by rw [h.calls, h.notes]; exact hbudget, ?_⟩
      -- a caller that waits is answered by the end of the connection
      cases phase with
      | reset => exact ⟨h.posted.trans hstands.posted, h.done⟩
      | post => exact absurd trivial hu
      | wait =>
        obtain ⟨ha, hwait | ⟨hposted, hanswered⟩⟩ := hstands
        · exact absurd (by rw [hwait.posted]; exact nofun) hu
        · refine ⟨hannounced ha, .inr ⟨h.posted.trans hposted, ?_⟩⟩
          exact hanswered.closeSocket h.idle h.done h.job h.calls h.attempts h.notes
      | read =>
        obtain ⟨ha, hposted, hanswered, -⟩ := hstands
        refine ⟨hannounced ha, h.posted.trans hposted, ?_, by rw [h.job]⟩
        exact hanswered.closeSocket h.idle h.done h.job h.calls h.attempts h.notes

theorem Orderly.take (ho : Orderly strict s) (hu : Undisturbed s .take) :
    Orderly strict s.take := by
  cases htx : s.worker.tx with
  | some buf =>
    rw [System.take_held htx]
    exact ho.aside ⟨⟨rfl, rfl, rfl, rfl⟩, rfl, rfl, rfl, rfl, rfl⟩ rfl rfl
  | none =>
    rcases hq : s.world.app.txQueue.queue with - | ⟨- | buf, items⟩
    · rw [System.take_empty htx hq]
      exact ho.aside ⟨⟨rfl, rfl, rfl, rfl⟩, rfl, rfl, rfl, rfl, rfl⟩ rfl rfl
    · obtain ⟨hshut, hcaller⟩ := System.take_shut ho htx hq
      exact ho.shut hshut hcaller (hu htx (by rw [hq]; rfl))
    · rw [System.take_frame htx hq]
      refine ho.aside ⟨⟨rfl, rfl, rfl, ?_⟩, rfl, rfl, rfl, rfl, rfl⟩ rfl rfl
      unfold Client.poisons
      rw [hq, List.count_cons_of_ne (by simp)]
      rfl

/-! ### The events -/

section Dispatch

variable {env : Environment} {w w' : World Client}

/-- Without a posted event only the timeout of a handshake is there to dispatch. -/
theorem dispatch_timeouts {n : Nat} (h : Sound w) (hp : w.app.posted = [])
    (hrun : dispatchEvents cfg.order env n w = some w') : Passes w w' := by
  induction n generalizing w with
  | zero =>
    cases hrun
    exact Served.passes ⟨h, .refl h.steady⟩
  | succ n ih =>
    unfold dispatchEvents at hrun
    cases hevents : w.app.events with
    | nil =>
      rw [hevents] at hrun
      cases hrun
      exact Served.passes ⟨h, .refl h.steady⟩
    | cons event events =>
      rw [hevents] at hrun
      unfold Client.posted at hp
      rw [hevents] at hp
      -- an event that is not posted by a caller is the timeout
      obtain rfl : event = .doHandshakeTimeout := by
        have hnone := List.filter_eq_nil_iff.mp hp event List.mem_cons_self
        simpa using hnone
      have hs := h.steady
      have hwaits : Handshaking w := by
        by_contra hnot
        have hempty := (h.untimed hnot).events
        unfold Client.posted at hempty
        rw [hevents, hp] at hempty
        cases hempty
      -- behind it there is no event of a caller either
      have hnone : events.filter (· ≠ .doHandshakeTimeout) = [] := by simpa using hp
      have hw : Passes w (updateApp (fun c => { c with events }) w) := by
        refine ⟨h.pop hevents, ?_, rfl, rfl, rfl, .inl ⟨⟨rfl, rfl⟩, .rfl⟩⟩
        unfold Client.posted
        rw [hevents, hp]
        exact hnone
      have hclosed := Served.passes
        (wicCloseWithReason_served cfg.order hw.sound closeAbnormal1 .null)
      exact (hw.trans hclosed).trans (ih hclosed.sound (hclosed.posted.trans hnone) hrun)

theorem dispatchEvents_singleton {event : Posted} (h : w.app.events = [event]) :
    dispatchEvents cfg.order env 1 w =
      runPosted cfg.order env event (updateApp (fun c => { c with events := [] }) w) := by
  simp only [dispatchEvents, h]
  exact Option.bind_fun_some _

/-- The one event that waits is taken. -/
theorem Waiting.events {request : Request} (h : Sound w) (hw : Waiting w request) :
    w.app.events = [request.event w.app.record] ∧
      Sound (updateApp (fun c => { c with events := [] }) w) := by
  have hevents : w.app.events = [request.event w.app.record] := by
    rw [(h.untimed hw.done).events, hw.posted]
  exact ⟨hevents, h.pop hevents⟩

/-- The event of a caller has been dispatched. -/
structure Answers (strict : Prop) (request : Request) (w w' : World Client) : Prop where
  sound : Sound w'
  posted : w'.app.posted = []
  calls : w'.app.record.calls = w.app.record.calls
  attempts : w'.app.record.attempts = w.app.record.attempts
  notes : w'.app.record.notes = w.app.record.notes ∨
    ∃ status, w'.app.record.notes = w.app.record.notes ++ [.ran w.app.record.calls status]
  answered : Answered strict w' request

/-- A function of the core that a caller asked for. -/
theorem Served.idle (h : Served w w') (hidle : ¬ Handshaking w) :
    ¬ Handshaking w' ∧ w'.app.job = w.app.job ∧ w'.app.record.notes = w.app.record.notes := by
  rcases h.job with ⟨⟨hjob, hnotes⟩, hwaits⟩ | ⟨hwaits, -, -⟩
  · exact ⟨fun hw' => hidle (hwaits.mp hw'), hjob, hnotes⟩
  · exact absurd hwaits hidle

/-- **The event of a caller answers it.** -/
theorem runPosted_answers {request : Request} (h : Sound w) (hidle : ¬ Handshaking w)
    (hp : w.app.posted = []) (hj : w.app.job.done = false)
    (hstart : strict → ∀ url n, request = .connect url n → w.app.state = .closed →
      Startable env w.app)
    (hrun : runPosted cfg.order env (request.event w.app.record) w = some w') :
    Answers strict request w w' := by
  cases request with
  | connect url n =>
    have hopens := doOpen_opens cfg.order h hidle (fun hstrict => hstart hstrict url n rfl) hrun
    refine ⟨hopens.sound, hopens.posted.trans hp, hopens.calls, hopens.attempts, .inl hopens.notes, ?_⟩
    -- the handshake is on its way, or the attempt is over with an error
    rcases hopens.outcome with ⟨hwaits, hdone, hattempt⟩ | ⟨hwaits, hdone, hfailed⟩
    · exact .inl ⟨hwaits, hdone.trans hj, hattempt.trans hopens.attempts.symm⟩
    · exact .inr ⟨hwaits, hdone, fun hstrict hok => absurd hok (hfailed hstrict)⟩
  | close =>
    have hw' : doClose cfg.order w = w' := Option.some.inj hrun
    obtain ⟨hsound, hserved⟩ := wicCloseWithReason_served cfg.order h closeNormal .null
    obtain ⟨hleft, -, hnotes⟩ := hserved.idle hidle
    have hpasses := Served.passes ⟨hsound, hserved⟩
    have hclosed : Answers strict .close w (wicClose (callbacks cfg.order) w) :=
      ⟨hsound, hserved.posted.trans hp, hpasses.calls, hpasses.attempts, .inl hnotes, hleft⟩
    -- whatever the state of the client, the instance has been closed in the same way
    unfold doClose at hw'
    split at hw'
    · rw [← hw']
      exact hclosed
    · rw [← hw']
      exact hclosed
    · rw [← hw']
      exact ⟨h.still rfl ⟨rfl, rfl, rfl, rfl⟩, hp, rfl, rfl, .inl rfl, hidle⟩
  | send encoding fin data =>
    have hw' : doSend cfg.order w.app.record.calls encoding fin data w = w' := Option.some.inj hrun
    unfold doSend at hw'
    obtain ⟨hsound, hserved⟩ := wicSend_sound cfg.order h encoding fin data
    generalize hsend : wicSend (callbacks cfg.order) encoding fin data w = r at hw' hsound hserved
    obtain ⟨status, w₁⟩ := r
    -- sending starts no handshake, so that the client idles as before
    obtain ⟨hleft, -, hnotes⟩ := hserved.idle hidle
    have hpasses := Served.passes ⟨hsound, hserved⟩
    have hcalls : w₁.app.record.calls = w.app.record.calls := hpasses.calls
    rw [← hw']
    refine ⟨hsound.still rfl ⟨rfl, rfl, rfl, rfl⟩, hserved.posted.trans hp, hcalls,
      hpasses.attempts, .inr ⟨status, ?_⟩, hleft, rfl, ?_⟩
    · show w₁.app.record.notes ++ [_] = _
      rw [hnotes]
    · show Note.ran w₁.app.record.calls status ∈ w₁.app.record.notes ++ [.ran _ status]
      rw [hcalls]
      exact List.mem_append_right _ List.mem_cons_self

theorem Orderly.answers {request : Request} {w₁ : World Client} (ho : Orderly strict s)
    (hc : s.caller = some ⟨request, .wait⟩) (hc' : s'.caller = s.caller)
    (hr : w₁.app.record = s.world.app.record) (ha : Answers strict request w₁ s'.world) :
    Orderly strict s' := by
  have hcaller := ho.caller
  rw [hc] at hcaller
  obtain ⟨hfresh, hbudget, hannounced, -⟩ := hcaller
  have hcalls := ha.calls
  have hattempts := ha.attempts
  have hnotes := ha.notes
  rw [hr] at hcalls hattempts hnotes
  refine ⟨ha.sound, ?_, ?_⟩
  -- the record has at most one more note, that of a send
  · rcases hnotes with hnotes | ⟨status, hnotes⟩
    · exact ho.recorded.same hnotes hcalls.ge hattempts.ge
    · exact ho.recorded.note hnotes hcalls hattempts.ge (fun _ => trivial) hfresh (fun _ _ => nofun)
        (fun _ _ => nofun)
  · rw [hc', hc]
    -- the note of a send is none of those the caller will add
    constructor
    · intro retval hmem
      rw [hcalls] at hmem
      apply hfresh retval
      rcases hnotes with hnotes | ⟨status, hnotes⟩
      · rwa [hnotes] at hmem
      · rw [hnotes] at hmem
        simpa using hmem
    · rw [hcalls]
      rcases hnotes with hnotes | ⟨status, hnotes⟩
      · rwa [hnotes]
      · rwa [hnotes, attemptsOf_concat (fun _ => by simp)]
    · refine ⟨?_, .inr ⟨ha.posted, ha.answered⟩⟩
      cases request with
      | connect url n =>
        unfold Announced at hannounced ⊢
        rw [hcalls, hattempts]
        rcases hnotes with hnotes | ⟨status, hnotes⟩
        · rwa [hnotes]
        · rw [hnotes]
          exact List.mem_append_left _ hannounced
      | _ => trivial

theorem Orderly.dispatch (ho : Orderly strict s) (hf : strict → Fitting s (.dispatch env))
    (h : s.dispatch cfg env = some s') : Orderly strict s' := by
  obtain ⟨w', hrun, rfl⟩ := Option.map_eq_some_iff.mp h
  -- an event that nobody waits for is the timeout of the handshake
  have hquiet (hp : s.world.app.posted = []) : Orderly strict
      { s with world := w', worker := { s.worker with stage := .poll } } :=
    ho.passes (dispatch_timeouts ho.sound hp hrun) rfl
  have hcaller := ho.caller
  rcases hc : s.caller with - | ⟨request, phase⟩
  · rw [hc] at hcaller
    rw [← hc]
    exact hquiet hcaller.posted
  · rw [hc] at hcaller
    rw [← hc]
    cases phase with
    | reset => exact hquiet hcaller.stands.posted
    | post => exact hquiet hcaller.stands.1.posted
    | read => exact hquiet hcaller.stands.2.1
    | wait =>
      -- while the caller waits, the one event is that of its request, or it is answered already
      rcases hcaller.stands.2 with hwait | ⟨hp, -⟩
      swap
      · exact hquiet hp
      obtain ⟨hevents, hsound⟩ := hwait.events ho.sound
      rw [hevents, List.length_singleton, dispatchEvents_singleton hevents] at hrun
      refine ho.answers hc rfl (by rfl) (runPosted_answers hsound hwait.done rfl
        (congrArg Job.done hwait.job) ?_ hrun)
      rintro hstrict url n rfl hclosed
      have hfits := hf hstrict
      unfold Fitting at hfits
      rw [hevents] at hfits
      exact hfits hclosed

end Dispatch

end Worker

/-! ## The caller -/

section Call

variable {strict : Prop} {s s' : System}

theorem Orderly.call {request : Request} (ho : Orderly strict s) (h : s.call request = some s') :
    Orderly strict s' := by
  have hcaller := ho.caller
  unfold System.call at h
  rcases hc : s.caller with - | caller
  swap
  · rw [hc] at h
    cases h
  rw [hc] at h hcaller
  cases h
  refine ⟨ho.sound.still rfl ⟨rfl, rfl, rfl, rfl⟩,
    ho.recorded.same rfl (Nat.le_succ _) (Nat.le_refl _), ?_, ?_, ?_⟩
  · intro retval hmem
    have hle := ho.recorded.sent _ retval hmem
    exact Nat.not_succ_le_self _ hle
  · show attemptsOf (s.world.app.record.calls + 1) s.world.app.record.notes + _ ≤ _
    rw [ho.recorded.attemptsOf_new, Nat.zero_add]
    cases request <;> simp [Caller.budget]
  · exact ⟨hcaller.posted, hcaller.done⟩

/-- The caller puts its event behind those that wait: there are none. -/
theorem Idle.post {w : World Client} (h : Sound w) (hidle : Idle w) (event : Posted)
    (hne : event ≠ .doHandshakeTimeout) (url : List UInt8) (record : Record) :
    Sound { w with app := { w.app with url, events := w.app.events ++ [event], record } } ∧
      Client.posted { w.app with url, events := w.app.events ++ [event], record } = [event] := by
  have huntimed := h.untimed hidle.done
  have hevents : w.app.events = [] := huntimed.events.trans hidle.posted
  rw [hevents, List.nil_append]
  have hposted : Client.posted { w.app with url, events := [event], record } = [event] := by
    simp [Client.posted, hne]
  refine ⟨h.push rfl rfl rfl ?_ (fun _ => ⟨hne, rfl⟩), hposted⟩
  rw [hevents]
  rfl

theorem Orderly.post {request : Request} (ho : Orderly strict s)
    (hc : s.caller = some ⟨request, .post⟩) : Orderly strict (s.post request) := by
  have hcaller := ho.caller
  rw [hc] at hcaller
  obtain ⟨hfresh, hbudget, hidle, hjob⟩ := hcaller
  cases request with
  | connect url n =>
    unfold System.post
    dsimp only
    -- a URL that is too long is refused before anything is posted
    split_ifs with hlong
    · refine ⟨ho.sound.still rfl ⟨rfl, rfl, rfl, rfl⟩, ?_, ⟨hidle.posted, hidle.done⟩⟩
      refine ho.recorded.note rfl rfl (Nat.le_refl _) (fun _ => trivial) trivial ?_ ?_
      · intro call retval h
        cases h
      · intro call attempt h
        cases h
    -- another attempt is noted, and the number of redirects that are left goes down by one
    · have hattempts : attemptsOf s.world.app.record.calls s.world.app.record.notes ≤
          maxRedirects := by
        have hle : _ + (n + 1) ≤ _ := hbudget
        omega
      obtain ⟨hsound, hposted⟩ := hidle.post ho.sound (.doOpen (s.world.app.record.attempts + 1))
        (fun h => by cases h) url { s.world.app.record with
          attempts := s.world.app.record.attempts + 1
          notes := s.world.app.record.notes ++
            [.attempt s.world.app.record.calls (s.world.app.record.attempts + 1)] }
      refine ⟨hsound, ?_, ?_, ?_, ?_, .inl ⟨hposted, hidle.done, hjob⟩⟩
      · have ht : strict → Truthful s.world.app.record.notes
            (.attempt s.world.app.record.calls (s.world.app.record.attempts + 1)) := fun _ => hattempts
        refine ho.recorded.note (by rfl) (by rfl) (Nat.le_succ _) ht trivial ?_ ?_
        · intro call retval h
          cases h
        intro call attempt heq
        obtain ⟨rfl, rfl⟩ := Note.attempt.inj heq
        exact ⟨Nat.le_refl _, Nat.le_refl _⟩
      · intro retval hmem
        exact hfresh retval (by simpa [updateApp, Client.note] using hmem)
      · have hcount : attemptsOf s.world.app.record.calls (s.world.app.record.notes ++
            [.attempt s.world.app.record.calls (s.world.app.record.attempts + 1)]) =
              attemptsOf s.world.app.record.calls s.world.app.record.notes + 1 := by
          simp [attemptsOf]
        show attemptsOf s.world.app.record.calls (s.world.app.record.notes ++ [_]) + n ≤ _
        rw [hcount]
        have hle : _ + (n + 1) ≤ _ := hbudget
        omega
      · exact List.mem_append_right _ List.mem_cons_self
  | close =>
    obtain ⟨hsound, hposted⟩ := hidle.post ho.sound .doClose (fun h => by cases h)
      s.world.app.url s.world.app.record
    exact ⟨hsound, ho.recorded.same rfl (Nat.le_refl _) (Nat.le_refl _), hfresh, hbudget, trivial,
      .inl ⟨hposted, hidle.done, hjob⟩⟩
  | send encoding fin data =>
    obtain ⟨hsound, hposted⟩ := hidle.post ho.sound
      (.doSend s.world.app.record.calls encoding fin data) (fun h => by cases h) s.world.app.url
      s.world.app.record
    exact ⟨hsound, ho.recorded.same rfl (Nat.le_refl _) (Nat.le_refl _), hfresh, hbudget, trivial,
      .inl ⟨hposted, hidle.done, hjob⟩⟩

/-- Nobody is waited for where a job that is done has been answered. -/
theorem Answered.idle {w : World Client} {request : Request} (ha : Answered strict w request)
    (hdone : w.app.job.done = true) : ¬ Handshaking w := by
  cases request with
  | connect url n =>
    rcases ha with ⟨-, hnot, -⟩ | ⟨hw, -⟩
    · rw [hdone] at hnot
      cases hnot
    · exact hw
  | close => exact ha
  | send => exact ha.1

theorem Orderly.readJob {request : Request} (ho : Orderly strict s)
    (hc : s.caller = some ⟨request, .read⟩) : Orderly strict (s.readJob request) := by
  have hcaller := ho.caller
  rw [hc] at hcaller
  obtain ⟨hfresh, hbudget, hannounced, hposted, hanswered, hdone⟩ := hcaller
  have hidle : Idle s.world := ⟨hposted, hanswered.idle hdone⟩
  -- a request that returns leaves one note and no caller
  have hnote {n : Note} (ht : strict → Truthful s.world.app.record.notes n)
      (hm : Matched s.world.app.record.notes n)
      (hs : ∀ call retval, n = .sent call retval → call ≤ s.world.app.record.calls)
      (ha : ∀ call attempt, n ≠ .attempt call attempt) : Orderly strict
        { s with world := updateApp (fun c => c.note n) s.world, caller := none } := by
    refine ⟨ho.sound.still rfl ⟨rfl, rfl, rfl, rfl⟩, ?_, ⟨hidle.posted, hidle.done⟩⟩
    exact ho.recorded.note (by rfl) (by rfl) (Nat.le_refl _) ht hm hs
      fun call attempt heq => absurd heq (ha call attempt)
  cases request with
  | connect url n =>
    have hreturn : Orderly strict
        { s with
          world := updateApp (fun c => c.note (.connected s.world.app.record.calls
            s.world.app.record.attempts s.world.app.job.retval)) s.world
          caller := none } := by
      apply hnote
      · intro hstrict
        cases hretval : s.world.app.job.retval
        -- it returned `NSAPI_ERROR_OK`: the connection of this attempt had opened
        · rcases hanswered with ⟨hwaits, -⟩ | ⟨-, -, hopened⟩
          · exact absurd hwaits hidle.done
          · exact ⟨hopened hstrict hretval, fun call attempt hmem =>
              (ho.recorded.attempted call attempt hmem).2⟩
        all_goals trivial
      · trivial
      · exact fun _ _ => nofun
      · exact fun _ _ => nofun
    unfold System.readJob
    dsimp only
    -- a redirection starts over with the next URL
    split
    · refine ⟨ho.sound, ho.recorded, hfresh, ?_, hidle⟩
      exact hbudget
    · exact hreturn
  | close => exact ⟨ho.sound, ho.recorded, hidle⟩
  | send encoding fin data =>
    unfold System.readJob
    dsimp only
    split
    · exact ⟨ho.sound, ho.recorded, hfresh, hbudget, hidle⟩
    · apply hnote
      -- the status that is returned is the one the worker has noted
      · exact fun _ => trivial
      · split_ifs with hok
        · have hran := hanswered.2.2
          rw [hok] at hran
          exact hran
        · trivial
      · intro call retval heq
        obtain ⟨rfl, -⟩ := Note.sent.inj heq
        exact Nat.le_refl _
      · exact fun _ _ => nofun

theorem Orderly.stepCaller (ho : Orderly strict s) (h : s.stepCaller = some s') :
    Orderly strict s' := by
  have hcaller := ho.caller
  unfold System.stepCaller at h
  rcases hc : s.caller with - | ⟨request, phase⟩
  · rw [hc] at h
    cases h
  rw [hc] at h hcaller
  cases phase with
  | reset =>
    cases h
    -- the job that was done before is over, and nothing is posted yet
    obtain ⟨hfresh, hbudget, hidle⟩ := hcaller
    refine ⟨ho.sound.still rfl ⟨rfl, rfl, rfl, rfl⟩, ho.recorded, hfresh, ?_,
      ⟨hidle.posted, hidle.done⟩, rfl⟩
    cases request <;> exact hbudget
  | post =>
    cases h
    exact ho.post hc
  | wait =>
    dsimp only at h
    split_ifs at h with hdone
    cases h
    -- the caller goes on only once the worker has answered it
    obtain ⟨hfresh, hbudget, hannounced, hwait | ⟨hposted, hanswered⟩⟩ := hcaller
    · rw [hwait.job] at hdone
      cases hdone
    · refine ⟨ho.sound, ho.recorded, hfresh, ?_, hannounced, hposted, hanswered, hdone⟩
      cases request <;> exact hbudget
  | read =>
    cases h
    exact ho.readJob hc

end Call

/-! ## Runs -/

section Run

variable {strict : Prop} {cfg : Config} {s s' : System} {action : Action}

/-- The time for the handshake is up. -/
theorem timeout_passes {w : World Client} (h : Sound w) (ht : w.app.timeout = true) :
    Passes w (updateApp (fun c =>
      { c with timeout := false, events := c.events ++ [.doHandshakeTimeout] }) w) := by
  have hwaits : Handshaking w := by
    by_contra hnot
    have huntimed := (h.untimed hnot).timeout
    rw [ht] at huntimed
    cases huntimed
  refine ⟨h.push rfl rfl rfl rfl fun hnot => absurd hwaits hnot, ?_, rfl, rfl, rfl,
    .inl ⟨⟨rfl, rfl⟩, .rfl⟩⟩
  unfold Client.posted
  dsimp only [updateApp]
  rw [List.filter_append]
  simp

/-- **One step.** -/
theorem Orderly.step (ho : Orderly strict s) (hu : Undisturbed s action)
    (hf : strict → Fitting s action) (h : step cfg action s = some s') : Orderly strict s' := by
  unfold Mbed.step at h
  split at h
  · exact ho.call h
  · exact ho.stepCaller h
  · split at h
    · cases h
    · cases h
      exact ho.aside ⟨⟨rfl, rfl, rfl, rfl⟩, rfl, rfl, rfl, rfl, rfl⟩ rfl rfl
  · split_ifs at h with htimeout
    cases h
    exact ho.passes (timeout_passes ho.sound htimeout) rfl
  · exact ho.dispatch hf h
  · exact ho.poll h
  · exact ho.read h
  · exact ho.parse h
  · cases h
    exact ho.take hu
  · exact ho.write h
  · cases h

theorem Orderly.initial (rxMax txMax urlMax : Nat) (rand : Nat → UInt32)
    (unset : Stream → Inst → Record → Bool) :
    Orderly strict (initial rxMax txMax urlMax rand unset) where
  sound := ⟨rfl, ⟨none, [], rfl, rfl⟩, fun hne => absurd rfl hne, rfl, rfl, rfl, rfl⟩
  recorded := ⟨fun _ => .nil, .nil, fun _ _ => nofun, fun _ _ => nofun⟩
  caller := ⟨rfl, nofun⟩

/-- Where the worker takes no poison at the wrong moment, caller and job stay in order. -/
theorem Reaches.orderly {meets : System → Action → Prop} (h : Reaches cfg meets s)
    (hu : ∀ s action, meets s action → Undisturbed s action)
    (hf : strict → ∀ s action, meets s action → Fitting s action) : Orderly strict s := by
  induction h with
  | initial rxMax txMax urlMax rand unset => exact .initial rxMax txMax urlMax rand unset
  | step _ hmeets hstep ih =>
    exact ih.step (hu _ _ hmeets) (fun hstrict => hf hstrict _ _ hmeets) hstep

end Run

/-! ## Samples -/

namespace Session

/-- A `connect` that fails, and a `send` that has reset the job when the worker takes the poison. -/
def disturbed : List Action :=
  connecting ++ [.poll, .read .ended, .parse, .take, .write (.accepted 148), .caller, .caller,
    .call (.send .binary true ⟨[1, 2, 3], word_lt⟩), .caller, .dispatch {}, .poll, .read .wouldBlock,
    .parse, .take, .caller, .caller, .caller, .write .wouldBlock, .dispatch {}]

/-- A `send` on an open connection. -/
def sending : List Action :=
  upgraded ++ [.call (.send .binary true ⟨[1, 2, 3], word_lt⟩), .caller, .caller, .dispatch {},
    .caller, .caller]

end Session

open Session

/-! ## `connect` and `send` -/

variable {cfg : Config} {s : System}

/-- **`connect` tells the truth**, where the worker takes no poison at the wrong moment and `wic_start`
does not fail. -/
theorem Reaches.connect_truthful
    (h : Reaches cfg (fun s action => Undisturbed s action ∧ Fitting s action) s) :
    Justified Truthful s.world.app.record.notes :=
  (h.orderly (fun _ _ => And.left) (fun _ _ _ => And.right)).recorded.truthful trivial

/-- A `connect` that opens. -/
theorem connect_truthful_opening : ∃ s,
    Reaches build (fun s action => Undisturbed s action ∧ Fitting s action) s ∧
      s.world.app.record.notes = [.attempt 1 1, .opened 1, .connected 1 1 .ok] ∧
        Justified Truthful s.world.app.record.notes := by
  have hn : (runWhere build (fun s action => Undisturbed s action ∧ Fitting s action) upgraded
      (client 1000)).map (·.world.app.record.notes) =
      some [.attempt 1 1, .opened 1, .connected 1 1 .ok] := by decide +kernel
  obtain ⟨s, hs, hnotes⟩ := reaches_of_run hn
  exact ⟨s, hs, hnotes, hs.connect_truthful⟩

/-- When the request does not fit the queue, `connect` returns `NSAPI_ERROR_OK` without opening. -/
theorem connect_not_truthful : ∃ s, Reaches build (fun _ _ => True) s ∧
    s.world.app.record.notes = [.attempt 1 1, .connected 1 1 .ok] ∧
      ¬ Justified Truthful s.world.app.record.notes := by
  have hn : (runWhere build (fun _ _ => True) (connecting ++ [.caller, .caller])
      (client 0)).map (·.world.app.record.notes) =
      some [.attempt 1 1, .connected 1 1 .ok] := by decide +kernel
  obtain ⟨s, hs, hnotes⟩ := reaches_of_run hn
  refine ⟨s, hs, hnotes, fun hall => ?_⟩
  rw [hnotes] at hall
  have hconnected := hall [.attempt 1 1] (.connected 1 1 .ok) (List.prefix_refl _)
  exact absurd hconnected.1 (by decide)

/-- **The job of a `send` is its own**, where the worker takes no poison at the wrong moment. -/
theorem Reaches.send_matched (h : Reaches cfg Undisturbed s) :
    Justified Matched s.world.app.record.notes :=
  have ho : Orderly False s := h.orderly (fun _ _ => id) False.elim
  ho.recorded.matched

/-- A `send` that succeeds. -/
theorem send_matched_sending : ∃ s, Reaches build Undisturbed s ∧
    s.world.app.record.notes =
      [.attempt 1 1, .opened 1, .connected 1 1 .ok, .ran 2 .success, .sent 2 (some 3)] ∧
      Justified Matched s.world.app.record.notes := by
  have hn : (runWhere build Undisturbed sending (client 1000)).map (·.world.app.record.notes) =
      some [.attempt 1 1, .opened 1, .connected 1 1 .ok, .ran 2 .success, .sent 2 (some 3)] := by
    decide +kernel
  obtain ⟨s, hs, hnotes⟩ := reaches_of_run hn
  exact ⟨s, hs, hnotes, hs.send_matched⟩

/-- A `send` that the poison answers: it returns the size of its data, and `do_send` runs later. -/
theorem send_not_matched : ∃ s, Reaches build (fun _ _ => True) s ∧
    s.world.app.record.notes =
      [.attempt 1 1, .connected 1 1 .connectionLost, .sent 2 (some 3), .ran 2 .notOpen] ∧
      ¬ Justified Matched s.world.app.record.notes := by
  have hn : (runWhere build (fun _ _ => True) disturbed (client 1000)).map (·.world.app.record.notes) =
      some [.attempt 1 1, .connected 1 1 .connectionLost, .sent 2 (some 3), .ran 2 .notOpen] := by
    decide +kernel
  obtain ⟨s, hs, hnotes⟩ := reaches_of_run hn
  refine ⟨s, hs, hnotes, fun hall => ?_⟩
  rw [hnotes] at hall
  exact hall [.attempt 1 1, .connected 1 1 .connectionLost, .sent 2 (some 3)] (.ran 2 .notOpen)
    (List.prefix_refl _) (some 3) (by decide)

end Wic.Mbed
