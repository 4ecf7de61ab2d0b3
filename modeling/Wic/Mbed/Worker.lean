import Wic.Mbed.Client

/-!
# The caller and the worker

The two threads of the wrapper: a caller inside `connect`, `close` or `send`, of which there is at
most one since it holds `writers_mutex`, and the worker with its loop. What a thread does between
two points where the other may look is one step, and the steps interleave in any order.

## Main definitions

* `Request`, `Phase`: a caller inside a function
* `Worker`: the worker inside its loop
* `Action`, `step`: the steps of the system
* `Reaches`: the systems that a run of steps reaches
-/

namespace Wic.Mbed

/-! ## The threads -/

/-- A function of the caller with its arguments; of `connect`, those of the attempt under way, with
the number `n` of redirects it may still follow. -/
inductive Request
  | connect (url : List UInt8) (n : Nat)
  | close
  | send (encoding : Encoding) (fin : Bool) (data : Payload)
  deriving DecidableEq

/-- How far the caller has come: it resets the job, posts the event, waits for `job.done` and reads
the job. -/
inductive Phase
  | reset | post | wait | read
  deriving DecidableEq, Repr

/-- The caller inside a function. -/
structure Caller where
  request : Request
  phase : Phase := .reset
  deriving DecidableEq

/-- Where the worker is in its loop. -/
inductive Stage
  | dispatch | poll | read | parse | take | write
  deriving DecidableEq, Repr

/-- The worker. `rx` holds the bytes of the RX buffer up to its `size`. -/
structure Worker where
  stage : Stage := .dispatch
  rx : Option (List UInt8) := none
  rxPos : Nat := 0
  tx : Option Slot := none
  txPos : Nat := 0
  deriving DecidableEq, Repr

/-- The whole system. -/
structure System where
  world : World Client
  worker : Worker := {}
  caller : Option Caller := none

/-- What `socket->recv` returns: a number of bytes, one of the two errors that mean nothing has come,
or anything else. -/
inductive RecvResult
  | received (bytes : List UInt8)
  | wouldBlock
  | noSocket
  | ended
  deriving DecidableEq, Repr

/-- What `socket->send` returns: a number of bytes, the error that means to try again, or any other
error. -/
inductive SendResult
  | accepted (count : Nat)
  | wouldBlock
  | failed
  deriving DecidableEq, Repr

/-- A step of the system, with what the environment contributes to it. -/
inductive Action
  | call (request : Request)
  | caller
  | recv
  | timeout
  | dispatch (env : Environment)
  | poll
  | read (result : RecvResult)
  | parse
  | take
  | write (result : SendResult)

/-- The build: the order of `rtos::Queue`, and `MBED_CONF_WIC_MSS`, a `size_t` of 32 bits. -/
structure Config where
  order : Order
  mss : Nat
  mss_lt : mss < 2 ^ 32

variable (cfg : Config)

/-! ## The caller -/

/-- `ClientBase::max_redirects` -/
def maxRedirects : Nat := 3

/-- The caller posts its event and wakes the worker; a URL that is too long ends `connect`. -/
def System.post (s : System) : Request → System
  | .connect url n =>
    if s.world.app.urlMax ≤ url.length then
      { s with
        world := updateApp
          (fun c => c.note (.connected c.record.calls c.record.attempts .parameter)) s.world
        caller := none }
    else
      let attempt := s.world.app.record.attempts + 1
      { s with
        world := updateApp (fun c => Client.note (.attempt c.record.calls attempt)
          { c with
            url
            events := c.events ++ [.doOpen attempt]
            record := { c.record with attempts := attempt } }) s.world
        caller := some { request := .connect url n, phase := .wait } }
  | .close =>
    { s with
      world := updateApp (fun c => { c with events := c.events ++ [.doClose] }) s.world
      caller := some { request := .close, phase := .wait } }
  | .send encoding fin data =>
    { s with
      world := updateApp (fun c =>
        { c with events := c.events ++ [.doSend c.record.calls encoding fin data] }) s.world
      caller := some { request := .send encoding fin data, phase := .wait } }

/-- The caller reads the job and returns, or goes round its loop. -/
def System.readJob (s : System) : Request → System
  | .connect _ n =>
    let job := s.world.app.job
    match job.handshakeFailureReason, s.world.inst.redirectUrl, n with
    | .upgrade, some location, n + 1 =>
      { s with caller := some { request := .connect (cString s.world.inst.rx.s.mem location) n } }
    | _, _, _ =>
      { s with
        world := updateApp
          (fun c => c.note (.connected c.record.calls c.record.attempts job.retval)) s.world
        caller := none }
  | .close => { s with caller := none }
  | .send encoding fin data =>
    match s.world.app.job.status with
    | .wouldBlock => { s with caller := some { request := .send encoding fin data } }
    | status =>
      let retval := if status = .success then some data.bytes.length else none
      { s with
        world := updateApp (fun c => c.note (.sent c.record.calls retval)) s.world
        caller := none }

/-- The next step of the caller. -/
def System.stepCaller (s : System) : Option System :=
  match s.caller with
  | none => none
  | some { request, phase } =>
    match phase with
    | .reset =>
      some { s with
        world := updateApp (fun c => { c with job := {} }) s.world
        caller := some { request, phase := .post } }
    | .post => some (s.post request)
    | .wait => if s.world.app.job.done then
        some { s with caller := some { request, phase := .read } } else none
    | .read => some (s.readJob request)

/-- A function is called; `connect` may follow `max_redirects` redirects. -/
def System.call (s : System) (request : Request) : Option System :=
  match s.caller with
  | some _ => none
  | none =>
    let request := match request with
      | .connect url _ => .connect url maxRedirects
      | request => request
    some { s with
      world := updateApp (fun c => { c with record := { c.record with calls := c.record.calls + 1 } })
        s.world
      caller := some { request } }

/-! ## The worker -/

/-- `events.dispatch(0)` -/
def System.dispatch (env : Environment) (s : System) : Option System :=
  (dispatchEvents cfg.order env s.world.app.events.length s.world).map fun world =>
    { s with world, worker := { s.worker with stage := .poll } }

/-- `if(state != CLOSED) wic_parse(&inst, NULL, 0U)` -/
def System.poll (s : System) : Option System :=
  let s := { s with worker := { s.worker with stage := .read } }
  if s.world.app.state ≠ .closed then
    (wicParse (callbacks cfg.order) [] s.world).map fun (_, world) => { s with world }
  else some s

/-- Get an RX buffer. -/
def Worker.allocRx (worker : Worker) : Worker :=
  match worker.rx with
  | none => { worker with rx := some [], rxPos := 0 }
  | some _ => worker

/-- Get an RX buffer, and read the socket when it is empty. -/
def System.read (result : RecvResult) (s : System) : Option System :=
  let worker := { s.worker.allocRx with stage := .parse }
  if worker.rx ≠ some [] then some { s with worker }
  else match result with
    | .received bytes =>
      if s.world.app.connected ∧ bytes ≠ [] ∧ bytes.length ≤ cfg.mss then
        some { s with
          world := updateApp (fun c =>
            { c with record := { c.record with blocks := c.record.blocks ++ [bytes] } }) s.world
          worker := { worker with rx := some bytes } }
      else none
    | .wouldBlock | .noSocket => some { s with worker }
    | .ended =>
      some { s with
        world := wicCloseWithReason (callbacks cfg.order) closeAbnormal2 .null s.world
        worker := { worker with rx := none } }

/-- Parse what has been read. -/
def System.parse (s : System) : Option System :=
  let s := { s with worker := { s.worker with stage := .take } }
  match s.worker.rx with
  | none | some [] => some s
  | some data =>
    (wicParse (callbacks cfg.order) (data.drop s.worker.rxPos) s.world).map fun (bytes, world) =>
      let rxPos := s.worker.rxPos + bytes
      { s with
        world
        worker := { s.worker with rxPos, rx := if rxPos = data.length then none else some data } }

/-- Get a TX buffer; at the poison, empty the queue and close the socket. -/
def System.take (s : System) : System :=
  let s := { s with worker := { s.worker with stage := .write } }
  match s.worker.tx with
  | some _ => s
  | none =>
    let ((tx, close), txQueue) := s.world.app.txQueue.get
    let data := (tx.map txQueue.data).toList
    let s := { s with
      world := updateApp (fun c =>
        { c with
          txQueue
          record := { c.record with dequeued := c.record.dequeued ++ data } }) s.world
      worker := { s.worker with tx, txPos := 0 } }
    if close then
      let (bufs, emptied) := txQueue.drain
      { s with
        world := updateApp (fun c => Client.doCloseSocket
          { c with
            txQueue := emptied
            record := { c.record with
              dequeued := c.record.dequeued ++ bufs.map txQueue.data } }) s.world
        worker := { s.worker with tx := none } }
    else s

section Take

variable {s : System}

theorem System.take_held {buf : Slot} (htx : s.worker.tx = some buf) :
    s.take = { s with worker := { s.worker with stage := .write } } := by
  simp [System.take, htx]

theorem System.take_empty (htx : s.worker.tx = none) (hq : s.world.app.txQueue.queue = []) :
    s.take = { s with worker := { s.worker with stage := .write, txPos := 0 } } := by
  simp [System.take, OutputQueue.get, htx, hq, updateApp]

/-- The next frame is taken. -/
theorem System.take_frame {buf : Slot} {items : List (Option Slot)} (htx : s.worker.tx = none)
    (hq : s.world.app.txQueue.queue = some buf :: items) :
    s.take =
      { s with
        world := updateApp (fun c =>
          { c with
            txQueue := { c.txQueue with queue := items }
            record := { c.record with
              dequeued := c.record.dequeued ++ [c.txQueue.data buf] } }) s.world
        worker := { s.worker with stage := .write, tx := some buf, txPos := 0 } } := by
  simp only [System.take, OutputQueue.get, htx, hq]
  cases buf <;> rfl

/-- The poison is taken. -/
theorem System.take_poison {items : List (Option Slot)} (htx : s.worker.tx = none)
    (hq : s.world.app.txQueue.queue = none :: items) :
    s.take =
      { s with
        world := updateApp (fun c => Client.doCloseSocket
          { c with
            txQueue := (OutputQueue.drain { c.txQueue with queue := items }).2
            record := { c.record with
              dequeued := c.record.dequeued ++
                (OutputQueue.drain { c.txQueue with queue := items }).1.map c.txQueue.data } })
          s.world
        worker := { s.worker with stage := .write, tx := none, txPos := 0 } } := by
  have hdata : OutputQueue.data { s.world.app.txQueue with queue := items } =
      s.world.app.txQueue.data := by
    funext buf
    cases buf <;> rfl
  simp [System.take, OutputQueue.get, htx, hq, updateApp, hdata]

end Take

/-- The worker is done with its TX buffer. -/
def System.freeTx (buf : Slot) (s : System) : System :=
  { s with
    world := updateApp (fun c => { c with txQueue := c.txQueue.free (some buf) }) s.world
    worker := { s.worker with tx := none } }

/-- Write the TX buffer to the socket. -/
def System.write (result : SendResult) (s : System) : Option System :=
  let s := { s with worker := { s.worker with stage := .dispatch } }
  match s.worker.tx with
  | none => some s
  | some buf =>
    let rest := (s.world.app.txQueue.data buf).drop s.worker.txPos
    match result with
    | .accepted count =>
      if s.world.app.connected ∧ count ≤ min rest.length cfg.mss then
        let s := { s with
          world := updateApp (fun c =>
            { c with record := { c.record with wire := c.record.wire ++ rest.take count } }) s.world
          worker := { s.worker with txPos := s.worker.txPos + count } }
        some (if count = rest.length then s.freeTx buf else s)
      else none
    | .wouldBlock => some s
    | .failed =>
      some (System.freeTx buf { s with
        world := updateApp (fun c => { c with record := { c.record with failed := true } }) s.world })

/-! ## The system -/

/-- The next system; `none` when the step cannot be taken, or does not end. -/
def step (action : Action) (s : System) : Option System :=
  match action, s.worker.stage with
  | .call request, _ => s.call request
  | .caller, _ => s.stepCaller
  | .recv, _ =>
    match s.world.app.inputQueue.take with
    | (none, _) => none
    | (some piece, inputQueue) =>
      some { s with world := updateApp (fun c =>
        { c with
          inputQueue
          record := { c.record with returned := c.record.returned ++ [piece] } }) s.world }
  | .timeout, _ =>
    if s.world.app.timeout then
      some { s with world := updateApp (fun c =>
        { c with timeout := false, events := c.events ++ [.doHandshakeTimeout] }) s.world }
    else none
  | .dispatch env, .dispatch => s.dispatch cfg env
  | .poll, .poll => s.poll cfg
  | .read result, .read => s.read cfg result
  | .parse, .parse => s.parse cfg
  | .take, .take => some s.take
  | .write result, .write => s.write cfg result
  | _, _ => none

/-- A client as it is constructed: `Client<RX_MAX, TX_MAX, URL_MAX>` has an output queue for
`TX_MAX + 14` bytes and an input queue of two blocks. -/
def initial (rxMax txMax urlMax : Nat) (rand : Nat → UInt32)
    (unset : Stream → Inst → Record → Bool) : System where
  world :=
    { inst := {}
      heap := fun _ => {}
      log := []
      app :=
        { inputQueue := { size := rxMax, depth := 2 }
          txQueue := { maxSize := txMax + 14 }
          urlMax
          rand
          unset } }

/-- The systems that a run reaches whose steps all meet `meets`. -/
inductive Reaches (meets : System → Action → Prop) : System → Prop
  | initial (rxMax txMax urlMax rand unset) :
    Reaches meets (initial rxMax txMax urlMax rand unset)
  | step {action s s'} : Reaches meets s → meets s action → step cfg action s = some s' →
      Reaches meets s'

/-- A run of steps that all meet `meets`. -/
def runWhere (meets : System → Action → Prop) [∀ s action, Decidable (meets s action)] :
    List Action → System → Option System
  | [], s => some s
  | action :: actions, s =>
    if meets s action then (step cfg action s).bind (runWhere meets actions) else none

variable {cfg}

/-- A run leads from a system that is reached to one that is. -/
theorem Reaches.runWhere {meets : System → Action → Prop} [∀ s action, Decidable (meets s action)]
    {actions : List Action} {s s' : System} (h : Reaches cfg meets s)
    (hrun : runWhere cfg meets actions s = some s') : Reaches cfg meets s' := by
  induction actions generalizing s with
  | nil =>
    cases hrun
    exact h
  | cons action actions ih =>
    unfold Mbed.runWhere at hrun
    split_ifs at hrun with hmeets
    obtain ⟨t, hstep, hrun⟩ := Option.bind_eq_some_iff.mp hrun
    exact ih (h.step hmeets hstep) hrun

end Wic.Mbed
