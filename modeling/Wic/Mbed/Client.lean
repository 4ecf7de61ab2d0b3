import Wic.Mbed.Queues
import Wic.Model.Api

/-!
# The mbed client

`ClientBase`: the callbacks it gives to the core, and what its worker does for a caller of `connect`,
`close` or `send`. Semaphores, condition variables and the choice between TCP and TLS decide only who
runs when and over what, and are left to the environment.

## Main definitions

* `Client`: the members of `ClientBase`, with a record of what has happened
* `callbacks`: the callbacks of the core
* `doOpen`, `doClose`, `doSend`, `doHandshakeTimeout`, `doCloseSocket`: what the worker does
-/

namespace Wic.Mbed

/-! ## The members -/

/-- `ClientBase::State` -/
inductive ClientState
  | closed | opening | «open» | closing
  deriving DecidableEq, Repr

/-- The `nsapi_error_t` values the wrapper names, and the other errors of the network. -/
inductive NsapiError
  | ok | unsupported | parameter | isConnected | connectionLost | connectionTimeout | busy
  | other (code : Nat)
  deriving DecidableEq, Repr

/-- `ClientBase::Job` -/
structure Job where
  done : Bool := false
  retval : NsapiError := .ok
  status : Status := .success
  handshakeFailureReason : HandshakeFailure := .abnormal1
  deriving DecidableEq, Repr

/-- An event posted to the worker. The number is that of the attempt to connect, or of the call of
`send`. -/
inductive Posted
  | doOpen (attempt : Nat)
  | doClose
  | doSend (call : Nat) (encoding : Encoding) (fin : Bool) (data : Payload)
  | doHandshakeTimeout
  deriving DecidableEq

/-- Something that has happened. -/
inductive Note
  | attempt (call attempt : Nat)
  | opened (attempt : Nat)
  | connected (call attempt : Nat) (retval : NsapiError)
  | ran (call : Nat) (status : Status)
  | sent (call : Nat) (retval : Option Nat)
  deriving DecidableEq, Repr

/-- What has happened; the wrapper reads none of it. `attempt` is the attempt to connect that set up
the instance, and what follows it belongs to the connection: the blocks read from the socket, the
pieces of messages a `recv` has returned, the frames taken from the output queue, the bytes the socket
has accepted, and whether `send` has returned an error other than that it would block. -/
structure Record where
  calls : Nat := 0
  attempts : Nat := 0
  notes : List Note := []
  attempt : Nat := 0
  blocks : List (List UInt8) := []
  returned : List Piece := []
  dequeued : List (List UInt8) := []
  wire : List UInt8 := []
  failed : Bool := false
  deriving DecidableEq, Repr

/-- `ClientBase`. `rx` says whether the instance has been given a block of the input queue,
`connected` whether the socket is, `timeout` whether the event `timeout_id` is pending. `unset` is
what the compiler leaves in the variable that `parse_mask` does not set. -/
structure Client where
  state : ClientState := .closed
  inputQueue : InputQueue
  txQueue : OutputQueue
  url : List UInt8 := []
  urlMax : Nat
  rx : Bool := false
  tx : Option Slot := none
  connected : Bool := false
  events : List Posted := []
  timeout : Bool := false
  job : Job := {}
  rand : Nat → UInt32
  drawn : Nat := 0
  unset : Stream → Inst → Record → Bool
  record : Record := {}

/-- A change of the client. -/
def updateApp (f : Client → Client) (w : World Client) : World Client := { w with app := f w.app }

/-- An entry in the record. -/
def Client.note (n : Note) (c : Client) : Client :=
  { c with record := { c.record with notes := c.record.notes ++ [n] } }

/-- A change of the job. -/
def Client.updateJob (f : Job → Job) (c : Client) : Client := { c with job := f c.job }

/-! ## The callbacks -/

variable (order : Order)

/-- `handle_send` -/
def Client.handleSend (data : List UInt8) (c : Client) : Client :=
  match c.tx with
  | none => c
  | some buf =>
    let txQueue := c.txQueue.fill buf data
    { c with
      txQueue := if data.length = 0 then txQueue.free (some buf) else txQueue.put order (some buf)
      tx := none }

/-- `handle_buffer` -/
def Client.handleBuffer (minSize : Nat) (type : BufferType) (c : Client) :
    (Option Nat × Nat) × Client :=
  let ((tx, max), txQueue) := c.txQueue.alloc type minSize
  ((tx.map Slot.address, max), { c with tx, txQueue })

/-- The error `handle_handshake_failure` makes of a reason. -/
def failureError : HandshakeFailure → NsapiError
  | .abnormal2 => .connectionLost
  | .protocol => .unsupported
  | .upgrade => .unsupported
  | _ => .connectionTimeout

/-- `handle_handshake_failure` -/
def Client.handleHandshakeFailure (reason : HandshakeFailure) (c : Client) : Client :=
  { c with
    timeout := false
    events := c.events.filter (· ≠ .doHandshakeTimeout)
    job := { c.job with
      handshakeFailureReason := reason, retval := failureError reason, done := true }
    state := .closing }

/-- `handle_open` -/
def Client.handleOpen (c : Client) : Client :=
  Client.note (.opened c.record.attempt)
    { c with
      timeout := false
      events := c.events.filter (· ≠ .doHandshakeTimeout)
      state := .open
      job := { c.job with retval := .ok, done := true } }

/-- `handle_message` -/
def Client.handleMessage (encoding : Encoding) (fin : Bool) (data : List UInt8) (c : Client) :
    Bool × Client :=
  match c.inputQueue.alloc with
  | (true, q) => (true, { c with inputQueue := q.put (q.init encoding fin data) })
  | (false, _) => (false, c)

/-- `handle_close_transport` -/
def Client.handleCloseTransport (c : Client) : Client :=
  { c with txQueue := c.txQueue.put order none }

/-- The callbacks `do_open` gives to the core. -/
def callbacks : Callbacks Client where
  onMessage encoding fin data w :=
    let (accepted, app) := w.app.handleMessage encoding fin data
    (accepted, { w with app })
  onOpen := updateApp Client.handleOpen
  onClose _ _ := updateApp fun c => { c with state := .closing }
  onCloseTransport := updateApp (Client.handleCloseTransport order)
  onHandshakeFailure reason := updateApp (Client.handleHandshakeFailure reason)
  onPing := id
  onPong := id
  rand w := (w.app.rand w.app.drawn, updateApp (fun c => { c with drawn := c.drawn + 1 }) w)
  onSend _ data _ := updateApp (Client.handleSend order data)
  onBuffer minSize type w :=
    let (retval, app) := w.app.handleBuffer minSize type
    (retval, { w with app })
  unset s w := w.app.unset s w.inst w.app.record

/-! ## What the worker does -/

/-- What the environment of `do_open` decides: what the `struct http_parser_url` on the stack and
the block for the rx buffer hold, and what `gethostbyname` and the socket's `connect` return. -/
structure Environment where
  u : Http.HttpParserUrl := {}
  memory : Nat → UInt8 := fun _ => 0
  hostname : NsapiError := .ok
  connect : NsapiError := .ok

/-- `do_close_socket` -/
def Client.doCloseSocket (c : Client) : Client :=
  { c with connected := false, state := .closed, job := { c.job with done := true } }

/-- The `struct wic_init_arg` that `do_open` fills in. -/
def initArg (env : Environment) (c : Client) : InitArg where
  rx := (List.range c.inputQueue.size).map env.memory
  rxMax := c.inputQueue.size
  rxMax_le := by simp
  onMessage := true
  onOpen := true
  onClose := true
  onCloseTransport := true
  onHandshakeFailure := true
  rand := true
  url := some c.url

/-- `do_open` with an error in `job.retval` and the socket closed. -/
def giveUp (retval : NsapiError) : World Client → World Client :=
  updateApp fun c => (c.updateJob fun job => { job with retval }).doCloseSocket

/-- The part of `do_open` behind `wic_init`. -/
def openSocket (env : Environment) (w : World Client) : Option (World Client) :=
  if env.hostname ≠ .ok then some (giveUp env.hostname w)
  else if env.connect ≠ .ok then some (giveUp env.connect w)
  else
    let w := updateApp (fun c => { c with connected := true }) w
    (wicStart (callbacks order) 0 w).map fun (status, w) =>
      let w := updateApp (Client.updateJob fun job => { job with status }) w
      if status ≠ .success then giveUp .ok w
      else updateApp (fun c => { c with state := .opening, timeout := true }) w

/-- `if(!rx) rx = input_queue.alloc()` -/
def Client.allocRx (c : Client) : Client :=
  if c.rx then c
  else
    let (rx, inputQueue) := c.inputQueue.alloc
    { c with rx, inputQueue }

/-- `flush_input_queue`; the record of a new connection begins. -/
def Client.flushInputQueue (attempt : Nat) (c : Client) : Client :=
  { c with
    inputQueue := { c.inputQueue with queue := [] }
    record := { c.record with
      attempt, blocks := [], returned := [], dequeued := [], wire := [], failed := false } }

/-- `do_open`; `none` when it follows a null pointer. -/
def doOpen (env : Environment) (attempt : Nat) (w : World Client) : Option (World Client) :=
  let w := updateApp Client.allocRx w
  if w.app.state ≠ .closed then
    let retval := if w.app.state = .open then .isConnected else .busy
    some (updateApp (Client.updateJob fun job => { job with retval, done := true }) w)
  else if !w.app.rx then none
  else
    let w := updateApp (Client.flushInputQueue attempt) w
    match wicInit (initArg env w.app) env.u with
    | none => some (giveUp .parameter { w with inst := {}, log := [] })
    | some inst => openSocket order env { w with inst, log := [] }

/-- `do_close` -/
def doClose (w : World Client) : World Client :=
  match w.inst.state with
  | .ready | .open => wicClose (callbacks order) w
  | _ => updateApp (Client.updateJob fun job => { job with retval := .ok, done := true }) w

/-- `do_send` -/
def doSend (call : Nat) (encoding : Encoding) (fin : Bool) (data : Payload) (w : World Client) :
    World Client :=
  let (status, w) := wicSend (callbacks order) encoding fin data w
  updateApp (fun c =>
    (c.updateJob fun job => { job with status, done := true }).note (.ran call status)) w

/-- `do_handshake_timeout` -/
def doHandshakeTimeout (w : World Client) : World Client :=
  wicCloseWithReason (callbacks order) closeAbnormal1 .null w

/-- An event that is dispatched. -/
def runPosted (env : Environment) : Posted → World Client → Option (World Client)
  | .doOpen attempt, w => doOpen order env attempt w
  | .doClose, w => some (doClose order w)
  | .doSend call encoding fin data, w => some (doSend order call encoding fin data w)
  | .doHandshakeTimeout, w => some (doHandshakeTimeout order w)

/-- The next `n` events, as far as there are so many. -/
def dispatchEvents (env : Environment) : Nat → World Client → Option (World Client)
  | 0, w => some w
  | n + 1, w =>
    match w.app.events with
    | [] => some w
    | event :: events =>
      (runPosted order env event (updateApp (fun c => { c with events }) w)).bind fun w =>
        dispatchEvents env n w

end Wic.Mbed
