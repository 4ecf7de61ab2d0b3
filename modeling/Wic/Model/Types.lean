import Wic.Http.Parser

/-!
# The data of an instance

The enumerations of `wic.h`, `struct wic_inst` with what it points at, and the world an API call
acts on: the instance, the header objects of the application, the trace of what the instance did
and the application's own state.

Callbacks are function pointers of the instance. Here a pointer field says whether the pointer is
set, and `Callbacks` gives the functions, and with them the one value the code leaves to the compiler.
The trace has an entry for each callback made, for each write of `wic_inst.state`, for each entry into
the closing code and for each status a `wic_send_*` function returns.

## Main definitions

* `Stream`, `RxFrame`, `Inst`: `struct wic_stream`, `struct wic_rx_frame`, `struct wic_inst`
* `Payload`: a `const void *data, uint16_t size` pair of arguments
* `Event`, `World`, `Callbacks`: the trace, the world and the application
-/

namespace Wic

/-- `enum wic_opcode` -/
inductive Opcode
  | «continue» | text | binary | reserve3 | reserve4 | reserve5 | reserve6 | reserve7
  | close | ping | pong | reserve11 | reserve12 | reserve13 | reserve14 | reserve15
  deriving DecidableEq, Repr

/-- `enum wic_encoding` -/
inductive Encoding
  | utf8 | binary
  deriving DecidableEq, Repr

/-- `enum wic_buffer` -/
inductive BufferType
  | http | user | ping | pong | close | closeResponse
  deriving DecidableEq, Repr

/-- `enum wic_handshake_failure` -/
inductive HandshakeFailure
  | abnormal1 | abnormal2 | tls | irrelevant | protocol | upgrade
  deriving DecidableEq, Repr

/-- `enum wic_role` -/
inductive Role
  | client | server
  deriving DecidableEq, Repr

/-- `enum wic_schema` -/
inductive Schema
  | http | https | ws | wss
  deriving DecidableEq, Repr

/-- `enum wic_state` -/
inductive State
  | init | parseHandshake | ready | «open» | closed
  deriving DecidableEq, Repr

/-- `enum wic_rx_state` -/
inductive RxState
  | opcode | size
  | size0 | size1
  | size2 | size3 | size4 | size5 | size6 | size7 | size8 | size9
  | mask0 | mask1 | mask2 | mask3
  | data
  deriving DecidableEq, Repr

/-- `enum wic_header_state` -/
inductive HeaderState
  | idle | field | value
  deriving DecidableEq, Repr

/-- `enum wic_status` -/
inductive Status
  | success | notOpen | tooLarge | wouldBlock | badState | badInput | timeout
  deriving DecidableEq, Repr

/-- `struct wic_stream`: `mem` is the memory behind `read`, at address `base`, and `writable` says
whether `write` points there too. -/
structure Stream where
  base : Nat := 0
  mem : List UInt8 := []
  writable : Bool := false
  size : Nat := 0
  pos : Nat := 0
  error : Bool := false
  deriving DecidableEq, Repr

/-- A masking key. -/
abbrev Mask := Vector UInt8 4

/-- `struct wic_rx_frame` -/
structure RxFrame where
  fin : Bool := false
  rsv1 : Bool := false
  rsv2 : Bool := false
  rsv3 : Bool := false
  opcode : Opcode := .continue
  frag : Opcode := .continue
  mask : Mask := .replicate 4 0
  size : Nat := 0
  masked : Bool := false
  state : RxState := .opcode
  utf8 : Nat := 0
  s : Stream := {}
  deriving DecidableEq, Repr

/-- `struct wic_header`, an object of the application. -/
structure Header where
  next : Option Nat := none
  name : Option (List UInt8) := none
  value : Option (List UInt8) := none
  deriving DecidableEq, Repr

/-- `struct wic_inst`. `redirectUrl` points into the rx buffer, `txHeader` at a header object. -/
structure Inst where
  role : Role := .client
  state : State := .init
  rx : RxFrame := {}
  onMessage : Bool := false
  onOpen : Bool := false
  onClose : Bool := false
  onCloseTransport : Bool := false
  onHandshakeFailure : Bool := false
  rand : Bool := false
  onPing : Bool := false
  onPong : Bool := false
  url : Option (List UInt8) := none
  schema : Schema := .http
  statusCode : Nat := 0
  port : Nat := 0
  txHeader : Option Nat := none
  headerState : HeaderState := .idle
  http : Http.HttpParser := {}
  frag : Opcode := .continue
  pos : Nat := 0
  utf8Tx : Nat := 0
  utf8Rx : Nat := 0
  hash : List UInt8 := List.replicate 20 0
  hostname : List UInt8 := List.replicate 256 0
  redirectUrl : Option Nat := none
  deriving DecidableEq, Repr

/-- A `const void *data, uint16_t size` pair of arguments. -/
structure Payload where
  bytes : List UInt8
  length_lt : bytes.length < 65536
  deriving DecidableEq, Repr

/-- `NULL, 0U` -/
def Payload.null : Payload := ⟨[], by decide⟩

@[simp] theorem Payload.null_bytes : Payload.null.bytes = [] := rfl

/-- An entry of the trace. -/
inductive Event
  | state (s : State)
  | closing (code : UInt16)
  | message (encoding : Encoding) (fin : Bool) (data : List UInt8)
  | answer (accepted : Bool)
  | onOpen
  | onClose (code : UInt16) (reason : List UInt8)
  | onCloseTransport
  | onHandshakeFailure (reason : HandshakeFailure)
  | onPing
  | onPong
  | buffer (minSize : Nat) (type : BufferType) (buf : Option Nat) (max : Nat)
  | send (buf : Nat) (data : List UInt8) (type : BufferType)
  | status (status : Status)
  deriving DecidableEq, Repr

/-- The world of an instance; `heap` holds the application's header objects by address. -/
structure World (σ : Type) where
  inst : Inst
  heap : Nat → Header
  log : List Event
  app : σ

/-- The functions behind the callback pointers of an instance. `unset` is none of them: it is what the
variable `blocked` of `parse_mask` holds, which that function does not set when it has read a byte. -/
structure Callbacks (σ : Type) where
  onMessage : Encoding → Bool → List UInt8 → World σ → Bool × World σ
  onOpen : World σ → World σ
  onClose : UInt16 → List UInt8 → World σ → World σ
  onCloseTransport : World σ → World σ
  onHandshakeFailure : HandshakeFailure → World σ → World σ
  onPing : World σ → World σ
  onPong : World σ → World σ
  rand : World σ → UInt32 × World σ
  onSend : Nat → List UInt8 → BufferType → World σ → World σ
  onBuffer : Nat → BufferType → World σ → (Option Nat × Nat) × World σ
  unset : Stream → World σ → Bool

namespace World

variable {σ : Type}

/-- The world with one more entry in its trace. -/
def emit (e : Event) (w : World σ) : World σ := { w with log := w.log ++ [e] }

/-- The world with its instance changed. -/
def update (f : Inst → Inst) (w : World σ) : World σ := { w with inst := f w.inst }

/-- The world with the frame under reception changed. -/
def updateRx (f : RxFrame → RxFrame) (w : World σ) : World σ :=
  w.update fun i => { i with rx := f i.rx }

/-- A write of `wic_inst.state`. -/
def setState (s : State) (w : World σ) : World σ :=
  (w.update fun i => { i with state := s }).emit (.state s)

variable (w : World σ)

@[simp] theorem emit_inst (e : Event) : (w.emit e).inst = w.inst := rfl
@[simp] theorem emit_heap (e : Event) : (w.emit e).heap = w.heap := rfl
@[simp] theorem emit_log (e : Event) : (w.emit e).log = w.log ++ [e] := rfl
@[simp] theorem emit_app (e : Event) : (w.emit e).app = w.app := rfl

@[simp] theorem update_inst (f : Inst → Inst) : (w.update f).inst = f w.inst := rfl
@[simp] theorem update_heap (f : Inst → Inst) : (w.update f).heap = w.heap := rfl
@[simp] theorem update_log (f : Inst → Inst) : (w.update f).log = w.log := rfl
@[simp] theorem update_app (f : Inst → Inst) : (w.update f).app = w.app := rfl

@[simp] theorem updateRx_inst (f : RxFrame → RxFrame) :
    (w.updateRx f).inst = { w.inst with rx := f w.inst.rx } := rfl
@[simp] theorem updateRx_heap (f : RxFrame → RxFrame) : (w.updateRx f).heap = w.heap := rfl
@[simp] theorem updateRx_log (f : RxFrame → RxFrame) : (w.updateRx f).log = w.log := rfl
@[simp] theorem updateRx_app (f : RxFrame → RxFrame) : (w.updateRx f).app = w.app := rfl

@[simp] theorem setState_inst (s : State) : (w.setState s).inst = { w.inst with state := s } := rfl
@[simp] theorem setState_heap (s : State) : (w.setState s).heap = w.heap := rfl
@[simp] theorem setState_log (s : State) : (w.setState s).log = w.log ++ [.state s] := rfl
@[simp] theorem setState_app (s : State) : (w.setState s).app = w.app := rfl

end World

end Wic
