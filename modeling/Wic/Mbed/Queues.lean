import Mathlib.Tactic.SplitIfs
import Wic.Model.Types

/-!
# The queues of the mbed wrapper

`OutputQueue` and `InputQueue`: four buffers for outgoing frames with the queue they wait in, and a
mail box for incoming pieces of messages. The queues below them belong to the operating system. Of
`rtos::Queue` only the order is left open, since it depends on a priority that not every version of
`put` takes in the same place; `rtos::Mail` is a bounded FIFO.

## Main definitions

* `Slot`, `OutputQueue`: the buffers, and the queue
* `Order`: where an item goes in `rtos::Queue`
* `Piece`, `InputQueue`: the mail box
-/

namespace Wic.Mbed

/-! ## The output queue -/

/-- The buffers of an `OutputQueue`. -/
inductive Slot
  | user | close | ping | pong
  deriving DecidableEq, Repr

namespace Slot

/-- The `mask` of a buffer. -/
def mask : Slot → UInt32
  | user => 1
  | close => 2
  | ping => 4
  | pong => 8

/-- The `priority` of a buffer. -/
def priority : Slot → Nat
  | user => 0
  | close => 3
  | ping => 0
  | pong => 1

/-- The `max` of a buffer, for the template parameter `MAX_SIZE`. -/
def max (maxSize : Nat) : Slot → Nat
  | user => maxSize
  | close => 131
  | ping => 2
  | pong => 131

/-- The address of a buffer's `data`. -/
def address : Slot → Nat
  | user => 0
  | close => 1
  | ping => 2
  | pong => 3

end Slot

/-- `type_to_buf` -/
def typeToBuf : BufferType → Slot
  | .http | .user => .user
  | .close | .closeResponse => .close
  | .pong => .pong
  | .ping => .ping

/-- Where `rtos::Queue` puts an item among those that wait, given the argument behind it. -/
structure Order where
  insert : Option Slot → Nat → List (Option Slot) → List (Option Slot)
  perm (item arg items) : (insert item arg items).Perm (item :: items)

/-- The order of a queue whose items all have one priority. -/
def Order.fifo : Order where
  insert item _ items := items ++ [item]
  perm _ _ _ := List.perm_append_singleton _ _

/-- `OutputQueue`: a null pointer in the queue is the poison. -/
structure OutputQueue where
  maxSize : Nat
  user : List UInt8 := []
  close : List UInt8 := []
  ping : List UInt8 := []
  pong : List UInt8 := []
  flags : UInt32 := 0
  queue : List (Option Slot) := []
  deriving DecidableEq, Repr

namespace OutputQueue

variable (q : OutputQueue)

/-- The bytes of a buffer up to its `size`. -/
def data : Slot → List UInt8
  | .user => q.user
  | .close => q.close
  | .ping => q.ping
  | .pong => q.pong

/-- A buffer is given its bytes and their `size`. -/
def fill (buf : Slot) (bytes : List UInt8) : OutputQueue :=
  match buf with
  | .user => { q with user := bytes }
  | .close => { q with close := bytes }
  | .ping => { q with ping := bytes }
  | .pong => { q with pong := bytes }

/-- `alloc`: the buffer, and the value of `*max`. -/
def alloc (type : BufferType) (minSize : Nat) : (Option Slot × Nat) × OutputQueue :=
  let buf := typeToBuf type
  if minSize = 0 ∨ minSize ≤ buf.max q.maxSize then
    if buf.mask &&& q.flags = 0 then
      ((some buf, q.maxSize), { q with flags := q.flags ||| buf.mask })
    else ((none, q.maxSize), q)
  else ((none, q.maxSize), q)

/-- `rtos::Queue::put` with room for five items: an item that finds none is refused. -/
def putItem (order : Order) (item : Option Slot) (arg : Nat) : OutputQueue :=
  if q.queue.length < 5 then { q with queue := order.insert item arg q.queue } else q

/-- `put` -/
def put (order : Order) : Option Slot → OutputQueue
  | some buf => q.putItem order (some buf) buf.priority
  | none => q.putItem order none 2

/-- `free` -/
def free : Option Slot → OutputQueue
  | some buf => { q with flags := q.flags &&& ~~~buf.mask }
  | none => q

/-- `get`: the buffer, and whether it is the poison. -/
def get : (Option Slot × Bool) × OutputQueue :=
  match q.queue with
  | [] => ((none, false), q)
  | some buf :: items => ((some buf, false), { q with queue := items })
  | none :: items => ((none, true), { q with queue := items })

/-- The loop that empties the queue behind a poison, over `items`: it stops where `get` returns a
null pointer. Gives the buffers freed too. -/
def drainItems : List (Option Slot) → OutputQueue → List Slot × OutputQueue
  | [], q => ([], { q with queue := [] })
  | none :: items, q => ([], { q with queue := items })
  | some buf :: items, q =>
    let (bufs, q) := drainItems items (q.free (some buf))
    (buf :: bufs, q)

/-- `for(_tx = tx_queue.get(close); _tx; _tx = tx_queue.get(close)) tx_queue.free(_tx);` -/
def drain : List Slot × OutputQueue := drainItems q.queue q

@[simp] theorem fill_queue (buf : Slot) (bytes : List UInt8) :
    (q.fill buf bytes).queue = q.queue := by
  cases buf <;> rfl

@[simp] theorem free_queue (buf : Option Slot) : (q.free buf).queue = q.queue := by
  cases buf <;> rfl

@[simp] theorem alloc_queue (type : BufferType) (minSize : Nat) :
    (q.alloc type minSize).2.queue = q.queue := by
  unfold alloc
  dsimp only
  split_ifs <;> rfl

variable {q}

@[simp] theorem fill_flags (buf : Slot) (bytes : List UInt8) : (q.fill buf bytes).flags = q.flags := by
  cases buf <;> rfl

theorem fill_data {buf buf' : Slot} (h : buf' ≠ buf) (bytes : List UInt8) :
    (q.fill buf bytes).data buf' = q.data buf' := by
  cases buf <;> cases buf' <;> first | exact absurd rfl h | rfl

@[simp] theorem free_data (item : Option Slot) : (q.free item).data = q.data := by
  funext buf
  cases item <;> cases buf <;> rfl

@[simp] theorem put_data (order : Order) (item : Option Slot) : (q.put order item).data = q.data := by
  funext buf
  unfold put putItem
  cases item <;> dsimp only <;> split_ifs <;> cases buf <;> rfl

@[simp] theorem put_flags (order : Order) (item : Option Slot) :
    (q.put order item).flags = q.flags := by
  unfold put putItem
  cases item <;> dsimp only <;> split_ifs <;> rfl

@[simp] theorem alloc_data (type : BufferType) (minSize : Nat) :
    (q.alloc type minSize).2.data = q.data := by
  funext buf
  unfold alloc
  dsimp only
  split_ifs <;> cases buf <;> rfl

/-- An item goes into the queue or is refused. -/
theorem put_queue (order : Order) (item : Option Slot) :
    ((q.put order item).queue).Perm (item :: q.queue) ∨ (q.put order item).queue = q.queue := by
  unfold put putItem
  cases item <;> dsimp only <;> split_ifs
  · exact .inl (order.perm _ _ _)
  · exact .inr rfl
  · exact .inl (order.perm _ _ _)
  · exact .inr rfl

/-- A buffer that is allocated was free. -/
theorem alloc_cases (type : BufferType) (minSize : Nat) :
    (q.alloc type minSize).1.1 = none ∧ (q.alloc type minSize).2 = q ∨
      (q.alloc type minSize).1.1 = some (typeToBuf type) ∧ (typeToBuf type).mask &&& q.flags = 0 ∧
        (q.alloc type minSize).2 = { q with flags := q.flags ||| (typeToBuf type).mask } := by
  unfold alloc
  dsimp only
  split_ifs with hsize hfree
  · exact .inr ⟨rfl, hfree, rfl⟩
  · exact .inl ⟨rfl, rfl⟩
  · exact .inl ⟨rfl, rfl⟩

end OutputQueue

/-! ## The input queue -/

/-- What a `BufferBase` of the input queue holds once `init` has been called. -/
structure Piece where
  encoding : Encoding
  fin : Bool
  data : List UInt8
  deriving DecidableEq, Repr

/-- `InputQueue<SIZE, DEPTH>`: `depth` blocks of `size` bytes, of which `taken` are neither free nor
in the queue. -/
structure InputQueue where
  size : Nat
  depth : Nat
  taken : Nat := 0
  queue : List Piece := []
  deriving DecidableEq, Repr

namespace InputQueue

variable (q : InputQueue)

/-- `alloc`: whether there is a block. -/
def alloc : Bool × InputQueue :=
  if q.taken + q.queue.length < q.depth then (true, { q with taken := q.taken + 1 }) else (false, q)

/-- `init` of a block: data that does not fit leaves it empty. -/
def init (encoding : Encoding) (fin : Bool) (data : List UInt8) : Piece :=
  { encoding, fin, data := if data.length ≤ q.size then data else [] }

/-- `put` of a block taken. -/
def put (piece : Piece) : InputQueue :=
  { q with taken := q.taken - 1, queue := q.queue ++ [piece] }

/-- `get` and `free`, which the wrapper makes in one go. -/
def take : Option Piece × InputQueue :=
  match q.queue with
  | [] => (none, q)
  | piece :: queue => (some piece, { q with queue })

end InputQueue

end Wic.Mbed
