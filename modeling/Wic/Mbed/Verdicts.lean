import Wic.Mbed.Worker
import Wic.Sender.Wire

/-!
# Blocked or too large

The core asks `OutputQueue::alloc` for a buffer of the frame's size, and tells a frame that has to
wait from one that never fits by the size it is told the buffer has. `alloc` always tells the size of
the user buffer, so the verdict is right for the frames that fit their own buffer exactly when they
fit that one.

## Main definitions

* `ToldRight`: the status is the one a caller who retries needs

## Main results

* `toldRight_iff`: when the status is right
* `ping_blocked_idle`: a ping is told to wait for an idle queue
-/

namespace Wic.Mbed

/-- The bytes a frame needs. -/
def needs (f : TxFrame) : Nat := minFrameSize f.opcode f.masked f.payload.bytes.length

/-- The room in the buffer for a frame. -/
def Client.room (c : Client) (f : TxFrame) : Nat := (typeToBuf f.type).max c.txQueue.maxSize

/-- The buffer for a frame is in use. -/
def Client.InUse (c : Client) (f : TxFrame) : Prop :=
  (typeToBuf f.type).mask &&& c.txQueue.flags ≠ 0

/-- The status for a frame is right: to wait only while its buffer is in use and would hold it,
too large exactly when the buffer can never hold it, success whenever the buffer is free and holds
it. -/
structure ToldRight (f : TxFrame) (c : Client) (status : Status) : Prop where
  wouldBlock : status = .wouldBlock → c.InUse f ∧ needs f ≤ c.room f
  tooLarge : status = .tooLarge ↔ c.room f < needs f
  success : ¬c.InUse f → needs f ≤ c.room f → status = .success

/-- A frame needs room. -/
theorem needs_pos (f : TxFrame) : needs f ≠ 0 := by
  unfold needs minFrameSize
  dsimp only
  omega

/-- What `handle_buffer` answers for a frame: the address of its buffer when that is free and large
enough, and always the size of the user buffer. -/
theorem handleBuffer_answer (c : Client) (f : TxFrame) :
    ((c.handleBuffer (needs f) f.type).1.1.isSome ↔ ¬c.InUse f ∧ needs f ≤ c.room f) ∧
      (c.handleBuffer (needs f) f.type).1.2 = c.txQueue.maxSize := by
  unfold Client.handleBuffer OutputQueue.alloc Client.InUse Client.room
  by_cases hfit : needs f ≤ (typeToBuf f.type).max c.txQueue.maxSize
  · by_cases hfree : (typeToBuf f.type).mask &&& c.txQueue.flags = 0
    · simp [hfit, hfree]
    · simp [hfit, hfree]
  · simp [hfit, needs_pos f]

/-- The status of a masked frame, by what `handle_buffer` answers. -/
theorem streamPutFrame_status (order : Order) (f : TxFrame) (hm : f.masked = true)
    (w : World Client) :
    (streamPutFrame (callbacks order) f w).1 =
      if needs f ≤ w.app.txQueue.maxSize then
        if (w.app.handleBuffer (needs f) f.type).1.1.isSome then .success else .wouldBlock
      else .tooLarge := by
  have hmax := (handleBuffer_answer w.app f).2
  have hput (buf : Nat) := f.put_streamInit hm buf
  rw [f.length_wire hm] at hput
  unfold needs at hmax ⊢
  unfold streamPutFrame lease callbacks
  dsimp only
  generalize w.app.handleBuffer (minFrameSize f.opcode f.masked f.payload.bytes.length) f.type = r
    at hmax ⊢
  obtain ⟨⟨buf, max⟩, app⟩ := r
  obtain rfl : max = w.app.txQueue.maxSize := hmax
  dsimp only
  by_cases hle : minFrameSize f.opcode f.masked f.payload.bytes.length ≤ w.app.txQueue.maxSize
  · rw [if_pos hle, if_pos hle]
    cases buf with
    | none => rfl
    | some buf => simp [hput buf]
  · rw [if_neg hle, if_neg hle]

/-- The status is right for a frame that fits its own buffer just if it fits the user buffer. -/
theorem toldRight_of_agree (order : Order) (f : TxFrame) (hm : f.masked = true) (w : World Client)
    (h : needs f ≤ w.app.room f ↔ needs f ≤ w.app.txQueue.maxSize) :
    ToldRight f w.app (streamPutFrame (callbacks order) f w).1 := by
  have hanswer := (handleBuffer_answer w.app f).1
  rw [streamPutFrame_status order f hm w]
  by_cases hfit : needs f ≤ w.app.room f
  · rw [if_pos (h.mp hfit)]
    by_cases huse : w.app.InUse f
    · rw [if_neg (by simp [hanswer, huse])]
      exact ⟨fun _ => ⟨huse, hfit⟩, ⟨nofun, fun hlt => absurd hfit (by omega)⟩,
        fun hfree => absurd huse hfree⟩
    · rw [if_pos (hanswer.mpr ⟨huse, hfit⟩)]
      exact ⟨nofun, ⟨nofun, fun hlt => absurd hfit (by omega)⟩, fun _ _ => rfl⟩
  · rw [if_neg (mt h.mpr hfit)]
    exact ⟨nofun, ⟨fun _ => by omega, fun _ => rfl⟩, fun _ h => absurd h hfit⟩

/-- **The core and the output queue tell a frame that has to wait from one that never fits exactly
when the frame fits its own buffer just if it fits the user buffer.** -/
theorem toldRight_iff (order : Order) (f : TxFrame) (m : UInt32) (w : World Client) :
    ToldRight (f.withMask m) w.app (streamPutFrame (callbacks order) (f.withMask m) w).1 ↔
      (needs (f.withMask m) ≤ w.app.room f ↔ needs (f.withMask m) ≤ w.app.txQueue.maxSize) := by
  constructor
  · intro htold
    have hanswer := (handleBuffer_answer w.app (f.withMask m)).1
    rw [streamPutFrame_status order (f.withMask m) rfl w] at htold
    by_cases hmax : needs (f.withMask m) ≤ w.app.txQueue.maxSize
    · rw [if_pos hmax] at htold
      have hfit : needs (f.withMask m) ≤ w.app.room (f.withMask m) := by
        split_ifs at htold with hfound
        · exact (hanswer.mp hfound).2
        · exact (htold.wouldBlock rfl).2
      exact ⟨fun _ => hmax, fun _ => hfit⟩
    · rw [if_neg hmax] at htold
      have hlt : w.app.room f < needs (f.withMask m) := htold.tooLarge.mp rfl
      exact ⟨fun hfit => absurd hfit (by omega), fun h => absurd h hmax⟩
  · exact toldRight_of_agree order (f.withMask m) rfl w

/-- Frames in the user buffer are told right, whatever its size. -/
theorem toldRight_user (order : Order) (f : TxFrame) (hf : typeToBuf f.type = .user) (m : UInt32)
    (w : World Client) :
    ToldRight (f.withMask m) w.app (streamPutFrame (callbacks order) (f.withMask m) w).1 := by
  apply toldRight_of_agree order (f.withMask m) rfl w
  have hroom : w.app.room (f.withMask m) = w.app.txQueue.maxSize := by
    show (typeToBuf f.type).max _ = _
    rw [hf]
    rfl
  rw [hroom]

/-- **An empty ping is told to wait while every buffer is free**: its own buffer of two bytes holds
no frame at all. -/
theorem ping_blocked_idle :
    let f := TxFrame.withMask { fin := true, opcode := .ping, type := .ping, payload := .null } 0
    let w := (initial 1000 1000 200 (fun _ => 0) fun _ _ _ => false).world
    w.app.txQueue.flags = 0 ∧ (streamPutFrame (callbacks .fifo) f w).1 = .wouldBlock ∧
      ¬ToldRight f w.app (streamPutFrame (callbacks .fifo) f w).1 := by
  intro f w
  have hstatus : (streamPutFrame (callbacks .fifo) f w).1 = .wouldBlock := by
    rw [streamPutFrame_status .fifo f rfl w]
    decide
  refine ⟨rfl, hstatus, ?_⟩
  rw [hstatus]
  intro htold
  exact (htold.wouldBlock rfl).1 (by decide)

end Wic.Mbed
