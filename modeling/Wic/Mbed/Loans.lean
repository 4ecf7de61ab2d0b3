import Mathlib.Data.List.Perm.Subperm
import Mathlib.Data.List.ReduceOption
import Wic.Calls.Carried
import Wic.Mbed.Worker

/-!
# The buffers of the output queue

A buffer is lent to the core, waits in the queue, or is being written to the socket, and its flag says
that it is in use. It is in one of these places only, so that the bytes of a frame stay as they are
until the worker is done with it.

## Main definitions

* `Owned`: the buffers in use are in one place each
* `Holds`: what the callbacks leave alone

## Main results

* `callbacks_holds`: the callbacks keep to it
-/

namespace Wic.Mbed

/-! ## The flags -/

namespace Slot

/-- The flag of a buffer is set. -/
def InUse (buf : Slot) (flags : UInt32) : Prop := buf.mask &&& flags ≠ 0

variable {buf buf' : Slot} {flags : UInt32}

theorem and_or_left (a b c : UInt32) : a &&& (b ||| c) = (a &&& b) ||| (a &&& c) :=
  UInt32.toBitVec_inj.mp BitVec.and_or_distrib_left

theorem inUse_set (h : buf.InUse flags) : buf.InUse (flags ||| buf'.mask) := by
  unfold InUse at h ⊢
  rw [and_or_left]
  intro hzero
  exact h (UInt32.or_eq_zero_iff.mp hzero).1

theorem inUse_set_self : buf.InUse (flags ||| buf.mask) := by
  unfold InUse
  rw [and_or_left, UInt32.and_self]
  intro hzero
  have hmask := (UInt32.or_eq_zero_iff.mp hzero).2
  cases buf <;> exact absurd hmask (by decide)

/-- A flag that is cleared leaves the others as they are. -/
theorem inUse_clear (hne : buf ≠ buf') (h : buf.InUse flags) :
    buf.InUse (flags &&& ~~~buf'.mask) := by
  have hmask : buf.mask &&& ~~~buf'.mask = buf.mask := by
    cases buf <;> cases buf' <;> first | exact absurd rfl hne | decide
  unfold InUse at h ⊢
  rwa [UInt32.and_comm flags, ← UInt32.and_assoc, hmask]

end Slot

/-! ## The buffers in use -/

/-- The buffers that are lent, wait, or are being written. -/
def Client.inUse (c : Client) (tx : Option Slot) : List Slot :=
  c.tx.toList ++ c.txQueue.queue.reduceOption ++ tx.toList

/-- The buffers in use are in one place each, and their flags are set. -/
structure Owned (c : Client) (tx : Option Slot) : Prop where
  nodup : (c.inUse tx).Nodup
  flagged : ∀ buf ∈ c.inUse tx, buf.InUse c.txQueue.flags

section Owned

variable {c : Client} {tx : Option Slot}

/-- The buffers in use are some of those before, all with their flags. -/
theorem Owned.subperm {c' : Client} {tx' : Option Slot} (h : Owned c tx)
    (hsub : (c'.inUse tx').Subperm (c.inUse tx))
    (hf : ∀ buf ∈ c'.inUse tx', buf.InUse c.txQueue.flags → buf.InUse c'.txQueue.flags) :
    Owned c' tx' where
  nodup := by
    obtain ⟨bufs, hperm, hsublist⟩ := hsub
    exact hperm.nodup_iff.mp (h.nodup.sublist hsublist)
  flagged buf hbuf := hf buf hbuf (h.flagged buf (hsub.subset hbuf))

/-- The worker writes none of the others. -/
theorem Owned.ne (h : Owned c tx) {buf buf' : Slot} (hc : c.tx = some buf) (htx : tx = some buf') :
    buf' ≠ buf := by
  have hnodup := h.nodup
  unfold Client.inUse at hnodup
  rw [hc, htx] at hnodup
  rintro rfl
  simp at hnodup

end Owned

/-! ## The callbacks -/

variable (order : Order)

/-- What the callbacks leave alone: the buffers stay in one place each, that of the worker keeps its
bytes, and no callback closes the client. -/
structure Holds (c c' : Client) : Prop where
  owned : ∀ tx, Owned c tx → Owned c' tx
  data : ∀ buf, Owned c (some buf) → c'.txQueue.data buf = c.txQueue.data buf
  alive : c.state ≠ .closed → c'.state ≠ .closed
  dequeued : c'.record.dequeued = c.record.dequeued
  wire : c'.record.wire = c.record.wire
  failed : c'.record.failed = c.record.failed

namespace Holds

variable {c c' c'' : Client}

theorem refl (c : Client) : Holds c c := ⟨fun _ => id, fun _ _ => rfl, id, rfl, rfl, rfl⟩

theorem trans (h : Holds c c') (h' : Holds c' c'') : Holds c c'' where
  owned tx hc := h'.owned tx (h.owned tx hc)
  data buf hc := (h'.data buf (h.owned _ hc)).trans (h.data buf hc)
  alive := h'.alive ∘ h.alive
  dequeued := h'.dequeued.trans h.dequeued
  wire := h'.wire.trans h.wire
  failed := h'.failed.trans h.failed

/-- The output queue has not been touched. -/
theorem of_txQueue (htx : c'.tx = c.tx) (hq : c'.txQueue = c.txQueue)
    (hs : c.state ≠ .closed → c'.state ≠ .closed) (hd : c'.record.dequeued = c.record.dequeued)
    (hw : c'.record.wire = c.record.wire) (hf : c'.record.failed = c.record.failed) :
    Holds c c' where
  owned tx hc := by
    have hinUse : c'.inUse tx = c.inUse tx := by
      unfold Client.inUse
      rw [htx, hq]
    apply hc.subperm
    · rw [hinUse]
    · rw [hq]
      exact fun _ _ => id
  data buf _ := by rw [hq]
  alive := hs
  dequeued := hd
  wire := hw
  failed := hf

end Holds

theorem handleBuffer_holds (minSize : Nat) (type : BufferType) (c : Client) :
    Holds c (c.handleBuffer minSize type).2 := by
  have happ : (c.handleBuffer minSize type).2 =
      { c with
        tx := (c.txQueue.alloc type minSize).1.1
        txQueue := (c.txQueue.alloc type minSize).2 } := rfl
  -- what was lent before is no longer counted
  have hdropped (tx : Option Slot) : (c.txQueue.queue.reduceOption ++ tx.toList).Sublist
      (c.inUse tx) := by
    unfold Client.inUse
    rw [List.append_assoc]
    exact (List.suffix_append _ _).sublist
  rw [happ]
  rcases c.txQueue.alloc_cases type minSize with ⟨hnone, hq⟩ | ⟨hsome, hfree, hq⟩
  · rw [hnone, hq]
    exact ⟨fun tx hc => hc.subperm (hdropped tx).subperm fun _ _ => id, fun _ _ => rfl, id, rfl, rfl,
      rfl⟩
  · rw [hsome, hq]
    refine ⟨fun tx hc => ⟨?_, ?_⟩, fun buf _ => ?_, id, rfl, rfl, rfl⟩
    · apply List.nodup_cons.mpr ⟨fun hmem => ?_, hc.nodup.sublist (hdropped tx)⟩
      exact hc.flagged _ ((hdropped tx).subset hmem) hfree
    · intro buf hbuf
      rcases List.mem_cons.mp hbuf with rfl | hmem
      · exact Slot.inUse_set_self
      · exact Slot.inUse_set (hc.flagged _ ((hdropped tx).subset hmem))
    · cases buf <;> rfl

theorem handleSend_holds (data : List UInt8) (c : Client) : Holds c (c.handleSend order data) := by
  unfold Client.handleSend
  cases hc : c.tx with
  | none => exact .refl c
  | some buf =>
    dsimp only
    have hinUse (tx : Option Slot) :
        c.inUse tx = buf :: (c.txQueue.queue.reduceOption ++ tx.toList) := by
      unfold Client.inUse
      rw [hc]
      rfl
    -- a buffer without bytes goes back, a filled one into the queue
    by_cases hempty : data.length = 0
    · rw [if_pos hempty]
      refine ⟨fun tx howned => ?_, fun buf' howned => ?_, id, rfl, rfl, rfl⟩
      · have hnodup := howned.nodup
        rw [hinUse] at hnodup
        have hin : Client.inUse
            { c with txQueue := (c.txQueue.fill buf data).free (some buf), tx := none } tx =
              c.txQueue.queue.reduceOption ++ tx.toList := by simp [Client.inUse]
        apply howned.subperm
        · rw [hin, hinUse]
          exact (List.sublist_cons_self _ _).subperm
        · intro buf' hmem hset
          rw [hin] at hmem
          -- the flag of every other buffer stays
          have hne : buf' ≠ buf := fun heq => (List.nodup_cons.mp hnodup).1 (heq ▸ hmem)
          have hclear := Slot.inUse_clear hne hset
          show buf'.InUse ((c.txQueue.fill buf data).flags &&& ~~~buf.mask)
          rwa [OutputQueue.fill_flags]
      · dsimp only
        rw [OutputQueue.free_data, OutputQueue.fill_data (howned.ne hc rfl)]
    · rw [if_neg hempty]
      refine ⟨fun tx howned => ?_, fun buf' howned => ?_, id, rfl, rfl, rfl⟩
      · apply howned.subperm
        · rw [hinUse]
          unfold Client.inUse
          dsimp only [Option.toList_none, List.nil_append]
          -- the frame is put into the queue, or there is no place for it
          rcases (c.txQueue.fill buf data).put_queue order (some buf) with hperm | hsame
          · have hreduce : ((c.txQueue.fill buf data).put order (some buf)).queue.reduceOption.Perm
                (buf :: c.txQueue.queue.reduceOption) := by
              rw [OutputQueue.fill_queue] at hperm
              exact (hperm.filterMap id).trans (by rw [List.filterMap_cons]; rfl)
            exact (hreduce.append_right _).subperm
          · rw [hsame, OutputQueue.fill_queue]
            exact (List.sublist_cons_self _ _).subperm
        · intro buf' _ hset
          rwa [OutputQueue.put_flags, OutputQueue.fill_flags]
      · dsimp only
        rw [OutputQueue.put_data, OutputQueue.fill_data (howned.ne hc rfl)]

theorem handleCloseTransport_holds (c : Client) : Holds c (c.handleCloseTransport order) := by
  unfold Client.handleCloseTransport
  refine ⟨fun tx hc => ?_, fun buf _ => ?_, id, rfl, rfl, rfl⟩
  · have hreduce : ((c.txQueue.put order none).queue.reduceOption).Perm
        c.txQueue.queue.reduceOption := by
      rcases c.txQueue.put_queue order none with hperm | hsame
      · exact (hperm.filterMap id).trans (by rw [List.filterMap_cons]; rfl)
      · rw [hsame]
    apply hc.subperm
    · unfold Client.inUse
      exact ((hreduce.append_left _).append_right _).subperm
    · intro buf _ hset
      rwa [OutputQueue.put_flags]
  · rw [OutputQueue.put_data]

theorem callbacks_holds : (callbacks order).Carries Holds where
  refl := Holds.refl
  trans := Holds.trans
  onMessage encoding fin data w := by
    have hmessage : Holds w.app (w.app.handleMessage encoding fin data).2 := by
      unfold Client.handleMessage
      split
      · exact .of_txQueue rfl rfl id rfl rfl rfl
      · exact .refl _
    exact hmessage
  onPing _ := .refl _
  onPong _ := .refl _
  rand _ := .of_txQueue rfl rfl id rfl rfl rfl
  onSend _ data _ w := handleSend_holds order data w.app
  onBuffer minSize type w := handleBuffer_holds minSize type w.app
  onOpen _ := .of_txQueue rfl rfl (fun _ => nofun) rfl rfl rfl
  onClose _ _ _ := .of_txQueue rfl rfl (fun _ => nofun) rfl rfl rfl
  onCloseTransport w := handleCloseTransport_holds order w.app
  onHandshakeFailure _ _ := .of_txQueue rfl rfl (fun _ => nofun) rfl rfl rfl

/-! ## A new connection -/

/-- The line of a new connection. -/
structure Fresh (c c' : Client) : Prop where
  owned : ∀ tx, Owned c tx → Owned c' tx
  queue : c'.state = .closed → c'.txQueue.queue = c.txQueue.queue
  dequeued : c'.record.dequeued = []
  wire : c'.record.wire = []
  failed : c'.record.failed = false

theorem Fresh.holds {c c' c'' : Client} (h : Fresh c c') (hs : c'.state = .closed)
    (hc : Holds c' c'') (hq : c''.state = .closed → c''.txQueue.queue = c'.txQueue.queue) :
    Fresh c c'' where
  owned tx htx := hc.owned tx (h.owned tx htx)
  queue hclosed := (hq hclosed).trans (h.queue hs)
  dequeued := hc.dequeued.trans h.dequeued
  wire := hc.wire.trans h.wire
  failed := hc.failed.trans h.failed

theorem handleSend_nil (c : Client) : (c.handleSend order []).txQueue.queue = c.txQueue.queue := by
  unfold Client.handleSend
  cases c.tx <;> simp

theorem drawKey_txQueue (w : World Client) :
    (drawKey (callbacks order) w).2.app.txQueue = w.app.txQueue := by
  have hdraw (n : Nat) (w : World Client) :
      (drawNonce (callbacks order) n w).2.app.txQueue = w.app.txQueue := by
    induction n generalizing w with
    | zero => rfl
    | succ n ih => exact ih _
  unfold drawKey
  split_ifs
  · exact hdraw 4 w
  · rfl

/-- A `wic_start` that fails queues nothing. -/
theorem wicStart_queue {w w' : World Client} {fuel : Nat} {status : Status}
    (h : wicStart (callbacks order) fuel w = some (status, w')) (hs : status ≠ .success) :
    w'.app.txQueue.queue = w.app.txQueue.queue := by
  have hlease : (lease (callbacks order) 0 .http w).2.app.txQueue.queue = w.app.txQueue.queue :=
    w.app.txQueue.alloc_queue .http 0
  have hstarted := startClient_started h
  generalize hr : (status, w') = r at hstarted
  cases hstarted with
  | refused =>
    cases hr
    rfl
  | blocked =>
    cases hr
    exact hlease
  | @ended _ buf max w₁ nonce w₂ key u tx hb hk hn ht =>
    rw [hb] at hlease
    have hdraw := drawKey_txQueue order w₁
    rw [hk] at hdraw
    split_ifs at hr
    · cases hr
      have hsend := handleSend_nil order w₂.app
      have happ : (handOver (callbacks order) tx 0 .http
          (w₂.update fun i => { i with hash := serverHash key })).app =
            w₂.app.handleSend order [] := rfl
      rw [happ, hsend, hdraw]
      exact hlease
    · cases hr
      exact absurd rfl hs

end Wic.Mbed
