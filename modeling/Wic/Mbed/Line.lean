import Wic.Mbed.Opening

/-!
# The bytes on the line

The worker takes a frame from the output queue and writes it to the socket piece by piece, over many
rounds of its loop. As long as the socket does not fail, the bytes it has accepted are those of the
frames taken so far, up to where the worker stands in the last. When the socket fails, the worker drops
what is left of its frame and goes on with the next; so a socket that works again afterwards is given a
frame with a hole before it.

## Main definitions

* `Unfailing`: a socket that has failed accepts no more
* `Line`: what has been written of what has been taken

## Main results

* `Reaches.whole_frames`
-/

namespace Wic.Mbed

/-- Once `send` has returned an error other than that it would block, it accepts no further byte of
that connection. -/
def Unfailing (s : System) : Action → Prop
  | .write (.accepted count) => s.world.app.record.failed = true → count = 0
  | _ => True

instance (s : System) : ∀ action, Decidable (Unfailing s action)
  | .write (.accepted count) =>
    inferInstanceAs (Decidable (s.world.app.record.failed = true → count = 0))
  | .write .wouldBlock | .write .failed | .call _ | .caller | .recv | .timeout | .dispatch _ | .poll
  | .read _ | .parse | .take => .isTrue trivial

/-- What has been written of the frames taken, with `tx` under way up to `txPos`. -/
def Written (c : Client) (tx : Option Slot) (txPos : Nat) : Prop :=
  match tx with
  | none => c.record.wire <+: c.record.dequeued.flatten ∧
    (c.state ≠ .closed → c.record.failed = false → c.record.wire = c.record.dequeued.flatten)
  | some buf => ∃ frames, c.record.dequeued = frames ++ [c.txQueue.data buf] ∧
    (c.record.failed = true → c.record.wire <+: frames.flatten) ∧
    (c.record.failed = false →
      c.record.wire = frames.flatten ++ (c.txQueue.data buf).take txPos)

/-- The worker and its line. -/
structure Line (w : World Client) (tx : Option Slot) (txPos : Nat) : Prop where
  sound : Sound w
  owned : Owned w.app tx
  shut : w.app.state = .closed → w.app.txQueue.queue = [] ∧ tx = none
  written : Written w.app tx txPos

section Line

variable {w w' : World Client} {tx : Option Slot} {txPos : Nat}

/-- What has been written is a prefix of what has been taken. -/
theorem Written.of_taken {c : Client} (h : Written c tx txPos) :
    c.record.wire <+: c.record.dequeued.flatten := by
  cases tx with
  | none => exact h.1
  | some buf =>
    obtain ⟨frames, hdequeued, hfailed, hwire⟩ := h
    rw [hdequeued, List.flatten_append]
    cases hf : c.record.failed with
    | true => exact (hfailed hf).trans (List.prefix_append _ _)
    | false =>
      rw [hwire hf, List.flatten_singleton]
      exact (List.prefix_append_right_inj _).mpr (List.take_prefix _ _)

/-- Where the client is not closed, a step of the core leaves the line as it is. -/
theorem Line.holds (h : Line w tx txPos) (hs : Sound w') (hc : Holds w.app w'.app)
    (hidle : w.app.state = .closed → w'.app = w.app) : Line w' tx txPos := by
  by_cases hclosed : w.app.state = .closed
  · have happ := hidle hclosed
    refine ⟨hs, ?_, ?_, ?_⟩
    · rw [happ]
      exact h.owned
    · rw [happ]
      exact h.shut
    · rw [happ]
      exact h.written
  · have halive := hc.alive hclosed
    refine ⟨hs, hc.owned tx h.owned, fun hw' => absurd hw' halive, ?_⟩
    have hwritten := h.written
    cases tx with
    | none =>
      unfold Written at hwritten ⊢
      rw [hc.wire, hc.dequeued, hc.failed]
      exact ⟨hwritten.1, fun _ => hwritten.2 hclosed⟩
    | some buf =>
      unfold Written at hwritten ⊢
      dsimp only at hwritten ⊢
      rw [hc.wire, hc.dequeued, hc.failed, hc.data buf h.owned]
      exact hwritten

/-! ## The calls of the worker -/

variable (order : Order)

/-- A client without connection has nothing for the core to do. -/
theorem Sound.unused (h : Sound w) (hc : w.app.state = .closed) :
    w.inst.state = .init ∨ w.inst.state = .closed := by
  have hs := h.steady
  unfold Steady at hs
  cases hstate : w.inst.state <;> rw [hstate] at hs <;> dsimp only at hs
  · exact .inl rfl
  · simp [hc] at hs
  · simp [hc] at hs
  · exact .inr rfl

theorem Line.wicParse (h : Line w tx txPos) {data : List UInt8} {n : Nat}
    (hrun : wicParse (callbacks order) data w = some (n, w')) : Line w' tx txPos := by
  have hidle (hs : w.inst.state = .init ∨ w.inst.state = .closed) : w' = w := by
    have hidle : Wic.wicParse (callbacks order) data w = some (data.length, w) := by
      apply wicParse_of_idle <;> rcases hs with hs | hs <;> rw [hs] <;> exact nofun
    rw [hrun] at hidle
    cases hidle
    rfl
  by_cases hs : w.inst.state = .init
  · rw [hidle (.inl hs)]
    exact h
  · have hsound := (wicParse_served order h.sound hrun).1
    have hholds := wicParse_carried (callbacks_holds order) (callbacks_passive order)
      (h.sound.invariant hs) hrun
    exact h.holds hsound hholds fun hclosed => by rw [hidle (h.sound.unused hclosed)]

theorem Line.close (h : Line w tx txPos) (code : UInt16) (reason : Payload) :
    Line (wicCloseWithReason (callbacks order) code reason w) tx txPos := by
  have hsound := (wicCloseWithReason_served order h.sound code reason).1
  have hholds : Holds w.app (wicCloseWithReason (callbacks order) code reason w).app :=
    closeWithReason_carried (callbacks_holds order) (callbacks_passive order) h.sound.role _ _ _
  apply h.holds hsound hholds
  intro hclosed
  unfold wicCloseWithReason closeWithReason
  rcases h.sound.unused hclosed with hs | hs
  · rw [hs]
    rfl
  · rw [hs]

theorem Line.send (h : Line w tx txPos) (encoding : Encoding) (fin : Bool) (data : Payload) :
    Line (wicSend (callbacks order) encoding fin data w).2 tx txPos := by
  have hsound := (wicSend_sound order h.sound encoding fin data).1
  have hholds : Holds w.app (wicSend (callbacks order) encoding fin data w).2.app :=
    Call.run_carried (callbacks_holds order) (callbacks_passive order) h.sound.role
      (.send encoding fin data)
  apply h.holds hsound hholds
  intro hclosed
  have hrefused : allowedToSend w = (false, w) := by
    unfold allowedToSend
    rcases h.sound.unused hclosed with hs | hs <;> simp [hs]
  unfold wicSend
  split_ifs
  · unfold wicSendBinary
    rw [hrefused]
    rfl
  · unfold wicSendText
    rw [hrefused]
    rfl

/-- Nothing on the line has changed. -/
theorem Line.aside (h : Line w tx txPos) (hs : Sound w') (hstate : w'.app.state = w.app.state)
    (htx : w'.app.tx = w.app.tx) (hq : w'.app.txQueue = w.app.txQueue)
    (hd : w'.app.record.dequeued = w.app.record.dequeued)
    (hw : w'.app.record.wire = w.app.record.wire)
    (hf : w'.app.record.failed = w.app.record.failed) : Line w' tx txPos where
  sound := hs
  owned := (Holds.of_txQueue htx hq (by rw [hstate]; exact id) hd hw hf).owned tx h.owned
  shut := by
    rw [hstate, hq]
    exact h.shut
  written := by
    have hwritten := h.written
    unfold Written at hwritten ⊢
    rw [hstate, hq, hd, hw, hf]
    exact hwritten

/-! ## The events -/

variable {env : Environment}

theorem Line.doOpen (h : Line w tx txPos) {attempt : Nat}
    (hrun : doOpen order env attempt w = some w') : Line w' tx txPos := by
  by_cases hclosed : w.app.state = .closed
  · have hidle : ¬ Handshaking w := by
      unfold Handshaking
      rcases h.sound.unused hclosed with hs | hs <;> rw [hs] <;> exact nofun
    have hopens : Opens False attempt w w' := doOpen_opens order h.sound hidle False.elim hrun
    obtain ⟨howned, hqueue, hdequeued, hwire, hfailed⟩ := hopens.fresh hclosed
    obtain ⟨hempty, rfl⟩ := h.shut hclosed
    refine ⟨hopens.sound, howned none h.owned, fun hs => ⟨(hqueue hs).trans hempty, rfl⟩, ?_⟩
    unfold Written
    rw [hdequeued, hwire]
    exact ⟨List.prefix_refl _, fun _ _ => rfl⟩
  · obtain ⟨rx, q, job, rfl, -, -⟩ := doOpen_busy order hclosed hrun
    exact h.aside (h.sound.still rfl ⟨rfl, rfl, rfl, rfl⟩) rfl rfl rfl rfl rfl rfl

theorem Line.runPosted (h : Line w tx txPos) {event : Posted}
    (hrun : runPosted order env event w = some w') : Line w' tx txPos := by
  cases event with
  | doOpen attempt => exact h.doOpen order hrun
  | doClose =>
    have hw' : doClose order w = w' := Option.some.inj hrun
    rw [← hw']
    unfold Mbed.doClose
    split
    · exact h.close order closeNormal .null
    · exact h.close order closeNormal .null
    · exact h.aside (h.sound.still rfl ⟨rfl, rfl, rfl, rfl⟩) rfl rfl rfl rfl rfl rfl
  | doSend call encoding fin data =>
    have hw' : doSend order call encoding fin data w = w' := Option.some.inj hrun
    rw [← hw']
    have hline := h.send order encoding fin data
    exact hline.aside (hline.sound.still rfl ⟨rfl, rfl, rfl, rfl⟩) rfl rfl rfl rfl rfl rfl
  | doHandshakeTimeout =>
    have hw' : doHandshakeTimeout order w = w' := Option.some.inj hrun
    rw [← hw']
    exact h.close order closeAbnormal1 .null

theorem Line.dispatchEvents {n : Nat} (h : Line w tx txPos)
    (hrun : dispatchEvents order env n w = some w') : Line w' tx txPos := by
  induction n generalizing w with
  | zero =>
    cases hrun
    exact h
  | succ n ih =>
    unfold Mbed.dispatchEvents at hrun
    cases hevents : w.app.events with
    | nil =>
      rw [hevents] at hrun
      cases hrun
      exact h
    | cons event events =>
      rw [hevents] at hrun
      obtain ⟨w₁, hposted, hrest⟩ := Option.bind_eq_some_iff.mp hrun
      have hpop := h.aside (h.sound.pop hevents) rfl rfl rfl rfl rfl rfl
      exact ih (hpop.runPosted order hposted) hrest

end Line

/-! ## The system -/

section System

variable {cfg : Config} {s s' : System}

/-- The line of a system. -/
def System.Lined (s : System) : Prop := Line s.world s.worker.tx s.worker.txPos

/-- Emptying the queue frees no other buffer. -/
theorem OutputQueue.drainItems_flags {items : List (Option Slot)} {q : OutputQueue} {buf : Slot}
    (hbuf : buf ∉ items.reduceOption) (h : buf.InUse q.flags) :
    buf.InUse (drainItems items q).2.flags := by
  induction items generalizing q with
  | nil => exact h
  | cons item items ih =>
    cases item with
    | none => exact h
    | some buf' =>
      rw [List.reduceOption_cons_of_some, List.mem_cons, not_or] at hbuf
      exact ih hbuf.2 (Slot.inUse_clear hbuf.1 h)

/-- The worker takes the next frame, or shuts the connection at the poison. -/
theorem System.Lined.take (h : s.Lined) : s.take.Lined := by
  unfold System.Lined at h ⊢
  cases htx : s.worker.tx with
  | some buf =>
    rw [System.take_held htx]
    exact h
  | none =>
    rw [htx] at h
    have hinUse : s.world.app.inUse none =
        s.world.app.tx.toList ++ s.world.app.txQueue.queue.reduceOption := by
      simp [Client.inUse]
    -- the queue is empty, has the poison in front, or a frame
    rcases hq : s.world.app.txQueue.queue with - | ⟨- | buf, items⟩
    · rw [System.take_empty htx hq]
      show Line s.world s.worker.tx 0
      rw [htx]
      exact ⟨h.sound, h.owned, h.shut, h.written⟩
    · obtain ⟨hsound, hempty⟩ := System.take_sound h.sound htx hq
      rw [System.take_poison htx hq] at hsound hempty ⊢
      refine ⟨hsound, ?_, fun _ => ⟨hempty, rfl⟩, ?_, fun hne => absurd rfl hne⟩
      · have howned := h.owned
        rw [hq, List.reduceOption_cons_of_none] at hinUse
        -- behind the poison nothing is in use but the frame that is being written
        have hin : ∀ c : Client, c.txQueue.queue = [] → c.inUse none = c.tx.toList := by
          intro c hc
          simp [Client.inUse, hc]
        have hnodup := howned.nodup
        rw [hinUse] at hnodup
        apply howned.subperm
        · rw [hin _ hempty, hinUse]
          exact (List.prefix_append _ _).sublist.subperm
        · intro buf hmem hset
          rw [hin _ hempty] at hmem
          exact OutputQueue.drainItems_flags
            (fun hitem => (List.nodup_append.mp hnodup).2.2 buf hmem buf hitem rfl) hset
      · show _ <+: (s.world.app.record.dequeued ++ _).flatten
        rw [List.flatten_append]
        exact h.written.1.trans (List.prefix_append _ _)
    · rw [System.take_frame htx hq]
      -- a client with a frame in its queue has not been shut
      have halive : s.world.app.state ≠ .closed := by
        intro hclosed
        rw [(h.shut hclosed).1] at hq
        cases hq
      refine ⟨h.sound.still rfl ⟨rfl, rfl, rfl, ?_⟩, ?_, fun hclosed => absurd hclosed halive, ?_⟩
      · unfold Client.poisons
        rw [hq, List.count_cons_of_ne (by simp)]
        rfl
      · apply h.owned.subperm
        · rw [hinUse, hq, List.reduceOption_cons_of_some]
          unfold Client.inUse
          rw [List.append_assoc]
          exact (List.Perm.append_left _ (List.perm_append_singleton _ _)).subperm
        · exact fun _ _ => id
      -- the frame that is taken is recorded as it stands in its buffer
      · have hdata : OutputQueue.data { s.world.app.txQueue with queue := items } buf =
            s.world.app.txQueue.data buf := by
          cases buf <;> rfl
        refine ⟨s.world.app.record.dequeued, ?_, fun _ => h.written.1, fun hf => ?_⟩
        · exact congrArg (fun d => _ ++ [d]) hdata.symm
        · show s.world.app.record.wire = _
          rw [List.take_zero, List.append_nil]
          exact h.written.2 halive hf

/-- The worker is done with its frame. -/
theorem System.freeTx_lined {buf : Slot} (hs : Sound s.world) (ho : Owned s.world.app (some buf))
    (halive : s.world.app.state ≠ .closed)
    (hp : s.world.app.record.wire <+: s.world.app.record.dequeued.flatten)
    (hw : s.world.app.record.failed = false →
      s.world.app.record.wire = s.world.app.record.dequeued.flatten) : (s.freeTx buf).Lined := by
  have hfree : Client.inUse { s.world.app with txQueue := s.world.app.txQueue.free (some buf) } none =
      s.world.app.tx.toList ++ s.world.app.txQueue.queue.reduceOption := by
    simp [Client.inUse]
  have hinUse : s.world.app.inUse (some buf) =
      s.world.app.tx.toList ++ s.world.app.txQueue.queue.reduceOption ++ [buf] := rfl
  refine ⟨hs.still rfl ⟨rfl, rfl, rfl, ?_⟩, ?_, fun hclosed => absurd hclosed halive, hp,
    fun _ => hw⟩
  · exact congrArg (List.count none) (OutputQueue.free_queue _ _)
  · have hnodup := ho.nodup
    rw [hinUse] at hnodup
    apply ho.subperm
    · show (Client.inUse { s.world.app with txQueue := s.world.app.txQueue.free (some buf) } none).Subperm _
      rw [hfree, hinUse]
      exact (List.prefix_append _ _).sublist.subperm
    · intro buf' hmem hset
      have hmem' : buf' ∈ s.world.app.tx.toList ++ s.world.app.txQueue.queue.reduceOption := by
        rw [← hfree]
        exact hmem
      apply Slot.inUse_clear _ hset
      rintro rfl
      exact (List.nodup_append.mp hnodup).2.2 _ hmem' _ List.mem_cons_self rfl

/-- A piece of the frame is written, or none. -/
theorem System.Lined.write {result : SendResult} (h : s.Lined) (hu : Unfailing s (.write result))
    (hrun : s.write cfg result = some s') : s'.Lined := by
  unfold System.write at hrun
  dsimp only at hrun
  cases htx : s.worker.tx with
  | none =>
    rw [htx] at hrun
    cases hrun
    unfold System.Lined at h
    rw [htx] at h
    exact h
  | some buf =>
    unfold System.Lined at h
    rw [htx] at hrun h
    have halive : s.world.app.state ≠ .closed := by
      intro hclosed
      have hnone := (h.shut hclosed).2
      cases hnone
    obtain ⟨frames, hdequeued, hfailed, hwire⟩ := h.written
    cases result with
    | accepted count =>
      dsimp only at hrun
      generalize hd : s.world.app.txQueue.data buf = data at hdequeued hwire hrun
      -- the line behind the piece, with the frame still under way
      have hline : Line (updateApp (fun c =>
          { c with record := { c.record with
            wire := c.record.wire ++ (data.drop s.worker.txPos).take count } }) s.world) (some buf)
          (s.worker.txPos + count) := by
        refine ⟨h.sound.still rfl ⟨rfl, rfl, rfl, rfl⟩, ⟨h.owned.nodup, h.owned.flagged⟩, h.shut,
          frames, ?_, fun hf => ?_, fun hf => ?_⟩
        · exact hdequeued.trans (congrArg (fun d => _ ++ [d]) hd.symm)
        · show s.world.app.record.wire ++ _ <+: _
          rw [hu hf, List.take_zero, List.append_nil]
          exact hfailed hf
        · show s.world.app.record.wire ++ _ = _ ++ (s.world.app.txQueue.data buf).take _
          rw [hwire hf, hd, List.take_add, List.append_assoc]
      split_ifs at hrun with haccept hall
      · cases hrun
        refine System.freeTx_lined hline.sound hline.owned halive hline.written.of_taken fun hf => ?_
        show s.world.app.record.wire ++ _ = s.world.app.record.dequeued.flatten
        rw [hwire hf, hdequeued, hall, List.take_length, List.append_assoc, List.take_append_drop,
          List.flatten_append, List.flatten_singleton]
      · cases hrun
        exact hline
    | wouldBlock =>
      cases hrun
      exact h
    | failed =>
      cases hrun
      exact System.freeTx_lined (h.sound.still rfl ⟨rfl, rfl, rfl, rfl⟩)
        ⟨h.owned.nodup, h.owned.flagged⟩ halive h.written.of_taken nofun

theorem System.Lined.read {result : RecvResult} (h : s.Lined) (hrun : s.read cfg result = some s') :
    s'.Lined := by
  have halloc : s.worker.allocRx.tx = s.worker.tx ∧ s.worker.allocRx.txPos = s.worker.txPos := by
    unfold Worker.allocRx
    split <;> exact ⟨rfl, rfl⟩
  unfold System.Lined at h ⊢
  rw [← halloc.1, ← halloc.2] at h
  unfold System.read at hrun
  dsimp only at hrun
  by_cases hrx : s.worker.allocRx.rx ≠ some []
  · rw [if_pos hrx] at hrun
    cases hrun
    exact h
  · rw [if_neg hrx] at hrun
    cases result with
    | received bytes =>
      dsimp only at hrun
      split_ifs at hrun
      cases hrun
      exact h.aside (h.sound.still rfl ⟨rfl, rfl, rfl, rfl⟩) rfl rfl rfl rfl rfl rfl
    | wouldBlock =>
      cases hrun
      exact h
    | noSocket =>
      cases hrun
      exact h
    | ended =>
      cases hrun
      exact h.close cfg.order closeAbnormal2 .null

theorem System.Lined.parse (h : s.Lined) (hrun : s.parse cfg = some s') : s'.Lined := by
  unfold System.parse at hrun
  dsimp only at hrun
  split at hrun
  · cases hrun
    exact h
  · cases hrun
    exact h
  · obtain ⟨⟨n, w'⟩, hparse, rfl⟩ := Option.map_eq_some_iff.mp hrun
    exact Line.wicParse cfg.order h hparse

theorem System.Lined.poll (h : s.Lined) (hrun : s.poll cfg = some s') : s'.Lined := by
  unfold System.poll at hrun
  dsimp only at hrun
  split_ifs at hrun with hstate
  · obtain ⟨⟨n, w'⟩, hparse, rfl⟩ := Option.map_eq_some_iff.mp hrun
    exact Line.wicParse cfg.order h hparse
  · cases hrun
    exact h

theorem System.Lined.post (h : s.Lined) (request : Request) : (s.post request).Lined := by
  cases request with
  | connect url n =>
    unfold System.post
    dsimp only
    split_ifs
    · exact h.aside (h.sound.still rfl ⟨rfl, rfl, rfl, rfl⟩) rfl rfl rfl rfl rfl rfl
    · exact h.aside (h.sound.push rfl rfl rfl rfl fun _ => ⟨nofun, rfl⟩) rfl rfl rfl rfl rfl rfl
  | close => exact h.aside (h.sound.push rfl rfl rfl rfl fun _ => ⟨nofun, rfl⟩) rfl rfl rfl rfl rfl rfl
  | send encoding fin data =>
    exact h.aside (h.sound.push rfl rfl rfl rfl fun _ => ⟨nofun, rfl⟩) rfl rfl rfl rfl rfl rfl

theorem System.Lined.readJob (h : s.Lined) (request : Request) : (s.readJob request).Lined := by
  cases request with
  | connect url n =>
    unfold System.readJob
    dsimp only
    split
    · exact h
    · exact h.aside (h.sound.still rfl ⟨rfl, rfl, rfl, rfl⟩) rfl rfl rfl rfl rfl rfl
  | close => exact h
  | send encoding fin data =>
    unfold System.readJob
    dsimp only
    split
    · exact h
    · exact h.aside (h.sound.still rfl ⟨rfl, rfl, rfl, rfl⟩) rfl rfl rfl rfl rfl rfl

theorem System.Lined.stepCaller (h : s.Lined) (hrun : s.stepCaller = some s') : s'.Lined := by
  unfold System.stepCaller at hrun
  rcases hc : s.caller with - | ⟨request, phase⟩
  · rw [hc] at hrun
    cases hrun
  rw [hc] at hrun
  cases phase with
  | reset =>
    cases hrun
    exact h.aside (h.sound.still rfl ⟨rfl, rfl, rfl, rfl⟩) rfl rfl rfl rfl rfl rfl
  | post =>
    cases hrun
    exact h.post request
  | wait =>
    dsimp only at hrun
    split_ifs at hrun
    cases hrun
    exact h
  | read =>
    cases hrun
    exact h.readJob request

/-- **One step.** -/
theorem System.Lined.step {action : Action} (h : s.Lined) (hu : Unfailing s action)
    (hrun : step cfg action s = some s') : s'.Lined := by
  unfold Mbed.step at hrun
  split at hrun
  · unfold System.call at hrun
    split at hrun
    · cases hrun
    · cases hrun
      exact h.aside (h.sound.still rfl ⟨rfl, rfl, rfl, rfl⟩) rfl rfl rfl rfl rfl rfl
  · exact h.stepCaller hrun
  · split at hrun
    · cases hrun
    · cases hrun
      exact h.aside (h.sound.still rfl ⟨rfl, rfl, rfl, rfl⟩) rfl rfl rfl rfl rfl rfl
  · split_ifs at hrun with htimeout
    cases hrun
    -- only a handshake has a timeout
    have hwaits : Handshaking s.world := by
      by_contra hnot
      have huntimed := (h.sound.untimed hnot).timeout
      rw [htimeout] at huntimed
      cases huntimed
    exact h.aside (h.sound.push rfl rfl rfl rfl fun hnot => absurd hwaits hnot) rfl rfl rfl rfl rfl rfl
  · obtain ⟨w', hdispatch, rfl⟩ := Option.map_eq_some_iff.mp hrun
    exact Line.dispatchEvents cfg.order h hdispatch
  · exact h.poll hrun
  · exact h.read hrun
  · exact h.parse hrun
  · cases hrun
    exact h.take
  · exact h.write hu hrun
  · cases hrun

theorem System.Lined.initial (rxMax txMax urlMax : Nat) (rand : Nat → UInt32)
    (unset : Stream → Inst → Record → Bool) :
    (initial rxMax txMax urlMax rand unset).Lined where
  sound := ⟨rfl, ⟨none, [], rfl, rfl⟩, fun hne => absurd rfl hne, rfl, rfl, rfl, rfl⟩
  owned := ⟨List.nodup_nil, nofun⟩
  shut _ := ⟨rfl, rfl⟩
  written := ⟨List.prefix_refl _, fun _ _ => rfl⟩

/-- **Whole frames only**: where a socket that has failed accepts no more, the bytes it has accepted
are a prefix of the frames taken from the queue. -/
theorem Reaches.whole_frames (h : Reaches cfg Unfailing s) :
    s.world.app.record.wire <+: s.world.app.record.dequeued.flatten := by
  have hlined : s.Lined := by
    induction h with
    | initial rxMax txMax urlMax rand unset => exact .initial rxMax txMax urlMax rand unset
    | step _ hmeets hstep ih => exact ih.step hmeets hstep
  exact hlined.written.of_taken

end System

namespace Session

/-- A `connect` whose request is written in two pieces. -/
def pieces : List Action :=
  connecting ++ [.poll, .read .wouldBlock, .parse, .take, .write (.accepted 100), .dispatch {}, .poll,
    .read .wouldBlock, .parse, .take, .write (.accepted 48)]

/-- A request that is given up after ten bytes, and a frame behind it. -/
def givenUp : List Action :=
  connecting ++ [.poll, .read (.received Wic.Sample.response), .parse, .take, .write (.accepted 10),
    .caller, .caller, .dispatch {}, .poll, .read .wouldBlock, .parse, .take, .write .failed,
    .call (.send .binary true ⟨[1, 2, 3], word_lt⟩), .caller, .caller, .dispatch {}, .poll,
    .read .wouldBlock, .parse, .take, .write (.accepted 9)]

end Session

open Session

/-- A request that is written in two pieces. -/
theorem whole_frames_pieces : ∃ s, Reaches build Unfailing s ∧ s.world.app.record.wire.length = 148 ∧
    s.world.app.record.wire <+: s.world.app.record.dequeued.flatten := by
  have hn : (runWhere build Unfailing pieces (client 1000)).map (·.world.app.record.wire.length) =
      some 148 := by decide +kernel
  obtain ⟨s, hs, hlength⟩ := reaches_of_run hn
  exact ⟨s, hs, hlength, hs.whole_frames⟩

/-- Where `send` fails once, the next frame follows ten bytes of the request. -/
theorem frame_abandoned : ∃ s, Reaches build (fun _ _ => True) s ∧
    ¬ s.world.app.record.wire <+: s.world.app.record.dequeued.flatten := by
  have hn : (runWhere build (fun _ _ => True) givenUp (client 1000)).map
      (fun s => decide (s.world.app.record.wire <+: s.world.app.record.dequeued.flatten)) =
        some false := by decide +kernel
  obtain ⟨s, hs, hprefix⟩ := reaches_of_run hn
  exact ⟨s, hs, of_decide_eq_false hprefix⟩

end Wic.Mbed
