import Wic.Handshake.Request
import Wic.Receiver.Lawful

/-!
# Callbacks that make any call

The callbacks of an application may call back into the interface from everywhere: from `on_buffer`,
from `on_send` and from `rand` as well, and they may call `wic_start`. Only `wic_parse` and
`wic_init` are left out. What such a callback can do to the instance is little all the same: it
leaves the receiver and the parser of the handshake alone, and moves the state only forward.

A callback is trusted with this only as long as the instance it is given satisfies `I`. So a fact `I`
that holds in every world a run reaches also holds whenever a callback is entered, for a callback
that finds it broken may do anything.

## Main definitions

* `Acts`, `Free`: what such a callback may do
* `Moves`: what it changes
* `Inst.Kept`: the invariant it is trusted with

## Main results

* `Call.run_steps`, `startClient_steps`: calls move the instance
* `Free.steps`: so do callbacks, at every depth
-/

namespace Wic

variable {σ : Type}

/-- Calls of the interface, made with the callbacks `cb`, and changes of the application's own. -/
inductive Acts (cb : Callbacks σ) : World σ → World σ → Prop
  | refl (w) : Acts cb w w
  | edit {w w' w''} : Edits w w' → Acts cb w' w'' → Acts cb w w''
  | call {c w w'} : Acts cb (Call.run cb c w) w' → Acts cb w w'
  | start {fuel status w w' w''} :
    wicStart cb fuel w = some (status, w') → Acts cb w' w'' → Acts cb w w''

/-- Every callback relates the worlds around it by `P`. -/
structure Callbacks.Each (cb : Callbacks σ) (P : World σ → World σ → Prop) : Prop where
  onMessage (encoding fin data w) : P w (cb.onMessage encoding fin data w).2
  onOpen (w) : P w (cb.onOpen w)
  onClose (code reason w) : P w (cb.onClose code reason w)
  onCloseTransport (w) : P w (cb.onCloseTransport w)
  onHandshakeFailure (reason w) : P w (cb.onHandshakeFailure reason w)
  onPing (w) : P w (cb.onPing w)
  onPong (w) : P w (cb.onPong w)
  rand (w) : P w (cb.rand w).2
  onSend (buf data type w) : P w (cb.onSend buf data type w)
  onBuffer (minSize type w) : P w (cb.onBuffer minSize type w).2

theorem Callbacks.Each.imp {P Q : World σ → World σ → Prop} (hPQ : ∀ w w', P w w' → Q w w')
    {cb : Callbacks σ} (h : cb.Each P) : cb.Each Q where
  onMessage _ _ _ _ := hPQ _ _ (h.onMessage _ _ _ _)
  onOpen _ := hPQ _ _ (h.onOpen _)
  onClose _ _ _ := hPQ _ _ (h.onClose _ _ _)
  onCloseTransport _ := hPQ _ _ (h.onCloseTransport _)
  onHandshakeFailure _ _ := hPQ _ _ (h.onHandshakeFailure _ _)
  onPing _ := hPQ _ _ (h.onPing _)
  onPong _ := hPQ _ _ (h.onPong _)
  rand _ := hPQ _ _ (h.rand _)
  onSend _ _ _ _ := hPQ _ _ (h.onSend _ _ _ _)
  onBuffer _ _ _ := hPQ _ _ (h.onBuffer _ _ _)

/-- Callbacks that may make any call but `wic_parse` and `wic_init`, whose callbacks may make any
call too, and so on to some depth. They keep to this while the instance they are given satisfies
`I`. -/
inductive Free (I : Inst → Prop) : Callbacks σ → Prop
  | passive {cb} : cb.Each (fun w w' => I w.inst → Edits w w') → Free I cb
  | nested {inner cb} :
    Free I inner → cb.Each (fun w w' => I w.inst → Acts inner w w') → Free I cb

/-! ## What a call changes -/

/-- Where calls move the state. -/
def State.Moves (s t : State) : Prop :=
  t = s ∨ t = .closed ∨ s = .ready ∧ t = .open ∨ s = .init ∧ t = .parseHandshake

namespace State.Moves

theorem refl (s : State) : s.Moves s := .inl rfl

theorem trans {s t u : State} (h : s.Moves t) (h' : t.Moves u) : s.Moves u := by
  rcases h with rfl | rfl | ⟨rfl, rfl⟩ | ⟨rfl, rfl⟩
  · exact h'
  · exact .inr (.inl (by simpa [Moves] using h'))
  · rcases (by simpa [Moves] using h' : u = .open ∨ u = .closed) with rfl | rfl
    · exact .inr (.inr (.inl ⟨rfl, rfl⟩))
    · exact .inr (.inl rfl)
  · rcases (by simpa [Moves] using h' : u = .parseHandshake ∨ u = .closed) with rfl | rfl
    · exact .inr (.inr (.inr ⟨rfl, rfl⟩))
    · exact .inr (.inl rfl)

theorem closed {t : State} (h : State.closed.Moves t) : t = .closed := by
  simpa [Moves] using h

theorem open_or {t : State} (h : State.open.Moves t) : t = .open ∨ t = .closed := by
  simpa [Moves] using h

end State.Moves

/-- The fields a call writes, and the direction of the state. -/
structure Moves (w w' : World σ) : Prop where
  inst : w'.inst = { w.inst with
    state := w'.inst.state, frag := w'.inst.frag, utf8Tx := w'.inst.utf8Tx, pos := w'.inst.pos,
    txHeader := w'.inst.txHeader, hash := w'.inst.hash }
  state : w.inst.state.Moves w'.inst.state

namespace Moves

variable {w w' w'' : World σ}

theorem refl (w : World σ) : Moves w w := ⟨rfl, .refl _⟩

theorem trans (h : Moves w w') (h' : Moves w' w'') : Moves w w'' :=
  ⟨by rw [h'.inst, h.inst], h.state.trans h'.state⟩

theorem of_inst (h : w'.inst = w.inst) : Moves w w' :=
  ⟨by rw [h], by rw [h]; exact .refl _⟩

theorem emit (e : Event) : Moves w (w.emit e) := .of_inst rfl

theorem edits (h : Edits w w') : Moves w w' := .of_inst h.inst

theorem setClosed : Moves w (w.setState .closed) := ⟨rfl, .inr (.inl rfl)⟩

theorem advance (done : Progress → Progress) : Moves w (w.update (Inst.advance done)) :=
  ⟨rfl, .refl _⟩

theorem rx (h : Moves w w') : w'.inst.rx = w.inst.rx := by rw [h.inst]

theorem http (h : Moves w w') : w'.inst.http = w.inst.http := by rw [h.inst]

theorem utf8Rx (h : Moves w w') : w'.inst.utf8Rx = w.inst.utf8Rx := by rw [h.inst]

end Moves

/-! ## The invariant -/

/-- What holds of the receiver in every state. -/
structure RxFrame.Based (rx : RxFrame) : Prop where
  ok : rx.s.Ok
  writable : rx.s.writable = true
  frag : rx.frag.isData = true

/-- What holds of an instance whenever a callback is entered and between calls: before the upgrade
no frame is under reception, and the frame under reception of an open instance is lawful. -/
structure Inst.Kept (i : Inst) : Prop where
  based : i.rx.Based
  fresh : i.state = .init ∨ i.state = .parseHandshake ∨ i.state = .ready → i.rx.state = .opcode
  lawful : i.state = .open → i.rx.state ≠ .opcode → i.rx.Lawful

theorem Inst.Kept.of_closed {i : Inst} (h : i.rx.Based) (hs : i.state = .closed) : i.Kept :=
  ⟨h, by simp [hs], by simp [hs]⟩

/-- Calls keep the invariant. -/
theorem Moves.kept {w w' : World σ} (h : Moves w w') (hw : w.inst.Kept) : w'.inst.Kept := by
  obtain ⟨hbased, hfresh, hlawful⟩ := hw
  rw [← h.rx] at hbased hfresh hlawful
  rcases h.state with hs | hs | ⟨hs, hs'⟩ | ⟨hs, hs'⟩
  · rw [← hs] at hfresh hlawful
    exact ⟨hbased, hfresh, hlawful⟩
  · exact .of_closed hbased hs
  · have hopcode := hfresh (.inr (.inr hs))
    exact ⟨hbased, by simp [hs'], fun _ hne => absurd hopcode hne⟩
  · have hopcode := hfresh (.inl hs)
    exact ⟨hbased, fun _ => hopcode, by simp [hs']⟩

/-- A step that moves the instance, from a world that satisfies the invariant. -/
def Steps (w w' : World σ) : Prop := w.inst.Kept → Moves w w'

namespace Steps

variable {w w' w'' : World σ}

theorem refl (w : World σ) : Steps w w := fun _ => .refl w

theorem trans (h : Steps w w') (h' : Steps w' w'') : Steps w w'' := fun hw =>
  (h hw).trans (h' ((h hw).kept hw))

end Steps

theorem Moves.steps {w w' : World σ} (h : Moves w w') : Steps w w' := fun _ => h

/-! ## Sending -/

section Calls

variable {cb : Callbacks σ} {w : World σ}

theorem lease_steps (hcb : cb.Each Steps) (n : Nat) (type : BufferType) :
    Steps w (lease cb n type w).2 :=
  (hcb.onBuffer n type w).trans (Moves.emit _).steps

theorem handOver_steps (hcb : cb.Each Steps) (tx : Stream) (count : Nat) (type : BufferType) :
    Steps w (handOver cb tx count type w) :=
  (Moves.emit _).steps.trans (hcb.onSend _ _ _ _)

theorem initMask_steps (hcb : cb.Each Steps) (f : TxFrame) : Steps w (initMask cb f w).2 := by
  unfold initMask
  cases w.inst.rand with
  | false => exact .refl w
  | true => exact hcb.rand w

theorem streamPutFrame_world (cb : Callbacks σ) (f : TxFrame) (w : World σ) :
    (streamPutFrame cb f w).2.2 =
      (lease cb (minFrameSize f.opcode f.masked f.payload.bytes.length) f.type w).2 := by
  unfold streamPutFrame
  dsimp only
  rcases lease cb (minFrameSize f.opcode f.masked f.payload.bytes.length) f.type w with
    ⟨⟨_ | buf, max⟩, w'⟩ <;> dsimp only <;> split_ifs <;> rfl

theorem putAndSend_steps (hcb : cb.Each Steps) (f : TxFrame) (done : Progress → Progress) :
    Steps w (putAndSend cb f (Inst.advance done) w).2 := by
  have hmask : Steps w (initMask cb f w).2 := initMask_steps hcb f
  unfold putAndSend
  generalize initMask cb f w = r at hmask ⊢
  obtain ⟨f, w₁⟩ := r
  have hput := streamPutFrame_world cb f w₁
  have hlease : Steps w₁ (streamPutFrame cb f w₁).2.2 := by
    rw [hput]
    exact lease_steps hcb _ _
  dsimp only
  generalize streamPutFrame cb f w₁ = r at hlease ⊢
  obtain ⟨status, tx, w₂⟩ := r
  have hupto : Steps w w₂ := hmask.trans hlease
  cases status with
  | success =>
    exact hupto.trans ((Moves.advance done).steps.trans (handOver_steps hcb tx tx.pos f.type))
  | _ => exact hupto

theorem allowedToSend_moves : Moves w (allowedToSend w).2 := by
  unfold allowedToSend
  split_ifs with h
  · exact ⟨rfl, .inr (.inr (.inl ⟨h.2, rfl⟩))⟩
  · exact .refl w

theorem Send.run_steps (hcb : cb.Each Steps) (send : Send) : Steps w (send.run cb w).2 := by
  rw [send.run_eq]
  refine allowedToSend_moves.steps.trans (Steps.trans ?_ (Moves.emit _).steps)
  split
  · unfold attempt
    split
    · exact .refl _
    · exact putAndSend_steps hcb _ _
  · exact .refl _

theorem sendPongWithPayload_steps (hcb : cb.Each Steps) (data : Payload) :
    Steps w (sendPongWithPayload cb data w).2 := by
  have hallowed : Moves w (allowedToSend w).2 := allowedToSend_moves
  refine hallowed.steps.trans ?_
  unfold sendPongWithPayload
  generalize allowedToSend w = r
  obtain ⟨allowed, w₁⟩ := r
  cases allowed with
  | false => exact .refl w₁
  | true => exact putAndSend_steps hcb _ id

/-! ## Closing -/

theorem callOnOpen_steps (hcb : cb.Each Steps) : Steps w (callOnOpen cb w) := by
  unfold callOnOpen
  split_ifs
  · exact (Moves.emit _).steps.trans (hcb.onOpen _)
  · exact .refl w

theorem callOnClose_steps (hcb : cb.Each Steps) (code : UInt16) (reason : List UInt8) :
    Steps w (callOnClose cb code reason w) := by
  unfold callOnClose
  split_ifs
  · exact (Moves.emit _).steps.trans (hcb.onClose _ _ _)
  · exact .refl w

theorem callOnCloseTransport_steps (hcb : cb.Each Steps) :
    Steps w (callOnCloseTransport cb w) := by
  unfold callOnCloseTransport
  split_ifs
  · exact (Moves.emit _).steps.trans (hcb.onCloseTransport _)
  · exact .refl w

theorem callOnHandshakeFailure_steps (hcb : cb.Each Steps) (reason : HandshakeFailure) :
    Steps w (callOnHandshakeFailure cb reason w) := by
  unfold callOnHandshakeFailure
  split_ifs
  · exact (Moves.emit _).steps.trans (hcb.onHandshakeFailure _ _)
  · exact .refl w

theorem callOnPing_steps (hcb : cb.Each Steps) : Steps w (callOnPing cb w) := by
  unfold callOnPing
  split_ifs
  · exact (Moves.emit _).steps.trans (hcb.onPing _)
  · exact .refl w

theorem callOnPong_steps (hcb : cb.Each Steps) : Steps w (callOnPong cb w) := by
  unfold callOnPong
  split_ifs
  · exact (Moves.emit _).steps.trans (hcb.onPong _)
  · exact .refl w

theorem sendClose_steps (hcb : cb.Each Steps) (code : UInt16) (reason : Payload)
    (type : BufferType) : Steps w (sendClose cb code reason type w) := by
  unfold sendClose
  split_ifs
  · exact .refl w
  · exact putAndSend_steps hcb _ id

/-- The callbacks of the closing code meet an instance that is closed already, so that nothing needs
to be known of the frame under reception. -/
theorem closeWithReason_moves (hcb : cb.Each Steps) (h : w.inst.rx.Based) (code : UInt16)
    (reason : Payload) (type : BufferType) : Moves w (closeWithReason cb code reason type w) := by
  have hclosed : Moves w ((w.emit (.closing code)).setState .closed) :=
    (Moves.emit _).trans .setClosed
  have hkept : ((w.emit (.closing code)).setState .closed).inst.Kept := .of_closed h rfl
  unfold closeWithReason
  cases w.inst.state with
  | init => exact hclosed
  | closed => exact .refl w
  | parseHandshake =>
    exact hclosed.trans (((callOnCloseTransport_steps hcb).trans
      (callOnHandshakeFailure_steps hcb _)) hkept)
  | ready | «open» =>
    exact hclosed.trans (((sendClose_steps hcb code reason type).trans
      ((callOnCloseTransport_steps hcb).trans (callOnClose_steps hcb _ _))) hkept)

/-- An instance that was told to close is closed. -/
theorem closeWithReason_shut (hcb : cb.Each Steps) (h : w.inst.rx.Based) (code : UInt16)
    (reason : Payload) (type : BufferType) :
    (closeWithReason cb code reason type w).inst.state = .closed := by
  have hkept : ((w.emit (.closing code)).setState .closed).inst.Kept := .of_closed h rfl
  have hlast {w' : World σ} (h : Steps ((w.emit (.closing code)).setState .closed) w') :
      w'.inst.state = .closed := (h hkept).state.closed
  unfold closeWithReason
  cases hs : w.inst.state with
  | init => rfl
  | closed => exact hs
  | parseHandshake =>
    exact hlast ((callOnCloseTransport_steps hcb).trans (callOnHandshakeFailure_steps hcb _))
  | ready | «open» =>
    exact hlast ((sendClose_steps hcb code reason type).trans
      ((callOnCloseTransport_steps hcb).trans (callOnClose_steps hcb _ _)))

/-! ## Every call -/

/-- **A call moves the instance.** -/
theorem Call.run_steps (hcb : cb.Each Steps) (c : Call) : Steps w (c.run cb w) := by
  have hclose (code : UInt16) (reason : Payload) :
      Steps w (Wic.closeWithReason cb code reason .close w) := fun hw =>
    closeWithReason_moves hcb hw.based code reason .close
  cases c with
  | sendBinary fin data => exact (Send.binary fin data).run_steps hcb
  | sendText fin data => exact (Send.text fin data).run_steps hcb
  | send encoding fin data =>
    simp only [run, wicSend]
    split_ifs
    · exact (Send.binary fin data).run_steps hcb
    · exact (Send.text fin data).run_steps hcb
  | sendPing => exact (Send.ping .null).run_steps hcb
  | sendPingWithPayload data => exact (Send.ping data).run_steps hcb
  | close => exact hclose _ _
  | closeWithReason code reason => exact hclose _ _
  | setHeader header =>
    simp only [run, wicSetHeader]
    split_ifs
    · exact fun _ => ⟨rfl, .refl _⟩
    · exact .refl w
  | rewindGetNextHeader => exact fun _ => ⟨rfl, .refl _⟩
  | getNextHeader =>
    simp only [run, wicGetNextHeader]
    split_ifs
    · exact fun _ => ⟨rfl, .refl _⟩
    · exact .refl w

theorem drawNonce_steps (hcb : cb.Each Steps) (n : Nat) : Steps w (drawNonce cb n w).2 := by
  induction n generalizing w with
  | zero => exact .refl w
  | succ n ih => exact (hcb.rand w).trans ih

theorem drawKey_steps (hcb : cb.Each Steps) : Steps w (drawKey cb w).2 := by
  unfold drawKey
  split_ifs
  · exact drawNonce_steps hcb 4
  · exact .refl w

/-- **`wic_start` moves the instance.** It waits for the response even when a callback has closed
the instance meanwhile. -/
theorem startClient_steps (hcb : cb.Each Steps) {fuel : Nat} {w w' : World σ} {status : Status}
    (h : startClient cb fuel w = some (status, w')) : Steps w w' := by
  intro hw
  have hleased : Steps w (lease cb 0 .http w).2 := lease_steps hcb 0 .http
  have hstarted := startClient_started h
  generalize hr : (status, w') = r at hstarted
  cases hstarted with
  | refused =>
    cases hr
    exact .refl w
  | blocked =>
    cases hr
    exact hleased hw
  | @ended hs buf max w₁ nonce w₂ key u tx hb hk hn ht =>
    have hdrawn : Steps w₁ (drawKey cb w₁).2 := drawKey_steps hcb
    rw [hb] at hleased
    rw [hk] at hdrawn
    have hmoves : Moves w w₂ := hleased.trans hdrawn hw
    split_ifs at hr
    · cases hr
      have hhash : Moves w₂ (w₂.update fun i => { i with hash := serverHash key }) :=
        ⟨rfl, .refl _⟩
      have hboth := hmoves.trans hhash
      exact hboth.trans (handOver_steps hcb _ _ _ (hboth.kept hw))
    · cases hr
      -- the state is set without a look at what the callbacks have made of it
      have hwaits : Moves w
          ((w₂.update fun i => { i with hash := serverHash key }).setState .parseHandshake) :=
        ⟨by
          simp only [World.setState_inst, World.update_inst]
          rw [hmoves.inst], .inr (.inr (.inr ⟨hs, rfl⟩))⟩
      exact hwaits.trans (handOver_steps hcb _ _ _ (hwaits.kept hw))

/-- A sequence of calls moves the instance. -/
theorem Acts.steps (hcb : cb.Each Steps) {w w' : World σ} (h : Acts cb w w') : Steps w w' := by
  induction h with
  | refl w => exact .refl w
  | edit he _ ih => exact (Moves.edits he).steps.trans ih
  | call _ ih => exact (Call.run_steps hcb _).trans ih
  | start hrun _ ih => exact (startClient_steps hcb hrun).trans ih

end Calls

/-- **Callbacks that make any call move the instance, at every depth of nesting.** -/
theorem Free.steps {I : Inst → Prop} (hI : ∀ i : Inst, i.Kept → I i) {cb : Callbacks σ}
    (h : Free I cb) : cb.Each Steps := by
  induction h with
  | passive hcb => exact hcb.imp fun _ _ he hw => .edits (he (hI _ hw))
  | nested _ hcb ih => exact hcb.imp fun _ _ ha hw => (ha (hI _ hw)).steps ih hw

end Wic
