import Wic.Receiver.Obliging
import Wic.Runs.Invariant

/-!
# What becomes of the application

The core changes the application's own state only through callbacks. So a preorder on these states
that every callback respects is respected by every call, by `wic_start` and by `wic_parse`. The
callbacks that carry data are kept apart from the four that open and close, since many functions make
only the former.

## Main definitions

* `Callbacks.CarriesData`, `Callbacks.Carries`: callbacks that respect a preorder

## Main results

* `Call.run_carried`, `startClient_carried`, `wicParse_carried`: so do the functions of the core
-/

namespace Wic

variable {σ : Type}

/-- The callbacks that carry data take the application along a preorder. -/
structure Callbacks.CarriesData (cb : Callbacks σ) (R : σ → σ → Prop) : Prop where
  refl (a) : R a a
  trans {a b c} : R a b → R b c → R a c
  onMessage (encoding fin data w) : R w.app (cb.onMessage encoding fin data w).2.app
  onPing (w) : R w.app (cb.onPing w).app
  onPong (w) : R w.app (cb.onPong w).app
  rand (w) : R w.app (cb.rand w).2.app
  onSend (buf data type w) : R w.app (cb.onSend buf data type w).app
  onBuffer (minSize type w) : R w.app (cb.onBuffer minSize type w).2.app

/-- All callbacks take the application along a preorder. -/
structure Callbacks.Carries (cb : Callbacks σ) (R : σ → σ → Prop) : Prop
    extends cb.CarriesData R where
  onOpen (w) : R w.app (cb.onOpen w).app
  onClose (code reason w) : R w.app (cb.onClose code reason w).app
  onCloseTransport (w) : R w.app (cb.onCloseTransport w).app
  onHandshakeFailure (reason w) : R w.app (cb.onHandshakeFailure reason w).app

section Data

variable {cb : Callbacks σ} {R : σ → σ → Prop} {w : World σ}

theorem drawMask_carried (h : cb.CarriesData R) : R w.app (drawMask cb w).2.app := by
  unfold drawMask
  split_ifs
  · exact h.rand w
  · exact h.refl _

theorem handOver_carried {w' : World σ} (h : cb.CarriesData R) (happ : w'.app = w.app)
    (tx : Stream) (count : Nat) (type : BufferType) :
    R w.app (handOver cb tx count type w').app := by
  rw [← happ]
  exact h.onSend tx.base _ type (w'.emit (.send tx.base (tx.mem.take count) type))

theorem deliver_carried {w' : World σ} (h : cb.CarriesData R) (happ : w'.app = w.app) (f : TxFrame)
    (done : Inst → Inst) (buf : Option Nat) (max : Nat) :
    R w.app (deliver cb f done buf max w').2.app := by
  rw [← happ]
  unfold deliver
  split_ifs
  · cases buf with
    | none => exact h.refl _
    | some buf =>
      exact h.onSend buf f.wire f.type ((w'.update done).emit (.send buf f.wire f.type))
  · exact h.refl _

theorem putAndSend_carried (h : cb.CarriesData R) (hr : (drawMask cb w).2.inst.role = .client)
    (f : TxFrame) (done : Inst → Inst) : R w.app (putAndSend cb f done w).2.app := by
  rw [putAndSend_eq cb f done w hr]
  apply h.trans (drawMask_carried h)
  apply h.trans (h.onBuffer (f.withMask (drawMask cb w).1).wire.length f.type _)
  exact deliver_carried h (by rfl) _ _ _ _

theorem allowedToSend_app (w : World σ) : (allowedToSend w).2.app = w.app := by
  unfold allowedToSend
  split_ifs <;> rfl

/-- Behind `allowed_to_send` the instance still is a client's, once a mask has been drawn. -/
theorem drawMask_role (hp : cb.Passive) (hr : w.inst.role = .client) :
    (drawMask cb w).2.inst.role = .client := by
  unfold drawMask
  split_ifs
  · rw [(hp.rand w).inst, hr]
  · exact hr

theorem allowedToSend_role (hr : w.inst.role = .client) :
    (allowedToSend w).2.inst.role = .client := by
  unfold allowedToSend
  split_ifs <;> exact hr

theorem Send.run_carried (h : cb.CarriesData R) (hp : cb.Passive) (hr : w.inst.role = .client)
    (send : Send) : R w.app (send.run cb w).2.app := by
  have ha := allowedToSend_app w
  have hr₁ := allowedToSend_role hr
  rw [send.run_eq]
  show R w.app (World.emit _ _).app
  rw [World.emit_app, ← ha]
  split
  · unfold attempt
    split
    · exact h.refl _
    · exact putAndSend_carried h (drawMask_role hp hr₁) _ _
  · exact h.refl _

/-- Sending changes the progress at most. -/
theorem putAndSend_inst (hp : cb.Passive) (hr : w.inst.role = .client) (f : TxFrame)
    (done : Progress → Progress) :
    (putAndSend cb f (Inst.advance done) w).2.inst = w.inst ∨
      (putAndSend cb f (Inst.advance done) w).2.inst = w.inst.advance done := by
  have hdraw : (drawMask cb w).2.inst = w.inst := by
    unfold drawMask
    split_ifs
    · rw [(hp.rand w).inst]
    · rfl
  have hlend (n : Nat) (type : BufferType) (w' : World σ) :
      (lease cb n type w').2.inst = w'.inst := by
    rw [lease_inst, (hp.onBuffer n type w').inst]
  rw [putAndSend_eq cb f _ w (drawMask_role hp hr)]
  unfold deliver
  dsimp only
  split_ifs
  · split
    · right
      rw [(hp.onSend _ _ _ _).inst, World.emit_inst, World.update_inst, hlend, hdraw]
    · left
      rw [hlend, hdraw]
  · left
    rw [hlend, hdraw]

theorem Send.run_state (hp : cb.Passive) (hr : w.inst.role = .client)
    (hne : w.inst.state ≠ .ready) (send : Send) :
    (send.run cb w).2.inst.state = w.inst.state := by
  have ha : (allowedToSend w).2 = w := by
    unfold allowedToSend
    rw [if_neg fun h => hne h.2]
  rw [send.run_eq, ha]
  show (World.emit _ _).inst.state = _
  rw [World.emit_inst]
  split
  · unfold attempt
    split
    · rfl
    · next f done _ =>
      rcases putAndSend_inst hp hr f done with hinst | hinst
      · rw [hinst]
      · rw [hinst]
        rfl
  · rfl

theorem offer_carried (h : cb.CarriesData R) (encoding : Encoding) (fin : Bool) :
    R w.app (offer cb encoding fin w).2.app := by
  unfold offer
  split_ifs
  · exact h.onMessage encoding fin _ (w.emit (.message encoding fin w.inst.rx.s.payload.bytes))
  · exact h.refl _

theorem offer_inst (hp : cb.Passive) (encoding : Encoding) (fin : Bool) :
    (offer cb encoding fin w).2.inst = w.inst := by
  unfold offer
  split_ifs
  · exact (hp.onMessage encoding fin _ (w.emit (.message encoding fin w.inst.rx.s.payload.bytes))).inst
  · rfl

theorem offerAll_inst (hp : cb.Passive) (encoding : Encoding) (done : Inst → Inst) :
    (offerAll cb encoding done w).2.inst = w.inst ∨
      (offerAll cb encoding done w).2.inst = done w.inst := by
  have hoffer : (offer cb encoding w.inst.rx.fin w).2.inst = w.inst :=
    offer_inst hp encoding w.inst.rx.fin
  unfold offerAll
  dsimp only
  split_ifs
  · right
    rw [World.update_inst, hoffer]
  · exact .inl hoffer

theorem offerAll_carried (h : cb.CarriesData R) (encoding : Encoding) (done : Inst → Inst) :
    R w.app (offerAll cb encoding done w).2.app := by
  have hoffer : R w.app (offer cb encoding w.inst.rx.fin w).2.app :=
    offer_carried h encoding w.inst.rx.fin
  unfold offerAll
  dsimp only
  split_ifs
  · exact hoffer
  · exact hoffer

theorem sendPongWithPayload_carried (h : cb.CarriesData R) (hp : cb.Passive)
    (hr : w.inst.role = .client) (data : Payload) :
    R w.app (sendPongWithPayload cb data w).2.app := by
  have ha := allowedToSend_app w
  have hr₁ := allowedToSend_role hr
  unfold sendPongWithPayload
  dsimp only
  rw [← ha]
  split_ifs
  · exact putAndSend_carried h (drawMask_role hp hr₁) _ _
  · exact h.refl _

theorem callOnPing_carried (h : cb.CarriesData R) : R w.app (callOnPing cb w).app := by
  unfold callOnPing
  split_ifs
  · exact h.onPing (w.emit .onPing)
  · exact h.refl _

theorem callOnPong_carried (h : cb.CarriesData R) : R w.app (callOnPong cb w).app := by
  unfold callOnPong
  split_ifs
  · exact h.onPong (w.emit .onPong)
  · exact h.refl _

theorem drawNonce_carried (h : cb.CarriesData R) (n : Nat) (w : World σ) :
    R w.app (drawNonce cb n w).2.app := by
  induction n generalizing w with
  | zero => exact h.refl _
  | succ n ih => exact h.trans (h.rand w) (ih _)

theorem startClient_carried (h : cb.CarriesData R) {fuel : Nat} {status : Status} {w' : World σ}
    (hrun : startClient cb fuel w = some (status, w')) : R w.app w'.app := by
  have hlend : R w.app (lease cb 0 .http w).2.app := h.onBuffer 0 .http w
  have hstarted := startClient_started hrun
  generalize hres : (status, w') = r at hstarted
  cases hstarted with
  | refused =>
    cases hres
    exact h.refl _
  | blocked =>
    cases hres
    exact hlend
  | @ended hs buf max w₁ nonce w₂ key u tx hb hk hn ht =>
    have hkey : R w₁.app w₂.app := by
      have hdraw : R w₁.app (drawKey cb w₁).2.app := by
        unfold drawKey
        split_ifs
        · exact drawNonce_carried h 4 w₁
        · exact h.refl _
      rwa [hk] at hdraw
    rw [hb] at hlend
    apply h.trans (h.trans hlend hkey)
    split_ifs at hres
    · cases hres
      exact handOver_carried h (by rfl) _ _ _
    · cases hres
      exact handOver_carried h (by rfl) _ _ _

end Data

section Control

variable {cb : Callbacks σ} {R : σ → σ → Prop} {w : World σ}

theorem callOnOpen_carried (h : cb.Carries R) : R w.app (callOnOpen cb w).app := by
  unfold callOnOpen
  split_ifs
  · exact h.onOpen (w.emit .onOpen)
  · exact h.refl _

theorem callOnClose_carried (h : cb.Carries R) (code : UInt16) (reason : List UInt8) :
    R w.app (callOnClose cb code reason w).app := by
  unfold callOnClose
  split_ifs
  · exact h.onClose code reason (w.emit (.onClose code reason))
  · exact h.refl _

theorem callOnCloseTransport_carried (h : cb.Carries R) :
    R w.app (callOnCloseTransport cb w).app := by
  unfold callOnCloseTransport
  split_ifs
  · exact h.onCloseTransport (w.emit .onCloseTransport)
  · exact h.refl _

theorem callOnHandshakeFailure_carried (h : cb.Carries R) (reason : HandshakeFailure) :
    R w.app (callOnHandshakeFailure cb reason w).app := by
  unfold callOnHandshakeFailure
  split_ifs
  · exact h.onHandshakeFailure reason (w.emit (.onHandshakeFailure reason))
  · exact h.refl _

theorem sendClose_carried (h : cb.CarriesData R) (hp : cb.Passive) (hr : w.inst.role = .client)
    (code : UInt16) (reason : Payload) (type : BufferType) :
    R w.app (sendClose cb code reason type w).app := by
  unfold sendClose
  split_ifs
  · exact h.refl _
  · exact putAndSend_carried h (drawMask_role hp hr) _ _

theorem closeWithReason_carried (h : cb.Carries R) (hp : cb.Passive) (hr : w.inst.role = .client)
    (code : UInt16) (reason : Payload) (type : BufferType) :
    R w.app (closeWithReason cb code reason type w).app := by
  unfold closeWithReason
  cases w.inst.state with
  | init | closed => exact h.refl _
  | parseHandshake =>
    refine h.trans ?_ (callOnHandshakeFailure_carried h _)
    exact callOnCloseTransport_carried (w := (w.emit (.closing code)).setState .closed) h
  | ready | «open» =>
    have hframe : R w.app
        (sendClose cb code reason type ((w.emit (.closing code)).setState .closed)).app :=
      sendClose_carried (w := (w.emit (.closing code)).setState .closed) h.toCarriesData hp hr _ _ _
    exact h.trans (h.trans hframe (callOnCloseTransport_carried h)) (callOnClose_carried h _ _)

theorem finish_carried (h : cb.Carries R) (hp : cb.Passive) (hr : w.inst.role = .client) :
    R w.app (finish cb w).2.app := by
  unfold finish
  dsimp only
  split
  · split_ifs
    · exact offerAll_carried h.toCarriesData _ _
    · exact offerAll_carried h.toCarriesData _ _
    · exact closeWithReason_carried h hp hr _ _ _
  · exact offerAll_carried h.toCarriesData _ _
  · obtain ⟨code, reason, heq, -⟩ := finishClose_eq cb w
    rw [heq]
    exact closeWithReason_carried h hp hr _ _ _
  · have hpong := sendPongWithPayload_carried h.toCarriesData hp hr w.inst.rx.s.payload
    split
    · next heq =>
      rw [heq] at hpong
      exact hpong
    · next heq =>
      rw [heq] at hpong
      exact h.trans hpong (callOnPing_carried h.toCarriesData)
  · exact callOnPong_carried h.toCarriesData
  · exact h.refl _

theorem passOn_carried (h : cb.CarriesData R) : R w.app (passOn cb w).2.app := by
  unfold passOn
  split
  · exact offer_carried h .utf8 false
  · exact offer_carried h .binary false
  · exact h.refl _

theorem settle_carried (h : cb.Carries R) (hp : cb.Passive) (hr : w.inst.role = .client) :
    R w.app (settle cb w).2.app := by
  unfold settle
  split
  · split_ifs
    · have hfinish := finish_carried h hp hr
      dsimp only
      split_ifs
      · exact hfinish
      · exact hfinish
    · have hpass : R w.app (passOn cb w).2.app := passOn_carried h.toCarriesData
      rw [flush_eq]
      dsimp only
      split_ifs
      · exact hpass
      · exact hpass
    · exact h.refl _
  · exact h.refl _

theorem consume_carried (h : cb.Carries R) (hp : cb.Passive) (hr : w.inst.role = .client)
    (b : UInt8) : R w.app (consume cb b w).app := by
  have hobeys := consume_obeys cb w b
  generalize consume cb b w = w' at hobeys ⊢
  cases hobeys with
  | stays f => exact h.refl _
  | closes f g code type =>
    exact closeWithReason_carried (w := w.updateRx f) h hp hr _ _ _

theorem afterHttp_carried (h : cb.Carries R) : R w.app (afterHttp cb w).app := by
  unfold afterHttp
  split
  · rw [World.setState_app]
    exact h.trans (callOnCloseTransport_carried h) (callOnHandshakeFailure_carried h _)
  · split
    · exact callOnOpen_carried h
    · exact h.refl _

theorem Call.run_carried (h : cb.Carries R) (hp : cb.Passive) (hr : w.inst.role = .client)
    (c : Call) : R w.app (c.run cb w).app := by
  cases c with
  | sendBinary fin data => exact (Send.binary fin data).run_carried h.toCarriesData hp hr
  | sendText fin data => exact (Send.text fin data).run_carried h.toCarriesData hp hr
  | send encoding fin data =>
    simp only [run, wicSend]
    split_ifs
    · exact (Send.binary fin data).run_carried h.toCarriesData hp hr
    · exact (Send.text fin data).run_carried h.toCarriesData hp hr
  | sendPing => exact (Send.ping .null).run_carried h.toCarriesData hp hr
  | sendPingWithPayload data => exact (Send.ping data).run_carried h.toCarriesData hp hr
  | close => exact closeWithReason_carried h hp hr _ _ _
  | closeWithReason code reason => exact closeWithReason_carried h hp hr _ _ _
  | setHeader header =>
    simp only [run, wicSetHeader]
    split_ifs
    · exact h.refl _
    · exact h.refl _
  | rewindGetNextHeader => exact h.refl _
  | getNextHeader =>
    simp only [run, wicGetNextHeader]
    split_ifs
    · exact h.refl _
    · exact h.refl _

/-- **`wic_parse` takes the application along.** -/
theorem wicParse_carried (h : cb.Carries R) (hp : cb.Passive) (hi : Invariant w)
    {data : List UInt8} {n : Nat} {w' : World σ} (hrun : wicParse cb data w = some (n, w')) :
    R w.app w'.app := by
  have hq : cb.Respect (QuietAt False) := hp.quiet
  obtain ⟨n', w'', hrun', -, hR⟩ := wicParse_induction (fun w' => R w.app w'.app) hq hi data
    (fun _ hR => by
      have happ : (httpParserExecute data w).2.app = w.app := (httpParserExecute_parsing data).app
      have hafter : R (httpParserExecute data w).2.app _ := afterHttp_carried h
      rw [happ] at hafter
      exact h.trans hR hafter)
    (fun _ hl hR => h.trans hR (settle_carried h hp hl.role))
    (fun _ b hl _ hR => h.trans hR (consume_carried h hp hl.role b))
    (fun _ _ _ hR => hR) (h.refl _)
  rw [hrun] at hrun'
  obtain ⟨-, rfl⟩ := Prod.mk.inj (Option.some.inj hrun')
  exact hR

end Control

end Wic
