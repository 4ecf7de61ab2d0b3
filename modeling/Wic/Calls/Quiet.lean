import Wic.Model.Api
import Wic.Sender.Progress

/-!
# What a call changes

A call of the interface and a callback that makes calls leave the receiver and the parser of the
handshake alone, move the state only forward, and add entries of a known kind to the trace. These
facts are stated as one relation between the worlds before and after, `Quiet`, which is reflexive
and transitive, so that it passes from the calls to the callbacks that make them, to the calls those
callbacks meet, and so on to every depth of nesting.

## Main definitions

* `Callbacks.Respect`, `Lifts`: a relation that holds of callbacks, and one that passes from calls
  to callbacks
* `Inst.SameReceiver`, `State.Leads`, `Event.OfCall`, `Quiet`: what a call may change
* `TxFrame.Proper`, `Call.Small`: well formed frames, and the calls that only send such

## Main results

* `Lifts.respect`: what passes from calls to callbacks holds at every depth
* `Call.run_quiet`: every call is quiet
-/

namespace Wic

variable {σ : Type}

/-! ## Relations on callbacks -/

/-- Every callback relates the world before to the world after by `P`; the callbacks that make no
calls change only what is the application's own. -/
structure Callbacks.Respect (cb : Callbacks σ) (P : Caller → World σ → World σ → Prop) :
    Prop where
  onMessage (encoding fin data w) : P .callback w (cb.onMessage encoding fin data w).2
  onOpen (w) : P .onOpen w (cb.onOpen w)
  onClose (code reason w) : P .callback w (cb.onClose code reason w)
  onCloseTransport (w) : P .callback w (cb.onCloseTransport w)
  onHandshakeFailure (reason w) : P .callback w (cb.onHandshakeFailure reason w)
  onPing (w) : Edits w (cb.onPing w)
  onPong (w) : Edits w (cb.onPong w)
  rand (w) : Edits w (cb.rand w).2
  onSend (buf data type w) : Edits w (cb.onSend buf data type w)
  onBuffer (minSize type w) : Edits w (cb.onBuffer minSize type w).2

/-- Callbacks that respect a relation respect a weaker one. -/
theorem Callbacks.Respect.imp {P Q : Caller → World σ → World σ → Prop}
    (hPQ : ∀ caller w w', P caller w w' → Q caller w w') {cb : Callbacks σ} (h : cb.Respect P) :
    cb.Respect Q where
  onMessage _ _ _ w := hPQ _ _ _ (h.onMessage _ _ _ w)
  onOpen w := hPQ _ _ _ (h.onOpen w)
  onClose _ _ w := hPQ _ _ _ (h.onClose _ _ w)
  onCloseTransport w := hPQ _ _ _ (h.onCloseTransport w)
  onHandshakeFailure _ w := hPQ _ _ _ (h.onHandshakeFailure _ w)
  onPing := h.onPing
  onPong := h.onPong
  rand := h.rand
  onSend := h.onSend
  onBuffer := h.onBuffer

/-- A preorder that holds of the application's own changes, and of every allowed call whose
callbacks respect it. -/
structure Lifts (allowed : Caller → Call → Prop) (P : Caller → World σ → World σ → Prop) :
    Prop where
  refl (caller w) : P caller w w
  trans {caller w w' w''} : P caller w w' → P caller w' w'' → P caller w w''
  edit {caller w w'} : Edits w w' → P caller w w'
  call {caller c} {inner : Callbacks σ} (w) :
    allowed caller c → inner.Respect P → P caller w (c.run inner w)

section Lifts

variable {allowed : Caller → Call → Prop} {P : Caller → World σ → World σ → Prop}

theorem Lifts.does (h : Lifts allowed P) {cb : Callbacks σ} (hcb : cb.Respect P) {caller : Caller}
    {w w' : World σ} (hd : Does cb (allowed caller) w w') : P caller w w' := by
  induction hd with
  | refl w => exact h.refl caller w
  | edit he _ ih => exact h.trans (h.edit he) ih
  | call hc _ ih => exact h.trans (h.call _ hc hcb) ih

/-- **A relation that passes from calls to callbacks holds at every depth of nesting.** -/
theorem Lifts.respect (h : Lifts allowed P) {cb : Callbacks σ} (hcb : Reentrant allowed cb) :
    cb.Respect P := by
  induction hcb with
  | passive hp =>
    exact {
      onMessage := fun _ _ _ w => h.edit (hp.onMessage _ _ _ w)
      onOpen := fun w => h.edit (hp.onOpen w)
      onClose := fun _ _ w => h.edit (hp.onClose _ _ w)
      onCloseTransport := fun w => h.edit (hp.onCloseTransport w)
      onHandshakeFailure := fun _ w => h.edit (hp.onHandshakeFailure _ w)
      onPing := hp.onPing
      onPong := hp.onPong
      rand := hp.rand
      onSend := hp.onSend
      onBuffer := hp.onBuffer }
  | nested _ hn ih =>
    exact {
      onMessage := fun _ _ _ w => h.does ih (hn.onMessage _ _ _ w)
      onOpen := fun w => h.does ih (hn.onOpen w)
      onClose := fun _ _ w => h.does ih (hn.onClose _ _ w)
      onCloseTransport := fun w => h.does ih (hn.onCloseTransport w)
      onHandshakeFailure := fun _ w => h.does ih (hn.onHandshakeFailure _ w)
      onPing := hn.onPing
      onPong := hn.onPong
      rand := hn.rand
      onSend := hn.onSend
      onBuffer := hn.onBuffer }

end Lifts

/-! ## Edits -/

namespace Edits

variable {w w' w'' : World σ}

theorem refl (w : World σ) : Edits w w := rfl

theorem inst (h : Edits w w') : w'.inst = w.inst := by rw [h]

theorem log (h : Edits w w') : w'.log = w.log := by rw [h]

theorem trans (h : Edits w w') (h' : Edits w' w'') : Edits w w'' := by
  rw [Edits, h', h]

end Edits

/-! ## Quiet changes -/

/-- `j` is `i` apart from the fields that calls write. -/
def Inst.SameReceiver (i j : Inst) : Prop :=
  j = { i with
    state := j.state, frag := j.frag, utf8Tx := j.utf8Tx, pos := j.pos, txHeader := j.txHeader }

/-- The state moves only forward. -/
def State.Leads (s t : State) : Prop := t = s ∨ t = .closed ∨ s = .ready ∧ t = .open

/-- A frame as a client may send it. -/
structure TxFrame.Proper (f : TxFrame) : Prop where
  rsv1 : f.rsv1 = false
  rsv2 : f.rsv2 = false
  rsv3 : f.rsv3 = false
  length_lt : f.content.length < 65536
  opcode : f.opcode ∈ [.continue, .text, .binary, .close, .ping, .pong]
  control : f.opcode ∈ [.close, .ping, .pong] → f.fin = true ∧ f.content.length ≤ 125

/-- The entries a call adds to the trace. The frames it hands over are proper when `G` holds. -/
def Event.OfCall (G : Prop) : Event → Prop
  | .send _ data type =>
    type ≠ .pong ∧ type ≠ .http ∧
      ∃ f : TxFrame, f.type = type ∧ f.masked = true ∧ data = f.wire ∧ (G → f.Proper)
  | .buffer _ type _ _ => type ≠ .pong ∧ type ≠ .http
  | .state s => s = .open ∨ s = .closed
  | .message .. | .answer _ | .onOpen | .onPing | .onPong => False
  | .closing _ | .onClose .. | .onCloseTransport | .onHandshakeFailure _ | .status _ => True

/-- The receiver is left alone, the state moves forward, and the progress of sending is sane. -/
structure Keeps (w w' : World σ) : Prop where
  inst : w.inst.SameReceiver w'.inst
  state : w.inst.state.Leads w'.inst.state
  sends : w.inst.progress.Sane → w'.inst.progress.Sane

/-- What a call, or a callback that makes calls, changes. -/
structure Quiet (G : Prop) (w w' : World σ) : Prop extends Keeps w w' where
  log : ∃ es, w'.log = w.log ++ es ∧ ∀ e ∈ es, e.OfCall G

/-- `Quiet` for a client, between the worlds around a callback. -/
def QuietAt (G : Prop) (_ : Caller) (w w' : World σ) : Prop :=
  w.inst.role = .client → Quiet G w w'

namespace State.Leads

theorem refl (s : State) : s.Leads s := .inl rfl

theorem trans {s t u : State} (h : s.Leads t) (h' : t.Leads u) : s.Leads u := by
  rcases h with rfl | rfl | ⟨rfl, rfl⟩
  · exact h'
  · rcases h' with rfl | rfl | ⟨h, -⟩
    · exact .inr (.inl rfl)
    · exact .inr (.inl rfl)
    · cases h
  · rcases h' with rfl | rfl | ⟨h, -⟩
    · exact .inr (.inr ⟨rfl, rfl⟩)
    · exact .inr (.inl rfl)
    · cases h

theorem closed {t : State} (h : State.closed.Leads t) : t = .closed := by
  rcases h with rfl | rfl | ⟨h, -⟩
  · rfl
  · rfl
  · cases h

theorem open_or {t : State} (h : State.open.Leads t) : t = .open ∨ t = .closed := by
  rcases h with rfl | rfl | ⟨h, -⟩
  · exact .inl rfl
  · exact .inr rfl
  · cases h

end State.Leads

namespace Keeps

variable {w w' w'' : World σ}

theorem role (h : Keeps w w') : w'.inst.role = w.inst.role := by rw [h.inst]

theorem rx (h : Keeps w w') : w'.inst.rx = w.inst.rx := by rw [h.inst]

theorem utf8Rx (h : Keeps w w') : w'.inst.utf8Rx = w.inst.utf8Rx := by rw [h.inst]

theorem http (h : Keeps w w') : w'.inst.http = w.inst.http := by rw [h.inst]

theorem refl (w : World σ) : Keeps w w := ⟨rfl, .refl _, id⟩

theorem trans (h : Keeps w w') (h' : Keeps w' w'') : Keeps w w'' :=
  ⟨by rw [Inst.SameReceiver, h'.inst, h.inst], h.state.trans h'.state, h'.sends ∘ h.sends⟩

theorem emit (e : Event) : Keeps w (w.emit e) := ⟨rfl, .refl _, id⟩

theorem edits (h : Edits w w') : Keeps w w' := by
  refine ⟨?_, ?_, ?_⟩ <;> rw [h.inst]
  · rfl
  · exact .refl _
  · exact id

end Keeps

namespace Quiet

variable {G : Prop} {w w' w'' : World σ}

theorem edits (h : Edits w w') : Quiet G w w' where
  toKeeps := .edits h
  log := ⟨[], by simp [h.log], by simp⟩

theorem refl (w : World σ) : Quiet G w w := edits (Edits.refl w)

theorem trans (h : Quiet G w w') (h' : Quiet G w' w'') : Quiet G w w'' where
  toKeeps := h.toKeeps.trans h'.toKeeps
  log := by
    obtain ⟨es, hes, hall⟩ := h.log
    obtain ⟨fs, hfs, hall'⟩ := h'.log
    refine ⟨es ++ fs, by rw [hfs, hes, List.append_assoc], ?_⟩
    simpa [or_imp, forall_and] using ⟨hall, hall'⟩

/-- With weaker assumptions on the calls less is known of the frames they hand over. -/
theorem mono {G' : Prop} (hG : G' → G) (h : Quiet G w w') : Quiet G' w w' where
  toKeeps := h.toKeeps
  log := by
    obtain ⟨es, hes, hall⟩ := h.log
    refine ⟨es, hes, fun e he => ?_⟩
    have hcall := hall e he
    cases e with
    | send buf data type =>
      obtain ⟨hp, hh, f, ht, hm, hd, hf⟩ := hcall
      exact ⟨hp, hh, f, ht, hm, hd, fun h => hf (hG h)⟩
    | _ => exact hcall

theorem emit {e : Event} (he : e.OfCall G) : Quiet G w (w.emit e) where
  toKeeps := .emit e
  log := ⟨[e], rfl, by simpa using he⟩

/-- A frame that is sent moves the progress. -/
theorem advance {done : Progress → Progress}
    (hd : w.inst.progress.Sane → (done w.inst.progress).Sane) :
    Quiet G w (w.update (Inst.advance done)) where
  inst := rfl
  state := .refl _
  sends := hd
  log := ⟨[], by simp, by simp⟩

theorem setOpen (h : w.inst.state = .ready) : Quiet G w (w.setState .open) where
  inst := rfl
  state := .inr (.inr ⟨h, rfl⟩)
  sends := id
  log := ⟨[.state .open], rfl, by simp [Event.OfCall]⟩

theorem setClosed : Quiet G w (w.setState .closed) where
  inst := rfl
  state := .inr (.inl rfl)
  sends := id
  log := ⟨[.state .closed], rfl, by simp [Event.OfCall]⟩

end Quiet

theorem Callbacks.Respect.mono {G G' : Prop} (hG : G' → G) {cb : Callbacks σ}
    (h : cb.Respect (QuietAt G)) : cb.Respect (QuietAt G') :=
  h.imp fun _ _ _ hq hr => (hq hr).mono hG

/-! ## Calls are quiet -/

/-- Calls that send proper frames only. -/
def Call.Small : Call → Prop
  | .sendPingWithPayload data => data.bytes.length ≤ 125
  | .closeWithReason code reason =>
    unwritten code = true ∨ (closePayload reason).bytes.length ≤ 123
  | _ => True

section Calls

variable {G : Prop} {cb : Callbacks σ} {w : World σ}

theorem TxFrame.Proper.withMask {f : TxFrame} (h : f.Proper) (m : UInt32) :
    (f.withMask m).Proper :=
  ⟨h.rsv1, h.rsv2, h.rsv3, h.length_lt, h.opcode, h.control⟩

theorem drawMask_edits {P : Caller → World σ → World σ → Prop} (hcb : cb.Respect P)
    (w : World σ) : Edits w (drawMask cb w).2 := by
  unfold drawMask
  split_ifs
  · exact hcb.rand w
  · exact .refl w

theorem lease_quiet {P : Caller → World σ → World σ → Prop} (hcb : cb.Respect P) {n : Nat}
    {type : BufferType} (hp : type ≠ .pong) (hh : type ≠ .http) :
    Quiet G w (lease cb n type w).2 :=
  (Quiet.edits (hcb.onBuffer n type w)).trans (.emit ⟨hp, hh⟩)

theorem deliver_quiet {P : Caller → World σ → World σ → Prop} (hcb : cb.Respect P) (f : TxFrame)
    {done : Progress → Progress} (hp : f.type ≠ .pong) (hh : f.type ≠ .http) (hm : f.masked = true)
    (hf : G → f.Proper) (hd : w.inst.progress.Sane → (done w.inst.progress).Sane)
    (buf : Option Nat) (max : Nat) : Quiet G w (deliver cb f (Inst.advance done) buf max w).2 := by
  unfold deliver
  split_ifs
  · cases buf with
    | none => exact .refl w
    | some buf =>
      refine (Quiet.advance hd).trans ?_
      have he : (Event.send buf f.wire f.type).OfCall G := ⟨hp, hh, f, rfl, hm, rfl, hf⟩
      exact (Quiet.emit he).trans (.edits (hcb.onSend _ _ _ _))
  · exact .refl w

theorem putAndSend_quiet {P : Caller → World σ → World σ → Prop} (hcb : cb.Respect P)
    (hr : w.inst.role = .client) {f : TxFrame} {done : Progress → Progress} (hp : f.type ≠ .pong)
    (hh : f.type ≠ .http) (hf : G → f.Proper)
    (hd : w.inst.progress.Sane → (done w.inst.progress).Sane) :
    Quiet G w (putAndSend cb f (Inst.advance done) w).2 := by
  have hdraw := drawMask_edits hcb w
  rw [putAndSend_eq cb f _ w (by rw [hdraw.inst]; exact hr)]
  have hmask : G → (f.withMask (drawMask cb w).1).Proper := fun hG => (hf hG).withMask _
  have hlease (n : Nat) : (lease cb n f.type (drawMask cb w).2).2.inst = w.inst := by
    rw [← hdraw.inst]
    exact (hcb.onBuffer n f.type _).inst
  have hleased : Quiet G (drawMask cb w).2
      (lease cb (f.withMask (drawMask cb w).1).wire.length f.type (drawMask cb w).2).2 :=
    lease_quiet hcb hp hh
  refine ((Quiet.edits hdraw).trans hleased).trans ?_
  exact deliver_quiet hcb (f.withMask _) hp hh rfl hmask (by rw [hlease]; exact hd) _ _

theorem allowedToSend_quiet : Quiet G w (allowedToSend w).2 := by
  unfold allowedToSend
  split_ifs with h
  · exact .setOpen h.2
  · exact .refl w

/-- The status a send ends with is noted in the trace. -/
theorem Quiet.status {w w' : World σ} (h : Quiet G w w') (s : Status) :
    Quiet G w (w'.emit (.status s)) :=
  h.trans (.emit trivial)

/-- A frame with a payload of its own, RSV bits clear. -/
theorem TxFrame.proper_of {f : TxFrame} (hr : f.rsv1 = false ∧ f.rsv2 = false ∧ f.rsv3 = false)
    (ho : f.opcode ∈ [.continue, .text, .binary, .ping, .pong])
    (hc : f.opcode ∈ [.ping, .pong] → f.fin = true ∧ f.payload.bytes.length ≤ 125) :
    f.Proper := by
  have hne : f.opcode ≠ .close := by
    rintro h
    simp [h] at ho
  have hlen : f.content.length = f.payload.bytes.length := by simp [length_content, hne]
  refine ⟨hr.1, hr.2.1, hr.2.2, by rw [hlen]; exact f.payload.length_lt, ?_, fun h => ?_⟩
  · simp only [List.mem_cons, List.not_mem_nil, or_false] at ho ⊢
    tauto
  · rw [hlen]
    exact hc (by simpa [hne] using h)

/-- A close frame with a reason that leaves room for the code. -/
theorem TxFrame.proper_close {f : TxFrame}
    (hr : f.rsv1 = false ∧ f.rsv2 = false ∧ f.rsv3 = false) (ho : f.opcode = .close)
    (hf : f.fin = true) (hp : f.payload.bytes.length ≤ 123) : f.Proper := by
  have hlen : f.content.length = f.payload.bytes.length + 2 := by simp [length_content, ho]
  exact ⟨hr.1, hr.2.1, hr.2.2, by omega, by simp [ho], fun _ => ⟨hf, by omega⟩⟩

/-- The frame of a call goes into the buffer for its kind, and a ping that is not too long is
proper. -/
theorem Send.frame_proper {p : Progress} {send : Send} {f : TxFrame} {done : Progress → Progress}
    (hf : send.frame p = .ok (f, done)) :
    (f.type = .user ∨ f.type = .ping) ∧
      ((send.kind = none → send.data.bytes.length ≤ 125) → f.Proper) := by
  have hdata (kind : Websocket.Kind) (fin : Bool) (data : Payload) :
      (dataFrame p kind fin data).Proper := by
    refine TxFrame.proper_of ⟨rfl, rfl, rfl⟩ ?_ ?_ <;>
      rcases dataFrame_opcode p kind fin data with h | h <;> rw [h] <;> cases kind <;>
      simp [opening]
  cases send with
  | text fin data =>
    obtain ⟨-, -, heq⟩ := frame_text hf
    obtain ⟨rfl, -⟩ := Prod.mk.inj heq
    exact ⟨.inl rfl, fun _ => hdata .text fin data⟩
  | binary fin data =>
    obtain ⟨-, heq⟩ := frame_binary hf
    obtain ⟨rfl, -⟩ := Prod.mk.inj heq
    exact ⟨.inl rfl, fun _ => hdata .binary fin data⟩
  | ping data =>
    cases hf
    exact ⟨.inr rfl, fun h => TxFrame.proper_of ⟨rfl, rfl, rfl⟩ (by simp) fun _ => ⟨rfl, h rfl⟩⟩

/-- A send is quiet. -/
theorem Send.run_quiet (hcb : cb.Respect (QuietAt G)) (hr : w.inst.role = .client) (send : Send)
    (hs : G → send.kind = none → send.data.bytes.length ≤ 125) :
    Quiet G w (send.run cb w).2 := by
  have ha : Quiet G w (allowedToSend w).2 := allowedToSend_quiet
  have hr₁ := ha.role.trans hr
  rw [send.run_eq]
  refine Quiet.status (ha.trans ?_) _
  split
  · unfold attempt
    split
    · exact .refl _
    · next f done hf =>
      obtain ⟨htype, hproper⟩ := frame_proper hf
      refine putAndSend_quiet hcb hr₁ ?_ ?_ (fun hG => hproper (hs hG)) fun h => frame_sane h hf h
      · rcases htype with h | h <;> simp [h]
      · rcases htype with h | h <;> simp [h]
  · exact .refl _

/-! ## Closing is quiet -/

theorem callOnClose_quiet (hcb : cb.Respect (QuietAt G)) (hr : w.inst.role = .client)
    (code : UInt16) (reason : List UInt8) : Quiet G w (callOnClose cb code reason w) := by
  unfold callOnClose
  split_ifs
  · exact (Quiet.emit (by trivial)).trans (hcb.onClose code reason _ hr)
  · exact .refl w

theorem callOnCloseTransport_quiet (hcb : cb.Respect (QuietAt G)) (hr : w.inst.role = .client) :
    Quiet G w (callOnCloseTransport cb w) := by
  unfold callOnCloseTransport
  split_ifs
  · exact (Quiet.emit (by trivial)).trans (hcb.onCloseTransport _ hr)
  · exact .refl w

theorem callOnHandshakeFailure_quiet (hcb : cb.Respect (QuietAt G)) (hr : w.inst.role = .client)
    (reason : HandshakeFailure) : Quiet G w (callOnHandshakeFailure cb reason w) := by
  unfold callOnHandshakeFailure
  split_ifs
  · exact (Quiet.emit (by trivial)).trans (hcb.onHandshakeFailure reason _ hr)
  · exact .refl w

theorem sendClose_quiet (hcb : cb.Respect (QuietAt G)) (hr : w.inst.role = .client)
    (code : UInt16) (reason : Payload) {type : BufferType}
    (ht : type = .close ∨ type = .closeResponse)
    (hs : G → unwritten code = true ∨ (closePayload reason).bytes.length ≤ 123) :
    Quiet G w (sendClose cb code reason type w) := by
  unfold sendClose
  split_ifs with hu
  · exact .refl w
  · have hput : Quiet G w (putAndSend cb
        { fin := true, opcode := .close, type, code, payload := closePayload reason }
        (Inst.advance id) w).2 := by
      refine putAndSend_quiet hcb hr ?_ ?_ (fun hG => ?_) id
      · rcases ht with rfl | rfl <;> simp
      · rcases ht with rfl | rfl <;> simp
      · exact TxFrame.proper_close ⟨rfl, rfl, rfl⟩ rfl rfl ((hs hG).resolve_left hu)
    exact hput

theorem closeWithReason_quiet (hcb : cb.Respect (QuietAt G)) (hr : w.inst.role = .client)
    {code : UInt16} {reason : Payload} {type : BufferType}
    (ht : type = .close ∨ type = .closeResponse)
    (hs : G → unwritten code = true ∨ (closePayload reason).bytes.length ≤ 123) :
    Quiet G w (closeWithReason cb code reason type w) := by
  have hclosed : Quiet G w ((w.emit (.closing code)).setState .closed) :=
    (Quiet.emit (by trivial)).trans .setClosed
  have hr' : ((w.emit (.closing code)).setState .closed).inst.role = .client := hr
  unfold closeWithReason
  cases w.inst.state with
  | init => exact hclosed
  | closed => exact .refl w
  | parseHandshake =>
    have h₁ := hclosed.trans (callOnCloseTransport_quiet hcb hr')
    exact h₁.trans (callOnHandshakeFailure_quiet hcb (by rw [h₁.role, hr]) _)
  | ready | «open» =>
    have h₁ := hclosed.trans (sendClose_quiet hcb hr' code reason ht hs)
    have h₂ := h₁.trans (callOnCloseTransport_quiet hcb (by rw [h₁.role, hr]))
    exact h₂.trans (callOnClose_quiet hcb (by rw [h₂.role, hr]) _ _)

/-- Closing leaves the receiver alone, whatever the reason. -/
theorem closeWithReason_keeps (hcb : cb.Respect (QuietAt G)) (hr : w.inst.role = .client)
    (code : UInt16) (reason : Payload) {type : BufferType}
    (ht : type = .close ∨ type = .closeResponse) :
    Keeps w (closeWithReason cb code reason type w) :=
  (closeWithReason_quiet (hcb.mono False.elim) hr ht False.elim).toKeeps

/-- Closing closes. -/
theorem closeWithReason_closed (hcb : cb.Respect (QuietAt G)) (hr : w.inst.role = .client)
    (code : UInt16) (reason : Payload) {type : BufferType}
    (ht : type = .close ∨ type = .closeResponse) :
    (closeWithReason cb code reason type w).inst.state = .closed := by
  have hcb : cb.Respect (QuietAt False) := hcb.mono False.elim
  have hr' : ((w.emit (.closing code)).setState .closed).inst.role = .client := hr
  have hlast {w' : World σ} (h : Quiet False ((w.emit (.closing code)).setState .closed) w') :
      w'.inst.state = .closed := h.state.closed
  unfold closeWithReason
  cases hs : w.inst.state with
  | init => rfl
  | closed => exact hs
  | parseHandshake =>
    have h₁ := callOnCloseTransport_quiet hcb hr'
    exact hlast (h₁.trans (callOnHandshakeFailure_quiet hcb (by rw [h₁.role, hr']) _))
  | ready | «open» =>
    have h₁ := sendClose_quiet hcb hr' code reason ht False.elim
    have h₂ := h₁.trans (callOnCloseTransport_quiet hcb (by rw [h₁.role, hr']))
    exact hlast (h₂.trans (callOnClose_quiet hcb (by rw [h₂.role, hr']) _ _))

/-- **Every call is quiet.** -/
theorem Call.run_quiet (hcb : cb.Respect (QuietAt G)) (hr : w.inst.role = .client) (c : Call)
    (hs : G → c.Small) : Quiet G w (c.run cb w) := by
  cases c with
  | sendBinary fin data => exact (Send.binary fin data).run_quiet hcb hr fun _ h => by cases h
  | sendText fin data => exact (Send.text fin data).run_quiet hcb hr fun _ h => by cases h
  | send encoding fin data =>
    simp only [run, wicSend]
    split_ifs
    · exact (Send.binary fin data).run_quiet hcb hr fun _ h => by cases h
    · exact (Send.text fin data).run_quiet hcb hr fun _ h => by cases h
  | sendPing => exact (Send.ping .null).run_quiet hcb hr fun _ _ => Nat.zero_le _
  | sendPingWithPayload data => exact (Send.ping data).run_quiet hcb hr fun hG _ => hs hG
  | close =>
    exact closeWithReason_quiet hcb hr (.inl rfl) fun _ => .inr (by decide)
  | closeWithReason code reason => exact closeWithReason_quiet hcb hr (.inl rfl) hs
  | setHeader header =>
    simp only [run, wicSetHeader]
    split_ifs
    · exact ⟨⟨rfl, .refl _, id⟩, [], by simp, by simp⟩
    · exact .refl w
  | rewindGetNextHeader => exact ⟨⟨rfl, .refl _, id⟩, [], by simp [run, wicRewindGetNextHeader], by simp⟩
  | getNextHeader =>
    simp only [run, wicGetNextHeader]
    split_ifs
    · exact ⟨⟨rfl, .refl _, id⟩, [], by simp, by simp⟩
    · exact .refl w

end Calls

/-- Quiet calls make quiet callbacks. -/
theorem quiet_lifts {allowed : Caller → Call → Prop} {G : Prop}
    (hs : G → ∀ caller c, allowed caller c → c.Small) : Lifts allowed (QuietAt (σ := σ) G) where
  refl _ w _ := .refl w
  trans h h' hr := (h hr).trans (h' (by rw [(h hr).role, hr]))
  edit he _ := .edits he
  call w hc hcb hr := Call.run_quiet hcb hr _ fun hG => hs hG _ _ hc

end Wic
