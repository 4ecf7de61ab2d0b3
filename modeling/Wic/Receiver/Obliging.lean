import Wic.Receiver.Lawful

/-!
# An application that accepts everything

With callbacks that make no calls, accept every message and supply every buffer, the receiver is
never blocked: it reads every byte it is given or closes. Then the bytes of a connection may come in
any parts, and `wic_parse` on the parts is `drain` on the whole, as long as no part is too long for
the 32 bits of a stream.

## Main definitions

* `Callbacks.Obliging`: the callbacks
* `Emits`: a step that adds entries to the trace and leaves the instance alone
* `received`: the world behind a list of bytes
* `Agrees`: equality up to the frame of a closed instance

## Main results

* `received_append`
* `wicParseAll_received`: blocks of bytes are received like their concatenation
-/

namespace Wic

variable {σ : Type}

/-- Callbacks that make no calls, accept every message and supply every buffer. -/
structure Callbacks.Obliging (cb : Callbacks σ) : Prop extends cb.Passive where
  accepts (encoding fin data w) : (cb.onMessage encoding fin data w).1 = true
  supplies (minSize type w) :
    ∃ buf max, (cb.onBuffer minSize type w).1 = (some buf, max) ∧ minSize ≤ max

/-- Callbacks that make no calls and supply every buffer. -/
structure Callbacks.Supplying (cb : Callbacks σ) : Prop extends cb.Passive where
  supplies (minSize type w) :
    ∃ buf max, (cb.onBuffer minSize type w).1 = (some buf, max) ∧ minSize ≤ max

theorem Callbacks.Obliging.supplying {cb : Callbacks σ} (h : cb.Obliging) : cb.Supplying :=
  { h.toPassive with supplies := h.supplies }

/-- There is a buffer for every pong. -/
def Callbacks.Replying (cb : Callbacks σ) : Prop :=
  ∀ minSize w, ∃ buf max, (cb.onBuffer minSize .pong w).1 = (some buf, max) ∧ minSize ≤ max

theorem Callbacks.Supplying.replying {cb : Callbacks σ} (h : cb.Supplying) : cb.Replying :=
  fun minSize w => h.supplies minSize .pong w

/-- Callbacks that accept everything and supply a buffer of every size. -/
def Callbacks.granting : Callbacks σ where
  onMessage _ _ _ w := (true, w)
  onOpen := id
  onClose _ _ := id
  onCloseTransport := id
  onHandshakeFailure _ := id
  onPing := id
  onPong := id
  rand w := (0, w)
  onSend _ _ _ := id
  onBuffer minSize _ w := ((some 0, minSize), w)
  unset _ _ := false

theorem Callbacks.granting_obliging : (granting : Callbacks σ).Obliging where
  onMessage _ _ _ w := .refl w
  onOpen w := .refl w
  onClose _ _ w := .refl w
  onCloseTransport w := .refl w
  onHandshakeFailure _ w := .refl w
  onPing w := .refl w
  onPong w := .refl w
  rand w := .refl w
  onSend _ _ _ w := .refl w
  onBuffer _ _ w := .refl w
  accepts _ _ _ _ := rfl
  supplies minSize _ _ := ⟨0, minSize, rfl, Nat.le_refl _⟩

/-- Callbacks that make no calls are quiet. -/
theorem Callbacks.Passive.quiet {G : Prop} {cb : Callbacks σ} (h : cb.Passive) :
    cb.Respect (QuietAt G) where
  onMessage _ _ _ w _ := .edits (h.onMessage _ _ _ w)
  onOpen w _ := .edits (h.onOpen w)
  onClose _ _ w _ := .edits (h.onClose _ _ w)
  onCloseTransport w _ := .edits (h.onCloseTransport w)
  onHandshakeFailure _ w _ := .edits (h.onHandshakeFailure _ w)
  onPing := h.onPing
  onPong := h.onPong
  rand := h.rand
  onSend := h.onSend
  onBuffer := h.onBuffer

theorem Callbacks.Obliging.quiet {cb : Callbacks σ} (h : cb.Obliging) :
    cb.Respect (QuietAt False) := h.toPassive.quiet

/-- The entries `es` are added to the trace, and the instance stays as it is. -/
structure Emits (es : List Event) (w w' : World σ) : Prop where
  inst : w'.inst = w.inst
  log : w'.log = w.log ++ es

namespace Emits

variable {w w' w'' : World σ} {es fs : List Event}

theorem edits (h : Edits w w') : Emits [] w w' := ⟨h.inst, by simp [h.log]⟩

theorem refl (w : World σ) : Emits [] w w := edits (Edits.refl w)

theorem emit (e : Event) : Emits [e] w (w.emit e) := ⟨rfl, rfl⟩

theorem trans (h : Emits es w w') (h' : Emits fs w' w'') : Emits (es ++ fs) w w'' :=
  ⟨h'.inst.trans h.inst, by rw [h'.log, h.log, List.append_assoc]⟩

end Emits

section Obliging

variable {cb : Callbacks σ} {w : World σ}

/-! ## Callbacks -/

/-- The entries of the trace for a message that is accepted. -/
def accepted (i : Inst) (encoding : Encoding) (fin : Bool) : List Event :=
  if i.onMessage then [.message encoding fin i.rx.s.payload.bytes, .answer true] else []

theorem offer_emits (hcb : cb.Obliging) (encoding : Encoding) (fin : Bool) :
    (offer cb encoding fin w).1 = true ∧
      Emits (accepted w.inst encoding fin) w (offer cb encoding fin w).2 := by
  by_cases hm : w.inst.onMessage = true
  · have hcall := hcb.onMessage encoding fin w.inst.rx.s.payload.bytes
      (w.emit (.message encoding fin w.inst.rx.s.payload.bytes))
    rw [offer_of_handler hm, accepted, if_pos hm]
    dsimp only
    rw [hcb.accepts]
    exact ⟨rfl, ((Emits.emit _).trans (.edits hcall)).trans (.emit _)⟩
  · rw [accepted, if_neg hm]
    simp only [offer, hm, Bool.false_eq_true, if_false, true_and]
    exact .refl w

theorem callOnPing_emits (hcb : cb.Passive) :
    Emits (if w.inst.onPing then [.onPing] else []) w (callOnPing cb w) := by
  unfold callOnPing
  split_ifs
  · exact (Emits.emit _).trans (.edits (hcb.onPing _))
  · exact .refl w

theorem callOnPong_emits (hcb : cb.Passive) :
    Emits (if w.inst.onPong then [.onPong] else []) w (callOnPong cb w) := by
  unfold callOnPong
  split_ifs
  · exact (Emits.emit _).trans (.edits (hcb.onPong _))
  · exact .refl w

/-- The pong with the payload `data`. -/
def pongFrame (data : Payload) : TxFrame :=
  { fin := true, opcode := .pong, type := .pong, payload := data }

/-- A frame that is supplied with a buffer is handed over. -/
theorem deliver_emits (hcb : cb.Supplying) (f : TxFrame) :
    let leased := lease cb f.wire.length f.type w
    (deliver cb f id leased.1.1 leased.1.2 leased.2).1 = .success ∧ ∃ buf max,
      Emits [.buffer f.wire.length f.type (some buf) max, .send buf f.wire f.type] w
        (deliver cb f id leased.1.1 leased.1.2 leased.2).2 := by
  obtain ⟨buf, max, hbuf, hfit⟩ := hcb.supplies f.wire.length f.type w
  have hlease := hcb.onBuffer f.wire.length f.type w
  unfold lease deliver
  generalize cb.onBuffer f.wire.length f.type w = l at hbuf hlease ⊢
  obtain ⟨r, w₁⟩ := l
  obtain rfl : r = (some buf, max) := hbuf
  have hsend := hcb.onSend buf f.wire f.type
    ((w₁.emit (.buffer f.wire.length f.type (some buf) max)).emit (.send buf f.wire f.type))
  dsimp only
  rw [if_pos hfit]
  exact ⟨rfl, buf, max,
    ((Emits.edits hlease).trans (.emit _)).trans ((Emits.emit _).trans (.edits hsend))⟩

/-- A frame is put on the wire. -/
theorem putAndSend_emits (hcb : cb.Supplying) (hr : w.inst.role = .client) (f : TxFrame) :
    (putAndSend cb f id w).1 = .success ∧ ∃ m buf max,
      Emits [.buffer (f.withMask m).wire.length f.type (some buf) max,
        .send buf (f.withMask m).wire f.type] w (putAndSend cb f id w).2 := by
  have hdraw := drawMask_edits (show cb.Respect (QuietAt False) from hcb.quiet) w
  rw [putAndSend_eq cb f id w (by rw [hdraw.inst]; exact hr)]
  obtain ⟨hok, buf, max, hemits⟩ := deliver_emits hcb (f.withMask (drawMask cb w).1)
  exact ⟨hok, _, buf, max, (Emits.edits hdraw).trans hemits⟩

/-- A pong is put on the wire. -/
theorem sendPong_emits (hcb : cb.Supplying) (hr : w.inst.role = .client) (ho : w.inst.state = .open)
    (data : Payload) :
    (sendPongWithPayload cb data w).1 = .success ∧ ∃ m buf max,
      Emits [.buffer ((pongFrame data).withMask m).wire.length .pong (some buf) max,
        .send buf ((pongFrame data).withMask m).wire .pong] w (sendPongWithPayload cb data w).2 := by
  have hallowed : allowedToSend w = (true, w) := by simp [allowedToSend, ho]
  unfold sendPongWithPayload
  rw [hallowed]
  exact putAndSend_emits hcb hr (pongFrame data)

/-! ## Closing -/

/-- The entries that follow the beginning of closing. -/
def Event.Farewell : Event → Prop
  | .state s => s = .closed
  | .buffer _ type _ _ | .send _ _ type => type = .close ∨ type = .closeResponse
  | .onClose .. | .onCloseTransport => True
  | _ => False

/-- Only entries of closing are added to the trace. -/
def Farewells (w w' : World σ) : Prop := ∃ es, Emits es w w' ∧ ∀ e ∈ es, e.Farewell

theorem Farewells.edits {w' : World σ} (h : Edits w w') : Farewells w w' :=
  ⟨[], .edits h, by simp⟩

theorem Farewells.emit {e : Event} (he : e.Farewell) : Farewells w (w.emit e) :=
  ⟨[e], .emit e, by simpa using he⟩

theorem Farewells.trans {w' w'' : World σ} (h : Farewells w w') (h' : Farewells w' w'') :
    Farewells w w'' := by
  obtain ⟨es, hes, hall⟩ := h
  obtain ⟨fs, hfs, hall'⟩ := h'
  exact ⟨es ++ fs, hes.trans hfs, by simpa [or_imp, forall_and] using ⟨hall, hall'⟩⟩

theorem sendClose_farewells (hcb : cb.Passive) (hr : w.inst.role = .client) (code : UInt16)
    (reason : Payload) {type : BufferType} (ht : type = .close ∨ type = .closeResponse) :
    Farewells w (sendClose cb code reason type w) := by
  have hlease (n : Nat) (w' : World σ) : Farewells w' (lease cb n type w').2 :=
    (Farewells.edits (hcb.onBuffer n type w')).trans (.emit ht)
  have hdeliver (f : TxFrame) (hf : f.type = type) (buf : Option Nat) (max : Nat) (w' : World σ) :
      Farewells w' (deliver cb f id buf max w').2 := by
    unfold deliver
    split_ifs
    · cases buf with
      | none => exact .edits (Edits.refl w')
      | some buf =>
        have hsend : Farewells w' (w'.emit (.send buf f.wire f.type)) := .emit (hf ▸ ht)
        exact hsend.trans (.edits (hcb.onSend _ _ _ _))
    · exact .edits (Edits.refl w')
  unfold sendClose
  split_ifs
  · exact .edits (Edits.refl w)
  · have hdraw : Edits w (drawMask cb w).2 :=
      drawMask_edits (show cb.Respect (QuietAt False) from hcb.quiet) w
    rw [putAndSend_eq cb _ id w (by rw [hdraw.inst]; exact hr)]
    exact (Farewells.edits hdraw).trans ((hlease _ _).trans (hdeliver _ rfl _ _ _))

/-- **Closing an open instance**: the code, and then only entries of closing. -/
theorem closeWithReason_emits (hcb : cb.Passive) (hr : w.inst.role = .client)
    (ho : w.inst.state = .open) (code : UInt16) (reason : Payload) {type : BufferType}
    (ht : type = .close ∨ type = .closeResponse) :
    (closeWithReason cb code reason type w).inst = { w.inst with state := .closed } ∧
      ∃ es, (closeWithReason cb code reason type w).log = w.log ++ .closing code :: es ∧
        ∀ e ∈ es, e.Farewell := by
  have htransport (w' : World σ) : Farewells w' (callOnCloseTransport cb w') := by
    unfold callOnCloseTransport
    split_ifs
    · exact (Farewells.emit (by trivial)).trans (.edits (hcb.onCloseTransport _))
    · exact .edits (Edits.refl w')
  have hclose (w' : World σ) : Farewells w' (callOnClose cb code reason.bytes w') := by
    unfold callOnClose
    split_ifs
    · exact (Farewells.emit (by trivial)).trans (.edits (hcb.onClose _ _ _))
    · exact .edits (Edits.refl w')
  unfold closeWithReason
  rw [ho]
  have hr' : ((w.emit (.closing code)).setState .closed).inst.role = .client := hr
  have hframe := sendClose_farewells hcb hr' code reason ht
  obtain ⟨es, hemits, hall⟩ := (hframe.trans (htransport _)).trans (hclose _)
  refine ⟨hemits.inst, .state .closed :: es, ?_, ?_⟩
  · rw [hemits.log]
    simp
  · simpa [Event.Farewell] using hall

/-! ## Nothing is refused -/

/-- **The work between two bytes is never refused.** -/
theorem settle_obliging (hcb : cb.Obliging) (h : Live w) : (settle cb w).1 = false := by
  -- every message is accepted
  have hall (encoding : Encoding) (done : Inst → Inst) : (offerAll cb encoding done w).1 = false := by
    simp [offerAll, (offer_emits hcb encoding w.inst.rx.fin).1]
  unfold settle
  split
  · by_cases hz : w.inst.rx.size = 0
    · rw [if_pos hz]
      show (finish cb w).1 = false
      cases hop : w.inst.rx.dataOpcode with
      | text =>
        -- a text that stops inside of a character closes the instance, which refuses nothing
        by_cases hc : w.inst.rx.fin = true ∧ utf8IsComplete w.inst.rx.utf8 = false
        · rw [finish_incomplete hop hc.1 hc.2]
        · have hop' : w.inst.rx.dataOpcode = Encoding.utf8.opcode := hop
          rw [finish_message hcb.quiet h.role hop' fun _ hf => by simpa [hf] using hc]
          exact hall _ _
      | binary =>
        have hop' : w.inst.rx.dataOpcode = Encoding.binary.opcode := hop
        rw [finish_message hcb.quiet h.role hop' fun he => by cases he]
        exact hall _ _
      | ping =>
        rw [finish_ping hop]
        simp [(sendPong_emits hcb.supplying h.role h.state w.inst.rx.s.payload).1]
      | _ => simp [finish, hop]
    · rw [if_neg hz]
      split_ifs
      · rw [flush_eq]
        unfold passOn
        split <;> simp [(offer_emits hcb _ false).1]
      · rfl
  · rfl

/-! ## Parts -/

variable (cb) in
/-- The world behind a list of bytes. -/
def received (bs : List UInt8) (w : World σ) : World σ := (drain cb bs w).2

theorem received_of_not_open (ho : w.inst.state ≠ .open) (bs : List UInt8) :
    received cb bs w = w := by
  rw [received, drain_of_not_open ho]

/-- The work that is due is done. -/
theorem received_nil (hcb : cb.Obliging) (h : Live w) : received cb [] w = (settle cb w).2 := by
  have hb := settle_obliging hcb h
  have hrest := settle_rests hcb.quiet h.receiving hb
  rw [received, drain_settle hcb.quiet h.role h.lawful.toSound h.state hb,
    drain_nil_of_rests hrest]

theorem received_settle (hcb : cb.Obliging) (h : Live w) (bs : List UInt8) :
    received cb bs w = received cb bs (settle cb w).2 := by
  rw [received, received,
    drain_settle hcb.quiet h.role h.lawful.toSound h.state (settle_obliging hcb h)]

theorem received_cons (ho : w.inst.state = .open) (hrest : w.inst.rx.Rests) (b : UInt8)
    (bs : List UInt8) : received cb (b :: bs) w = received cb bs (consume cb b w) := by
  rw [received, received, drain_cons_of_rests ho hrest]

/-- **An instance that is still open has read every byte, and rests.** -/
theorem drain_obliging (hcb : cb.Obliging) {w : World σ} (h : Live w) (bs : List UInt8)
    (ho : (received cb bs w).inst.state = .open) :
    (drain cb bs w).1 = [] ∧ (received cb bs w).inst.rx.Rests ∧ Live (received cb bs w) := by
  unfold received at ho ⊢
  have hb := settle_obliging hcb h
  have hrest := settle_rests hcb.quiet h.receiving hb
  have hlive := settle_live hcb.quiet h
  rw [drain_settle hcb.quiet h.role h.lawful.toSound h.state hb] at ho ⊢
  generalize (settle cb w).2 = w' at ho hrest hlive ⊢
  by_cases ho' : w'.inst.state = .open
  swap
  · rw [drain_of_not_open ho'] at ho
    exact absurd ho ho'
  cases bs with
  | nil =>
    rw [drain_nil_of_rests hrest]
    exact ⟨rfl, hrest, hlive ho'⟩
  | cons b bs =>
    rw [drain_cons_of_rests ho' hrest] at ho ⊢
    by_cases ho'' : (consume cb b w').inst.state = .open
    · exact drain_obliging hcb (consume_live hcb.quiet (hlive ho') hrest ho'') bs ho
    · rw [drain_of_not_open ho''] at ho
      exact absurd ho ho''
termination_by bs.length

/-- **Bytes may come in parts.** -/
theorem received_append (hcb : cb.Obliging) (h : Live w) (as bs : List UInt8) :
    received cb (as ++ bs) w = received cb bs (received cb as w) := by
  by_cases ho : (received cb as w).inst.state = .open
  · obtain ⟨-, hrest, -⟩ := drain_obliging hcb h as ho
    rcases drain_append hcb.quiet h.receiving as bs with ⟨-, -, hd⟩ | ⟨hs, -⟩
    · exact congrArg Prod.snd hd
    · exact absurd ⟨ho, hrest⟩ hs
  · rw [received_of_not_open ho]
    rcases drain_append hcb.quiet h.receiving as bs with ⟨hs, -⟩ | ⟨-, hd⟩
    · exact absurd (not_not.mp hs).1 ho
    · rw [received, hd, received]

/-- Equality up to the frame under reception of an instance that is not open. -/
def Agrees (u v : World σ) : Prop :=
  (u.inst.state = .open → v = u) ∧ (u.inst.state ≠ .open → ∃ f, v = u.updateRx f)

theorem Agrees.state {u v : World σ} (h : Agrees u v) : v.inst.state = u.inst.state := by
  by_cases ho : u.inst.state = .open
  · rw [h.1 ho]
  · obtain ⟨f, rfl⟩ := h.2 ho
    rfl

theorem Agrees.log {u v : World σ} (h : Agrees u v) : v.log = u.log := by
  by_cases ho : u.inst.state = .open
  · rw [h.1 ho]
  · obtain ⟨f, rfl⟩ := h.2 ho
    rfl

/-- `wic_parse` reads a block that is not too long for a stream and in which it is not broken off. -/
theorem wicParse_received (hcb : cb.Obliging) (h : Live w) {data : List UInt8}
    (hlen : data.length < 2 ^ 32) (hu : Unbroken cb data w) :
    ∃ n w', wicParse cb data w = some (n, w') ∧ Agrees (received cb data w) w' := by
  have htake : data.take (data.length % 2 ^ 32) = data := by
    rw [Nat.mod_eq_of_lt hlen, List.take_length]
  obtain ⟨w', hrun, hopen, hclosed⟩ := wicParse_drain hcb.quiet h.receiving h.state data htake hu
  exact ⟨_, w', hrun, hopen, hclosed⟩

/-- `wic_parse` of an instance that is neither open nor waiting for the response does nothing. -/
theorem wicParse_of_idle (ho : w.inst.state ≠ .open) (hp : w.inst.state ≠ .parseHandshake)
    (data : List UInt8) : wicParse cb data w = some (data.length, w) := by
  simp [wicParse, parseHandshake, parseWebsocket, ho, hp]

theorem wicParseAll_of_closed (hc : w.inst.state = .closed) (blocks : List (List UInt8)) :
    wicParseAll cb blocks w = some w := by
  induction blocks with
  | nil => rfl
  | cons data blocks ih =>
    have hrun : wicParse cb data w = some (data.length, w) :=
      wicParse_of_idle (by simp [hc]) (by simp [hc]) data
    simp only [wicParseAll, List.foldlM_cons, hrun]
    exact ih

/-- A world in which no work is due stays as it is without bytes. -/
theorem received_nil_of_rests (hrest : w.inst.rx.Rests) : received cb [] w = w := by
  rw [received, drain_nil_of_rests hrest]

/-- **Blocks of bytes are drained like their concatenation** when that is not refused at its end and
no call is broken off, whatever the callbacks do. -/
theorem wicParseAll_drain {G : Prop} (hcb : cb.Respect (QuietAt G)) {blocks : List (List UInt8)}
    (hlen : ∀ data ∈ blocks, data.length < 2 ^ 32) (h : Receiving w) (ho : w.inst.state = .open)
    (hdue : blocks ≠ [] ∨ w.inst.rx.Rests) (hu : Unbroken cb blocks.flatten w)
    (hend : (drain cb blocks.flatten w).2.inst.state = .open →
      (drain cb blocks.flatten w).2.inst.rx.Rests) :
    ∃ w', wicParseAll cb blocks w = some w' ∧ Agrees (drain cb blocks.flatten w).2 w' := by
  induction blocks generalizing w with
  | nil =>
    rw [List.flatten_nil, drain_nil_of_rests (hdue.resolve_left (not_not.mpr rfl))]
    exact ⟨w, rfl, fun _ => rfl, fun hno => absurd ho hno⟩
  | cons data blocks ih =>
    have htake : data.take (data.length % 2 ^ 32) = data := by
      rw [Nat.mod_eq_of_lt (hlen data (by simp)), List.take_length]
    rw [List.flatten_cons] at hu
    obtain ⟨w₁, hrun, hopen, hclosed⟩ := wicParse_drain hcb h ho data htake hu.left
    have hparse : wicParseAll cb (data :: blocks) w = wicParseAll cb blocks w₁ := by
      simp [wicParseAll, hrun]
    have hsetup := drain_receiving hcb h data
    rw [hparse]
    rw [List.flatten_cons] at hend ⊢
    -- either the block is read to its end, or the instance has been closed in it
    rcases drain_append hcb h data blocks.flatten with ⟨hns, -, hd⟩ | ⟨hs, hd⟩
    · obtain ⟨ho', hrest⟩ := not_not.mp hns
      rw [hd] at hend ⊢
      rw [hopen ho']
      exact ih (fun d hd => hlen d (by simp [hd])) hsetup.1 ho' (.inr hrest) (hu.right hcb h hns) hend
    · rw [hd] at hend ⊢
      -- all the work that was left is done, as nobody refuses it
      have hno : (drain cb data w).2.inst.state ≠ .open := fun ho' => hs ⟨ho', hend ho'⟩
      have hc : (drain cb data w).2.inst.state = .closed := by
        have hlead := hsetup.2.state
        rw [ho] at hlead
        exact hlead.open_or.resolve_left hno
      have hagree : Agrees (drain cb data w).2 w₁ := ⟨hopen, hclosed⟩
      exact ⟨w₁, wicParseAll_of_closed (hagree.state.trans hc) blocks, hagree⟩

/-- **Blocks of bytes are received like their concatenation.** -/
theorem wicParseAll_received (hcb : cb.Obliging) {blocks : List (List UInt8)}
    (hlen : ∀ data ∈ blocks, data.length < 2 ^ 32) (h : Live w)
    (hdue : blocks ≠ [] ∨ w.inst.rx.Rests) (hu : Unbroken cb blocks.flatten w) :
    ∃ w', wicParseAll cb blocks w = some w' ∧ Agrees (received cb blocks.flatten w) w' :=
  wicParseAll_drain hcb.quiet hlen h.receiving h.state hdue hu fun ho =>
    (drain_obliging hcb h _ ho).2.1

end Obliging

end Wic
