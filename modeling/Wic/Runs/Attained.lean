import Wic.Runs.Chunks
import Wic.Runs.Turns

/-!
# Runs with callbacks that make any call

The worlds a run reaches when the callbacks may make any call but `wic_parse` and `wic_init`. The
receiver is well formed in all of them, also whenever a callback is entered and at every turn of the
parsing loop, so that the loop indexes the rx buffer only where it has been written; and the loop
ends.

## Main definitions

* `Attained`: the worlds such a run reaches
* `Inst.WellFormed`: the receiver between two steps
* `TurnSafe`: what a turn of the loop relies on
* `Advances`: how a turn comes closer to the end

## Main results

* `Attained.receiver_safe`: the receiver is well formed and every turn is safe
* `Attained.terminates`: `wic_parse` returns, and every turn advances
-/

namespace Wic

open Http (ascii)

variable {σ : Type}

/-- The worlds a run reaches from a `wic_init` that succeeds, and the bytes `wic_parse` has parsed
until then. Callbacks may make any call from everywhere while `I` holds of the instance. -/
inductive Attained (I : Inst → Prop) : List UInt8 → World σ → Prop
  | init {arg u inst heap app} :
    wicInit arg u = some inst → Attained I [] { inst, heap, log := [], app }
  | edit {H w w'} : Attained I H w → Edits w w' → Attained I H w'
  | call {H cb w} (c : Call) : Attained I H w → Free I cb → Attained I H (c.run cb w)
  | start {H cb fuel w status w'} :
    Attained I H w → Free I cb → wicStart cb fuel w = some (status, w') → Attained I H w'
  | parse {H cb data w n w'} :
    Attained I H w → Free I cb → wicParse cb data w = some (n, w') →
      Attained I (H ++ data.take n) w'

/-- The loop of `wic_parse` on `data` starts a turn with the stream `s'` in the world `w'`. -/
def LoopTurn (cb : Callbacks σ) (data : List UInt8) (w : World σ) (s' : Stream) (w' : World σ) :
    Prop :=
  ∃ s w₁, parseHandshake cb data (streamInitRo data data.length) w = (s, w₁) ∧
    w₁.inst.state = .open ∧ Loops cb s w₁ s' w'

/-! ## What is kept between calls -/

/-- What holds of an instance between calls: it is never left waiting for `on_open`, and it is open
only with room in its rx buffer. -/
structure Inst.Attains (i : Inst) : Prop extends i.Kept where
  ready : i.state ≠ .ready
  room : i.state = .open → 0 < i.rx.s.size

/-- Before the first byte of a frame it is enough that there is room. -/
theorem RxFrame.Based.lawful {rx : RxFrame} (h : rx.Based) (hs : rx.state = .opcode)
    (hroom : 0 < rx.s.size) : rx.Lawful where
  ok := h.ok
  writable := h.writable
  room := hroom
  error hne := absurd hs hne
  header hne := absurd hs hne
  frag := h.frag
  accepted hne := absurd hs hne
  short _ hne := absurd hs hne

namespace Inst.Attains

theorem of_closed {i : Inst} (h : i.rx.Based) (hs : i.state = .closed) : i.Attains :=
  ⟨.of_closed h hs, by simp [hs], by simp [hs]⟩

variable {w w' : World σ}

theorem moves (h : w.inst.Attains) (hm : Moves w w') : w'.inst.Attains := by
  refine ⟨hm.kept h.toKept, ?_, ?_⟩ <;> rcases hm.state with hs | hs | ⟨hs, -⟩ | ⟨hs, hs'⟩
  · rw [hs]
    exact h.ready
  · simp [hs]
  · exact absurd hs h.ready
  · simp [hs']
  · rw [hs, hm.rx]
    exact h.room
  · simp [hs]
  · exact absurd hs h.ready
  · simp [hs']

theorem looping (h : w.inst.Attains) (ho : w.inst.state = .open) : Looping w := by
  refine ⟨ho, ?_⟩
  by_cases hs : w.inst.rx.state = .opcode
  · exact h.based.lawful hs (h.room ho)
  · exact h.lawful ho hs

end Inst.Attains

theorem Looping.attains {w : World σ} (h : Looping w) : w.inst.Attains :=
  ⟨h.kept, by simp [h.state], fun _ => h.lawful.room⟩

section Parse

variable {cb : Callbacks σ} {w w₁ : World σ}

theorem afterHttp_attains (hcb : cb.Each Steps) (h : w.inst.Attains)
    (hs : w.inst.state = .parseHandshake) (hp : Parsing w w₁) :
    (afterHttp cb w₁).inst.Attains ∧ (afterHttp cb w₁).inst.rx.state = .opcode := by
  -- the parser of the handshake changes the buffer only
  have hstate : w₁.inst.rx.state = w.inst.rx.state := by rw [hp.inst]
  have hfrag : w₁.inst.rx.frag = w.inst.rx.frag := by rw [hp.inst]
  have hopcode : w₁.inst.rx.state = .opcode := hstate.trans (h.fresh (.inr (.inl hs)))
  have hbased : w₁.inst.rx.Based :=
    ⟨hp.ok h.based.ok, hp.writable.trans h.based.writable, by rw [hfrag]; exact h.based.frag⟩
  have hwaits : w₁.inst.state = .parseHandshake ∨ w₁.inst.state = .ready :=
    hp.state.imp_left fun h => h.trans hs
  have hkept : w₁.inst.Kept := by
    refine ⟨hbased, fun _ => hopcode, fun _ hne => absurd hopcode hne⟩
  unfold afterHttp
  by_cases he : w₁.inst.http.httpErrno = .ok
  · rw [if_neg (not_not.mpr he)]
    by_cases hready : w₁.inst.state = .ready
    · rw [if_pos hready]
      -- `on_open` may call the library, but the state is set behind it
      have haccepted : Accepted w := fun hs' => by simp [hs] at hs'
      have hroom := (hp.accepted h.based.ok haccepted hready).resolve_left (not_not.mpr he)
      have hmoves : Moves w₁ (callOnOpen cb w₁) := callOnOpen_steps hcb hkept
      have hopens : Looping ((callOnOpen cb w₁).setState .open) := by
        refine ⟨rfl, ?_⟩
        rw [World.setState_inst]
        exact hmoves.rx ▸ hbased.lawful hopcode hroom
      refine ⟨hopens.attains, ?_⟩
      rw [World.setState_inst]
      exact hmoves.rx ▸ hopcode
    · rw [if_neg hready]
      have hs₁ := hwaits.resolve_right hready
      exact ⟨⟨hkept, hready, by simp [hs₁]⟩, hopcode⟩
  · rw [if_pos he]
    -- a failed handshake closes the instance, whatever its two callbacks do
    have hmoves : Moves w₁ (callOnHandshakeFailure cb
        (if w₁.inst.http.httpErrno = .cbMessageComplete then .upgrade else .protocol)
        (callOnCloseTransport cb w₁)) :=
      (callOnCloseTransport_steps hcb).trans (callOnHandshakeFailure_steps hcb _) hkept
    refine ⟨.of_closed ?_ rfl, ?_⟩ <;> rw [World.setState_inst]
    · exact hmoves.rx ▸ hbased
    · exact hmoves.rx ▸ hopcode

/-- The world and the stream behind the handshake part of `wic_parse`. -/
theorem parseHandshake_attains (hcb : cb.Each Steps) (h : w.inst.Attains) {H : List UInt8}
    (hh : w.inst.state = .open → w.inst.rx.Holds H) (data : List UInt8) :
    ∃ s w₁, parseHandshake cb data (streamInitRo data data.length) w = (s, w₁) ∧ s.Ok ∧
      s.mem = data ∧ w₁.inst.Attains ∧ (w₁.inst.state = .open → Turning H s w₁) := by
  have hok := streamInitRo_ok data
  by_cases hs : w.inst.state = .parseHandshake
  · obtain ⟨hattains, hopcode⟩ :=
      afterHttp_attains hcb h hs (httpParserExecute_parsing (w := w) data)
    have hmem : ((streamInitRo data data.length).seek (httpParserExecute data w).1).mem = data := by
      unfold Stream.seek
      split_ifs <;> rfl
    refine ⟨_, _, parseHandshake_eq cb hs data _, hok.seek _, hmem, hattains, fun ho => ?_⟩
    exact ⟨hattains.looping ho, hok.seek _, Stream.seek_error _ _, .of_state (by simp [hopcode])⟩
  · refine ⟨_, w, by simp [parseHandshake, hs], hok, rfl, h, fun ho => ?_⟩
    refine ⟨h.looping ho, hok, rfl, ?_⟩
    have htext : (streamInitRo data data.length).text = [] := List.take_zero
    rw [htext, List.append_nil]
    exact hh ho

/-- **`wic_parse` returns, and keeps what is kept between calls.** -/
theorem wicParse_attains (hcb : cb.Each Steps) (h : w.inst.Attains) {H : List UInt8}
    (hh : w.inst.state = .open → w.inst.rx.Holds H) (data : List UInt8) :
    ∃ n w', wicParse cb data w = some (n, w') ∧ w'.inst.Attains ∧
      (w'.inst.state = .open → w'.inst.rx.Holds (H ++ data.take n)) := by
  obtain ⟨s, w₁, hhand, hok, hmem, hattains, hturning⟩ := parseHandshake_attains hcb h hh data
  have hrun : wicParse cb data w = (parseWebsocket cb s w₁).map fun r =>
      (if r.1.inst.state = .open then r.2.pos else data.length, r.1) := by
    rw [wicParse, hhand]
  by_cases ho : w₁.inst.state = .open
  · have hturns : turnsLeft s w₁ < 2 * s.size + 4 := by
      have hlen := hok.length_rest
      unfold turnsLeft
      split_ifs <;> omega
    obtain ⟨w', s', hloop, hend⟩ := parseLoop_turned hcb (hturning ho) hturns
    refine ⟨if w'.inst.state = .open then s'.pos else data.length, w', ?_, ?_, fun ho' => ?_⟩
    · rw [hrun, parseWebsocket, if_pos ho, hloop]
      rfl
    · by_cases ho' : w'.inst.state = .open
      · exact (hend.looping ho').1.attains
      · exact .of_closed hend.kept.based (hend.state.resolve_left ho')
    · rw [if_pos ho']
      have htext : s'.text = data.take s'.pos := by rw [Stream.text, hend.mem, hmem]
      rw [← htext]
      exact (hend.looping ho').2
  · refine ⟨data.length, w₁, ?_, hattains, fun h => absurd h ho⟩
    rw [hrun, parseWebsocket, if_neg ho]
    simp [ho]

end Parse

/-! ## Runs -/

theorem wicInit_attains {arg : InitArg} {u : Http.HttpParserUrl} {inst : Inst}
    (h : wicInit arg u = some inst) : inst.Attains := by
  obtain ⟨-, hstate, -, hrx, -⟩ := wicInit_eq h
  have hok : (streamInit arg.rxBase arg.rx arg.rxMax).Ok :=
    ⟨Nat.zero_le _, Nat.le_trans (Nat.mod_le _ _) arg.rxMax_le⟩
  refine ⟨⟨⟨?_, ?_, ?_⟩, fun _ => ?_, by simp [hstate]⟩, by simp [hstate], by simp [hstate]⟩ <;>
    rw [hrx]
  · exact hok
  · rfl
  · rfl

/-- **What is kept between calls holds of every world a run reaches, and an open instance holds in
its rx buffer the bytes parsed last.** -/
theorem Attained.attains {I : Inst → Prop} (hI : ∀ i : Inst, i.Kept → I i) {H : List UInt8}
    {w : World σ} (h : Attained I H w) :
    w.inst.Attains ∧ (w.inst.state = .open → w.inst.rx.Holds H) := by
  have hmoves {H : List UInt8} {w w' : World σ} (hm : Moves w w')
      (h : w.inst.Attains ∧ (w.inst.state = .open → w.inst.rx.Holds H)) :
      w'.inst.Attains ∧ (w'.inst.state = .open → w'.inst.rx.Holds H) := by
    refine ⟨h.1.moves hm, fun ho => ?_⟩
    rw [hm.rx]
    rcases hm.state with hs | hs | ⟨hs, -⟩ | ⟨hs, hs'⟩
    · exact h.2 (hs ▸ ho)
    · exact absurd (hs.symm.trans ho) (by simp)
    · exact absurd hs h.1.ready
    · exact absurd (hs'.symm.trans ho) (by simp)
  induction h with
  | init hinit =>
    have hstate := (wicInit_eq hinit).2.1
    exact ⟨wicInit_attains hinit, fun ho => absurd (hstate.symm.trans ho) (by simp)⟩
  | edit _ he ih => exact hmoves (.edits he) ih
  | call c _ hcb ih => exact hmoves (Call.run_steps (hcb.steps hI) c ih.1.toKept) ih
  | start _ hcb hrun ih => exact hmoves (startClient_steps (hcb.steps hI) hrun ih.1.toKept) ih
  | parse _ hcb hrun ih =>
    obtain ⟨n, w', hrun', hattains, hholds⟩ := wicParse_attains (hcb.steps hI) ih.1 ih.2 _
    rw [hrun] at hrun'
    obtain ⟨rfl, rfl⟩ := Prod.mk.inj (Option.some.inj hrun')
    exact ⟨hattains, hholds⟩

/-- Every turn of a `wic_parse` starts in a world as a turn does. -/
theorem LoopTurn.turning {cb : Callbacks σ} (hcb : cb.Each Steps) {w w' : World σ}
    (h : w.inst.Attains) {H : List UInt8} (hh : w.inst.state = .open → w.inst.rx.Holds H)
    {data : List UInt8} {s' : Stream} (hl : LoopTurn cb data w s' w') : Turning H s' w' := by
  obtain ⟨s, w₁, hhand, ho, hloops⟩ := hl
  obtain ⟨s₁, w₂, hhand', -, -, -, hturning⟩ := parseHandshake_attains hcb h hh data
  rw [hhand] at hhand'
  obtain ⟨rfl, rfl⟩ := Prod.mk.inj hhand'
  exact hloops.turning hcb (hturning ho)

/-! ## Runs in which less is allowed -/

theorem Does.acts {cb : Callbacks σ} {allowed : Call → Prop} {w w' : World σ}
    (h : Does cb allowed w w') : Acts cb w w' := by
  induction h with
  | refl w => exact .refl w
  | edit he _ ih => exact .edit he ih
  | call _ _ ih => exact .call ih

theorem Edits.acts {cb : Callbacks σ} {w w' : World σ} (h : Edits w w') : Acts cb w w' :=
  .edit h (.refl w')

theorem Reentrant.free {I : Inst → Prop} {allowed : Caller → Call → Prop} {cb : Callbacks σ}
    (h : Reentrant allowed cb) : Free I cb := by
  induction h with
  | passive hp =>
    exact .passive {
      onMessage := fun _ _ _ w _ => hp.onMessage _ _ _ w
      onOpen := fun w _ => hp.onOpen w
      onClose := fun _ _ w _ => hp.onClose _ _ w
      onCloseTransport := fun w _ => hp.onCloseTransport w
      onHandshakeFailure := fun _ w _ => hp.onHandshakeFailure _ w
      onPing := fun w _ => hp.onPing w
      onPong := fun w _ => hp.onPong w
      rand := fun w _ => hp.rand w
      onSend := fun _ _ _ w _ => hp.onSend _ _ _ w
      onBuffer := fun _ _ w _ => hp.onBuffer _ _ w }
  | nested _ hn ih =>
    exact .nested ih {
      onMessage := fun _ _ _ w _ => (hn.onMessage _ _ _ w).acts
      onOpen := fun w _ => (hn.onOpen w).acts
      onClose := fun _ _ w _ => (hn.onClose _ _ w).acts
      onCloseTransport := fun w _ => (hn.onCloseTransport w).acts
      onHandshakeFailure := fun _ w _ => (hn.onHandshakeFailure _ w).acts
      onPing := fun w _ => (hn.onPing w).acts
      onPong := fun w _ => (hn.onPong w).acts
      rand := fun w _ => (hn.rand w).acts
      onSend := fun _ _ _ w _ => (hn.onSend _ _ _ w).acts
      onBuffer := fun _ _ w _ => (hn.onBuffer _ _ w).acts }

/-- A run whose callbacks make some calls is one whose callbacks may make any. -/
theorem Reachable.attained {I : Inst → Prop} {allowed : Caller → Call → Prop} {w : World σ}
    (h : Reachable allowed w) : ∃ H, Attained I H w := by
  induction h with
  | init hinit => exact ⟨[], .init hinit⟩
  | edit _ he ih =>
    obtain ⟨H, ih⟩ := ih
    exact ⟨H, .edit ih he⟩
  | call _ hcb _ ih =>
    obtain ⟨H, ih⟩ := ih
    exact ⟨H, .call _ ih hcb.free⟩
  | start _ hcb hrun ih =>
    obtain ⟨H, ih⟩ := ih
    exact ⟨H, .start ih hcb.free hrun⟩
  | parse _ hcb hrun ih =>
    obtain ⟨H, ih⟩ := ih
    exact ⟨_, .parse ih hcb.free hrun⟩

/-! ## The receiver is well formed -/

/-- The receiver between two steps: the cursor is inside the rx buffer, the message in progress is a
text, a binary message or none, and the frame under reception of an open instance is one that has
been let through. -/
structure Inst.WellFormed (i : Inst) : Prop where
  pos_le : i.rx.s.pos ≤ i.rx.s.size
  frag : i.rx.frag = .continue ∨ i.rx.frag = .text ∨ i.rx.frag = .binary
  opcode : i.state = .open → i.rx.state ≠ .opcode →
    i.rx.opcode ∈ [.continue, .text, .binary, .close, .ping, .pong]
  continuation : i.state = .open → i.rx.state ≠ .opcode → i.rx.opcode = .continue →
    i.rx.frag = .text ∨ i.rx.frag = .binary
  control : i.state = .open → i.rx.state ≠ .opcode → i.rx.state ≠ .size →
    i.rx.opcode ∈ [.close, .ping, .pong] →
      i.rx.s.pos + i.rx.size ≤ min 125 i.rx.s.size ∧
        (i.rx.opcode = .close → 2 ≤ i.rx.s.pos + i.rx.size)

theorem Opcode.isData_iff {o : Opcode} :
    o.isData = true ↔ o = .continue ∨ o = .text ∨ o = .binary := by
  cases o <;> simp [isData]

theorem Opcode.isControl_iff {o : Opcode} : o.isControl = true ↔ o ∈ [.close, .ping, .pong] := by
  cases o <;> simp [isControl]

theorem Inst.Kept.wellFormed (i : Inst) (h : i.Kept) : i.WellFormed := by
  have hfrag := Opcode.isData_iff.mp h.based.frag
  refine ⟨h.based.ok.pos_le, hfrag, fun ho hs => ?_, fun ho hs hc => ?_, fun ho hs hz hc => ?_⟩
  · have haccepted := (h.lawful ho hs).accepted hs
    revert haccepted
    unfold RxFrame.refusesOpcode
    cases i.rx.opcode <;> simp
  · have haccepted := (h.lawful ho hs).accepted hs
    rw [RxFrame.refusesOpcode_continue hc, decide_eq_false_iff_not] at haccepted
    exact hfrag.resolve_left haccepted
  · obtain ⟨-, hlen, hfit, hclose⟩ :=
      (h.lawful ho hs).short (Opcode.isControl_iff.mpr hc) hs hz
    exact ⟨Nat.le_min.mpr ⟨hlen, hfit⟩, hclose⟩

/-- What a turn of the loop relies on, when the bytes in `H` have been parsed before. `p` is the turn
up to the payload, and `q` the turn up to the end of the frame. -/
structure TurnSafe (H : List UInt8) (s : Stream) (w : World σ) (p q : Bool × World σ × Stream) :
    Prop where
  /-- `rx.mask` is indexed by the number of the byte of the mask. -/
  mask : w.inst.rx.state ∈ [.mask0, .mask1, .mask2, .mask3] →
    w.inst.rx.state.ctorIdx = RxState.mask0.ctorIdx + w.inst.rx.state.maskIndex
  header : p.2.1.inst.WellFormed
  /-- A write to the rx buffer is in bounds and succeeds. -/
  write : p.2.1.inst.rx.state = .data → p.2.1.inst.rx.size ≠ 0 → p.2.1.inst.rx.s.eof = false →
    p.2.1.inst.rx.s.pos < p.2.1.inst.rx.s.size ∧ ∀ b,
      (p.2.1.inst.rx.s.putU8 b).error = false ∧
        (p.2.1.inst.rx.s.putU8 b).text = p.2.1.inst.rx.s.text ++ [b]
  /-- The payload of a control frame does not fill the buffer before its end. -/
  flush : p.2.1.inst.rx.state = .data → p.2.1.inst.rx.size ≠ 0 → p.2.1.inst.rx.s.eof = true →
    p.2.1.inst.rx.dataOpcode ∉ [.close, .ping, .pong]
  payload : p.2.1.inst.rx.state = .data → q.2.1.inst.WellFormed
  /-- A close frame ends with two bytes in the buffer at least, and they are of those parsed last. -/
  close : p.2.1.inst.rx.state = .data → q.2.1.inst.state = .open → q.2.1.inst.rx.size = 0 →
    q.2.1.inst.rx.dataOpcode = .close →
      (q.2.1.inst.rx.s.pos + 2 ^ 64 - 2) % 65536 = q.2.1.inst.rx.s.pos - 2 ∧
      ∃ pre b₀ b₁ bs, H ++ q.2.2.text = pre ++ b₀ :: b₁ :: bs ∧
        q.2.1.inst.rx.s.mem.take q.2.1.inst.rx.s.pos = q.2.1.inst.rx.unmasked (b₀ :: b₁ :: bs)

/-- The rx buffer takes another byte of the payload. -/
theorem RxFrame.Sound.write {rx : RxFrame} (h : rx.Sound) (hd : rx.state = .data)
    (he : rx.s.eof = false) (b : UInt8) :
    rx.s.pos < rx.s.size ∧ (rx.s.putU8 b).error = false ∧
      (rx.s.putU8 b).text = rx.s.text ++ [b] := by
  have hlt := h.lt_size he
  have hfit : [b].length ≤ rx.s.size - rx.s.pos := by
    simp only [List.length_cons, List.length_nil]
    omega
  have herr := h.error (by simp [hd])
  exact ⟨hlt, Stream.write_error h.writable herr hfit, Stream.text_write h.ok h.writable herr hfit⟩

/-- The payload of a control frame does not fill the buffer before its end. -/
theorem RxFrame.Lawful.not_control {rx : RxFrame} (h : rx.Lawful) (hd : rx.state = .data)
    (hz : rx.size ≠ 0) (he : rx.s.eof = true) : rx.dataOpcode.isControl = false := by
  by_contra hc
  rw [Bool.not_eq_false] at hc
  have ho := h.opcode_of_control hc
  obtain ⟨-, -, hfit, -⟩ := h.short (by rw [ho]; exact hc) (by simp [hd]) (by simp [hd])
  simp only [Stream.eof, beq_iff_eq] at he
  omega

/-- The buffer at the end of a close frame. -/
theorem Looping.close {w : World σ} (h : Looping w) {H : List UInt8} (hh : w.inst.rx.Holds H)
    (hd : w.inst.rx.state = .data) (hz : w.inst.rx.size = 0) (hc : w.inst.rx.dataOpcode = .close) :
    (w.inst.rx.s.pos + 2 ^ 64 - 2) % 65536 = w.inst.rx.s.pos - 2 ∧
      ∃ pre b₀ b₁ bs, H = pre ++ b₀ :: b₁ :: bs ∧
        w.inst.rx.s.mem.take w.inst.rx.s.pos = w.inst.rx.unmasked (b₀ :: b₁ :: bs) := by
  have ho := h.lawful.opcode_of_control (by simp [hc, Opcode.isControl])
  obtain ⟨-, hlen, -, hmin⟩ :=
    h.lawful.short (by simp [ho, hc, Opcode.isControl]) (by simp [hd]) (by simp [hd])
  have hmin := hmin (ho.trans hc)
  obtain ⟨pre, bs, rfl, htext⟩ := hh hd
  have hpos : w.inst.rx.s.pos = bs.length := by
    rw [← h.lawful.ok.length_text, htext, RxFrame.length_unmasked]
  refine ⟨by omega, ?_⟩
  rcases bs with _ | ⟨b₀, _ | ⟨b₁, bs⟩⟩
  · simp only [List.length_nil] at hpos
    omega
  · simp only [List.length_cons, List.length_nil] at hpos
    omega
  · exact ⟨pre, b₀, b₁, bs, rfl, htext⟩

/-- **Every turn is safe.** -/
theorem Turning.safe {cb : Callbacks σ} (hcb : cb.Each Steps) {H : List UInt8} {s : Stream}
    {w : World σ} (h : Turning H s w) : TurnSafe H s w (headerPart cb s w)
      (payloadPart cb (headerPart cb s w).2.2 (headerPart cb s w).2.1) := by
  have hmask : w.inst.rx.state ∈ [.mask0, .mask1, .mask2, .mask3] →
      w.inst.rx.state.ctorIdx = RxState.mask0.ctorIdx + w.inst.rx.state.maskIndex := by
    intro hs
    simp only [List.mem_cons, List.not_mem_nil, or_false] at hs
    rcases hs with hs | hs | hs | hs <;> rw [hs] <;> rfl
  -- the payload of an open instance
  have hopen {s : Stream} {w : World σ} (h : Turning H s w) (hd : w.inst.rx.state = .data) :
      (payloadPart cb s w).2.1.inst.WellFormed ∧
        ((payloadPart cb s w).2.1.inst.state = .open → (payloadPart cb s w).2.1.inst.rx.Holds
          (H ++ (payloadPart cb s w).2.2.text) ∧ Looping (payloadPart cb s w).2.1 ∧
            (payloadPart cb s w).2.1.inst.rx.state = .data) := by
    by_cases hz : w.inst.rx.size = 0
    · have hpart : payloadPart cb s w = (false, w, s) := by simp [payloadPart, hz]
      rw [hpart]
      exact ⟨h.kept.wellFormed, fun _ => ⟨h.holds, h.toLooping, hd⟩⟩
    · obtain ⟨hturned, hdata, -⟩ := payloadPart_turned hcb h hd hz
      exact ⟨hturned.kept.wellFormed, fun ho => ⟨(hturned.looping ho).2, (hturned.looping ho).1, hdata⟩⟩
  by_cases hd : w.inst.rx.state = .data
  · have hpart : headerPart cb s w = (false, w, s) := by simp [headerPart, hd]
    rw [hpart]
    refine ⟨hmask, h.kept.wellFormed, fun _ _ he => ?_, fun _ hz he hc => ?_,
      fun _ => (hopen h hd).1, fun _ ho hz hc => ?_⟩
    · exact ⟨(h.lawful.write hd he 0).1, fun b => (h.lawful.write hd he b).2⟩
    · rw [← Opcode.isControl_iff, h.lawful.not_control hd hz he] at hc
      cases hc
    · obtain ⟨hholds, hlooping, hdata⟩ := (hopen h hd).2 ho
      exact hlooping.close hholds hdata hz hc
  obtain ⟨hturned, hlast⟩ := headerPart_turned hcb h hd
  generalize headerPart cb s w = r at hturned hlast ⊢
  obtain ⟨blocked, w', s'⟩ := r
  refine ⟨hmask, hturned.kept.wellFormed, fun hd' _ he => ?_, fun hd' _ he => ?_, fun hd' => ?_,
    fun hd' ho hz hc => ?_⟩
  · obtain ⟨-, hsound, -, -⟩ := hlast hd'
    exact ⟨(hsound.write hd' he 0).1, fun b => (hsound.write hd' he b).2⟩
  · obtain ⟨-, -, heof, -⟩ := hlast hd'
    exact absurd (heof.symm.trans he) (by simp)
  · obtain ⟨hturned, hsound, heof, hclosed⟩ := hlast hd'
    by_cases ho : w'.inst.state = .open
    · obtain ⟨hlooping, hholds⟩ := hturned.looping ho
      exact (hopen ⟨hlooping, hturned.ok, hturned.error rfl, hholds⟩ hd').1
    · exact (parseData_turned_closed hturned (hclosed ho) hd' hsound heof).2.1.kept.wellFormed
  · obtain ⟨hturned, hsound, heof, hclosed⟩ := hlast hd'
    by_cases ho' : w'.inst.state = .open
    · obtain ⟨hlooping, hholds⟩ := hturned.looping ho'
      obtain ⟨hholds, hlooping, hdata⟩ :=
        (hopen ⟨hlooping, hturned.ok, hturned.error rfl, hholds⟩ hd').2 ho
      exact hlooping.close hholds hdata hz hc
    · have hshut : (payloadPart cb s' w').2.1.inst.state = .closed :=
        (parseData_turned_closed hturned (hclosed ho') hd' hsound heof).2.2
      exact absurd (hshut.symm.trans ho) (by simp)

/-- How a turn comes closer to the end of the loop: it reads a byte, it completes the frame whose
payload has been read, it passes a rx buffer that is not empty on to the application, it is blocked,
or it leaves the open state. -/
inductive Advances (cb : Callbacks σ) (s : Stream) (w : World σ) : Bool × World σ × Stream → Prop
  | reads {blocked w' s'} : s.pos < s'.pos → Advances cb s w (blocked, w', s')
  | completes {w'} : w.inst.rx.state = .data → w.inst.rx.size = 0 → w'.inst.rx.state = .opcode →
      Advances cb s w (false, w', s)
  | passes {w'} : w.inst.rx.state = .data → w.inst.rx.size ≠ 0 → 0 < w.inst.rx.s.pos →
      w.inst.rx.dataOpcode = .text ∨ w.inst.rx.dataOpcode = .binary →
      flush cb w = (false, w') → w'.inst.rx.s.pos = 0 → Advances cb s w (false, w', s)
  | blocks {w' s'} : Advances cb s w (true, w', s')
  | leaves {blocked w' s'} : w'.inst.state ≠ .open → Advances cb s w (blocked, w', s')

/-- A control frame is the only one that is neither of a text nor of a binary message. -/
theorem RxFrame.Lawful.message_or_control {rx : RxFrame} (h : rx.Lawful) (hs : rx.state ≠ .opcode) :
    rx.dataOpcode = .text ∨ rx.dataOpcode = .binary ∨ rx.dataOpcode.isControl = true := by
  have hfrag := Opcode.isData_iff.mp h.frag
  have haccepted := h.accepted hs
  unfold dataOpcode
  split_ifs with hc
  · rw [refusesOpcode_continue hc, decide_eq_false_iff_not] at haccepted
    rcases hfrag.resolve_left haccepted with hf | hf <;> simp [hf]
  · revert haccepted hc
    unfold refusesOpcode
    cases rx.opcode <;> simp [Opcode.isControl]

/-- Reading does not go back. -/
theorem Stream.getU8_pos (s : Stream) : s.pos ≤ s.getU8.2.pos := by
  have hread : s.pos ≤ (s.read 1).2.pos := by
    unfold Stream.read
    split_ifs
    · exact Nat.le_refl _
    · exact Nat.le_succ _
    · exact Nat.le_refl _
  unfold Stream.getU8
  split
  · next heq => simpa [heq] using hread
  · next heq => simpa [heq] using hread

theorem parseData_pos (cb : Callbacks σ) (s : Stream) (w : World σ) :
    s.pos ≤ (parseData cb s w).2.2.pos := by
  have hpart : s.pos ≤ (payloadPart cb s w).2.2.pos := by
    have hread := s.getU8_pos
    unfold payloadPart
    generalize s.getU8 = r at hread ⊢
    obtain ⟨_ | b, s'⟩ := r <;> dsimp only at hread ⊢ <;> split_ifs <;>
      first | exact Nat.le_refl _ | exact hread
  rw [parseData_parts]
  split_ifs <;> exact hpart

/-- **Every turn comes closer to the end of the loop.** -/
theorem Turning.advances {cb : Callbacks σ} (hcb : cb.Each Steps) {H : List UInt8} {s : Stream}
    {w : World σ} (h : Turning H s w) : Advances cb s w (parseStep cb s w) := by
  rw [parseStep_parts]
  by_cases hd : w.inst.rx.state = .data
  swap
  · -- a byte of the header is read, whatever follows
    unfold headerPart
    rw [if_neg hd]
    cases hb : s.rest with
    | nil =>
      rw [Stream.getU8_nil h.ok h.error hb, if_neg hd]
      exact .blocks
    | cons b bs =>
      rw [Stream.getU8_cons h.error hb]
      have hpos := parseData_pos cb { s with pos := s.pos + 1 } (consume cb b w)
      dsimp only at hpos ⊢
      split_ifs
      · exact .reads hpos
      · exact .reads (Nat.lt_succ_self _)
  -- in a payload nothing is read as part of the header
  have hpart : headerPart cb s w = (false, w, s) := by simp [headerPart, hd]
  rw [hpart, if_pos hd, parseData_parts]
  unfold payloadPart
  by_cases hz : w.inst.rx.size = 0
  -- the payload is over, and the frame with it unless that is refused
  · simp only [hz, Nat.lt_irrefl, if_false, h.state, and_self, if_true, Bool.false_or]
    cases hrefused : (finish cb w).1 with
    | true => exact .blocks
    | false => exact .completes hd hz rfl
  have hpos : 0 < w.inst.rx.size := Nat.pos_of_ne_zero hz
  simp only [hpos, if_true]
  by_cases he : w.inst.rx.s.eof = true
  -- the buffer is full and is passed on in front of the next byte
  · have hroom := h.lawful.room
    have hfull : w.inst.rx.s.pos = w.inst.rx.s.size := by simpa [Stream.eof] using he
    simp only [he, if_true]
    rcases flush_free hcb h.toLooping with ⟨hb, hm⟩ | ⟨hb, w', hm, heq⟩
    · rw [if_neg (by rw [hm.rx]; exact fun hend => hz hend.2), hb]
      exact .blocks
    -- a control frame is never longer than the buffer
    · have hmessage : w.inst.rx.dataOpcode = .text ∨ w.inst.rx.dataOpcode = .binary := by
        rcases h.lawful.message_or_control (by simp [hd]) with ho | ho | ho
        · exact .inl ho
        · exact .inr ho
        · exact absurd (ho.symm.trans (h.lawful.not_control hd hz he)) (by simp)
      have hsize : (flush cb w).2.inst.rx.size ≠ 0 := by
        rw [heq, World.updateRx_inst, hm.rx]
        exact hz
      rw [if_neg (fun hend => hsize hend.2), hb]
      refine .passes hd hz (by omega) hmessage (Prod.ext hb rfl) ?_
      rw [heq]
      rfl
  -- there is room, and a byte is read if there is one
  · simp only [he, Bool.false_eq_true, if_false]
    cases hb : s.rest with
    | nil =>
      rw [Stream.getU8_nil h.ok h.error hb, if_neg (fun hend => hz hend.2)]
      exact .blocks
    | cons b bs =>
      rw [Stream.getU8_cons h.error hb]
      dsimp only
      split_ifs <;> exact .reads (Nat.lt_succ_self _)

/-- **The receiver is well formed in every world a run reaches and at every turn of the loop, and
every turn is safe.** A callback that finds it otherwise may do anything. -/
theorem Attained.receiver_safe {H : List UInt8} {w : World σ}
    (h : Attained Inst.WellFormed H w) :
    w.inst.WellFormed ∧ ∀ (cb : Callbacks σ) (data : List UInt8) (s' : Stream) (w' : World σ),
      Free Inst.WellFormed cb → LoopTurn cb data w s' w' →
        w'.inst.WellFormed ∧ TurnSafe H s' w' (headerPart cb s' w')
          (payloadPart cb (headerPart cb s' w').2.2 (headerPart cb s' w').2.1) := by
  obtain ⟨hattains, hholds⟩ := h.attains Inst.Kept.wellFormed
  refine ⟨hattains.wellFormed, fun cb data s' w' hcb hl => ?_⟩
  have hsteps := hcb.steps Inst.Kept.wellFormed
  have hturning := hl.turning hsteps hattains hholds
  exact ⟨hturning.kept.wellFormed, hturning.safe hsteps⟩

theorem Sample.open_receiver_safe : ∃ (H : List UInt8) (w : World Unit), w.inst.state = .open ∧
    w.inst.WellFormed ∧ ∀ (cb : Callbacks Unit) (data : List UInt8) (s' : Stream) (w' : World Unit),
      Free Inst.WellFormed cb → LoopTurn cb data w s' w' →
        w'.inst.WellFormed ∧ TurnSafe H s' w' (headerPart cb s' w')
          (payloadPart cb (headerPart cb s' w').2.2 (headerPart cb s' w').2.1) := by
  obtain ⟨w, hw, ho, -⟩ := opens
  obtain ⟨H, h⟩ := (hw fun _ _ => True).attained
  exact ⟨H, w, ho, h.receiver_safe⟩

/-! ## The loop ends -/

/-- **`wic_parse` returns, and every turn of its loop comes closer to the end; the loop is entered
only with room in the rx buffer.** -/
theorem Attained.terminates {H : List UInt8} {w : World σ} (h : Attained (fun _ => True) H w)
    {cb : Callbacks σ} (hcb : Free (fun _ => True) cb) (data : List UInt8) :
    (∃ n w', wicParse cb data w = some (n, w')) ∧
      ∀ s' w', LoopTurn cb data w s' w' →
        0 < w'.inst.rx.s.size ∧ Advances cb s' w' (parseStep cb s' w') := by
  have hsteps := hcb.steps fun _ _ => trivial
  obtain ⟨hattains, hholds⟩ := h.attains fun _ _ => trivial
  obtain ⟨n, w', hrun, -⟩ := wicParse_attains hsteps hattains hholds data
  refine ⟨⟨n, w', hrun⟩, fun s' w' hl => ?_⟩
  have hturning := hl.turning hsteps hattains hholds
  exact ⟨hturning.lawful.room, hturning.advances hsteps⟩

theorem Sample.open_terminates : ∃ (H : List UInt8) (w : World Unit), w.inst.state = .open ∧
    Attained (fun _ => True) H w ∧ (∃ n w', wicParse (host id) [0x82, 0] w = some (n, w')) ∧
      ∀ s' w', LoopTurn (host id) [0x82, 0] w s' w' →
        0 < w'.inst.rx.s.size ∧ Advances (host id) s' w' (parseStep (host id) s' w') := by
  obtain ⟨w, hw, ho, -⟩ := opens
  obtain ⟨H, h⟩ := (hw fun _ _ => True).attained
  have hcb : Reentrant (fun _ _ => True) (host id) := .passive host_passive
  exact ⟨H, w, ho, h, h.terminates hcb.free _⟩

/-! ## A callback that calls `wic_init` -/

/-- A turn that only passes an empty rx buffer on to a handler the application has not given changes
nothing. -/
theorem parseStep_empty {cb : Callbacks σ} {w : World σ} (s : Stream)
    (hd : w.inst.rx.state = .data) (hz : w.inst.rx.size ≠ 0) (hroom : w.inst.rx.s.size = 0)
    (hpos : w.inst.rx.s.pos = 0) (he : w.inst.rx.s.error = false)
    (hm : w.inst.onMessage = false) : parseStep cb s w = (false, w, s) := by
  have hpass : passOn cb w = (true, w) := by
    unfold passOn offer
    split <;> simp [hm]
  have hrewind : w.inst.rx.s.rewind = w.inst.rx.s := by
    rw [Stream.rewind, ← hpos, ← he]
  have hflush : flush cb w = (false, w) := by
    rw [flush_eq, hpass]
    simp [World.updateRx, World.update, hrewind]
  have hsize : 0 < w.inst.rx.size := Nat.pos_of_ne_zero hz
  have heof : w.inst.rx.s.eof = true := by simp [Stream.eof, hroom, hpos]
  simp [parseStep, hd, parseData, hsize, heof, hflush, hz]

/-- A turn that leaves everything as it was is the first of infinitely many. -/
theorem parseLoop_stuck {cb : Callbacks σ} {s : Stream} {w : World σ}
    (hstep : parseStep cb s w = (false, w, s)) (ho : w.inst.state = .open) (fuel : Nat) :
    parseLoop cb fuel s w = none := by
  induction fuel with
  | zero => rfl
  | succ fuel ih =>
    unfold parseLoop
    rw [hstep]
    simpa [ho] using ih

/-- A turn that infinitely many follow is one of infinitely many. -/
theorem parseLoop_none {cb : Callbacks σ} {s s' : Stream} {w w' : World σ}
    (hstep : parseStep cb s w = (false, w', s')) (ho : w'.inst.state = .open)
    (h : ∀ fuel, parseLoop cb fuel s' w' = none) (fuel : Nat) : parseLoop cb fuel s w = none := by
  cases fuel with
  | zero => rfl
  | succ fuel =>
    unfold parseLoop
    rw [hstep]
    simpa [ho] using h fuel

namespace Sample

theorem noRoom_le : 0 ≤ ([] : List UInt8).length := Nat.le_refl _

/-- A client without an rx buffer. -/
def noRoom : InitArg where
  rx := []
  rxMax := 0
  rxMax_le := noRoom_le
  url := some (ascii "ws://localhost/")

/-- An application that sets the instance up anew when the connection opens. -/
def reinit : Callbacks Unit :=
  host fun w =>
    match wicInit noRoom {} with
    | some inst => { w with inst }
    | none => w

/-- The response, and a binary message of one byte behind it. -/
def responseAndMessage : List UInt8 := response ++ [0x82, 1, 0]

/-- The handshake part of `wic_parse` ends with an open instance without an rx buffer. -/
theorem reinit_opens : ∃ (H : List UInt8) (w w₁ : World Unit), Attained (fun _ => True) H w ∧
    parseHandshake reinit responseAndMessage
        (streamInitRo responseAndMessage responseAndMessage.length) w =
      ((streamInitRo responseAndMessage responseAndMessage.length).seek response.length, w₁) ∧
    w₁.inst.state = .open ∧ w₁.inst.rx = { s := streamInit 0 [] 0 } ∧
      w₁.inst.onMessage = false := by
  have hrun : (session (host id) arg () []).map (fun w =>
      let r := httpParserExecute responseAndMessage w
      (w.inst.state, r.1, r.2.inst.state, r.2.inst.http.httpErrno, r.2.inst.onOpen)) =
        some (.parseHandshake, response.length, .ready, .ok, true) := by
    decide +kernel
  have hinit : (wicInit noRoom {}).map (fun i => (i.rx, i.onMessage)) =
      some ({ s := streamInit 0 [] 0 }, false) := by
    decide +kernel
  obtain ⟨w, hw, heq⟩ := Option.map_eq_some_iff.mp hrun
  obtain ⟨inst, hinst, hrx⟩ := Option.map_eq_some_iff.mp hinit
  simp only [Prod.mk.injEq] at heq hrx
  obtain ⟨hs, hn, hready, he, hopen⟩ := heq
  have hcb : Reentrant (fun _ _ => True) (host id) := .passive host_passive
  obtain ⟨H, h⟩ := (session_reachable hcb hw).attained
  refine ⟨H, w, _, h, parseHandshake_eq reinit hs _ _ |>.trans (by rw [hn]), ?_⟩
  generalize (httpParserExecute responseAndMessage w).2 = w₂ at hready he hopen
  have hafter : afterHttp reinit w₂ = ({ w₂.emit .onOpen with inst }).setState .open := by
    simp [afterHttp, he, hready, callOnOpen, hopen, reinit, host, hinst]
  rw [hafter]
  exact ⟨rfl, hrx⟩

end Sample

/-- **When `on_open` sets the instance up anew without an rx buffer, `wic_parse` does not return.** -/
theorem reinit_diverges : ∃ (H : List UInt8) (w : World Unit) (s : Stream) (w₁ : World Unit),
    Attained (fun _ => True) H w ∧
    parseHandshake Sample.reinit Sample.responseAndMessage
      (streamInitRo Sample.responseAndMessage Sample.responseAndMessage.length) w = (s, w₁) ∧
    w₁.inst.state = .open ∧ w₁.inst.rx.s.size = 0 ∧
      ∀ fuel, parseLoop Sample.reinit fuel s w₁ = none := by
  obtain ⟨H, w, w₁, h, hhand, ho, hrx, hm⟩ := Sample.reinit_opens
  refine ⟨H, w, _, w₁, h, hhand, ho, by rw [hrx]; rfl, ?_⟩
  generalize hs : (streamInitRo Sample.responseAndMessage
    Sample.responseAndMessage.length).seek Sample.response.length = s
  have hrest : s.rest = [0x82, 1, 0] := by
    rw [← hs]
    decide +kernel
  have herr : s.error = false := by
    rw [← hs]
    exact Stream.seek_error _ _
  have hrest' := Stream.rest_advance hrest
  have herr' : ({ s with pos := s.pos + 1 } : Stream).error = false := herr
  -- the two bytes of the header: no mask, and a payload of one byte
  have hfirst : consume Sample.reinit 0x82 w₁ = w₁.updateRx fun rx => rx.take w₁.inst.utf8Rx 0x82 :=
    consume_of_none (by rw [hrx]; rfl)
  have hrx₁ : w₁.inst.rx.take w₁.inst.utf8Rx 0x82 =
      { s := streamInit 0 [] 0, fin := true, opcode := .binary, state := .size } := by
    rw [hrx]
    rfl
  generalize hw₂ : (w₁.updateRx fun rx => rx.take w₁.inst.utf8Rx 0x82) = w₂ at hfirst
  have hrx₂ : w₂.inst.rx =
      { s := streamInit 0 [] 0, fin := true, opcode := .binary, state := .size } := by
    rw [← hw₂]
    exact hrx₁
  have hsecond : consume Sample.reinit 1 w₂ = w₂.updateRx fun rx => rx.take w₂.inst.utf8Rx 1 :=
    consume_of_none (by rw [hrx₂]; rfl)
  have hrx₃ : (w₂.updateRx fun rx => rx.take w₂.inst.utf8Rx 1).inst.rx =
      { s := streamInit 0 [] 0, fin := true, opcode := .binary, state := .data, size := 1 } := by
    rw [World.updateRx_inst, hrx₂]
    rfl
  have ho₂ : w₂.inst.state = .open := by rw [← hw₂]; exact ho
  have hm₂ : w₂.inst.onMessage = false := by rw [← hw₂]; exact hm
  have hturn₁ : parseStep Sample.reinit s w₁ = (false, w₂, { s with pos := s.pos + 1 }) := by
    rw [parseStep_header (by rw [hrx]; simp), Stream.getU8_cons herr hrest]
    simp [hfirst, hrx₂, breaksOff, hrx]
  generalize hw₃ : (w₂.updateRx fun rx => rx.take w₂.inst.utf8Rx 1) = w₃ at hsecond hrx₃
  have ho₃ : w₃.inst.state = .open := by rw [← hw₃]; exact ho₂
  have hstuck (s : Stream) : parseStep Sample.reinit s w₃ = (false, w₃, s) :=
    parseStep_empty s (by rw [hrx₃]) (by rw [hrx₃]; simp) (by rw [hrx₃]; rfl) (by rw [hrx₃]; rfl)
      (by rw [hrx₃]; rfl) (by rw [← hw₃]; exact hm₂)
  have hturn₂ : parseStep Sample.reinit { s with pos := s.pos + 1 } w₂ =
      (false, w₃, { s with pos := s.pos + 1 + 1 }) := by
    rw [parseStep_header (by rw [hrx₂]; simp), Stream.getU8_cons herr' hrest']
    have hdata : parseData Sample.reinit { s with pos := s.pos + 1 + 1 } w₃ =
        (false, w₃, { s with pos := s.pos + 1 + 1 }) := by
      rw [← parseStep_data (by rw [hrx₃]), hstuck]
    simp [hsecond, hrx₃, hdata]
  exact parseLoop_none hturn₁ ho₂ (parseLoop_none hturn₂ ho₃ (parseLoop_stuck (hstuck _) ho₃))

end Wic
