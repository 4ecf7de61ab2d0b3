import Wic.Handshake.Parses
import Wic.Handshake.Request
import Wic.Receiver.Lawful

/-!
# What every run keeps

The invariant of the worlds a run reaches, whatever calls are made and whatever calls the callbacks
make: before the upgrade the receiver is as `wic_init` left it, and an open instance has an rx buffer
with room and a lawful frame under reception.

## Main definitions

* `RxFrame.Fresh`, `Invariant`
* `Starts`: what `wic_start` may change
* `Sample.host`, `Sample.arg`, `Sample.response`: a session

## Main results

* `wicParse_induction`: what `wic_parse` preserves
* `Reachable.invariant`
-/

namespace Wic

open Http (ascii)

variable {σ : Type}

/-- The frame under reception before the upgrade. -/
structure RxFrame.Fresh (rx : RxFrame) : Prop where
  state : rx.state = .opcode
  frag : rx.frag = .continue
  ok : rx.s.Ok
  writable : rx.s.writable = true

theorem RxFrame.Fresh.lawful {rx : RxFrame} (h : rx.Fresh) (hroom : 0 < rx.s.size) : rx.Lawful where
  ok := h.ok
  writable := h.writable
  room := hroom
  error hs := absurd h.state hs
  header hs := absurd h.state hs
  frag := by rw [h.frag]; rfl
  accepted hs := absurd h.state hs
  short _ hs := absurd h.state hs

/-- What holds of every world a run reaches. -/
structure Invariant (w : World σ) : Prop where
  role : w.inst.role = .client
  waiting : w.inst.state = .init ∨ w.inst.state = .parseHandshake →
    w.inst.rx.Fresh ∧ w.inst.http.httpErrno = .ok
  ready : w.inst.state ≠ .ready
  «open» : w.inst.state = .open → w.inst.rx.Lawful
  sends : w.inst.progress.Sane

/-! ## `wic_start` -/

/-- The entries of the trace that come from `wic_start`. -/
def Event.OfStart : Event → Prop
  | .state s => s = .parseHandshake
  | .buffer _ type _ _ => type = .http
  | .send _ _ type => type = .http
  | _ => False

/-- What `wic_start` may change. -/
structure Starts (w w' : World σ) : Prop where
  inst : w'.inst = { w.inst with state := w'.inst.state, hash := w'.inst.hash }
  state : w'.inst.state = w.inst.state ∨ w.inst.state = .init ∧ w'.inst.state = .parseHandshake
  log : ∃ es, w'.log = w.log ++ es ∧ ∀ e ∈ es, e.OfStart

namespace Starts

variable {w w' w'' : World σ}

theorem edits (h : Edits w w') : Starts w w' where
  inst := by rw [h.inst]
  state := .inl (by rw [h.inst])
  log := ⟨[], by simp [h.log], by simp⟩

theorem emit {e : Event} (he : e.OfStart) : Starts w (w.emit e) :=
  ⟨rfl, .inl rfl, [e], rfl, by simpa using he⟩

theorem trans (h : Starts w w') (h' : Starts w' w'') : Starts w w'' where
  inst := by rw [h'.inst, h.inst]
  state := by
    rcases h'.state with h₁ | ⟨h₁, h₂⟩
    · rw [h₁]
      exact h.state
    · rcases h.state with h₃ | ⟨-, h₃⟩
      · exact .inr ⟨h₃ ▸ h₁, h₂⟩
      · simp [h₃] at h₁
  log := by
    obtain ⟨es, hes, hall⟩ := h.log
    obtain ⟨fs, hfs, hall'⟩ := h'.log
    refine ⟨es ++ fs, by rw [hfs, hes, List.append_assoc], ?_⟩
    simpa [or_imp, forall_and] using ⟨hall, hall'⟩

end Starts

section Start

variable {P : Caller → World σ → World σ → Prop} {cb : Callbacks σ}

theorem handOver_starts (hcb : cb.Respect P) (tx : Stream) (count : Nat) (w : World σ) :
    Starts w (handOver cb tx count .http w) := by
  have hemit : (Event.send tx.base (tx.mem.take count) .http).OfStart := rfl
  exact (Starts.emit hemit).trans (.edits (hcb.onSend _ _ _ _))

theorem startClient_starts (hcb : cb.Respect P) {fuel : Nat} {w w' : World σ} {status : Status}
    (h : startClient cb fuel w = some (status, w')) : Starts w w' := by
  have hlease : Starts w (lease cb 0 .http w).2 :=
    (Starts.edits (hcb.onBuffer 0 .http w)).trans (.emit rfl)
  have hstarted := startClient_started h
  generalize hr : (status, w') = r at hstarted
  -- the request is refused, or there is no buffer for it, or it is written
  cases hstarted with
  | refused =>
    cases hr
    exact .edits (.refl w)
  | blocked =>
    cases hr
    exact hlease
  | @ended hs buf max w₁ nonce w₂ key u tx hb hk hn ht =>
    have hinit : (lease cb 0 .http w).2.inst.state = .init := by
      show (cb.onBuffer 0 .http w).2.inst.state = .init
      rw [(hcb.onBuffer 0 .http w).inst, hs]
    rw [hb] at hlease hinit
    have hdraw := drawKey_edits hcb w₁
    rw [hk] at hdraw
    have hhash : Starts w₂ (w₂.update fun i => { i with hash := serverHash key }) :=
      ⟨rfl, .inl rfl, [], by simp, by simp⟩
    have hw₂ := (hlease.trans (.edits hdraw)).trans hhash
    -- a request that does not fit hands the buffer back empty
    split_ifs at hr
    · cases hr
      exact hw₂.trans (handOver_starts hcb _ _ _)
    · cases hr
      refine hw₂.trans (Starts.trans ?_ (handOver_starts hcb _ _ _))
      have hinit₂ : w₂.inst.state = .init := by rw [hdraw.inst]; exact hinit
      exact ⟨rfl, .inr ⟨hinit₂, rfl⟩, [.state .parseHandshake], rfl, by simp [Event.OfStart]⟩

end Start

/-! ## Preservation -/

namespace Invariant

variable {w w' : World σ}

/-- It is about the instance alone. -/
theorem of_inst (h : Invariant w) (hi : w'.inst = w.inst) : Invariant w' := by
  obtain ⟨hrole, hwaiting, hready, hopen, hsends⟩ := h
  rw [← hi] at hrole hwaiting hready hopen hsends
  exact ⟨hrole, hwaiting, hready, hopen, hsends⟩

theorem of_closed (hr : w.inst.role = .client) (hs : w.inst.state = .closed)
    (hp : w.inst.progress.Sane) : Invariant w :=
  ⟨hr, by simp [hs], by simp [hs], by simp [hs], hp⟩

theorem of_live (h : Live w) (hp : w.inst.progress.Sane) : Invariant w :=
  ⟨h.role, by simp [h.state], by simp [h.state], fun _ => h.lawful, hp⟩

theorem live (h : Invariant w) (hs : w.inst.state = .open) : Live w := ⟨hs, h.role, h.open hs⟩

theorem keeps (h : Invariant w) (hk : Keeps w w') : Invariant w' := by
  have hr : w'.inst.role = .client := by rw [hk.role, h.role]
  rcases hk.state with hs | hs | ⟨hs, -⟩
  · exact ⟨hr, by rw [hs, hk.rx, hk.http]; exact h.waiting, by rw [hs]; exact h.ready,
      by rw [hs, hk.rx]; exact h.open, hk.sends h.sends⟩
  · exact .of_closed hr hs (hk.sends h.sends)
  · exact absurd hs h.ready

theorem starts (h : Invariant w) (hst : Starts w w') : Invariant w' := by
  have hr : w'.inst.role = .client := by rw [hst.inst]; exact h.role
  have hrx : w'.inst.rx = w.inst.rx := by rw [hst.inst]
  have hhttp : w'.inst.http = w.inst.http := by rw [hst.inst]
  have hsends : w'.inst.progress.Sane := by rw [hst.inst]; exact h.sends
  rcases hst.state with hs | ⟨hs, hs'⟩
  · exact ⟨hr, by rw [hs, hrx, hhttp]; exact h.waiting, by rw [hs]; exact h.ready,
      by rw [hs, hrx]; exact h.open, hsends⟩
  · refine ⟨hr, fun _ => ?_, by simp [hs'], by simp [hs'], hsends⟩
    rw [hrx, hhttp]
    exact h.waiting (.inl hs)

end Invariant

/-- The handshake part of `wic_parse` while the instance waits for the response. -/
theorem parseHandshake_eq (cb : Callbacks σ) {w : World σ} (hs : w.inst.state = .parseHandshake)
    (data : List UInt8) (s : Stream) : parseHandshake cb data s w =
      (s.seek (httpParserExecute data w).1, afterHttp cb (httpParserExecute data w).2) := by
  simp [parseHandshake, hs]

section Parse

variable {G : Prop} {cb : Callbacks σ} {w w₁ : World σ}

theorem Parsing.role (hp : Parsing w w₁) : w₁.inst.role = w.inst.role := by rw [hp.inst]

/-- The frame under reception is fresh behind the response too. -/
theorem Parsing.fresh (hp : Parsing w w₁) (h : w.inst.rx.Fresh) : w₁.inst.rx.Fresh := by
  have hstate : w₁.inst.rx.state = w.inst.rx.state := by rw [hp.inst]
  have hfrag : w₁.inst.rx.frag = w.inst.rx.frag := by rw [hp.inst]
  exact ⟨hstate.trans h.state, hfrag.trans h.frag, hp.ok h.ok, hp.writable.trans h.writable⟩

theorem callOnOpen_keeps (hcb : cb.Respect (QuietAt G)) (hr : w.inst.role = .client) :
    Keeps w (callOnOpen cb w) := by
  unfold callOnOpen
  split_ifs
  · have hopen : Quiet G (w.emit .onOpen) (cb.onOpen (w.emit .onOpen)) := hcb.onOpen _ hr
    exact (Keeps.emit _).trans hopen.toKeeps
  · exact .refl w

theorem afterHttp_invariant (hcb : cb.Respect (QuietAt G)) (h : Invariant w)
    (hs : w.inst.state = .parseHandshake) (hp : Parsing w w₁) : Invariant (afterHttp cb w₁) := by
  have hr : w₁.inst.role = .client := by rw [hp.role, h.role]
  have hsends : w₁.inst.progress.Sane := by rw [hp.inst]; exact h.sends
  have hfresh := hp.fresh (h.waiting (.inr hs)).1
  unfold afterHttp
  by_cases he : w₁.inst.http.httpErrno = .ok
  · rw [if_neg (not_not.mpr he)]
    by_cases hready : w₁.inst.state = .ready
    · rw [if_pos hready]
      have haccepted : Accepted w := fun hs' => by simp [hs] at hs'
      have hroom := (hp.accepted (h.waiting (.inr hs)).1.ok haccepted hready).resolve_left
        (not_not.mpr he)
      have hk := callOnOpen_keeps hcb hr
      refine .of_live ⟨rfl, by rw [World.setState_inst]; exact hk.role.trans hr, ?_⟩
        (hk.sends hsends)
      rw [World.setState_inst]
      exact hk.rx ▸ hfresh.lawful hroom
    · rw [if_neg hready]
      have hs₁ : w₁.inst.state = .parseHandshake := (hp.state.resolve_right hready).trans hs
      exact ⟨hr, fun _ => ⟨hfresh, he⟩, hready, by simp [hs₁], hsends⟩
  · rw [if_pos he]
    have h₁ := callOnCloseTransport_quiet hcb hr
    have h₂ := callOnHandshakeFailure_quiet hcb (h₁.role.trans hr)
      (if w₁.inst.http.httpErrno = .cbMessageComplete then .upgrade else .protocol)
    exact .of_closed (by rw [World.setState_inst]; exact h₂.role.trans (h₁.role.trans hr)) rfl
      (h₂.sends (h₁.sends hsends))

/-- `stream_seek` stays inside the stream. -/
theorem Stream.Ok.seek {s : Stream} (h : s.Ok) (offset : Nat) : (s.seek offset).Ok := by
  unfold Stream.seek
  split_ifs with ho
  · exact ⟨ho, h.size_le⟩
  · exact h

theorem Stream.seek_error (s : Stream) (offset : Nat) : (s.seek offset).error = s.error := by
  unfold Stream.seek
  split_ifs <;> rfl

/-- The world and the stream behind the handshake part of `wic_parse`. -/
theorem wicParse_split (hcb : cb.Respect (QuietAt G)) (h : Invariant w) (data : List UInt8) :
    ∃ s w₁, s.Ok ∧ s.error = false ∧ Invariant w₁ ∧
      (w.inst.state ≠ .parseHandshake → w₁ = w) ∧
      (w.inst.state = .parseHandshake → w₁ = afterHttp cb (httpParserExecute data w).2) ∧
      wicParse cb data w = (parseWebsocket cb s w₁).map fun (w, s) =>
        (if w.inst.state = .open then s.pos else data.length, w) := by
  have hok := streamInitRo_ok data
  by_cases hst : w.inst.state = .parseHandshake
  · exact ⟨_, _, hok.seek _, Stream.seek_error _ _,
      afterHttp_invariant hcb h hst (httpParserExecute_parsing data), fun hne => absurd hst hne,
      fun _ => rfl, by rw [wicParse, parseHandshake_eq cb hst]⟩
  · exact ⟨_, w, hok, rfl, h, fun _ => rfl, fun h => absurd h hst, by simp [wicParse, parseHandshake, hst]⟩

/-- **What the handshake part preserves, settling and reading a byte, and what cannot be told from
the frame of a closed instance, `wic_parse` preserves; and it always returns.** -/
theorem wicParse_induction (P : World σ → Prop) (hcb : cb.Respect (QuietAt G)) (h : Invariant w)
    (data : List UInt8)
    (hhand : w.inst.state = .parseHandshake → P w →
      P (afterHttp cb (httpParserExecute data w).2))
    (hsettle : ∀ w, Live w → P w → P (settle cb w).2)
    (hconsume : ∀ w b, Live w → w.inst.rx.Rests → P w → P (consume cb b w))
    (hframe : ∀ w f, w.inst.state ≠ .open → P w → P (w.updateRx f)) (hP : P w) :
    ∃ n w', wicParse cb data w = some (n, w') ∧ Invariant w' ∧ P w' := by
  obtain ⟨s, w₁, hs, herr, hinv, hkept, hhandled, hrun⟩ := wicParse_split hcb h data
  -- the handshake comes first, if it is still under way
  have hP₁ : P w₁ := by
    by_cases hst : w.inst.state = .parseHandshake
    · rw [hhandled hst]
      exact hhand hst hP
    · rw [hkept hst]
      exact hP
  -- then come the turns of the loop, if the instance is open
  by_cases ho : w₁.inst.state = .open
  · obtain ⟨w', s', hw, ⟨hP', hk⟩, hlive⟩ := parseWebsocket_induction
      (fun w' => P w' ∧ KeepsSetup w₁ w') hcb
      (fun w hl hP => ⟨hsettle w hl hP.1, hP.2.trans (settle_receiving hcb hl.receiving).2⟩)
      (fun w b hl hrest hP => ⟨hconsume w b hl hrest hP.1, hP.2.trans (consume_setup hcb hl.role b)⟩)
      (fun w f ho hP => ⟨hframe w f ho hP.1, hP.2.trans (.updateRx f)⟩)
      (hinv.live ho) ⟨hP₁, .refl w₁⟩ hs herr
    refine ⟨_, w', by rw [hrun, hw]; rfl, ?_, hP'⟩
    by_cases ho' : w'.inst.state = .open
    · exact .of_live (hlive ho') (hk.sends hinv.sends)
    · have hlead := hk.state
      rw [ho] at hlead
      exact .of_closed (hk.role.trans hinv.role) (hlead.open_or.resolve_left ho')
        (hk.sends hinv.sends)
  · exact ⟨_, w₁, by rw [hrun, parseWebsocket, if_neg ho]; rfl, hinv, hP₁⟩

end Parse

/-! ## Runs -/

/-- What `wic_init` sets up. -/
theorem wicInit_eq {arg : InitArg} {u : Http.HttpParserUrl} {inst : Inst}
    (h : wicInit arg u = some inst) :
    inst.role = .client ∧ inst.state = .init ∧ inst.http.httpErrno = .ok ∧
      inst.rx = { s := streamInit arg.rxBase arg.rx arg.rxMax } ∧ inst.progress = ⟨.continue, 0⟩ := by
  unfold wicInit at h
  by_cases hset : (!arg.onSend || !arg.onBuffer) = true
  · rw [if_pos hset] at h
    cases h
  rw [if_neg hset] at h
  split at h
  · cases h
  split at h
  · cases h
  by_cases hrole : arg.role = .client
  · rw [if_neg (not_not.mpr hrole)] at h
    cases h
    exact ⟨hrole, rfl, rfl, rfl, rfl⟩
  · rw [if_pos hrole] at h
    cases h

theorem wicInit_invariant {arg : InitArg} {u : Http.HttpParserUrl} {inst : Inst}
    (h : wicInit arg u = some inst) (heap : Nat → Header) (app : σ) :
    Invariant (World.mk inst heap [] app) := by
  obtain ⟨hrole, hstate, hhttp, hrx, hprogress⟩ := wicInit_eq h
  have hsane : inst.progress.Sane := by
    rw [hprogress]
    exact ⟨none, [], rfl, rfl⟩
  have hfresh : inst.rx.Fresh := by
    rw [hrx]
    exact ⟨rfl, rfl, ⟨Nat.zero_le _, Nat.le_trans (Nat.mod_le _ _) arg.rxMax_le⟩, rfl⟩
  exact ⟨hrole, fun _ => ⟨hfresh, hhttp⟩, by simp [hstate], by simp [hstate], hsane⟩

/-- Callbacks of a run are quiet, whatever calls they make. -/
theorem Reentrant.quiet {allowed : Caller → Call → Prop} {cb : Callbacks σ}
    (h : Reentrant allowed cb) : cb.Respect (QuietAt False) :=
  (quiet_lifts False.elim).respect h

/-- **The invariant holds of every world a run reaches.** -/
theorem Reachable.invariant {allowed : Caller → Call → Prop} {w : World σ}
    (h : Reachable allowed w) : Invariant w := by
  induction h with
  | init hinit => exact wicInit_invariant hinit _ _
  | edit _ he ih => exact ih.keeps (.edits he)
  | call _ hcb hc ih => exact ih.keeps (Call.run_quiet hcb.quiet ih.role _ False.elim).toKeeps
  | start _ hcb hrun ih => exact ih.starts (startClient_starts hcb.quiet hrun)
  | parse _ hcb hrun ih =>
    obtain ⟨n, w', hrun', hinv, -⟩ := wicParse_induction (fun _ => True) hcb.quiet ih _
      (fun _ _ => trivial) (fun _ _ _ => trivial) (fun _ _ _ _ _ => trivial)
      (fun _ _ _ _ => trivial) trivial
    rw [hrun] at hrun'
    obtain ⟨-, rfl⟩ := Prod.mk.inj (Option.some.inj hrun')
    exact hinv

/-! ## Sessions -/

section Session

variable {allowed : Caller → Call → Prop} {cb : Callbacks σ}

theorem wicParseAll_reachable (hcb : Reentrant allowed cb) {blocks : List (List UInt8)}
    {w w' : World σ} (h : Reachable allowed w) (hrun : wicParseAll cb blocks w = some w') :
    Reachable allowed w' := by
  induction blocks generalizing w with
  | nil =>
    obtain rfl : w = w' := Option.some.inj hrun
    exact h
  | cons data blocks ih =>
    obtain ⟨w₁, h₁, hrest⟩ := Option.bind_eq_some_iff.mp hrun
    obtain ⟨⟨n, w₁⟩, hparse, rfl⟩ := Option.map_eq_some_iff.mp h₁
    exact ih (.parse h hcb hparse) hrest

/-- What a session ends in is reached by a run. -/
theorem session_reachable (hcb : Reentrant allowed cb) {arg : InitArg} {app : σ}
    {blocks : List (List UInt8)} {w : World σ} (h : session cb arg app blocks = some w) :
    Reachable allowed w := by
  obtain ⟨inst, hinit, h⟩ := Option.bind_eq_some_iff.mp h
  obtain ⟨⟨status, w₁⟩, hstart, h⟩ := Option.bind_eq_some_iff.mp h
  exact wicParseAll_reachable hcb (.start (.init hinit) hcb hstart) h

end Session

namespace Sample

/-- An application that accepts and supplies everything and counts nothing, and does `onOpen` when
the connection opens. -/
def host (onOpen : World Unit → World Unit) : Callbacks Unit where
  onMessage _ _ _ w := (true, w)
  onOpen
  onClose _ _ w := w
  onCloseTransport w := w
  onHandshakeFailure _ w := w
  onPing w := w
  onPong w := w
  rand w := (0, w)
  onSend _ _ _ w := w
  onBuffer _ _ w := ((some 0, 70000), w)
  unset _ _ := false

/-- A client with a buffer of 300 bytes. -/
def arg : InitArg where
  rx := List.replicate 300 0
  rxMax := 300
  rxMax_le := by rw [List.length_replicate]
  onMessage := true
  onOpen := true
  onClose := true
  onCloseTransport := true
  onHandshakeFailure := true
  url := some (ascii "ws://localhost/")

/-- The response that accepts the upgrade `arg` asks for. -/
def response : List UInt8 :=
  ascii "HTTP/1.1 101 Switching Protocols\r\nUpgrade: websocket\r\nConnection: Upgrade\r\n" ++
  ascii "Sec-WebSocket-Accept: tuNFO/XNjXKBBczJqWfkXV1RTQA=\r\n\r\n"

theorem host_passive : (host id).Passive where
  onMessage _ _ _ w := .refl w
  onOpen w := .refl w
  onClose _ _ w := .refl w
  onCloseTransport w := .refl w
  onHandshakeFailure _ w := .refl w
  onPing w := .refl w
  onPong w := .refl w
  rand w := .refl w
  onSend _ _ _ w := .refl w
  onBuffer _ _ w := .refl w

/-- An `on_open` that makes calls. -/
theorem host_nested {allowed : Caller → Call → Prop} {onOpen : World Unit → World Unit}
    (h : ∀ w, Does (host id) (allowed .onOpen) w (onOpen w)) :
    (host onOpen).Nested allowed (host id) where
  onMessage _ _ _ w := .refl w
  onOpen := h
  onClose _ _ w := .refl w
  onCloseTransport w := .refl w
  onHandshakeFailure _ w := .refl w
  onPing w := Edits.refl w
  onPong w := Edits.refl w
  rand w := Edits.refl w
  onSend _ _ _ w := Edits.refl w
  onBuffer _ _ w := Edits.refl w

/-- **The session opens**, with no message in progress. -/
theorem session_opens : ∃ w : World Unit, session (host id) arg () [response] = some w ∧
    w.inst.state = .open ∧ w.inst.rx.state = .opcode ∧ w.inst.rx.frag = .continue ∧
      w.inst.rx.s.size = 300 ∧ w.inst.onMessage = true ∧ w.inst.progress = ⟨.continue, 0⟩ := by
  have hrun : (session (host id) arg () [response]).map (fun w => (w.inst.state, w.inst.rx.state,
      w.inst.rx.frag, w.inst.rx.s.size, w.inst.onMessage, w.inst.progress)) =
        some (.open, .opcode, .continue, 300, true, ⟨.continue, 0⟩) := by
    decide +kernel
  obtain ⟨w, hw, heq⟩ := Option.map_eq_some_iff.mp hrun
  simp only [Prod.mk.injEq] at heq
  exact ⟨w, hw, heq⟩

theorem opens : ∃ w : World Unit, (∀ allowed, Reachable allowed w) ∧ w.inst.state = .open ∧
    w.inst.rx.state = .opcode ∧ w.inst.rx.frag = .continue ∧ w.inst.rx.s.size = 300 ∧
      w.inst.onMessage = true ∧ w.inst.progress = ⟨.continue, 0⟩ := by
  obtain ⟨w, hw, h⟩ := session_opens
  exact ⟨w, fun _ => session_reachable (.passive host_passive) hw, h⟩

end Sample

end Wic
