import Wic.Handshake.Nonce
import Wic.Runs.Stored

/-!
# Outcomes

What comes of a handshake. As long as the header block fits the rx buffer and no value has a zero in
it, `on_open` is called for the response that answers the key in the request, and for no other; for
another one `on_handshake_failure` is called, and where it redirects to is known from then on. The
status code of the response is not, for the instance never writes its own.

## Main definitions

* `Response.Genuine`: the response is an upgrade that answers a key
* `Unopening`: nothing that is added to the trace is an `on_open`
* `OutcomeReported`: the application is told what became of the response

## Main results

* `serverHash_eq`: the hash kept for the response
* `Answered.outcome`: the instance opens, or the handshake fails
* `Answered.opens_iff`: the client opens on a genuine upgrade only
* `Answered.outcomeReported_iff`: when the outcome is reported
-/

namespace Wic

open Http (ascii Errno Callback)

variable {σ : Type}

/-! ## A genuine upgrade -/

/-- The GUID of the protocol. -/
def guid : List UInt8 := ascii "258EAFA5-E914-47DA-95CA-C5AB0DC85B11"

/-- The SHA-1 digest of `bytes`. -/
def sha1 (bytes : List UInt8) : List UInt8 := sha1FinishRet (sha1UpdateRet sha1StartsRet bytes)

/-- Less than a block of bytes is kept until the digest ends. -/
theorem sha1UpdateRet_of_short {ctx : Sha1Context} (input : List UInt8)
    (h : ctx.buffer.length + input.length < 64) : sha1UpdateRet ctx input =
      { ctx with
        total := (ctx.total + input.length) % 2 ^ 64
        buffer := ctx.buffer ++ input } := by
  have hzero : (ctx.buffer ++ input).length / 64 = 0 := by
    rw [List.length_append]
    omega
  unfold sha1UpdateRet
  dsimp only
  rw [hzero]
  rfl

/-- **The hash kept for the response is the digest of the key and the GUID.** -/
theorem serverHash_eq {key : List UInt8} (h : key.length = 24) :
    serverHash key = sha1 (key ++ guid) := by
  have hguid : guid.length = 36 := by decide
  have hstart : sha1StartsRet.buffer = [] := rfl
  have htotal : sha1StartsRet.total = 0 := rfl
  show sha1FinishRet (sha1UpdateRet (sha1UpdateRet sha1StartsRet key) guid) = _
  rw [sha1, sha1UpdateRet_of_short key, sha1UpdateRet_of_short guid,
    sha1UpdateRet_of_short (key ++ guid)]
  · congr 2
    simp [htotal, h, hguid]
  all_goals
    simp only [hstart, List.nil_append, List.length_append, List.length_nil, h, hguid]
    decide

theorem serverHash_length (key : List UInt8) : (serverHash key).length = 20 := by
  unfold serverHash sha1FinishRet
  dsimp only
  generalize (sha1Blocks 2 _ _).1 = v
  obtain ⟨⟨l⟩, hl⟩ := v
  match l, hl with
  | [_, _, _, _, _], _ => rfl

/-- The response is an upgrade to a websocket that answers `key`. -/
structure Response.Genuine (r : Response) (key : List UInt8) : Prop where
  status : r.parser.statusCode = 101
  upgrade : r.parser.upgrade = true
  websocket : (firstField r.fields (ascii "Upgrade")).map (List.map tolower) =
    some (ascii "websocket")
  accept : firstField r.fields (ascii "Sec-WebSocket-Accept") =
    some (Base64.encode (sha1 (key ++ guid)))

/-- **The instance accepts the response if and only if it is a genuine upgrade.** -/
theorem Completes.accepts_iff_genuine {r : Response} {w w' : World σ} {key : List UInt8}
    (h : Completes r w w') (hkey : key.length = 24) (hhash : w.inst.hash = serverHash key)
    (hfit : (Fields.layout 0 r.fields).length ≤ w.inst.rx.s.size)
    (hv : ∀ f ∈ r.fields, 0 ∉ f.2) : Upgrades w' ↔ r.Genuine key := by
  have hkept : w'.inst.hash = serverHash key := by
    rw [h.inst]
    exact hhash
  have hencoded : b64Encode 64 (serverHash key) 29 = Base64.encode (sha1 (key ++ guid)) := by
    rw [← serverHash_eq hkey, b64Encode, if_pos, b64EncodeLoop_eq _ _ _ rfl]
    rw [serverHash_length]
    decide
  rw [Upgrades, acceptsUpgrade_iff (h.header hfit) (h.clean hv) h.state, h.http, hkept, hencoded]
  constructor
  · rintro ⟨hstatus, hupgrade, hwebsocket, haccept⟩
    exact ⟨hstatus, hupgrade, hwebsocket, haccept⟩
  · rintro ⟨hstatus, hupgrade, hwebsocket, haccept⟩
    exact ⟨hstatus, hupgrade, hwebsocket, haccept⟩

/-! ## What is called -/

/-- The fields that neither a call nor a frame writes. -/
structure Inst.SameSetup (i j : Inst) : Prop where
  role : j.role = i.role
  statusCode : j.statusCode = i.statusCode

/-- The trace grows by entries other than `on_open`. -/
structure Unopening (w w' : World σ) : Prop where
  setup : w.inst.SameSetup w'.inst
  log : ∃ es, w'.log = w.log ++ es ∧ .onOpen ∉ es

namespace Unopening

variable {w w' w'' : World σ}

theorem role (h : Unopening w w') : w'.inst.role = w.inst.role := h.setup.role

theorem refl (w : World σ) : Unopening w w := ⟨⟨rfl, rfl⟩, [], (List.append_nil _).symm, nofun⟩

theorem trans (h : Unopening w w') (h' : Unopening w' w'') : Unopening w w'' := by
  obtain ⟨es, hes, hno⟩ := h.log
  obtain ⟨fs, hfs, hno'⟩ := h'.log
  refine ⟨⟨h'.role.trans h.role, h'.setup.statusCode.trans h.setup.statusCode⟩, es ++ fs, ?_, ?_⟩
  · rw [hfs, hes, List.append_assoc]
  · simpa using ⟨hno, hno'⟩

theorem emit {e : Event} (he : e ≠ .onOpen) : Unopening w (w.emit e) :=
  ⟨⟨rfl, rfl⟩, [e], rfl, by simpa using he.symm⟩

theorem update {f : Inst → Inst} (hf : w.inst.SameSetup (f w.inst)) :
    Unopening w (w.update f) :=
  ⟨hf, [], (List.append_nil _).symm, nofun⟩

theorem quiet {G : Prop} (h : Quiet G w w') : Unopening w w' := by
  obtain ⟨es, hes, hall⟩ := h.log
  exact ⟨⟨h.role, by rw [h.inst]⟩, es, hes, fun hm => (hall _ hm).elim⟩

theorem edits (h : Edits w w') : Unopening w w' := quiet (G := True) (.edits h)

end Unopening

section Unopening

variable {G : Prop} {cb : Callbacks σ} {w : World σ}

theorem offer_unopening (hcb : cb.Respect (QuietAt G)) (hr : w.inst.role = .client)
    (encoding : Encoding) (fin : Bool) : Unopening w (offer cb encoding fin w).2 := by
  unfold offer
  split_ifs
  · have hcall : Quiet G (w.emit (.message encoding fin w.inst.rx.s.payload.bytes)) _ :=
      hcb.onMessage encoding fin w.inst.rx.s.payload.bytes _ hr
    exact (Unopening.trans (.emit (by nofun)) (.quiet hcall)).trans (.emit (by nofun))
  · exact .refl w

theorem offerAll_unopening (hcb : cb.Respect (QuietAt G)) (hr : w.inst.role = .client)
    (encoding : Encoding) {done : Inst → Inst} (hd : ∀ i : Inst, i.SameSetup (done i)) :
    Unopening w (offerAll cb encoding done w).2 := by
  have hoffer := offer_unopening hcb hr encoding w.inst.rx.fin
  unfold offerAll
  generalize offer cb encoding w.inst.rx.fin w = r at hoffer ⊢
  obtain ⟨accepted, w'⟩ := r
  cases accepted with
  | false => exact hoffer
  | true => exact hoffer.trans (.update (hd w'.inst))

theorem putAndSend_unopening (hcb : cb.Respect (QuietAt G)) (hr : w.inst.role = .client)
    (f : TxFrame) {done : Inst → Inst} (hd : ∀ i : Inst, i.SameSetup (done i)) :
    Unopening w (putAndSend cb f done w).2 := by
  have hdraw := drawMask_edits hcb w
  rw [putAndSend_eq cb f done w (by rw [hdraw.inst]; exact hr)]
  have hlease (n : Nat) : Unopening w (lease cb n f.type (drawMask cb w).2).2 :=
    ((Unopening.edits hdraw).trans (.edits (hcb.onBuffer n f.type _))).trans (.emit (by nofun))
  have hleased := hlease (f.withMask (drawMask cb w).1).wire.length
  unfold deliver
  dsimp only
  split_ifs
  · split
    · refine Unopening.trans ?_ (.edits (hcb.onSend _ _ _ _))
      exact (hleased.trans (.update (hd _))).trans (.emit (by nofun))
    · exact hleased
  · exact hleased

theorem sendPongWithPayload_unopening (hcb : cb.Respect (QuietAt G)) (hr : w.inst.role = .client)
    (data : Payload) : Unopening w (sendPongWithPayload cb data w).2 := by
  have ha : Unopening w (allowedToSend w).2 := .quiet (G := G) allowedToSend_quiet
  have hr₁ := ha.role.trans hr
  unfold sendPongWithPayload
  generalize allowedToSend w = a at ha hr₁ ⊢
  obtain ⟨allowed, w₁⟩ := a
  cases allowed with
  | false => exact ha
  | true => exact ha.trans (putAndSend_unopening hcb hr₁ _ fun _ => ⟨rfl, rfl⟩)

theorem callOnPing_unopening (hcb : cb.Respect (QuietAt G)) : Unopening w (callOnPing cb w) := by
  unfold callOnPing
  split_ifs
  · exact Unopening.trans (.emit (by nofun)) (.edits (hcb.onPing _))
  · exact .refl w

theorem callOnPong_unopening (hcb : cb.Respect (QuietAt G)) : Unopening w (callOnPong cb w) := by
  unfold callOnPong
  split_ifs
  · exact Unopening.trans (.emit (by nofun)) (.edits (hcb.onPong _))
  · exact .refl w

theorem closeWithReason_unopening (hcb : cb.Respect (QuietAt G)) (hr : w.inst.role = .client)
    (code : UInt16) (reason : Payload) {type : BufferType}
    (ht : type = .close ∨ type = .closeResponse) :
    Unopening w (closeWithReason cb code reason type w) :=
  .quiet (closeWithReason_quiet (hcb.mono False.elim) hr ht False.elim)

theorem finish_unopening (hcb : cb.Respect (QuietAt G)) (hr : w.inst.role = .client) :
    Unopening w (finish cb w).2 := by
  unfold finish
  dsimp only
  split
  · split_ifs
    · exact offerAll_unopening hcb hr .utf8 fun _ => ⟨rfl, rfl⟩
    · exact offerAll_unopening hcb hr .utf8 fun _ => ⟨rfl, rfl⟩
    · exact closeWithReason_unopening hcb hr _ _ (.inl rfl)
  · exact offerAll_unopening hcb hr .binary fun _ => ⟨rfl, rfl⟩
  · obtain ⟨code, reason, heq, -⟩ := finishClose_eq cb w
    rw [heq]
    exact closeWithReason_unopening hcb hr code reason (.inr rfl)
  · have hpong := sendPongWithPayload_unopening hcb hr w.inst.rx.s.payload
    split <;> next heq => rw [heq] at hpong; first
      | exact hpong
      | exact hpong.trans (callOnPing_unopening hcb)
  · exact callOnPong_unopening hcb
  · exact .refl w

theorem settle_unopening (hcb : cb.Respect (QuietAt G)) (hr : w.inst.role = .client) :
    Unopening w (settle cb w).2 := by
  have hpass : Unopening w (passOn cb w).2 := by
    unfold passOn
    split
    · exact offer_unopening hcb hr .utf8 false
    · exact offer_unopening hcb hr .binary false
    · exact .refl w
  unfold settle
  split
  · split_ifs
    · have hfinish := finish_unopening hcb hr
      dsimp only
      split_ifs
      · exact hfinish
      · exact hfinish.trans (.update ⟨rfl, rfl⟩)
    · rw [flush_eq]
      dsimp only
      split_ifs
      · exact hpass.trans (.update ⟨rfl, rfl⟩)
      · exact hpass
    · exact .refl w
  · exact .refl w

theorem consume_unopening (hcb : cb.Respect (QuietAt G)) (hr : w.inst.role = .client) (b : UInt8) :
    Unopening w (consume cb b w) := by
  have hobeys := consume_obeys cb w b
  generalize consume cb b w = w' at hobeys ⊢
  cases hobeys with
  | stays f => exact .update ⟨rfl, rfl⟩
  | closes f g code type hv =>
    have hr' : (w.updateRx f).inst.role = .client := hr
    have hclose := closeWithReason_unopening hcb hr' code .null (RxFrame.verdict_type hv)
    exact (Unopening.trans (.update ⟨rfl, rfl⟩) hclose).trans (.update ⟨rfl, rfl⟩)

/-- **Behind the handshake part `wic_parse` does not call `on_open`**, and does nothing to an
instance that is not open. -/
theorem wicParse_behind (hcb : cb.Respect (QuietAt G)) (h : Invariant w)
    (hs : w.inst.state = .parseHandshake) (data : List UInt8) :
    ∃ n w', wicParse cb data w = some (n, w') ∧
      Unopening (afterHttp cb (httpParserExecute data w).2) w' ∧
      ((afterHttp cb (httpParserExecute data w).2).inst.state ≠ .open →
        w' = afterHttp cb (httpParserExecute data w).2) := by
  obtain ⟨s, w₁, hok, herr, hinv, -, hafter, hrun⟩ := wicParse_split hcb h data
  obtain rfl := hafter hs
  by_cases ho : (afterHttp cb (httpParserExecute data w).2).inst.state = .open
  · obtain ⟨w', s', hw, hunopening, -⟩ := parseWebsocket_induction
      (fun w' => Unopening (afterHttp cb (httpParserExecute data w).2) w') hcb
      (fun w' hl hp => hp.trans (settle_unopening hcb hl.role))
      (fun w' b hl _ hp => hp.trans (consume_unopening hcb hl.role b))
      (fun w' f _ hp => hp.trans (.update ⟨rfl, rfl⟩)) (hinv.live ho) (.refl _) hok herr
    exact ⟨_, w', by rw [hrun, hw]; rfl, hunopening, fun hno => absurd ho hno⟩
  · exact ⟨_, _, by rw [hrun, parseWebsocket, if_neg ho]; rfl, .refl _, fun _ => rfl⟩

end Unopening

/-! ## The outcome -/

section Judged

variable {cb : Callbacks σ} {w : World σ}

theorem callOnOpen_log (hcb : cb.Respect (QuietAt False)) (hr : w.inst.role = .client) :
    ∃ es, (callOnOpen cb w).log = w.log ++ es ∧ (.onOpen ∈ es ↔ w.inst.onOpen = true) := by
  unfold callOnOpen
  split_ifs with hset
  · have hcall : Quiet False (w.emit .onOpen) (cb.onOpen (w.emit .onOpen)) := hcb.onOpen _ hr
    obtain ⟨es, hes, -⟩ := hcall.log
    refine ⟨.onOpen :: es, ?_, by simp [hset]⟩
    rw [hes, World.emit_log, List.append_assoc]
    rfl
  · exact ⟨[], (List.append_nil _).symm, by simp [hset]⟩

/-- A handshake that has failed: its callbacks are told, and the rest of the instance stays. -/
structure Fails (reason : HandshakeFailure) (w w' : World σ) : Prop where
  inst : w.inst.SameReceiver w'.inst
  closed : w'.inst.state = .closed
  log : ∃ es, w'.log = w.log ++ es ∧ .onOpen ∉ es ∧
    (w.inst.onHandshakeFailure = true → .onHandshakeFailure reason ∈ es)

theorem failed_fails (hcb : cb.Respect (QuietAt False)) (hr : w.inst.role = .client)
    (reason : HandshakeFailure) : Fails reason w
      ((callOnHandshakeFailure cb reason (callOnCloseTransport cb w)).setState .closed) := by
  have h₁ := callOnCloseTransport_quiet hcb hr
  have hr₁ := h₁.role.trans hr
  have hset : (callOnCloseTransport cb w).inst.onHandshakeFailure = w.inst.onHandshakeFailure := by
    rw [h₁.inst]
  obtain ⟨es, hes, hall⟩ := h₁.log
  have hno : .onOpen ∉ es := fun hm => (hall _ hm).elim
  have h₂ := callOnHandshakeFailure_quiet hcb hr₁ reason
  have hall₂ : Quiet False w
      ((callOnHandshakeFailure cb reason (callOnCloseTransport cb w)).setState .closed) :=
    (h₁.trans h₂).trans .setClosed
  refine ⟨hall₂.inst, rfl, ?_⟩
  obtain ⟨fs, hfs, hall'⟩ := hall₂.log
  refine ⟨fs, hfs, fun hm => (hall' _ hm).elim, fun hset' => ?_⟩
  -- The trace grows by what `on_close_transport` adds, and then by the failure.
  have hcall : Quiet False ((callOnCloseTransport cb w).emit (.onHandshakeFailure reason))
      (cb.onHandshakeFailure reason ((callOnCloseTransport cb w).emit
        (.onHandshakeFailure reason))) := hcb.onHandshakeFailure reason _ hr₁
  obtain ⟨gs, hgs, -⟩ := hcall.log
  have hlog : ((callOnHandshakeFailure cb reason (callOnCloseTransport cb w)).setState
      .closed).log = w.log ++ (es ++ .onHandshakeFailure reason :: gs ++ [.state .closed]) := by
    rw [World.setState_log, callOnHandshakeFailure, if_pos (hset.trans hset'), hgs,
      World.emit_log, hes]
    simp
  rw [List.append_cancel_left (hfs.symm.trans hlog)]
  simp

end Judged

/-! ## What the application learns -/

/-- `wic_get_status_code` -/
def wicGetStatusCode (i : Inst) : Nat := i.statusCode

/-- The string `wic_get_redirect_url` returns a pointer to. -/
def wicGetRedirectUrl (i : Inst) : Option (List UInt8) := i.redirectUrl.map (cString i.rx.s.mem)

/-- A response has been accepted in the end `w'`; it was asked for in `w`. -/
def WasAccepted (w w' : World σ) : Prop :=
  ∃ es, w'.log = w.log ++ es ∧ (.onOpen ∈ es ↔ w.inst.onOpen = true)

/-- It has been refused in the end, and was complete in `w₂`. -/
structure WasRefused (w w₂ w' : World σ) : Prop where
  closed : w'.inst.state = .closed
  log : ∃ es, w'.log = w.log ++ es ∧ .onOpen ∉ es ∧
    (w.inst.onHandshakeFailure = true → .onHandshakeFailure .upgrade ∈ es)
  redirectUrl : wicGetRedirectUrl w'.inst = if w₂.inst.http.statusCode ∈ redirects then
    headerValue w₂.inst (ascii "location") else none

/-- What the application is told of a refusal. -/
theorem Fails.refused {r : Response} {w w₂ w' : World σ} (hu : w.inst.Untouched)
    (hc : Completes r w w₂) (h : Fails .upgrade (setErrno .cbMessageComplete (redirected w₂)) w') :
    WasRefused w w₂ w' where
  closed := h.closed
  log := by
    obtain ⟨es, hes, hno, hfailure⟩ := h.log
    have hset : (redirected w₂).inst.onHandshakeFailure = w.inst.onHandshakeFailure := by
      rw [redirected_inst, hc.inst]
    -- The state goes to `READY` before the upgrade is refused.
    have hlog : (redirected w₂).log = w.log ++ [.state .ready] := by rw [redirected_log, hc.log]
    refine ⟨.state .ready :: es, ?_, by simpa using hno, fun hon => ?_⟩
    · rw [hes]
      show (redirected w₂).log ++ es = _
      rw [hlog, List.append_assoc]
      rfl
    · exact List.mem_cons_of_mem _ (hfailure (hset.trans hon))
  redirectUrl := by
    have hurl : w'.inst.redirectUrl = (redirected w₂).inst.redirectUrl := by
      rw [h.inst]
      rfl
    have hrx : w'.inst.rx = w₂.inst.rx := by
      rw [h.inst]
      show (redirected w₂).inst.rx = _
      rw [redirected_inst]
    rw [wicGetRedirectUrl, hurl, hrx]
    unfold redirected
    split_ifs
    · rfl
    · rw [hc.inst]
      show w.inst.redirectUrl.map _ = none
      rw [hu.redirectUrl]
      rfl

namespace Answered

variable {allowed : Caller → Call → Prop} {r : Response} {w₀ w w₁ : World σ} {cb : Callbacks σ}

/-- **What the last block of a response leads to: `on_open` is called, or the handshake fails.** -/
theorem outcome (h : Answered allowed r w₀ w w₁) (hcb : Reentrant allowed cb) :
    ∃ key w₂, Requested w₀ w key ∧ Completes r w w₂ ∧
      ∃ n w', wicParse cb r.last w₁ = some (n, w') ∧ w'.inst.statusCode = 0 ∧
        (Upgrades w₂ → WasAccepted w w') ∧ (¬Upgrades w₂ → WasRefused w w₂ w') := by
  obtain ⟨key, w₂, hreq, hu, hs, -, hw, hc⟩ := h.completes
  obtain ⟨n, w', hrun, hbehind, hidle⟩ := wicParse_behind hcb.quiet h.invariant hs r.last
  rw [hw] at hbehind hidle
  have hr : w₂.inst.role = .client := by
    obtain ⟨cb', fuel, hcb', hstart⟩ := h.started
    rw [hc.inst]
    exact (Reachable.start h.reachable hcb' hstart).invariant.role
  -- `wic_parse` never writes the status code.
  have hzero : w₂.inst.statusCode = 0 := by
    rw [hc.inst]
    exact hu.statusCode
  refine ⟨key, w₂, hreq, hc, n, w', hrun, ?_⟩
  -- The response is an upgrade and `on_open` is called, or the handshake fails.
  by_cases ha : Upgrades w₂
  · have hok : ¬w₂.inst.http.httpErrno ≠ .ok := by
      rw [hc.http]
      exact not_not.mpr hc.errno
    have hafter : afterHttp cb (judged w₂) = (callOnOpen cb w₂).setState .open := by
      rw [judged_of_upgrades ha, afterHttp, if_neg hok, if_pos hc.state]
    rw [hafter] at hbehind
    have hsame : (callOnOpen cb w₂).inst.statusCode = w₂.inst.statusCode := by
      rw [(callOnOpen_keeps hcb.quiet hr).inst]
    refine ⟨hbehind.setup.statusCode.trans (hsame.trans hzero), fun _ => ?_, fun hno => absurd ha hno⟩
    obtain ⟨es, hes, hopens⟩ := callOnOpen_log hcb.quiet hr
    obtain ⟨fs, hfs, hno⟩ := hbehind.log
    have hset : w₂.inst.onOpen = w.inst.onOpen := by rw [hc.inst]
    rw [hset] at hopens
    refine ⟨.state .ready :: es ++ .state .open :: fs, ?_, by simpa [hno] using hopens⟩
    rw [hfs, World.setState_log, hes, hc.log]
    simp
  · have hkept : (setErrno .cbMessageComplete (redirected w₂)).inst.role = .client := by
      show (redirected w₂).inst.role = .client
      rw [redirected_inst]
      exact hr
    have hfails := failed_fails hcb.quiet hkept .upgrade
    have hafter : afterHttp cb (judged w₂) = (callOnHandshakeFailure cb .upgrade
        (callOnCloseTransport cb (setErrno .cbMessageComplete (redirected w₂)))).setState .closed := by
      rw [judged_of_not_upgrades ha]
      rfl
    rw [hafter] at hidle
    obtain rfl := hidle (by rw [hfails.closed]; nofun)
    refine ⟨?_, fun hyes => absurd hyes ha, fun _ => hfails.refused hu hc⟩
    rw [hfails.inst]
    show (redirected w₂).inst.statusCode = 0
    rw [redirected_inst]
    exact hzero

end Answered

/-- The instance knows where the response redirects to. -/
def Redirects (r : Response) (i : Inst) : Prop :=
  wicGetRedirectUrl i =
    if r.parser.statusCode ∈ redirects then firstField r.fields (ascii "Location") else none

/-- The outcome of the response is reported, and stays reported whatever bytes come: it was asked
for in `w`, and is complete in `w'`. -/
structure OutcomeReported (cb : Callbacks σ) (r : Response) (w w' : World σ) : Prop where
  failure : w.inst.onHandshakeFailure = true →
    ∃ es, w'.log = w.log ++ es ∧ .onHandshakeFailure .upgrade ∈ es
  lasts (blocks : List (List UInt8)) : ∃ w'', wicParseAll cb blocks w' = some w'' ∧
    wicGetStatusCode w''.inst = r.parser.statusCode ∧ Redirects r w''.inst

namespace Answered

variable {allowed : Caller → Call → Prop} {r : Response} {w₀ w w₁ : World σ} {cb : Callbacks σ}

/-- What a refused response leaves behind: the failure has been reported, the redirection is known,
and both remain. -/
theorem redirects_of_refused (h : Answered allowed r w₀ w w₁) (hcb : Reentrant allowed cb)
    (hfit : (Fields.layout 0 r.fields).length ≤ w₀.inst.rx.s.size)
    (hv : ∀ f ∈ r.fields, 0 ∉ f.2) : ∃ key, Requested w₀ w key ∧ (¬r.Genuine key →
      ∃ n w', wicParse cb r.last w₁ = some (n, w') ∧ w'.inst.state = .closed ∧
        Redirects r w'.inst ∧ ∀ blocks, wicParseAll cb blocks w' = some w') := by
  obtain ⟨key, w₂, hreq, hc, n, w', hrun, -, -, hrefused⟩ := h.outcome hcb
  have hrx : w.inst.rx = w₀.inst.rx := by rw [hreq.inst]
  have hfit' := hrx ▸ hfit
  have hgenuine := hc.accepts_iff_genuine hreq.length (by rw [hreq.inst]) hfit' hv
  refine ⟨key, hreq, fun hno => ⟨n, w', hrun, ?_⟩⟩
  obtain ⟨hclosed, -, hurl⟩ := hrefused fun ha => hno (hgenuine.mp ha)
  refine ⟨hclosed, ?_, wicParseAll_of_closed hclosed⟩
  have hlocation : firstField r.fields (ascii "location") = firstField r.fields (ascii "Location") :=
    firstField_congr (by decide)
  rw [Redirects, hurl, hc.http, (hc.header hfit').get (hc.clean hv) hc.state, hlocation]

end Answered

namespace Sample

/-- A redirection. -/
def moved : List UInt8 :=
  ascii "HTTP/1.1 301 Moved Permanently\r\nContent-Length: 0\r\nLocation: ws://b/\r\n\r\n"

theorem moved_complete : .messageComplete ∈ (report moved {}).1 := by
  decide +kernel

theorem moved_fields :
    (Fields.layout 0 (Response.single moved moved_complete).fields).length ≤ 300 ∧
      (∀ f ∈ (Response.single moved moved_complete).fields, 0 ∉ f.2) ∧
      (Response.single moved moved_complete).parser.statusCode = 301 := by
  have hfields : ((Fields.layout 0 (Response.single moved moved_complete).fields).length ≤ 300 ∧
      ((Response.single moved moved_complete).fields.all fun f => f.2.all (· ≠ 0)) ∧
        (Response.single moved moved_complete).parser.statusCode = 301) := by
    decide +kernel
  refine ⟨hfields.1, fun f hf hzero => ?_, hfields.2.2⟩
  have hall := List.all_eq_true.mp (List.all_eq_true.mp hfields.2.1 f hf) 0 hzero
  simp at hall

/-- A redirection is known for good. -/
theorem moved_redirects : ∃ (w : World Unit) (n : Nat) (w' : World Unit),
    wicParse (host id) moved w = some (n, w') ∧
      w'.inst.state = .closed ∧ Redirects (Response.single moved moved_complete) w'.inst ∧
        ∀ blocks, wicParseAll (host id) blocks w' = some w' := by
  obtain ⟨w₀, w, hstart, hsize, -⟩ := roomy_started
  obtain ⟨w₁, h⟩ := answered hstart (.single moved moved_complete) fun _ _ => True
  rw [h.single] at h
  obtain ⟨hlen, hzero, hcode⟩ := moved_fields
  have hfit : (Fields.layout 0 (Response.single moved moved_complete).fields).length ≤
      w₀.inst.rx.s.size := by
    rw [hsize]
    exact Nat.le_trans hlen (by decide)
  obtain ⟨key, -, hrefused⟩ := h.redirects_of_refused (.passive host_passive) hfit hzero
  obtain ⟨n, w', hrun⟩ := hrefused fun hg => by
    have hstatus := hg.status
    rw [hcode] at hstatus
    cases hstatus
  exact ⟨w, n, w', hrun⟩

end Sample

namespace Answered

variable {allowed : Caller → Call → Prop} {r : Response} {w₀ w w₁ : World σ} {cb : Callbacks σ}

/-- **The outcome of a complete response is reported as it is if and only if its status code is
0**, for the code of the instance is never written. -/
theorem outcomeReported_iff (h : Answered allowed r w₀ w w₁) (hcb : Reentrant allowed cb) :
    ∃ n w', wicParse cb r.last w₁ = some (n, w') ∧
      (OutcomeReported cb r w w' ↔ r.parser.statusCode = 0) := by
  obtain ⟨key, w₂, hreq, hc, n, w', hrun, hzero, -, hrefused⟩ := h.outcome hcb
  refine ⟨n, w', hrun, fun ho => ?_, fun hcode => ?_⟩
  · obtain ⟨w'', hnone, hcode, -⟩ := ho.lasts []
    obtain rfl : w' = w'' := Option.some.inj hnone
    exact hcode.symm.trans hzero
  · have hno : ¬Upgrades w₂ := by
      rintro ⟨hcode', -⟩
      rw [hc.http, hcode] at hcode'
      cases hcode'
    obtain ⟨hclosed, ⟨es, hes, -, hfailure⟩, hurl⟩ := hrefused hno
    refine ⟨fun hset => ⟨es, hes, hfailure hset⟩, fun blocks => ⟨w', ?_, ?_, ?_⟩⟩
    · exact wicParseAll_of_closed hclosed blocks
    · exact hzero.trans hcode.symm
    · have hstays : 0 ∉ redirects := by decide
      rw [hc.http, hcode, if_neg hstays] at hurl
      rw [Redirects, hcode, if_neg hstays]
      exact hurl

end Answered

/-- The status code of a redirection is not reported. -/
theorem Sample.moved_not_reported : ∃ (w : World Unit) (n : Nat) (w' : World Unit),
    wicParse (host id) moved w = some (n, w') ∧
      ¬OutcomeReported (host id) (Response.single moved moved_complete) w w' := by
  obtain ⟨w₀, w, hstart, -⟩ := roomy_started
  obtain ⟨w₁, h⟩ := answered hstart (.single moved moved_complete) fun _ _ => True
  rw [h.single] at h
  obtain ⟨n, w', hrun, hreported⟩ := h.outcomeReported_iff (.passive host_passive)
  refine ⟨w, n, w', hrun, fun ho => ?_⟩
  have hcode := hreported.mp ho
  rw [moved_fields.2.2] at hcode
  cases hcode

end Wic
