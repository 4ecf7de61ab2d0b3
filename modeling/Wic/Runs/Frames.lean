import Wic.Runs.Invariant

/-!
# The frames a client sends

Six functions send through one encoder. A run in which no ping has more than 125 bytes of payload
and no close a reason of more than 123 hands over frames that a client may send, and nothing else;
the pongs and the answers to close frames are short because the frames they answer are.

## Main definitions

* `Event.Framed`: the bytes handed over are one frame of a client

## Main results

* `Reachable.sends_client_frames`: all bytes a run hands over behind the handshake are such frames
* `long_control_not_framed`: a longer control frame is none
-/

namespace Wic

open Http (ascii)

variable {σ : Type}

/-- The opcodes a proper frame may have, as they stand in its first byte. -/
theorem TxFrame.Proper.nibble {f : TxFrame} (h : f.Proper) :
    (TxFrame.nibble f.opcode).val ∈ [0, 1, 2, 8, 9, 10] ∧
      (8 ≤ (TxFrame.nibble f.opcode).val → f.opcode ∈ [.close, .ping, .pong]) ∧
      ((TxFrame.nibble f.opcode).val = 8 → f.opcode = .close) := by
  have ho := h.opcode
  generalize f.opcode = o at ho ⊢
  revert ho
  cases o <;> decide

/-- A frame that is sent as it should be is a frame of a client. -/
theorem TxFrame.Proper.fromClient {f : TxFrame} (h : f.Proper) : f.frame.FromClient where
  rsv := by simp [frame, h.rsv1, h.rsv2, h.rsv3, Websocket.reserved]
  masked := rfl
  opcode := h.nibble.1
  control hc := h.control (h.nibble.2.1 (of_decide_eq_true hc))
  close hc := ⟨f.code, f.payload.bytes, by simp [frame, content, h.nibble.2.2 hc]⟩

/-- The bytes handed over behind the handshake are one frame of a client. -/
def Event.Framed : Event → Prop
  | .send _ data type => type ≠ .http → ∃ f : Websocket.Frame, data = f.encode ∧ f.FromClient
  | _ => True

/-- All bytes handed over so far. -/
def Framed (w : World σ) : Prop := ∀ e ∈ w.log, e.Framed

namespace Framed

variable {w w' : World σ}

theorem append (h : Framed w) {es : List Event} (hlog : w'.log = w.log ++ es)
    (hes : ∀ e ∈ es, e.Framed) : Framed w' := by
  intro e he
  rw [hlog, List.mem_append] at he
  exact he.elim (h e) (hes e)

theorem congr (h : Framed w) (hlog : w'.log = w.log) : Framed w' := fun e he => h e (hlog ▸ he)

theorem emit (h : Framed w) {e : Event} (he : e.Framed) : Framed (w.emit e) :=
  h.append rfl (by simpa using he)

theorem setState (h : Framed w) (s : State) : Framed (w.setState s) :=
  h.append rfl (by simp [Event.Framed])

theorem edits (h : Framed w) (he : Edits w w') : Framed w' := h.congr he.log

/-- A call that sends proper frames only. -/
theorem quiet (h : Framed w) (hq : Quiet True w w') : Framed w' := by
  obtain ⟨es, hlog, hes⟩ := hq.log
  refine h.append hlog fun e he => ?_
  have hcall := hes e he
  cases e with
  | send buf data type =>
    obtain ⟨-, -, f, -, -, rfl, hf⟩ := hcall
    have hproper := hf trivial
    exact fun _ => ⟨f.frame, f.wire_eq_encode hproper.length_lt, hproper.fromClient⟩
  | _ => trivial

end Framed

section Receive

variable {cb : Callbacks σ} {w w' : World σ}

theorem offer_framed (hcb : cb.Respect (QuietAt True)) (hr : w.inst.role = .client)
    (encoding : Encoding) (fin : Bool) (h : Framed w) : Framed (offer cb encoding fin w).2 := by
  unfold offer
  split_ifs
  · have hcall : Quiet True (w.emit (.message encoding fin w.inst.rx.s.payload.bytes)) _ :=
      hcb.onMessage encoding fin w.inst.rx.s.payload.bytes _ hr
    exact ((h.emit (by trivial)).quiet hcall).emit trivial
  · exact h

theorem offerAll_framed (hcb : cb.Respect (QuietAt True)) (hr : w.inst.role = .client)
    (encoding : Encoding) (done : Inst → Inst) (h : Framed w) :
    Framed (offerAll cb encoding done w).2 := by
  have hoffer := offer_framed hcb hr encoding w.inst.rx.fin h
  unfold offerAll
  generalize offer cb encoding w.inst.rx.fin w = r at hoffer ⊢
  obtain ⟨accepted, w'⟩ := r
  cases accepted with
  | false => exact hoffer
  | true => exact hoffer.congr rfl

/-- A pong is proper when its payload is that of a control frame. -/
theorem sendPongWithPayload_framed (hcb : cb.Respect (QuietAt True)) (hr : w.inst.role = .client)
    {data : Payload} (hd : data.bytes.length ≤ 125) (h : Framed w) :
    Framed (sendPongWithPayload cb data w).2 := by
  have hq : Quiet True w (allowedToSend w).2 := allowedToSend_quiet
  have ha := h.quiet hq
  have hr₁ := hq.role.trans hr
  unfold sendPongWithPayload
  -- a pong that may not be sent leaves nothing behind
  generalize allowedToSend w = a at ha hr₁ ⊢
  obtain ⟨allowed, w₁⟩ := a
  cases allowed with
  | false => exact ha
  | true =>
    simp only [if_true]
    have hdraw := drawMask_edits hcb w₁
    rw [putAndSend_eq cb _ id w₁ (by rw [hdraw.inst]; exact hr₁)]
    have hlease (n : Nat) (w' : World σ) (h : Framed w') : Framed (lease cb n .pong w').2 :=
      (h.edits (hcb.onBuffer n .pong w')).emit trivial
    -- a payload of 125 bytes at most makes it proper, with whatever mask
    have hproper : TxFrame.Proper
        { fin := true, opcode := .pong, type := .pong, payload := data } :=
      TxFrame.proper_of ⟨rfl, rfl, rfl⟩ (by simp) fun _ => ⟨rfl, hd⟩
    have hmasked := hproper.withMask (drawMask cb w₁).1
    have hleased := hlease (TxFrame.withMask
      { fin := true, opcode := .pong, type := .pong, payload := data } (drawMask cb w₁).1).wire.length
      _ (ha.edits hdraw)
    unfold deliver
    dsimp only
    split_ifs
    · split
      · refine Framed.edits ?_ (hcb.onSend _ _ _ _)
        exact (Framed.congr hleased rfl).emit fun _ =>
          ⟨_, TxFrame.wire_eq_encode _ hmasked.length_lt, hmasked.fromClient⟩
      · exact hleased
    · exact hleased

theorem callOnPing_framed (hcb : cb.Respect (QuietAt True)) (h : Framed w) :
    Framed (callOnPing cb w) := by
  unfold callOnPing
  split_ifs
  · exact (h.emit (by trivial)).edits (hcb.onPing _)
  · exact h

theorem callOnPong_framed (hcb : cb.Respect (QuietAt True)) (h : Framed w) :
    Framed (callOnPong cb w) := by
  unfold callOnPong
  split_ifs
  · exact (h.emit (by trivial)).edits (hcb.onPong _)
  · exact h

theorem finish_framed (hcb : cb.Respect (QuietAt True)) (hl : Live w)
    (hd : w.inst.rx.state = .data) (hz : w.inst.rx.size = 0) (h : Framed w) :
    Framed (finish cb w).2 := by
  unfold finish
  dsimp only
  split
  · split_ifs
    · exact offerAll_framed hcb hl.role .utf8 _ h
    · exact offerAll_framed hcb hl.role .utf8 _ h
    · exact h.quiet (closeWithCode_quiet hcb w hl.role _ (.inl rfl))
  · exact offerAll_framed hcb hl.role .binary _ h
  -- the close that answers the one of the peer: its reason fits a control frame
  · next hop =>
    obtain ⟨code, reason, heq, hreason⟩ := finishClose_eq cb w
    rw [heq]
    refine h.quiet (closeWithReason_quiet hcb hl.role (.inr rfl) fun _ => .inr ?_)
    have hlen : reason.bytes.length ≤ 123 := by
      rcases hreason with rfl | rfl
      · exact Nat.zero_le _
      · exact hl.lawful.length_closeReason hd hz hop
    unfold closePayload
    split_ifs
    · exact hlen
    · exact Nat.zero_le _
  -- the pong that answers a ping, whose payload fits one too
  · next hop =>
    have hlen := hl.lawful.length_payload hd (by simp [hop, Opcode.isControl])
    have hpong := sendPongWithPayload_framed hcb hl.role hlen h
    split
    · next heq =>
      rw [heq] at hpong
      exact hpong
    · next heq =>
      rw [heq] at hpong
      exact callOnPing_framed hcb hpong
  · exact callOnPong_framed hcb h
  · exact h

theorem settle_framed (hcb : cb.Respect (QuietAt True)) (hl : Live w) (h : Framed w) :
    Framed (settle cb w).2 := by
  have hpass : Framed (passOn cb w).2 := by
    unfold passOn
    split
    · exact offer_framed hcb hl.role .utf8 false h
    · exact offer_framed hcb hl.role .binary false h
    · exact h
  unfold settle
  split
  · next hd =>
    split_ifs with hz
    · have hfinish := finish_framed hcb hl hd hz h
      dsimp only
      split_ifs
      · exact hfinish
      · exact hfinish.congr rfl
    · rw [flush_eq]
      dsimp only
      split_ifs
      · exact hpass.congr rfl
      · exact hpass
    · exact h
  · exact h

theorem consume_framed (hcb : cb.Respect (QuietAt True)) (hr : w.inst.role = .client) (b : UInt8)
    (h : Framed w) : Framed (consume cb b w) := by
  have hobeys := consume_obeys cb w b
  generalize consume cb b w = w' at hobeys ⊢
  cases hobeys with
  | stays f => exact h.congr rfl
  | closes f g code type hv =>
    have hw : Framed (w.updateRx f) := h.congr rfl
    have hr' : (w.updateRx f).inst.role = .client := hr
    exact (hw.quiet (closeWithCode_quiet hcb _ hr' code (RxFrame.verdict_type hv))).congr rfl

theorem afterHttp_framed (hcb : cb.Respect (QuietAt True)) (hr : w.inst.role = .client)
    (h : Framed w) : Framed (afterHttp cb w) := by
  unfold afterHttp
  split
  · have htransport := callOnCloseTransport_quiet hcb hr
    have hfailure := callOnHandshakeFailure_quiet hcb (htransport.role.trans hr)
      (if w.inst.http.httpErrno = .cbMessageComplete then .upgrade else .protocol)
    exact ((h.quiet htransport).quiet hfailure).setState .closed
  · split
    · refine Framed.setState ?_ .open
      unfold callOnOpen
      split_ifs
      · have hopen : Quiet True (w.emit .onOpen) (cb.onOpen (w.emit .onOpen)) := hcb.onOpen _ hr
        have hemit : Framed (w.emit .onOpen) := h.emit trivial
        exact hemit.quiet hopen
      · exact h
    · exact h

end Receive

/-! ## Runs -/

/-- **All bytes that a run hands over behind the handshake are frames of a client**, as long as no
ping and no close is too long for a control frame. -/
theorem Reachable.sends_client_frames {allowed : Caller → Call → Prop}
    (hsmall : ∀ caller c, allowed caller c → c.Small) {w : World σ} (h : Reachable allowed w) :
    ∀ buf data type, .send buf data type ∈ w.log → type ≠ .http →
      ∃ f : Websocket.Frame, data = f.encode ∧ f.FromClient := by
  have hquiet {cb : Callbacks σ} (hcb : Reentrant allowed cb) : cb.Respect (QuietAt True) :=
    (quiet_lifts fun _ => hsmall).respect hcb
  suffices hframed : Framed w from fun buf data type hmem => hframed _ hmem
  induction h with
  | init => simp [Framed]
  | edit _ he ih => exact ih.edits he
  | call hw hcb hc ih =>
    exact ih.quiet (Call.run_quiet (hquiet hcb) hw.invariant.role _ fun _ => hsmall _ _ hc)
  | start hw hcb hrun ih =>
    obtain ⟨es, hlog, hes⟩ := (startClient_starts (hquiet hcb) hrun).log
    -- a handshake hands over nothing but the request
    refine ih.append hlog fun e he => ?_
    have hstart := hes e he
    cases e with
    | send buf data type => exact fun hne => absurd hstart hne
    | _ => trivial
  | @parse cb data w n w' hw hcb hrun ih =>
    have hcb' := hquiet hcb
    obtain ⟨n', w'', hrun', -, hframed⟩ := wicParse_induction Framed hcb' hw.invariant data
      (fun _ h => by
        have hparsing : Parsing w (httpParserExecute data w).2 := httpParserExecute_parsing data
        obtain ⟨es, hlog, hes⟩ := hparsing.log
        refine afterHttp_framed hcb' (hparsing.role.trans hw.invariant.role) (h.append hlog ?_)
        intro e he
        rw [hes e he]
        trivial)
      (fun w hl h => settle_framed hcb' hl h)
      (fun w b hl _ h => consume_framed hcb' hl.role b h)
      (fun w f _ h => h.congr rfl) ih
    rw [hrun] at hrun'
    obtain ⟨-, rfl⟩ := Prod.mk.inj (Option.some.inj hrun')
    exact hframed

/-- A text sent behind the upgrade. -/
theorem sends_client_frames_sample :
    ∃ (w : World Unit) (buf : Nat) (data : List UInt8), .send buf data .user ∈ w.log ∧
      ∃ f : Websocket.Frame, data = f.encode ∧ f.FromClient := by
  have hrun : (session (Sample.host id) Sample.arg () [Sample.response]).map (fun w =>
      decide (.send 0 [0x81, 0x82, 0xaa, 0xaa, 0xaa, 0xaa, 0xc2, 0xc3] .user ∈
        (Call.run (Sample.host id) (.sendText true ⟨ascii "hi", by decide⟩) w).log)) =
          some true := by
    decide +kernel
  obtain ⟨w, hw, heq⟩ := Option.map_eq_some_iff.mp hrun
  have hcb : Reentrant (fun _ c => c.Small) (Sample.host id) := .passive Sample.host_passive
  have hreach : Reachable (fun _ c => c.Small)
      (Call.run (Sample.host id) (.sendText true ⟨ascii "hi", by decide⟩) w) :=
    .call (session_reachable hcb hw) hcb trivial
  exact ⟨_, _, _, of_decide_eq_true heq,
    hreach.sends_client_frames (fun _ _ h => h) _ _ _ (of_decide_eq_true heq) (by decide)⟩

/-- A longer control frame is none that a client may send. -/
theorem long_control_not_framed {b : UInt8} {bs : List UInt8} (hb : 8 ≤ b.toNat % 16)
    (hlen : 131 ≤ bs.length) :
    ¬∃ f : Websocket.Frame, b :: bs = f.encode ∧ f.FromClient := by
  rintro ⟨f, hf, hclient⟩
  have hop := Websocket.Frame.opcode_of_encode hf.symm
  have hc : f.isControl = true := decide_eq_true (hop ▸ hb)
  have hle := hclient.length_le hc
  rw [← hf, List.length_cons] at hle
  omega

/-- **A ping of 126 bytes is handed over as it is.** -/
theorem oversized_ping_sent :
    ∃ w : World Unit, Reachable (fun _ _ => True) w ∧
      ∃ buf data type, .send buf data type ∈ w.log ∧ type ≠ .http ∧
        ¬∃ f : Websocket.Frame, data = f.encode ∧ f.FromClient := by
  have hrun : (session (Sample.host id) Sample.arg () [Sample.response]).map (fun w =>
      decide (.send 0 (0x89 :: 0xfe :: 0 :: 126 :: List.replicate 130 0xaa) .ping ∈
        (Call.run (Sample.host id) (.sendPingWithPayload ⟨List.replicate 126 0, by simp⟩) w).log)) =
          some true := by
    decide +kernel
  obtain ⟨w, hw, heq⟩ := Option.map_eq_some_iff.mp hrun
  have hcb : Reentrant (fun _ _ => True) (Sample.host id) := .passive Sample.host_passive
  have hlen : 131 ≤ (0xfe :: 0 :: 126 :: List.replicate 130 0xaa : List UInt8).length := by
    simp
  exact ⟨_, .call (session_reachable hcb hw) hcb trivial, _, _, _, of_decide_eq_true heq, by decide,
    long_control_not_framed (by decide) hlen⟩

end Wic
