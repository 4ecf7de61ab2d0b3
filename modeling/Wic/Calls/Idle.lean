import Wic.Receiver.Drain

/-!
# What a closed instance does

Callbacks that make calls on an instance that is closed come to nothing: what they send is refused
with `WIC_STATUS_NOT_OPEN`, and what they close is closed already. So the trace of closing an open
instance is known up to these refusals, whatever the callbacks do.

## Main definitions

* `heard`: a trace without the refusals
* `IdlesAt`: what a call does to a closed instance
* `ClosedWith`: an open instance has been closed with a code and a reason

## Main results

* `Call.run_idle`, `idles_lifts`: every call, and so every callback, idles on a closed instance
* `closeWithReason_closedWith`: the trace of closing
-/

namespace Wic

open Websocket (Frame bigEndian)

variable {σ : Type}

/-! ## Refusals -/

/-- The entries of a trace apart from the refusals of what is sent on an instance that is not
open. -/
def heard (es : List Event) : List Event := es.filter fun e => e ≠ .status .notOpen

@[simp] theorem heard_nil : heard [] = [] := rfl

@[simp] theorem heard_append (es fs : List Event) : heard (es ++ fs) = heard es ++ heard fs :=
  List.filter_append ..

@[simp] theorem heard_replicate (n : Nat) : heard (List.replicate n (.status .notOpen)) = [] := by
  simp [heard]

/-- A trace without refusals is heard as it is. -/
theorem heard_eq_self {es : List Event} (h : ∀ e ∈ es, e ≠ .status .notOpen) : heard es = es :=
  List.filter_eq_self.mpr fun e he => decide_eq_true (h e he)

/-- A call is quiet, and on a closed instance only refused. -/
structure Idles (w w' : World σ) : Prop extends Quiet False w w' where
  idle : w.inst.state = .closed → ∃ n, w'.log = w.log ++ List.replicate n (.status .notOpen)

/-- `Idles` for a client, between the worlds around a callback. -/
def IdlesAt (_ : Caller) (w w' : World σ) : Prop := w.inst.role = .client → Idles w w'

namespace Idles

variable {w w' w'' : World σ}

theorem of_log (h : Quiet False w w') (hlog : w'.log = w.log) : Idles w w' :=
  ⟨h, fun _ => ⟨0, by rw [hlog, List.replicate_zero, List.append_nil]⟩⟩

theorem refl (w : World σ) : Idles w w := of_log (.refl w) rfl

theorem edits (h : Edits w w') : Idles w w' := of_log (.edits h) h.log

theorem trans (h : Idles w w') (h' : Idles w' w'') : Idles w w'' where
  toQuiet := h.toQuiet.trans h'.toQuiet
  idle hc := by
    obtain ⟨m, hm⟩ := h.idle hc
    have hc' : w'.inst.state = .closed := by
      have hlead := h.state
      rw [hc] at hlead
      exact hlead.closed
    obtain ⟨n, hn⟩ := h'.idle hc'
    exact ⟨m + n, by rw [hn, hm, List.append_assoc, ← List.replicate_add]⟩

end Idles

section Calls

variable {cb : Callbacks σ} {w : World σ}

theorem Callbacks.Respect.quietOfIdles (hcb : cb.Respect IdlesAt) : cb.Respect (QuietAt False) :=
  hcb.imp fun _ _ _ h hr => (h hr).toQuiet

/-- A send on a closed instance is refused. -/
theorem Send.run_of_closed (hc : w.inst.state = .closed) (send : Send) :
    (send.run cb w).2 = w.emit (.status .notOpen) := by
  have hallowed : allowedToSend w = (false, w) := by simp [allowedToSend, hc]
  rw [send.run_eq, hallowed]
  rfl

/-- **Every call idles on a closed instance.** -/
theorem Call.run_idle (hcb : cb.Respect IdlesAt) (hr : w.inst.role = .client) (c : Call) :
    Idles w (c.run cb w) := by
  refine ⟨Call.run_quiet hcb.quietOfIdles hr c False.elim, fun hc => ?_⟩
  -- a frame is refused with `WIC_STATUS_NOT_OPEN`, and only that is recorded
  have hsend (send : Send) : ∃ n, (send.run cb w).2.log =
      w.log ++ List.replicate n (.status .notOpen) :=
    ⟨1, by rw [send.run_of_closed hc]; rfl⟩
  -- every other call records nothing
  have hsame {w' : World σ} (h : w'.log = w.log) : ∃ n, w'.log =
      w.log ++ List.replicate n (.status .notOpen) :=
    ⟨0, by rw [h, List.replicate_zero, List.append_nil]⟩
  cases c with
  | sendBinary fin data => exact hsend (.binary fin data)
  | sendText fin data => exact hsend (.text fin data)
  | send encoding fin data =>
    simp only [run, wicSend]
    split_ifs
    · exact hsend (.binary fin data)
    · exact hsend (.text fin data)
  | sendPing => exact hsend (.ping .null)
  | sendPingWithPayload data => exact hsend (.ping data)
  | close =>
    apply hsame
    exact congrArg World.log (closeWithReason_of_closed hc closeNormal .null .close)
  | closeWithReason code reason =>
    apply hsame
    exact congrArg World.log (closeWithReason_of_closed hc code reason .close)
  | setHeader header =>
    apply hsame
    simp only [run, wicSetHeader]
    split_ifs <;> rfl
  | rewindGetNextHeader => exact hsame rfl
  | getNextHeader =>
    apply hsame
    simp only [run, wicGetNextHeader]
    split_ifs <;> rfl

end Calls

/-- Calls that idle make callbacks that do. -/
theorem idles_lifts (allowed : Caller → Call → Prop) : Lifts allowed (IdlesAt (σ := σ)) where
  refl _ w _ := .refl w
  trans h h' hr := (h hr).trans (h' (by rw [(h hr).role, hr]))
  edit he _ := .edits he
  call _ _ hcb hr := Call.run_idle hcb hr _

theorem Reentrant.idles {allowed : Caller → Call → Prop} {cb : Callbacks σ}
    (h : Reentrant allowed cb) : cb.Respect IdlesAt := (idles_lifts allowed).respect h

/-! ## The trace of closing -/

/-- The receiver is left alone, and `es` is what is heard of the trace. -/
structure Says (es : List Event) (w w' : World σ) : Prop where
  keeps : Keeps w w'
  log : ∃ fs, w'.log = w.log ++ fs ∧ heard fs = es

namespace Says

variable {w w' w'' : World σ} {es fs : List Event}

theorem refl (w : World σ) : Says [] w w := ⟨.refl w, [], by simp, rfl⟩

theorem trans (h : Says es w w') (h' : Says fs w' w'') : Says (es ++ fs) w w'' := by
  obtain ⟨es', hes, rfl⟩ := h.log
  obtain ⟨fs', hfs, rfl⟩ := h'.log
  exact ⟨h.keeps.trans h'.keeps, es' ++ fs', by rw [hfs, hes, List.append_assoc], by simp⟩

theorem emit {e : Event} (he : e ≠ .status .notOpen) : Says [e] w (w.emit e) :=
  ⟨.emit e, [e], rfl, heard_eq_self (by simpa using he)⟩

theorem edits (h : Edits w w') : Says [] w w' := ⟨.edits h, [], by simp [h.log], rfl⟩

theorem idles (h : Idles w w') (hc : w.inst.state = .closed) : Says [] w w' := by
  obtain ⟨n, hn⟩ := h.idle hc
  exact ⟨h.toKeeps, _, hn, heard_replicate n⟩

/-- A closed instance stays closed. -/
theorem closed (h : Says es w w') (hc : w.inst.state = .closed) : w'.inst.state = .closed := by
  have hlead := h.keeps.state
  rw [hc] at hlead
  exact hlead.closed

end Says

section Closing

variable {cb : Callbacks σ} {w : World σ}

/-- The entries of the trace for a frame that is offered: the buffer asked for, and the frame handed
over when one is there for it. -/
def putOut (f : Frame) (type : BufferType) (buf : Option Nat) (max : Nat) : List Event :=
  .buffer f.encode.length type buf max ::
    if f.encode.length ≤ max then buf.toList.map fun buf => .send buf f.encode type else []

/-- A frame is offered. -/
theorem putAndSend_says {P : Caller → World σ → World σ → Prop} (hcb : cb.Respect P)
    (hr : w.inst.role = .client) {f : TxFrame} (hf : f.content.length < 65536) :
    ∃ m buf max, Says (putOut (f.withMask m).frame f.type buf max) w (putAndSend cb f id w).2 := by
  have hdraw := drawMask_edits hcb w
  rw [putAndSend_eq cb f id w (by rw [hdraw.inst]; exact hr)]
  generalize drawMask cb w = d at hdraw
  obtain ⟨m, w₁⟩ := d
  dsimp only at hdraw ⊢
  -- what is put into the buffer is the frame, masked with the key that was drawn
  have hwire : (f.withMask m).wire = (f.withMask m).frame.encode := TxFrame.wire_eq_encode _ hf
  have hlease : Edits w₁ (cb.onBuffer (f.withMask m).wire.length (f.withMask m).type w₁).2 :=
    hcb.onBuffer _ _ _
  refine ⟨m, ?_⟩
  rw [show f.type = (f.withMask m).type from rfl]
  generalize f.withMask m = g at hwire hlease ⊢
  unfold lease
  generalize cb.onBuffer g.wire.length g.type w₁ = l at hlease ⊢
  obtain ⟨⟨buf, max⟩, w₂⟩ := l
  -- up to the buffer: asking for it is all that is recorded
  have hasked : Says [.buffer g.wire.length g.type buf max] w
      (w₂.emit (.buffer g.wire.length g.type buf max)) :=
    (Says.edits hdraw).trans ((Says.edits hlease).trans (.emit (by simp)))
  refine ⟨buf, max, ?_⟩
  unfold putOut deliver
  rw [← hwire]
  dsimp only
  -- a buffer that is too short is not handed back
  by_cases hfit : g.wire.length ≤ max
  · rw [if_pos hfit, if_pos hfit]
    cases buf with
    | none => exact hasked
    | some buf =>
      have hsent (w' : World σ) : Says [.send buf g.wire g.type] w'
          (cb.onSend buf g.wire g.type ((w'.update id).emit (.send buf g.wire g.type))) :=
        (Says.emit (by simp)).trans (.edits (hcb.onSend _ _ _ _))
      exact hasked.trans (hsent _)
  · rw [if_neg hfit, if_neg hfit]
    exact hasked

/-- A close frame with `code` and `reason`. -/
structure CloseFrame (code : UInt16) (reason : List UInt8) (f : Frame) : Prop where
  fin : f.fin = true
  rsv : f.rsv = 0
  opcode : f.opcode.val = 8
  masked : f.key.isSome = true
  payload : f.payload = bigEndian 2 code.toNat ++ reason

/-- An open instance has been closed with `code` and `reason`: one close frame is offered, then
`on_close_transport` is called, and then `on_close`. -/
structure ClosedWith (code : UInt16) (reason : List UInt8) (type : BufferType) (w w' : World σ) :
    Prop where
  state : w'.inst.state = .closed
  log : ∃ es f buf max, w'.log = w.log ++ es ∧ CloseFrame code reason f ∧
    heard es = [.closing code, .state .closed] ++ putOut f type buf max ++
      (if w.inst.onCloseTransport then [.onCloseTransport] else []) ++
      if w.inst.onClose then [.onClose code reason] else []

/-- The bytes of a code. -/
theorem bigEndian_code (code : UInt16) :
    bigEndian 2 code.toNat = [(code >>> 8).toUInt8, code.toUInt8] := by
  have hhigh : UInt8.ofNat (code.toNat / 256) = (code >>> 8).toUInt8 := by
    apply UInt8.toNat_inj.mp
    simp [UInt8.toNat_ofNat', Nat.shiftRight_eq_div_pow]
  have hlow : UInt8.ofNat code.toNat = code.toUInt8 := by
    apply UInt8.toNat_inj.mp
    simp
  simp [bigEndian, hhigh, hlow]

/-- The frame of a close. -/
theorem TxFrame.closeFrame (code : UInt16) (reason : Payload) (type : BufferType) (m : UInt32) :
    CloseFrame code reason.bytes
      (({ fin := true, opcode := .close, type, code, payload := reason } :
        TxFrame).withMask m).frame where
  fin := rfl
  rsv := rfl
  opcode := rfl
  masked := rfl
  payload := by
    rw [bigEndian_code]
    rfl

/-- **The trace of closing an open instance**, for a code that is written and a reason in UTF-8. -/
theorem closeWithReason_closedWith (hcb : cb.Respect IdlesAt) (hr : w.inst.role = .client)
    (ho : w.inst.state = .open) {code : UInt16} (hu : unwritten code = false) {reason : Payload}
    (hreason : closePayload reason = reason) (hlen : reason.bytes.length ≤ 123)
    (type : BufferType) :
    ClosedWith code reason.bytes type w (closeWithReason cb code reason type w) := by
  have hstart : Says [.closing code] w (w.emit (.closing code)) := .emit (by simp)
  unfold closeWithReason
  rw [ho]
  dsimp only
  -- from here on the instance is closed, and callbacks are idle
  have hc₁ : ((w.emit (.closing code)).setState .closed).inst.state = .closed := rfl
  have hr₁ : ((w.emit (.closing code)).setState .closed).inst.role = .client := hr
  have hlog₁ : ((w.emit (.closing code)).setState .closed).log =
      w.log ++ [.closing code, .state .closed] := by simp
  have hflags₁ : ((w.emit (.closing code)).setState .closed).inst.onCloseTransport =
      w.inst.onCloseTransport ∧
        ((w.emit (.closing code)).setState .closed).inst.onClose = w.inst.onClose := ⟨rfl, rfl⟩
  generalize (w.emit (.closing code)).setState .closed = w₁ at hc₁ hr₁ hlog₁ hflags₁
  have hsize : ({ fin := true, opcode := .close, type, code, payload := reason } :
      TxFrame).content.length < 65536 := by
    rw [TxFrame.length_content, if_pos rfl]
    exact Nat.lt_of_le_of_lt (Nat.add_le_add_right hlen 2) (by decide)
  obtain ⟨m, buf, max, hsent⟩ := putAndSend_says hcb hr₁ hsize
  have hsend : sendClose cb code reason type w₁ = (putAndSend cb
      { fin := true, opcode := .close, type, code, payload := reason } id w₁).2 := by
    simp [sendClose, hu, hreason]
  rw [← hsend] at hsent
  generalize sendClose cb code reason type w₁ = w₂ at hsent
  have hc₂ := hsent.closed hc₁
  have hr₂ : w₂.inst.role = .client := hsent.keeps.role.trans hr₁
  have htransport : Says (if w.inst.onCloseTransport then [.onCloseTransport] else []) w₂
      (callOnCloseTransport cb w₂) := by
    have hflag : w₂.inst.onCloseTransport = w.inst.onCloseTransport := by
      rw [hsent.keeps.inst, ← hflags₁.1]
    unfold callOnCloseTransport
    rw [hflag]
    split_ifs
    · exact (Says.emit (by simp)).trans (.idles (hcb.onCloseTransport _ hr₂) hc₂)
    · exact .refl w₂
  have hc₃ := htransport.closed hc₂
  have hr₃ : (callOnCloseTransport cb w₂).inst.role = .client := htransport.keeps.role.trans hr₂
  have hflag₃ : (callOnCloseTransport cb w₂).inst.onClose = w.inst.onClose := by
    rw [htransport.keeps.inst, hsent.keeps.inst, ← hflags₁.2]
  generalize callOnCloseTransport cb w₂ = w₃ at htransport hc₃ hr₃ hflag₃
  have hnotice : Says (if w.inst.onClose then [.onClose code reason.bytes] else []) w₃
      (callOnClose cb code reason.bytes w₃) := by
    unfold callOnClose
    rw [hflag₃]
    split_ifs
    · exact (Says.emit (by simp)).trans (.idles (hcb.onClose _ _ _ hr₃) hc₃)
    · exact .refl w₃
  have hall := (hsent.trans htransport).trans hnotice
  obtain ⟨fs, hlog, hheard⟩ := hall.log
  refine ⟨hall.closed hc₁, [.closing code, .state .closed] ++ fs, _, buf, max, ?_,
    TxFrame.closeFrame code reason type m, ?_⟩
  · rw [hlog, hlog₁, List.append_assoc]
  · have hfirst : heard [.closing code, .state .closed] = [.closing code, .state .closed] :=
      heard_eq_self (by simp)
    rw [heard_append, hheard, hfirst]
    simp only [List.append_assoc]

end Closing

end Wic
