import Wic.Calls.Idle
import Wic.Receiver.Keyless

/-!
# The course of the receiver

What an application does in its callbacks does not change the course the receiver takes, as long as it
accepts every message, has a buffer for every pong and does not close the instance itself: the frames
that are let through, the messages that are handed on and the code with which the bytes close the
instance are those of an application that makes no calls at all.

## Main definitions

* `Calm`: calls that tell nothing of closing unless they close
* `Part.told`: the reading of a trace that keeps the messages and the codes of closing
* `Abreast`: instances that have taken the same course

## Main results

* `Callbacks.Respect.heard_told`
* `drain_abreast`: two applications
* `drain_granting`: any application and one that makes no calls
-/

namespace Wic

variable {σ : Type}

/-! ## Calls that do not close -/

/-- Nothing of closing has been added to the trace. -/
def Unclosing (w w' : World σ) : Prop := ∃ es, w'.log = w.log ++ es ∧ ∀ code, .closing code ∉ es

namespace Unclosing

variable {w w' w'' : World σ}

theorem of_log (h : w'.log = w.log) : Unclosing w w' := ⟨[], by rw [h, List.append_nil], by simp⟩

theorem refl (w : World σ) : Unclosing w w := of_log rfl

theorem edits (h : Edits w w') : Unclosing w w' := of_log h.log

theorem emit {e : Event} (he : ∀ code, e ≠ .closing code) : Unclosing w (w.emit e) :=
  ⟨[e], rfl, fun code hc => he code (List.mem_singleton.mp hc).symm⟩

theorem trans (h : Unclosing w w') (h' : Unclosing w' w'') : Unclosing w w'' := by
  obtain ⟨es, hes, hno⟩ := h
  obtain ⟨fs, hfs, hno'⟩ := h'
  exact ⟨es ++ fs, by rw [hfs, hes, List.append_assoc], fun code hc =>
    (List.mem_append.mp hc).elim (hno code) (hno' code)⟩

end Unclosing

section Sends

variable {P : Caller → World σ → World σ → Prop} {cb : Callbacks σ} {w : World σ}

theorem putAndSend_unclosing (hcb : cb.Respect P) (hr : w.inst.role = .client) (f : TxFrame)
    (done : Inst → Inst) : Unclosing w (putAndSend cb f done w).2 := by
  have hdraw := drawMask_edits hcb w
  rw [putAndSend_eq cb f done w (by rw [hdraw.inst]; exact hr)]
  refine (Unclosing.edits hdraw).trans ?_
  have hlease (n : Nat) (type : BufferType) (w' : World σ) : Unclosing w' (lease cb n type w').2 :=
    (Unclosing.edits (hcb.onBuffer n type w')).trans (.emit (by simp))
  have hdeliver (g : TxFrame) (buf : Option Nat) (max : Nat) (w' : World σ) :
      Unclosing w' (deliver cb g done buf max w').2 := by
    unfold deliver
    split_ifs
    · cases buf with
      | none => exact .refl w'
      | some buf =>
        have hsend := hcb.onSend buf g.wire g.type ((w'.update done).emit (.send buf g.wire g.type))
        have hemit : Unclosing w' ((w'.update done).emit (.send buf g.wire g.type)) :=
          ⟨[.send buf g.wire g.type], rfl, by simp⟩
        exact hemit.trans (.edits hsend)
    · exact .refl w'
  exact (hlease _ _ _).trans (hdeliver _ _ _ _)

/-- No send tells of closing. -/
theorem Send.run_unclosing (hcb : cb.Respect (QuietAt False)) (hr : w.inst.role = .client)
    (send : Send) : Unclosing w (send.run cb w).2 := by
  have hallowed : Quiet False w (allowedToSend w).2 := allowedToSend_quiet
  have ha : Unclosing w (allowedToSend w).2 := by
    unfold allowedToSend
    split_ifs
    · exact ⟨[.state .open], rfl, by simp⟩
    · exact .refl w
  have hr₁ := hallowed.role.trans hr
  rw [send.run_eq]
  refine Unclosing.trans (ha.trans ?_) (.emit (by simp))
  split
  · unfold attempt
    split
    · exact .refl _
    · exact putAndSend_unclosing hcb hr₁ _ _
  · exact .refl _

end Sends

/-- Calls that tell nothing of closing unless they close the instance. -/
structure Calm (w w' : World σ) : Prop extends Idles w w' where
  unclosing : w'.inst.state ≠ .closed → Unclosing w w'

/-- `Calm` for a client, between the worlds around a callback. -/
def CalmAt (_ : Caller) (w w' : World σ) : Prop := w.inst.role = .client → Calm w w'

theorem Callbacks.Respect.idlesOfCalm {cb : Callbacks σ} (hcb : cb.Respect CalmAt) :
    cb.Respect IdlesAt :=
  hcb.imp fun _ _ _ h hr => (h hr).toIdles

theorem Calm.trans {w w' w'' : World σ} (h : Calm w w') (h' : Calm w' w'') : Calm w w'' where
  toIdles := h.toIdles.trans h'.toIdles
  unclosing hno := by
    refine (h.unclosing fun hc => hno ?_).trans (h'.unclosing hno)
    have hlead := h'.state
    rw [hc] at hlead
    exact hlead.closed

/-- **Every call tells nothing of closing unless it closes.** -/
theorem Call.run_calm {cb : Callbacks σ} {w : World σ} (hcb : cb.Respect IdlesAt)
    (hr : w.inst.role = .client) (c : Call) : Calm w (c.run cb w) := by
  have hclose (code : UInt16) (reason : Payload)
      (hno : (Wic.closeWithReason cb code reason .close w).inst.state ≠ .closed) :
      Unclosing w (Wic.closeWithReason cb code reason .close w) :=
    absurd (closeWithReason_closed hcb.quietOfIdles hr code reason (.inl rfl)) hno
  refine ⟨Call.run_idle hcb hr c, fun hno => ?_⟩
  cases c with
  | sendBinary fin data => exact (Send.binary fin data).run_unclosing hcb.quietOfIdles hr
  | sendText fin data => exact (Send.text fin data).run_unclosing hcb.quietOfIdles hr
  | send encoding fin data =>
    simp only [run, wicSend]
    split_ifs
    · exact (Send.binary fin data).run_unclosing hcb.quietOfIdles hr
    · exact (Send.text fin data).run_unclosing hcb.quietOfIdles hr
  | sendPing => exact (Send.ping .null).run_unclosing hcb.quietOfIdles hr
  | sendPingWithPayload data => exact (Send.ping data).run_unclosing hcb.quietOfIdles hr
  | close => exact hclose closeNormal .null hno
  | closeWithReason code reason => exact hclose code reason hno
  | setHeader header =>
    simp only [run, wicSetHeader]
    split_ifs <;> exact .of_log rfl
  | rewindGetNextHeader => exact .of_log rfl
  | getNextHeader =>
    simp only [run, wicGetNextHeader]
    split_ifs <;> exact .of_log rfl

/-- Calm calls make calm callbacks. -/
theorem calm_lifts (allowed : Caller → Call → Prop) : Lifts allowed (CalmAt (σ := σ)) where
  refl _ w _ := ⟨.refl w, fun _ => .refl w⟩
  trans h h' hr := (h hr).trans (h' (by rw [(h hr).role, hr]))
  edit he _ := ⟨.edits he, fun _ => .edits he⟩
  call _ _ hcb hr := Call.run_calm hcb.idlesOfCalm hr _

theorem Reentrant.calm {allowed : Caller → Call → Prop} {cb : Callbacks σ}
    (h : Reentrant allowed cb) : cb.Respect CalmAt := (calm_lifts allowed).respect h

/-! ## Messages and the codes of closing -/

/-- The messages and the codes of closing. -/
def Part.told : Part → Bool
  | .message .. | .closing _ => true
  | _ => false

/-- The entries of a call tell only of closing. -/
theorem Event.OfCall.told {G : Prop} {e : Event} (h : e.OfCall G)
    (hno : ∀ code, e ≠ .closing code) : e.Silent Part.told := by
  cases e with
  | message | answer | onPing | onPong => exact h.elim
  | closing code => exact absurd rfl (hno code)
  | send buf data type =>
    show (if type = .pong ∨ type = .close ∨ type = .closeResponse then
      [Part.frame type (openFrame data)] else []).filter Part.told = []
    split_ifs <;> rfl
  | _ => rfl

/-- A quiet change that tells nothing of closing. -/
theorem Quiet.hides_told {G : Prop} {w w' : World σ} (h : Quiet G w w') (hno : Unclosing w w') :
    Hides Part.told w w' := by
  obtain ⟨es, hes, hall⟩ := h.log
  obtain ⟨fs, hfs, hnone⟩ := hno
  obtain rfl := List.append_cancel_left (hes.symm.trans hfs)
  refine hides_of_silent (fun e he => (hall e he).told fun code hc => ?_) hes
  exact hnone code (hc ▸ he)

theorem farewell_told (hs : Handlers) (code : UInt16) (reason : Payload) (type : BufferType) :
    (farewell hs code reason type).filter Part.told = [.closing code] := by
  unfold farewell
  split_ifs <;> rfl

/-- What follows the first entry of closing tells nothing more of it. -/
theorem closeWithReason_told {cb : Callbacks σ} {w : World σ} (hcb : cb.Respect IdlesAt)
    (hr : w.inst.role = .client) (ho : w.inst.state = .open) (code : UInt16) (reason : Payload)
    {type : BufferType} (ht : type = .close ∨ type = .closeResponse) :
    Hides Part.told ((w.emit (.closing code)).setState .closed)
      (closeWithReason cb code reason type w) := by
  have hq := hcb.quietOfIdles
  unfold closeWithReason
  rw [ho]
  dsimp only
  have hc₁ : ((w.emit (.closing code)).setState .closed).inst.state = .closed := rfl
  have hr₁ : ((w.emit (.closing code)).setState .closed).inst.role = .client := hr
  generalize (w.emit (.closing code)).setState .closed = w₁ at hc₁ hr₁
  have hstatus (n : Nat) (c : UInt16) :
      Event.closing c ∉ List.replicate n (.status .notOpen) := fun h => by
    cases List.eq_of_mem_replicate h
  -- a call of a callback does not open a closed instance again, and tells nothing of closing
  have hclosed {v v' : World σ} (h : Quiet False v v') (hc : v.inst.state = .closed) :
      v'.inst.state = .closed := by
    have hlead := h.state
    rw [hc] at hlead
    exact hlead.closed
  have hidle {v v' : World σ} (h : Idles v v') (hc : v.inst.state = .closed) : Unclosing v v' := by
    obtain ⟨n, hn⟩ := h.idle hc
    exact ⟨_, hn, hstatus n⟩
  have hsend := sendClose_quiet (G := False) hq hr₁ code reason ht False.elim
  have hsent : Unclosing w₁ (sendClose cb code reason type w₁) := by
    unfold sendClose
    split_ifs
    · exact .refl w₁
    · exact putAndSend_unclosing hcb hr₁ _ _
  generalize sendClose cb code reason type w₁ = w₂ at hsend hsent
  have hc₂ : w₂.inst.state = .closed := hclosed hsend hc₁
  have hr₂ : w₂.inst.role = .client := hsend.role.trans hr₁
  have htransport := callOnCloseTransport_quiet hq hr₂
  have htransport' : Unclosing w₂ (callOnCloseTransport cb w₂) := by
    unfold callOnCloseTransport
    split_ifs
    · exact (Unclosing.emit (by simp)).trans (hidle (hcb.onCloseTransport _ hr₂) hc₂)
    · exact .refl w₂
  generalize callOnCloseTransport cb w₂ = w₃ at htransport htransport'
  have hc₃ : w₃.inst.state = .closed := hclosed htransport hc₂
  have hr₃ : w₃.inst.role = .client := htransport.role.trans hr₂
  have hnotice := callOnClose_quiet hq hr₃ code reason.bytes
  have hnotice' : Unclosing w₃ (callOnClose cb code reason.bytes w₃) := by
    unfold callOnClose
    split_ifs
    · exact (Unclosing.emit (by simp)).trans (hidle (hcb.onClose _ _ _ hr₃) hc₃)
    · exact .refl w₃
  exact ((hsend.trans htransport).trans hnotice).hides_told ((hsent.trans htransport').trans hnotice')

/-- **Of messages and of the codes of closing, callbacks that do not close let everything be heard.** -/
theorem Callbacks.Respect.heard_told {cb : Callbacks σ} (hcb : cb.Respect CalmAt)
    (hroom : cb.Roomy) (hs : cb.Steady) : cb.Heard Part.told where
  quiet := hcb.idlesOfCalm.quietOfIdles
  roomy := hroom
  hides {encoding fin data w} hr ho := by
    have hcalm := hcb.onMessage encoding fin data w hr
    refine hcalm.hides_told (hcalm.unclosing ?_)
    rw [hs encoding fin data w hr ho]
    simp
  closes {code reason type w} hr ho ht _ := by
    obtain ⟨es, hes, hall⟩ := closeWithReason_told hcb.idlesOfCalm hr ho code reason ht
    refine ⟨.closing code :: .state .closed :: es, ?_, fun fs => ?_⟩
    · rw [hes]
      simp
    · rw [farewell_told]
      show (Part.closing code :: shown none (es ++ fs)).filter Part.told = _
      rw [List.filter_cons_of_pos rfl, hall]
      rfl

/-! ## Two applications -/

/-- Callbacks that accept every message, have a buffer for every pong and do not close the instance in
`on_message`. Apart from that they may make calls. -/
structure Callbacks.Agreeable (cb : Callbacks σ) : Prop where
  accepts : cb.Accepting
  replies : cb.Replying
  steady : cb.Steady

theorem Callbacks.Replying.roomy {cb : Callbacks σ} (h : cb.Replying) : cb.Roomy := by
  intro minSize w
  obtain ⟨buf, max, hbuf, hfit⟩ := h minSize w
  rw [hbuf]
  exact hfit

theorem Callbacks.Obliging.agreeable {cb : Callbacks σ} (h : cb.Obliging) : cb.Agreeable :=
  ⟨h.accepts, h.supplying.replying, h.toPassive.steady⟩

/-- Two instances that have taken the same course: both are closed, or both are open and in the same
place. -/
structure Abreast (w w' : World σ) : Prop where
  state : w'.inst.state = w.inst.state
  rx : w.inst.state = .open → w'.inst.rx = w.inst.rx
  utf8Rx : w.inst.state = .open → w'.inst.utf8Rx = w.inst.utf8Rx
  handlers : w.inst.state = .open → w'.inst.handlers = w.inst.handlers

section Abreast

variable {keep keep' : Part → Bool} {cb cb' : Callbacks σ} {w w' : World σ}

theorem Abreast.refl (w : World σ) : Abreast w w := ⟨rfl, fun _ => rfl, fun _ => rfl, fun _ => rfl⟩

theorem Abreast.of_closed (h : w.inst.state = .closed) (h' : w'.inst.state = .closed) : Abreast w w' := by
  have hno : w.inst.state ≠ .open := by simp [h]
  exact ⟨h'.trans h.symm, fun ho => absurd ho hno, fun ho => absurd ho hno,
    fun ho => absurd ho hno⟩

/-- Agreeable callbacks do the work that is due. -/
theorem settle_agreeable (hcb : cb.Heard keep) (ha : cb.Agreeable) (h : Live w) :
    (settle cb w).1 = false := by
  by_contra hb
  exact not_refused ha.accepts ha.replies (settle_refuses hcb h (by simpa using hb))

/-- Two applications do the same work. -/
theorem settle_abreast (hcb : cb.Heard keep) (ha : cb.Agreeable) (hcb' : cb'.Heard keep')
    (ha' : cb'.Agreeable) (h : Live w) (h' : Live w') (ht : Abreast w w') :
    Abreast (settle cb w).2 (settle cb' w').2 := by
  have hb := settle_agreeable hcb ha h
  have hb' := settle_agreeable hcb' ha' h'
  have hperf := (settle_performs hcb h).resolve_left fun hno => by simp [hb] at hno
  have hperf' := (settle_performs hcb' h').resolve_left fun hno => by simp [hb'] at hno
  rw [ht.rx h.state, ht.utf8Rx h.state, ht.handlers h.state] at hperf'
  have hsetup := (settle_receiving hcb.quiet h.receiving).2
  have hsetup' := (settle_receiving hcb'.quiet h'.receiving).2
  obtain ⟨-, hperf⟩ := hperf
  obtain ⟨-, hperf'⟩ := hperf'
  cases hp : w.inst.rx.performs w.inst.handlers w.inst.utf8Rx with
  | closes ps =>
    rw [hp] at hperf hperf'
    exact .of_closed hperf.2 hperf'.2
  | goes ps u rx =>
    rw [hp] at hperf hperf'
    obtain ⟨-, hrx, hutf8, hstate⟩ := hperf
    obtain ⟨-, hrx', hutf8', hstate'⟩ := hperf'
    refine ⟨?_, fun _ => hrx'.trans hrx.symm, fun _ => hutf8'.trans hutf8.symm, fun _ => ?_⟩
    · rw [hstate ha.steady, hstate' ha'.steady, ht.state]
    · rw [hsetup'.handlers, hsetup.handlers, ht.handlers h.state]

/-- Two applications read the same byte. -/
theorem consume_abreast (hcb : cb.Respect (QuietAt False)) (hcb' : cb'.Respect (QuietAt False))
    (h : Live w) (h' : Live w') (ht : Abreast w w') (b : UInt8) :
    Abreast (consume cb b w) (consume cb' b w') := by
  have hobeys := consume_obeys cb w b
  have hobeys' := consume_obeys cb' w' b
  have hset := consume_setup hcb h.role b
  have hset' := consume_setup hcb' h'.role b
  have hstate := hset.state
  have hstate' := hset'.state
  rw [h.state] at hstate
  rw [h'.state] at hstate'
  cases hv : w.inst.rx.verdict w.inst.utf8Rx b with
  | some r =>
    have hv' : w'.inst.rx.verdict w'.inst.utf8Rx b = some r := by
      rw [ht.rx h.state, ht.utf8Rx h.state, hv]
    refine .of_closed (hstate.open_or.resolve_left fun ho => ?_)
      (hstate'.open_or.resolve_left fun ho => ?_)
    · simp [verdict_of_open hcb h.role ho] at hv
    · simp [verdict_of_open hcb' h'.role ho] at hv'
  | none =>
    have hv' : w'.inst.rx.verdict w'.inst.utf8Rx b = none := by
      rw [ht.rx h.state, ht.utf8Rx h.state, hv]
    rw [consume_of_none hv, consume_of_none hv']
    refine ⟨ht.state, fun ho => ?_, ht.utf8Rx, ht.handlers⟩
    show w'.inst.rx.take w'.inst.utf8Rx b = w.inst.rx.take w.inst.utf8Rx b
    rw [ht.rx h.state, ht.utf8Rx h.state]

/-- **Two applications take the receiver through the same course.** -/
theorem drain_abreast (hcb : cb.Heard keep) (ha : cb.Agreeable) (hcb' : cb'.Heard keep')
    (ha' : cb'.Agreeable) (bs : List UInt8) {w w' : World σ} (h : Live w) (h' : Live w')
    (ht : Abreast w w') : Abreast (drain cb bs w).2 (drain cb' bs w').2 := by
  -- the work that is due takes both through the same course
  have hb := settle_agreeable hcb ha h
  have hb' := settle_agreeable hcb' ha' h'
  have hset := settle_abreast hcb ha hcb' ha' h h' ht
  have hrest := settle_rests hcb.quiet h.receiving hb
  have hrest' := settle_rests hcb'.quiet h'.receiving hb'
  have hlive := settle_live hcb.quiet h
  have hlive' := settle_live hcb'.quiet h'
  rw [drain_settle hcb.quiet h.role h.lawful.toSound h.state hb,
    drain_settle hcb'.quiet h'.role h'.lawful.toSound h'.state hb']
  generalize (settle cb w).2 = v at hset hrest hlive
  generalize (settle cb' w').2 = v' at hset hrest' hlive'
  by_cases ho : v.inst.state = .open
  swap
  · rw [drain_of_not_open ho, drain_of_not_open (by rw [hset.state]; exact ho)]
    exact hset
  have ho' : v'.inst.state = .open := hset.state.trans ho
  cases bs with
  | nil =>
    rw [drain_nil_of_rests hrest, drain_nil_of_rests hrest']
    exact hset
  | cons b bs =>
    -- and so does the next byte
    have hbyte := consume_abreast hcb.quiet hcb'.quiet (hlive ho) (hlive' ho') hset b
    have hnext := consume_live hcb.quiet (hlive ho) hrest (b := b)
    have hnext' := consume_live hcb'.quiet (hlive' ho') hrest' (b := b)
    rw [drain_cons_of_rests ho hrest, drain_cons_of_rests ho' hrest']
    by_cases hopen : (consume cb b v).inst.state = .open
    · have hopen' := hbyte.state.trans hopen
      exact drain_abreast hcb ha hcb' ha' bs (hnext hopen) (hnext' hopen') hbyte
    · rw [drain_of_not_open hopen, drain_of_not_open (by rw [hbyte.state]; exact hopen)]
      exact hbyte
termination_by bs.length

end Abreast

/-! ## Where there are no pings -/

/-- The first byte and the payload of a pong. -/
def Part.pong : Part → Option (UInt8 × List UInt8)
  | .frame .pong contents => some contents
  | _ => none

section Pongless

variable {cb : Callbacks σ} {w : World σ}

/-- Where no pong is to be made known no ping is due. -/
theorem not_ping_of_pongless {bs : List UInt8} (hno : (w.output bs).filterMap Part.pong = [])
    (hd : w.inst.rx.state = .data) (hz : w.inst.rx.size = 0) : w.inst.rx.dataOpcode ≠ .ping := by
  intro hop
  have hperf := RxFrame.performs_of_data hd w.inst.handlers w.inst.utf8Rx
  rw [if_pos hz, RxFrame.ends, hop] at hperf
  have hrest : ({ w.inst.rx with state := .opcode } : RxFrame).Rests := fun hs => by cases hs
  rw [World.output, RxFrame.output_of_goes hperf hrest] at hno
  simp [Part.pong] at hno

/-- Where no pong is to be made known it does not matter what room there is for pongs. -/
theorem drain_withPongs (room : Nat → Option Nat × Nat) (hcb : cb.Respect (QuietAt False))
    {w : World σ} (h : Live w) (bs : List UInt8) (hno : (w.output bs).filterMap Part.pong = []) :
    drain (cb.withPongs room) bs w = drain cb bs w := by
  -- the work that is due is no pong, as that would have been made known
  have hset : settle (cb.withPongs room) w = settle cb w := by
    by_cases hd : w.inst.rx.state = .data
    · exact settle_withPongs fun hop hz => not_ping_of_pongless hno hd hz hop
    · have hrest : w.inst.rx.Rests := fun hs => absurd hs hd
      rw [settle_of_rests hrest, settle_of_rests hrest]
  have hroom := hcb.withPongs room
  cases hb : (settle cb w).1 with
  | true => rw [drain_of_refused h.state hb, drain_of_refused h.state (by rw [hset]; exact hb), hset]
  | false =>
    obtain ⟨ps, hout⟩ := settle_mail hcb h bs
    have hrest := settle_rests hcb h.receiving hb
    have hlive := settle_live hcb h
    rw [drain_settle hcb h.role h.lawful.toSound h.state hb,
      drain_settle hroom h.role h.lawful.toSound h.state (by rw [hset]; exact hb), hset]
    generalize (settle cb w).2 = w' at hout hrest hlive
    by_cases ho : w'.inst.state = .open
    swap
    · rw [drain_of_not_open ho, drain_of_not_open ho]
    -- what is made known behind it has no pong either
    have hgoes := hout.goes ho []
    rw [List.append_nil] at hgoes
    rw [hgoes, List.filterMap_append, List.append_eq_nil_iff] at hno
    cases bs with
    | nil => rw [drain_nil_of_rests hrest, drain_nil_of_rests hrest]
    | cons b bs =>
      obtain ⟨qs, hbyte⟩ := consume_mail hcb (hlive ho) hrest b bs
      rw [drain_cons_of_rests ho hrest, drain_cons_of_rests ho hrest, consume_withPongs]
      by_cases ho' : (consume cb b w').inst.state = .open
      · have hnext := hbyte.goes ho' []
        rw [List.append_nil, List.append_nil] at hnext
        rw [hnext, List.filterMap_append, List.append_eq_nil_iff] at hno
        exact drain_withPongs room hcb (consume_live hcb (hlive ho) hrest ho') bs hno.2.2
      · rw [drain_of_not_open ho', drain_of_not_open ho']
termination_by bs.length

end Pongless

/-! ## Any application -/

/-- Callbacks that accept every message, do not close the instance in `on_message`, and have a buffer
for every pong the bytes `bs` ask for. -/
structure Callbacks.Complies (cb : Callbacks σ) (w : World σ) (bs : List UInt8) : Prop where
  accepts : cb.Accepting
  steady : cb.Steady
  replies : cb.Replying ∨ (w.output bs).filterMap Part.pong = []

section Complies

variable {cb : Callbacks σ} {w : World σ} {bs : List UInt8}

/-- **What an application makes of the bytes and what one makes of them that makes no calls**: the
course is the same, and what is made known of messages and closing is the output. -/
theorem drain_granting (hcb : cb.Respect CalmAt) (hc : cb.Complies w bs) (h : Live w) :
    Abreast (received .granting bs w) (drain cb bs w).2 ∧
      ((drain cb bs w).2.inst.state = .open →
        (drain cb bs w).1 = [] ∧ (drain cb bs w).2.inst.rx.Rests) ∧
      (w.since (drain cb bs w).2).filter Part.told = (w.output bs).filter Part.told := by
  have hgrant : (Callbacks.granting : Callbacks σ).Obliging := Callbacks.granting_obliging
  have hheard : (Callbacks.granting : Callbacks σ).Heard Part.told := hgrant.supplying.heard
  -- with a buffer for every pong both are agreeable
  have hagreeable {cb : Callbacks σ} (hcb : cb.Respect CalmAt) (ha : cb.Agreeable) :
      Abreast (received .granting bs w) (drain cb bs w).2 ∧
        ((drain cb bs w).2.inst.state = .open →
          (drain cb bs w).1 = [] ∧ (drain cb bs w).2.inst.rx.Rests) ∧
        (w.since (drain cb bs w).2).filter Part.told = (w.output bs).filter Part.told := by
    have htold := hcb.heard_told ha.replies.roomy ha.steady
    have hread := (drain_refuses htold h bs).resolve_left (not_refused ha.accepts ha.replies)
    have hopen (ho : (drain cb bs w).2.inst.state = .open) := hread.resolve_left (not_not.mpr ho)
    obtain ⟨ps, hout⟩ := drain_outputs htold h bs
    refine ⟨drain_abreast hheard hgrant.agreeable htold ha bs h h (.refl w), hopen, ?_⟩
    rw [hout.shows.eq_shown]
    by_cases ho : (drain cb bs w).2.inst.state = .open
    · obtain ⟨hnil, hrest⟩ := hopen ho
      have hgoes := hout.goes ho []
      have hempty : (drain cb bs w).2.output [] = [] := RxFrame.output_nil_of_rests hrest
      rw [hnil, List.append_nil, List.append_nil, hempty, List.append_nil] at hgoes
      rw [hgoes]
    · have hends := hout.ends ha.steady ho []
      rw [List.append_nil] at hends
      rw [hends]
  rcases hc.replies with hr | hno
  · exact hagreeable hcb ⟨hc.accepts, hr, hc.steady⟩
  -- without a pong to be made known, room for pongs changes nothing
  · have hsame := drain_withPongs (fun minSize => (some 0, minSize)) hcb.idlesOfCalm.quietOfIdles h bs
      hno
    rw [← hsame]
    exact hagreeable (hcb.withPongs _)
      ⟨hc.accepts, fun minSize w => ⟨0, minSize, rfl, Nat.le_refl _⟩, hc.steady⟩

/-- The world behind the bytes `bs`: the course is that of an application that makes no calls, and what
is made known of messages and closing is the output. -/
structure Mirrors (bs : List UInt8) (w v : World σ) : Prop where
  abreast : Abreast (received .granting bs w) v
  told : (w.since v).filter Part.told = (w.output bs).filter Part.told

theorem Agrees.mirrors {v : World σ} (hcb : cb.Respect CalmAt) (hc : cb.Complies w bs) (h : Live w)
    (ha : Agrees (drain cb bs w).2 v) : Mirrors bs w v := by
  obtain ⟨habreast, -, htold⟩ := drain_granting hcb hc h
  refine ⟨⟨ha.state.trans habreast.state, fun ho => ?_, fun ho => ?_, fun ho => ?_⟩, ?_⟩
  · rw [ha.1 (habreast.state.trans ho), habreast.rx ho]
  · rw [ha.1 (habreast.state.trans ho), habreast.utf8Rx ho]
  · rw [ha.1 (habreast.state.trans ho), habreast.handlers ho]
  · rw [← htold, World.since, World.since, ha.log]

/-- **Enough calls**, whatever the callbacks do. -/
theorem feed_mirrors (hcb : cb.Respect CalmAt) (hc : cb.Complies w bs) (h : Live w)
    (hrest : w.inst.rx.Rests) {ks : List Nat} (hlen : ∀ k ∈ ks, (bs.take k).length < 2 ^ 32)
    (he : Enough w ks bs) : ∃ v, feed cb ks bs w = some ([], v) ∧ Mirrors bs w v := by
  have hend (ho : (drain cb bs w).2.inst.state = .open) := ((drain_granting hcb hc h).2.1 ho).2
  obtain ⟨v, hrun, hagree⟩ := feed_agrees hcb.idlesOfCalm.quietOfIdles h hrest hlen hend he
  exact ⟨v, hrun, hagree.mirrors hcb hc h⟩

/-- **Blocks in which no call is broken off**, whatever the callbacks do. -/
theorem wicParseAll_mirrors (hcb : cb.Respect CalmAt) {blocks : List (List UInt8)}
    (hc : cb.Complies w blocks.flatten) (h : Live w) (hrest : w.inst.rx.Rests)
    (hlen : ∀ data ∈ blocks, data.length < 2 ^ 32) (hk : w.Keyless blocks.flatten) :
    ∃ v, wicParseAll cb blocks w = some v ∧ Mirrors blocks.flatten w v := by
  have hq := hcb.idlesOfCalm.quietOfIdles
  have hend (ho : (drain cb blocks.flatten w).2.inst.state = .open) :=
    ((drain_granting hcb hc h).2.1 ho).2
  obtain ⟨v, hrun, hagree⟩ :=
    wicParseAll_drain hq hlen h.receiving h.state (.inr hrest) (hk.unbroken hq h) hend
  exact ⟨v, hrun, hagree.mirrors hcb hc h⟩

end Complies

section Mirrors

variable {bs : List UInt8} {w v : World σ}

theorem Callbacks.Agreeable.complies {cb : Callbacks σ} (h : cb.Agreeable) (w : World σ)
    (bs : List UInt8) : cb.Complies w bs := ⟨h.accepts, h.steady, .inl h.replies⟩

theorem Mirrors.mem_iff (h : Mirrors bs w v) {p : Part} (hp : p.told = true) :
    p ∈ w.since v ↔ p ∈ w.output bs := by
  have hiff : p ∈ (w.since v).filter Part.told ↔ p ∈ (w.output bs).filter Part.told := by rw [h.told]
  simpa [List.mem_filter, hp] using hiff

/-- The messages handed on are those of the output. -/
theorem Mirrors.messages (h : Mirrors bs w v) :
    w.messages v = (w.output bs).filter Part.isMessage := by
  have htold (ps : List Part) : (ps.filter Part.told).filter Part.isMessage =
      ps.filter Part.isMessage := by
    rw [List.filter_filter]
    refine List.filter_congr fun p _ => ?_
    cases p <;> rfl
  rw [World.messages, ← htold, h.told, htold]

/-- The output is what is made known to an application that makes no calls. -/
theorem received_output {cb : Callbacks σ} (hcb : cb.Obliging) (h : Live w) (bs : List UInt8) :
    w.since (received cb bs w) = w.output bs := by
  have hheard : cb.Heard fun _ => true := hcb.supplying.heard
  obtain ⟨ps, hout⟩ := drain_outputs hheard h bs
  have hshown := hout.shows.eq_shown
  rw [List.filter_true, List.filter_true] at hshown
  rw [received, hshown]
  by_cases ho : (drain cb bs w).2.inst.state = .open
  · obtain ⟨hnil, hrest, -⟩ := drain_obliging hcb h bs ho
    have hgoes := hout.goes ho []
    have hempty : (drain cb bs w).2.output [] = [] := RxFrame.output_nil_of_rests hrest
    rw [hnil, List.append_nil, List.append_nil, hempty, List.append_nil] at hgoes
    exact hgoes.symm
  · have hends := hout.ends hcb.toPassive.steady ho []
    rw [List.append_nil] at hends
    exact hends.symm

/-- The output of the beginning of some bytes is the beginning of the output. -/
theorem output_prefix (h : Live w) (as cs : List UInt8) : w.output as <+: w.output (as ++ cs) := by
  have hgrant : (Callbacks.granting : Callbacks σ).Obliging := Callbacks.granting_obliging
  have hheard : (Callbacks.granting : Callbacks σ).Heard fun _ => true := hgrant.supplying.heard
  obtain ⟨ps, hout⟩ := drain_outputs hheard h as
  have hshown := hout.shows.eq_shown
  rw [List.filter_true, List.filter_true] at hshown
  have hall := received_output hgrant h as
  rw [received, hshown] at hall
  rw [← hall]
  exact hout.starts cs

end Mirrors

/-! ## What a trace makes known -/

/-- What an entry makes known, if not before its answer. -/
def Event.tells : Event → List Part
  | .message encoding fin data => [.message encoding fin data]
  | e => e.parts

/-- What is made known comes from an entry of the trace, or is the message that waits. -/
theorem mem_of_shown {p : Part} {es : List Event} {waiting : Option Part}
    (h : p ∈ shown waiting es) : waiting = some p ∨ ∃ e ∈ es, p ∈ e.tells := by
  induction es generalizing waiting with
  | nil => cases h
  | cons e es ih =>
    have hrest {waiting' : Option Part} (h : p ∈ shown waiting' es) :
        waiting' = some p ∨ ∃ e' ∈ e :: es, p ∈ e'.tells :=
      (ih h).imp_right fun ⟨e', he', hp⟩ => ⟨e', List.mem_cons_of_mem e he', hp⟩
    cases e with
    | message encoding fin data =>
      rcases @hrest (some (.message encoding fin data)) h with hw | hmem
      · exact .inr ⟨_, List.mem_cons_self, by simpa [Event.tells] using (Option.some.inj hw).symm⟩
      · exact .inr hmem
    | answer accepted =>
      rcases List.mem_append.mp h with h | h
      · left
        cases accepted with
        | false => cases h
        | true => simpa using h
      · exact .inr ((hrest h).resolve_left fun h => by cases h)
    | _ =>
      rcases List.mem_append.mp h with h | h
      · exact .inr ⟨_, List.mem_cons_self, h⟩
      · exact hrest h

/-- A message that is made known is in the trace. -/
theorem message_of_shown {encoding : Encoding} {fin : Bool} {data : List UInt8} {es : List Event}
    (h : .message encoding fin data ∈ shown none es) : .message encoding fin data ∈ es := by
  obtain ⟨e, he, htells⟩ := (mem_of_shown h).resolve_left fun h => by cases h
  cases e with
  | message encoding' fin' data' =>
    obtain ⟨rfl, rfl, rfl⟩ : encoding = encoding' ∧ fin = fin' ∧ data = data' := by
      simpa [Event.tells] using htells
    exact he
  | send buf data t =>
    have hsend : Part.message encoding fin _ ∈ if t = .pong ∨ t = .close ∨ t = .closeResponse then
        [Part.frame t (openFrame data)] else [] := htells
    split_ifs at hsend <;> simp at hsend
  | _ => rcases htells with ⟨⟩ | ⟨_, ⟨⟩⟩

/-- The beginning of closing that is made known is in the trace. -/
theorem closing_of_shown {code : UInt16} {es : List Event} (h : .closing code ∈ shown none es) :
    .closing code ∈ es := by
  obtain ⟨e, he, htells⟩ := (mem_of_shown h).resolve_left fun h => by cases h
  cases e with
  | closing c =>
    obtain rfl : code = c := Part.closing.inj (List.mem_singleton.mp htells)
    exact he
  | send buf data t =>
    have hsend : Part.closing code ∈ if t = .pong ∨ t = .close ∨ t = .closeResponse then
        [Part.frame t (openFrame data)] else [] := htells
    split_ifs at hsend <;> simp at hsend
  | _ => rcases htells with ⟨⟩ | ⟨_, ⟨⟩⟩

/-- The beginning of closing is made known. -/
theorem closing_mem_shown {code : UInt16} {es : List Event} {waiting : Option Part}
    (h : .closing code ∈ es) : .closing code ∈ shown waiting es := by
  induction es generalizing waiting with
  | nil => cases h
  | cons e es ih =>
    rcases List.mem_cons.mp h with rfl | h'
    · exact List.mem_append_left _ (List.mem_singleton_self _)
    · cases e with
      | message => exact ih h'
      | _ => exact List.mem_append_right _ (ih h')

/-- A message at the end of the trace that is accepted is made known. -/
theorem message_mem_shown (encoding : Encoding) (fin : Bool) (data : List UInt8) (es : List Event)
    {waiting : Option Part} :
    .message encoding fin data ∈ shown waiting (es ++ [.message encoding fin data, .answer true]) := by
  induction es generalizing waiting with
  | nil => exact List.mem_singleton_self _
  | cons e es ih =>
    cases e with
    | message => exact ih
    | _ => exact List.mem_append_right _ ih

end Wic
