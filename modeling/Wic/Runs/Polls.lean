import Wic.Runs.Invariant

/-!
# Polls

A call of `wic_parse` without bytes, as a worker makes it to have a refused message offered again.
On an open instance the work that is due is an offer that was refused before, and a poll makes that
offer again; without work that is due a poll changes nothing. While the instance waits for the
response a poll is the end of the input to the parser of the response, which is an error unless the
response has not begun.

## Main definitions

* `Offer`, `offers`: the offers in a trace, and the last one that was refused
* `RxFrame.due`: the offer that is due
* `Harmless`, `MidResponse`

## Main results

* `Reachable.waits`: what is due has been refused before
* `Reachable.poll_harmless`: a poll is harmless unless it comes in the middle of a response
-/

namespace Wic

variable {σ : Type}

/-! ## Offers -/

/-- What may be refused: a message, or the buffer for a pong of some size. -/
inductive Offer
  | message (encoding : Encoding) (fin : Bool) (data : List UInt8)
  | pong (minSize : Nat)
  deriving DecidableEq

/-- The message that waits for its answer, and the offer that was refused and not made again. -/
structure Offers where
  made : Option Offer := none
  refused : Option Offer := none

/-- The offers behind an entry of the trace. -/
def Offers.next (o : Offers) : Event → Offers
  | .message encoding fin data => ⟨some (.message encoding fin data), none⟩
  | .answer accepted => ⟨none, if accepted then none else o.made⟩
  | .buffer n .pong buf max => ⟨o.made, if buf = none ∧ n ≤ max then some (.pong n) else none⟩
  | _ => o

/-- The offers of a trace. -/
def offers (log : List Event) : Offers := log.foldl Offers.next {}

theorem offers_concat (log : List Event) (e : Event) :
    offers (log ++ [e]) = (offers log).next e := List.foldl_append

/-- Entries that say nothing about offers. -/
theorem offers_append {log es : List Event} (h : ∀ e ∈ es, ∀ o : Offers, o.next e = o) :
    offers (log ++ es) = offers log := by
  unfold offers
  rw [List.foldl_append]
  generalize log.foldl Offers.next {} = o
  induction es with
  | nil => rfl
  | cons e es ih =>
    rw [List.foldl_cons, h e (by simp) o]
    exact ih fun e he => h e (by simp [he])

theorem Event.OfCall.next {G : Prop} {e : Event} (h : e.OfCall G) (o : Offers) : o.next e = o := by
  cases e with
  | buffer n type buf max =>
    cases type with
    | pong => exact absurd rfl h.1
    | _ => rfl
  | message | answer => exact h.elim
  | _ => rfl

theorem Event.OfStart.next {e : Event} (h : e.OfStart) (o : Offers) : o.next e = o := by
  cases e with
  | buffer n type buf max =>
    obtain rfl : type = .http := h
    rfl
  | message | answer => exact h.elim
  | _ => rfl

section Offers

variable {G : Prop} {w w' : World σ}

theorem Quiet.offers (h : Quiet G w w') : Wic.offers w'.log = Wic.offers w.log := by
  obtain ⟨es, hes, hall⟩ := h.log
  rw [hes]
  exact offers_append fun e he => (hall e he).next

theorem Starts.offers (h : Starts w w') : Wic.offers w'.log = Wic.offers w.log := by
  obtain ⟨es, hes, hall⟩ := h.log
  rw [hes]
  exact offers_append fun e he => (hall e he).next

variable {cb : Callbacks σ}

/-- A message that is refused. -/
theorem offer_refused (hcb : cb.Respect (QuietAt G)) (hr : w.inst.role = .client)
    {encoding : Encoding} {fin : Bool} (h : (offer cb encoding fin w).1 = false) :
    (offers (offer cb encoding fin w).2.log).refused =
      some (.message encoding fin w.inst.rx.s.payload.bytes) := by
  by_cases hm : w.inst.onMessage = true
  · rw [offer_of_handler hm] at h ⊢
    have hcall : Quiet G (w.emit (.message encoding fin w.inst.rx.s.payload.bytes)) _ :=
      hcb.onMessage encoding fin w.inst.rx.s.payload.bytes _ hr
    have hmade := hcall.offers
    rw [World.emit_log, offers_concat] at hmade
    rw [World.emit_log, offers_concat, hmade, show (cb.onMessage _ _ _ _).1 = false from h]
    rfl
  · simp [offer, hm] at h

/-- A frame whose buffer is refused is not put on the wire. -/
theorem deliver_wouldBlock {f : TxFrame} {done : Inst → Inst} {buf : Option Nat} {max : Nat}
    (h : (deliver cb f done buf max w).1 = .wouldBlock) :
    buf = none ∧ f.wire.length ≤ max ∧ (deliver cb f done buf max w).2 = w := by
  unfold deliver at h ⊢
  by_cases hfit : f.wire.length ≤ max
  · rw [if_pos hfit] at h ⊢
    cases buf with
    | none => exact ⟨rfl, hfit, rfl⟩
    | some buf => cases h
  · rw [if_neg hfit] at h
    cases h

/-- A pong whose buffer is refused. -/
theorem sendPong_refused (hcb : cb.Respect (QuietAt G)) (hr : w.inst.role = .client)
    {data : Payload} (h : (sendPongWithPayload cb data w).1 = .wouldBlock) :
    (offers (sendPongWithPayload cb data w).2.log).refused =
      some (.pong (minFrameSize .pong true data.bytes.length)) := by
  have ha : Quiet G w (allowedToSend w).2 := allowedToSend_quiet
  have hr₁ := ha.role.trans hr
  unfold sendPongWithPayload at h ⊢
  generalize allowedToSend w = a at h hr₁ ⊢
  obtain ⟨allowed, w₁⟩ := a
  cases allowed with
  | false => cases h
  | true =>
    have hdraw := drawMask_edits hcb w₁
    simp only [if_true] at h ⊢
    rw [putAndSend_eq cb _ id w₁ (by rw [hdraw.inst]; exact hr₁)] at h ⊢
    generalize hf : TxFrame.withMask
      { fin := true, opcode := .pong, type := .pong, payload := data } (drawMask cb w₁).1 = f at h ⊢
    have hlen : f.wire.length = minFrameSize .pong true data.bytes.length := by
      rw [← hf]
      exact TxFrame.length_wire _ rfl
    have htype : f.type = .pong := by rw [← hf]; rfl
    obtain ⟨hbuf, hfit, hw⟩ := deliver_wouldBlock h
    dsimp only
    rw [hw, lease, World.emit_log, offers_concat]
    simp only [lease, htype] at hbuf hfit
    simp only [Offers.next, htype]
    rw [if_pos ⟨hbuf, hfit⟩, hlen]

end Offers

/-! ## What is due -/

/-- The offer that is due: a part of a message, or a pong. -/
def RxFrame.due (rx : RxFrame) : Option Offer :=
  let data := rx.s.payload.bytes
  let last := rx.size = 0 && rx.fin
  match rx.dataOpcode with
  | .text => if last && !utf8IsComplete rx.utf8 then none else some (.message .utf8 last data)
  | .binary => some (.message .binary last data)
  | .ping => if rx.size = 0 then some (.pong (minFrameSize .pong true data.length)) else none
  | _ => none

section Due

variable {G : Prop} {cb : Callbacks σ} {w : World σ}

/-- A part of a message is due. -/
theorem due_message {rx : RxFrame} {encoding : Encoding} (h : rx.dataOpcode = encoding.opcode)
    (hc : encoding = .utf8 → rx.size = 0 → rx.fin = true → utf8IsComplete rx.utf8 = true) :
    rx.due = some (.message encoding (rx.size = 0 && rx.fin) rx.s.payload.bytes) := by
  unfold RxFrame.due
  cases encoding with
  | utf8 =>
    have hc := hc rfl
    simp only [h, Encoding.opcode]
    rw [if_neg]
    simp only [Bool.and_eq_true, decide_eq_true_eq, Bool.not_eq_true', not_and]
    exact fun hl => by simp [hc hl.1 hl.2]
  | binary => simp [h, Encoding.opcode]

/-- What is due is a part of a message, or a pong. -/
theorem due_cases {rx : RxFrame} {o : Offer} (h : rx.due = some o) :
    (∃ encoding : Encoding, rx.dataOpcode = encoding.opcode ∧
        (encoding = .utf8 → rx.size = 0 → rx.fin = true → utf8IsComplete rx.utf8 = true) ∧
        o = .message encoding (rx.size = 0 && rx.fin) rx.s.payload.bytes) ∨
      rx.dataOpcode = .ping ∧ rx.size = 0 ∧
        o = .pong (minFrameSize .pong true rx.s.payload.bytes.length) := by
  unfold RxFrame.due at h
  cases hop : rx.dataOpcode with
  | text =>
    simp only [hop] at h
    split_ifs at h with hc
    refine .inl ⟨.utf8, rfl, fun _ hz hf => ?_, (Option.some.inj h).symm⟩
    simpa [hz, hf] using hc
  | binary =>
    simp only [hop, Option.some.injEq] at h
    exact .inl ⟨.binary, rfl, fun h => by simp at h, h.symm⟩
  | ping =>
    simp only [hop] at h
    split_ifs at h with hz
    exact .inr ⟨rfl, hz, (Option.some.inj h).symm⟩
  | _ => simp [hop] at h

theorem offerAll_refused (hcb : cb.Respect (QuietAt G)) (hr : w.inst.role = .client)
    {encoding : Encoding} {done : Inst → Inst} (h : (offerAll cb encoding done w).1 = true) :
    (offers (offerAll cb encoding done w).2.log).refused =
      some (.message encoding w.inst.rx.fin w.inst.rx.s.payload.bytes) := by
  unfold offerAll at h ⊢
  have href (hf : (offer cb encoding w.inst.rx.fin w).1 = false) := offer_refused hcb hr hf
  generalize offer cb encoding w.inst.rx.fin w = r at h href ⊢
  obtain ⟨accepted, w₁⟩ := r
  cases accepted with
  | true => cases h
  | false => exact href rfl

theorem finish_refused (hcb : cb.Respect (QuietAt G)) (hr : w.inst.role = .client)
    (hz : w.inst.rx.size = 0) (h : (finish cb w).1 = true) :
    ∃ o, w.inst.rx.due = some o ∧ (offers (finish cb w).2.log).refused = some o := by
  have hmessage (encoding : Encoding) (hop : w.inst.rx.dataOpcode = encoding.opcode)
      (hc : encoding = .utf8 → w.inst.rx.fin = true → utf8IsComplete w.inst.rx.utf8 = true) :
      ∃ o, w.inst.rx.due = some o ∧ (offers (finish cb w).2.log).refused = some o := by
    rw [finish_message hcb hr hop hc] at h ⊢
    refine ⟨_, due_message hop fun he _ => hc he, ?_⟩
    rw [offerAll_refused hcb hr h]
    simp [hz]
  cases hop : w.inst.rx.dataOpcode with
  | text =>
    by_cases hc : w.inst.rx.fin = true ∧ utf8IsComplete w.inst.rx.utf8 = false
    · rw [finish_incomplete hop hc.1 hc.2] at h
      cases h
    · exact hmessage .utf8 hop fun _ hf => by simpa [hf] using hc
  | binary => exact hmessage .binary hop fun he => by cases he
  | ping =>
    have hpong (hp : (sendPongWithPayload cb w.inst.rx.s.payload w).1 = .wouldBlock) :=
      sendPong_refused hcb hr hp
    rw [finish_ping hop] at h ⊢
    dsimp only at h ⊢
    split_ifs at h ⊢ with hb
    exact ⟨_, by simp [RxFrame.due, hop, hz], hpong hb⟩
  | _ => simp [finish, hop] at h

theorem passOn_refused (hcb : cb.Respect (QuietAt G)) (hr : w.inst.role = .client)
    (hz : w.inst.rx.size ≠ 0) (h : (passOn cb w).1 = false) :
    ∃ o, w.inst.rx.due = some o ∧ (offers (passOn cb w).2.log).refused = some o := by
  have hmessage (encoding : Encoding) (hop : w.inst.rx.dataOpcode = encoding.opcode) :
      ∃ o, w.inst.rx.due = some o ∧ (offers (passOn cb w).2.log).refused = some o := by
    rw [passOn_message hop] at h ⊢
    refine ⟨_, due_message hop fun _ h => absurd h hz, ?_⟩
    rw [offer_refused hcb hr h]
    simp [hz]
  cases hop : w.inst.rx.dataOpcode with
  | text => exact hmessage .utf8 hop
  | binary => exact hmessage .binary hop
  | _ => simp [passOn, hop] at h

/-- **What settling is refused is the offer that was due.** -/
theorem settle_refused (hcb : cb.Respect (QuietAt G)) (hr : w.inst.role = .client)
    (h : (settle cb w).1 = true) :
    ∃ o, w.inst.rx.due = some o ∧ (offers (settle cb w).2.log).refused = some o := by
  have hdue : ¬w.inst.rx.Rests := fun hrest => by simp [settle_of_rests hrest] at h
  have hd : w.inst.rx.state = .data := by
    by_contra hne
    exact hdue fun h => absurd h hne
  unfold settle at h ⊢
  rw [hd] at h ⊢
  dsimp only at h ⊢
  by_cases hz : w.inst.rx.size = 0
  · have href (hf : (finish cb w).1 = true) := finish_refused hcb hr hz hf
    rw [if_pos hz] at h ⊢
    generalize finish cb w = r at h href ⊢
    obtain ⟨refused, w₁⟩ := r
    obtain rfl : refused = true := h
    exact href rfl
  · have he : w.inst.rx.s.eof = true := by
      by_contra hne
      exact hdue fun _ => ⟨hz, by simpa using hne⟩
    have href (hf : (passOn cb w).1 = false) := passOn_refused hcb hr hz hf
    rw [if_neg hz, if_pos he, flush_eq] at h ⊢
    generalize passOn cb w = r at h href ⊢
    obtain ⟨accepted, w₁⟩ := r
    obtain rfl : accepted = false := by simpa using h
    exact href rfl

/-! ## Refusals wait -/

/-- The work that is due on an open instance is an offer that was refused. -/
def Waits (w : World σ) : Prop :=
  w.inst.state = .open → ¬w.inst.rx.Rests →
    ∃ o, w.inst.rx.due = some o ∧ (offers w.log).refused = some o

/-- Receiving stops at a refusal when it stops with work to do. -/
theorem drain_waits (hcb : cb.Respect (QuietAt G)) {w : World σ} (h : Live w) (bs : List UInt8) :
    Waits (drain cb bs w).2 := by
  have hrefused : (settle cb w).1 = true → Waits (settle cb w).2 := by
    intro hb _ _
    rcases settle_cases hcb h.role with ⟨-, hk⟩ | ⟨hb', -⟩
    · rw [hk.rx]
      exact settle_refused hcb h.role hb
    · simp [hb] at hb'
  rcases drain_cases hcb h.receiving h.state with ⟨hr, hd⟩ | ⟨hc, hd⟩ | ⟨ho, hrest, hd⟩
  · rw [hd]
    refine hrefused (by_contra fun hb => hr (settle_rests hcb h.receiving ?_))
    simpa using hb
  · rw [hd]
    exact fun ho => absurd ho hc
  rw [hd]
  have hlive := settle_live hcb h ho
  generalize (settle cb w).2 = w' at ho hrest hlive
  cases bs with
  | nil =>
    rw [drain_nil_of_rests hrest]
    exact fun _ hno => absurd hrest hno
  | cons b bs =>
    rw [drain_cons_of_rests ho hrest]
    by_cases ho' : (consume cb b w').inst.state = .open
    · exact drain_waits hcb (consume_live hcb hlive hrest ho') bs
    · rw [drain_of_not_open ho']
      exact fun h => absurd h ho'
termination_by bs.length

theorem wicParse_waits (hcb : cb.Respect (QuietAt G)) (h : Invariant w) {data : List UInt8}
    {n : Nat} {w' : World σ} (hrun : wicParse cb data w = some (n, w')) : Waits w' := by
  obtain ⟨s, w₁, hs, herr, hinv, -, -, hsplit⟩ := wicParse_split hcb h data
  by_cases ho : w₁.inst.state = .open
  · have hlive := hinv.live ho
    obtain ⟨w₂, s₂, hparse, as, cs, hends⟩ :=
      parseWebsocket_drain hcb ⟨hs, herr, hlive.lawful.toSound, hlive.role⟩ ho
    rw [hsplit, hparse] at hrun
    obtain ⟨-, rfl⟩ := Prod.mk.inj (Option.some.inj hrun)
    by_cases ho' : (drain cb as w₁).2.inst.state = .open
    · rw [(hends.of_open ho').1]
      exact drain_waits hcb hlive _
    · obtain ⟨f, hf⟩ := hends.of_closed ho'
      rw [hf]
      exact fun h => absurd h ho'
  · rw [hsplit, parseWebsocket, if_neg ho] at hrun
    obtain ⟨-, rfl⟩ := Prod.mk.inj (Option.some.inj hrun)
    exact fun h => absurd h ho

end Due

/-- **Work that is due in a world a run reaches is an offer that was refused.** -/
theorem Reachable.waits {allowed : Caller → Call → Prop} {w : World σ} (h : Reachable allowed w) :
    Waits w := by
  induction h with
  | init hinit =>
    obtain ⟨-, hs, -⟩ := wicInit_eq hinit
    exact fun ho => by simp [hs] at ho
  | edit _ he ih =>
    rw [Waits, he.inst, he.log]
    exact ih
  | @call cb c w h hcb _ ih =>
    have hq := Call.run_quiet hcb.quiet h.invariant.role c False.elim
    intro ho
    have hs := hq.state
    rw [ho] at hs
    rw [hq.rx, hq.offers]
    rcases hs with hs | hs | ⟨hs, -⟩
    · exact ih hs.symm
    · cases hs
    · exact absurd hs h.invariant.ready
  | start h hcb hrun ih =>
    have hst := startClient_starts hcb.quiet hrun
    intro ho
    rw [show _ = _ from congrArg Inst.rx hst.inst, hst.offers]
    rcases hst.state with hs | ⟨-, hs⟩
    · exact ih (hs ▸ ho)
    · simp [hs] at ho
  | parse h hcb hrun _ => exact wicParse_waits hcb.quiet h.invariant hrun

/-! ## Polls -/

section Poll

variable {G : Prop} {cb : Callbacks σ} {w : World σ}

/-- A turn without work that is due and without bytes changes nothing. -/
theorem parseStep_nil {s : Stream} (hok : s.Ok) (he : s.error = false) (hnil : s.rest = [])
    (hrest : w.inst.rx.Rests) : parseStep cb s w = (true, w, { s with error := true }) := by
  by_cases hd : w.inst.rx.state = .data
  · obtain ⟨hz, heof⟩ := hrest hd
    have hpos : 0 < w.inst.rx.size := Nat.pos_of_ne_zero hz
    simp [parseStep, hd, parseData, hpos, heof, Stream.getU8_nil hok he hnil, hz]
  · rw [parseStep_header hd, Stream.getU8_nil hok he hnil]

/-- **A poll of an open instance does the work that is due and nothing else.** -/
theorem wicParse_nil_of_live (hcb : cb.Respect (QuietAt G)) (h : Live w) :
    wicParse cb [] w = some (0, (settle cb w).2) := by
  -- when no work is due, a turn without bytes ends the loop
  have hnil (w' : World σ) (hrest : w'.inst.rx.Rests) (fuel : Nat) :
      ∃ s, s.pos = 0 ∧ parseLoop cb (fuel + 1) (streamInitRo [] 0) w' = some (w', s) := by
    have hstep : parseStep cb (streamInitRo [] 0) w' = _ :=
      parseStep_nil (streamInitRo_ok []) rfl rfl hrest
    exact ⟨_, rfl, by rw [parseLoop, hstep]; rfl⟩
  have hloop : ∃ s, s.pos = 0 ∧
      parseLoop cb 4 (streamInitRo [] 0) w = some ((settle cb w).2, s) := by
    by_cases hrest : w.inst.rx.Rests
    · rw [settle_of_rests hrest]
      exact hnil w hrest 3
    have hd : w.inst.rx.state = .data := by
      by_contra hne
      exact hrest fun h => absurd h hne
    have hready : Ready (streamInitRo [] 0) w := ⟨streamInitRo_ok [], rfl, h.lawful.toSound, h.role⟩
    -- the first turn does the work that is due
    have hstep : parseStep cb (streamInitRo [] 0) w =
        ((settle cb w).1, (settle cb w).2, streamInitRo [] 0) := by
      rw [← parseData_of_due hcb hready h.state hd hrest]
      simp [parseStep, hd]
    have hset := settle_rests hcb h.receiving
    rw [parseLoop, hstep]
    generalize settle cb w = r at hset ⊢
    obtain ⟨refused, w'⟩ := r
    by_cases hgo : (!refused && w'.inst.state = .open) = true
    · dsimp only
      rw [if_pos hgo]
      exact hnil w' (hset (by simpa using (Bool.and_eq_true_iff.mp hgo).1)) 2
    · exact ⟨_, rfl, if_neg hgo⟩
  obtain ⟨s, hs, hloop⟩ := hloop
  have hweb : parseWebsocket cb (streamInitRo [] 0) w = some ((settle cb w).2, s) := by
    rw [parseWebsocket, if_pos h.state]
    exact hloop
  simp [wicParse, parseHandshake, h.state, hweb, hs]

/-- A poll that makes the offer `o`: when it is accepted the receiver goes on. -/
inductive Reoffers (cb : Callbacks σ) (w : World σ) : Offer → World σ → Prop
  | message (encoding : Encoding) (fin : Bool) (done : Inst → Inst)
      (hd : ∀ i, done i = { i with rx := (done i).rx, utf8Rx := (done i).utf8Rx }) :
      Reoffers cb w (.message encoding fin w.inst.rx.s.payload.bytes)
        (if (offer cb encoding fin w).1 then (offer cb encoding fin w).2.update done
          else (offer cb encoding fin w).2)
  | pong :
      Reoffers cb w (.pong (minFrameSize .pong true w.inst.rx.s.payload.bytes.length))
        (if (sendPongWithPayload cb w.inst.rx.s.payload w).1 = .wouldBlock then
          (sendPongWithPayload cb w.inst.rx.s.payload w).2
        else
          (callOnPing cb (sendPongWithPayload cb w.inst.rx.s.payload w).2).updateRx fun rx =>
            { rx with state := .opcode })

theorem finish_reoffers (hcb : cb.Respect (QuietAt G)) (hr : w.inst.role = .client) {o : Offer}
    (hz : w.inst.rx.size = 0) (ho : w.inst.rx.due = some o) :
    Reoffers cb w o (if (finish cb w).1 then (finish cb w).2
      else (finish cb w).2.updateRx fun rx => { rx with state := .opcode }) := by
  obtain ⟨encoding, hop, hc, rfl⟩ | ⟨hop, -, rfl⟩ := due_cases ho
  · have hmsg := @Reoffers.message σ cb w encoding w.inst.rx.fin
      (fun i => { endMessage encoding w.inst.rx.fin i with rx.state := .opcode })
      (fun i => by rw [endMessage_eq encoding w.inst.rx.fin i])
    rw [finish_message hcb hr hop fun he => hc he hz, offerAll]
    simp only [hz, decide_true, Bool.true_and]
    generalize offer cb encoding w.inst.rx.fin w = r at hmsg ⊢
    obtain ⟨accepted, w'⟩ := r
    cases accepted <;> exact hmsg
  · have hpong := @Reoffers.pong σ cb w
    rw [finish_ping hop]
    dsimp only
    by_cases hb : (sendPongWithPayload cb w.inst.rx.s.payload w).1 = .wouldBlock
    · simpa only [hb, if_true] using hpong
    · simpa only [hb, if_false, Bool.false_eq_true] using hpong

theorem flush_reoffers {o : Offer} (hz : w.inst.rx.size ≠ 0) (ho : w.inst.rx.due = some o) :
    Reoffers cb w o (flush cb w).2 := by
  obtain ⟨encoding, hop, -, rfl⟩ | ⟨-, hz', -⟩ := due_cases ho
  · simp only [hz, decide_false, Bool.false_and]
    rw [flush_eq, passOn_message hop]
    exact .message encoding false (fun i => { i with rx.s := i.rx.s.rewind }) fun i => rfl
  · exact absurd hz' hz

/-- **The work that is due is an offer.** -/
theorem settle_reoffers (hcb : cb.Respect (QuietAt G)) (hr : w.inst.role = .client) {o : Offer}
    (hdue : ¬w.inst.rx.Rests) (ho : w.inst.rx.due = some o) :
    Reoffers cb w o (settle cb w).2 := by
  have hd : w.inst.rx.state = .data := by
    by_contra hne
    exact hdue fun h => absurd h hne
  unfold settle
  rw [hd]
  by_cases hz : w.inst.rx.size = 0
  · simp only [hz, if_true]
    exact finish_reoffers hcb hr hz ho
  · have he : w.inst.rx.s.eof = true := by
      by_contra hne
      exact hdue fun _ => ⟨hz, by simpa using hne⟩
    simp only [hz, he, if_true, if_false]
    exact flush_reoffers hz ho

/-- The poll makes an offer again that was refused, or it leaves the state, the parser of the
response and the header store as they were and calls nothing. -/
def Harmless (cb : Callbacks σ) (w w' : World σ) : Prop :=
  (w.inst.state = .open ∧ ∃ o, (offers w.log).refused = some o ∧ Reoffers cb w o w') ∨
    (w'.inst.state = w.inst.state ∧ w'.inst.http = w.inst.http ∧ w'.inst.rx.s = w.inst.rx.s ∧
      w'.inst.headerState = w.inst.headerState ∧ w'.log = w.log)

theorem Harmless.refl (cb : Callbacks σ) (w : World σ) : Harmless cb w w :=
  .inr ⟨rfl, rfl, rfl, rfl, rfl⟩

/-- The instance waits for the rest of a response: the end of the input would be an error, or the
end of the response. -/
def MidResponse (w : World σ) : Prop :=
  w.inst.state = .parseHandshake ∧ w.inst.http.atEof ≠ .nothing

/-- A poll of an open instance is harmless. -/
theorem settle_harmless (hcb : cb.Respect (QuietAt G)) (h : Live w) (hw : Waits w) :
    Harmless cb w (settle cb w).2 := by
  by_cases hrest : w.inst.rx.Rests
  · rw [settle_of_rests hrest]
    exact .refl cb w
  · obtain ⟨o, hdue, hrefused⟩ := hw h.state hrest
    exact .inl ⟨h.state, o, hrefused, settle_reoffers hcb h.role hrest hdue⟩

/-- A poll before the response has begun, or of an instance that is neither open nor waiting. -/
theorem wicParse_nil_of_not_open (hcb : cb.Respect (QuietAt G)) (h : Invariant w)
    (ho : w.inst.state ≠ .open) (hmid : ¬MidResponse w) : wicParse cb [] w = some (0, w) := by
  obtain ⟨s, w₁, -, -, -, hkept, hhandled, hrun⟩ := wicParse_split hcb h []
  have hsame : w₁ = w := by
    by_cases hs : w.inst.state = .parseHandshake
    · have hn : w.inst.http.atEof = .nothing := by_contra fun hne => hmid ⟨hs, hne⟩
      have he := (h.waiting (.inr hs)).2
      rw [hhandled hs]
      simp [httpParserExecute, he, hn, afterHttp, h.ready]
    · exact hkept hs
  rw [hrun, hsame, parseWebsocket, if_neg ho]
  simp [ho]

/-- What `wic_parse` leaves behind the handshake is open or closed, and stays so. -/
theorem parseWebsocket_leads (hcb : cb.Respect (QuietAt G)) (h : Invariant w) {s : Stream}
    (hs : s.Ok) (he : s.error = false) :
    ∃ w' s', parseWebsocket cb s w = some (w', s') ∧ w.inst.state.Leads w'.inst.state := by
  by_cases ho : w.inst.state = .open
  · obtain ⟨w', s', hrun, hk, -⟩ := parseWebsocket_induction (KeepsSetup w) hcb
      (fun w' hl hk => hk.trans (settle_receiving hcb hl.receiving).2)
      (fun w' b hl _ hk => hk.trans (consume_setup hcb hl.role b))
      (fun w' f _ hk => hk.trans (.updateRx f)) (h.live ho) (.refl w) hs he
    exact ⟨w', s', hrun, hk.state⟩
  · exact ⟨w, s, by rw [parseWebsocket, if_neg ho], .refl _⟩

theorem onResponseComplete_ready : (onResponseComplete w).2.inst.state = .ready := by
  unfold onResponseComplete
  dsimp only
  generalize (if w.inst.headerState = .value then
    w.updateRx fun rx => { rx with s := rx.s.putU8 0 } else w) = w₁
  split_ifs <;> rfl

theorem respondOr_complete_ready : (respondOr .messageComplete w).inst.state = .ready := by
  have h : (onResponseComplete w).2.inst.state = .ready := onResponseComplete_ready
  unfold respondOr respond
  generalize onResponseComplete w = r at h ⊢
  obtain ⟨ok, w'⟩ := r
  cases ok <;> exact h

/-- A poll in the middle of a response ends the wait for it. -/
theorem wicParse_nil_of_midResponse (hcb : cb.Respect (QuietAt G)) (h : Invariant w)
    (hmid : MidResponse w) :
    ∃ n w', wicParse cb [] w = some (n, w') ∧ w'.inst.state ≠ .parseHandshake := by
  obtain ⟨s, w₁, hs, herr, hinv, -, hhandled, hrun⟩ := wicParse_split hcb h []
  have hleft : w₁.inst.state = .open ∨ w₁.inst.state = .closed := by
    have he := (h.waiting (.inr hmid.1)).2
    rw [hhandled hmid.1]
    have hended : (httpParserExecute [] w).2.inst.http.httpErrno ≠ .ok ∨
        (httpParserExecute [] w).2.inst.state = .ready := by
      simp only [httpParserExecute, he, ne_eq, not_true_eq_false, if_false, List.length_nil, if_true]
      cases hat : w.inst.http.atEof with
      | nothing => exact absurd hat hmid.2
      | invalid => exact .inl (by simp [setErrno, updateHttp])
      | complete => exact .inr respondOr_complete_ready
    unfold afterHttp
    by_cases hok : (httpParserExecute [] w).2.inst.http.httpErrno = .ok
    · rw [if_neg (not_not.mpr hok), if_pos (hended.resolve_left (not_not.mpr hok))]
      exact .inl rfl
    · rw [if_pos hok]
      exact .inr rfl
  obtain ⟨w', s', hparse, hlead⟩ := parseWebsocket_leads hcb hinv hs herr
  refine ⟨_, w', by rw [hrun, hparse]; rfl, fun hp => ?_⟩
  rcases hleft with h₁ | h₁ <;> rw [h₁, hp] at hlead
  · simpa using hlead.open_or
  · simpa using hlead.closed

end Poll

/-! ## Handshakes with polls -/

section Await

variable {G : Prop}

/-- `wic_parse` on one block of bytes after another until the handshake is over. -/
def awaitResponse (cb : Callbacks σ) : List (List UInt8) → World σ → Option (World σ)
  | [], w => some w
  | data :: blocks, w =>
    if w.inst.state = .parseHandshake then
      (wicParse cb data w).bind fun r => awaitResponse cb blocks r.2
    else some w

/-- No poll among the blocks comes in the middle of the response. -/
def PollsApart (cb : Callbacks σ) : List (List UInt8) → World σ → Prop
  | [], _ => True
  | data :: blocks, w =>
    (data = [] → ¬MidResponse w) ∧ ∀ n w', wicParse cb data w = some (n, w') → PollsApart cb blocks w'

variable {cb : Callbacks σ}

theorem awaitResponse_of_over {w : World σ} (hs : w.inst.state ≠ .parseHandshake)
    (blocks : List (List UInt8)) : awaitResponse cb blocks w = some w := by
  cases blocks with
  | nil => rfl
  | cons data blocks => rw [awaitResponse, if_neg hs]

/-- **Polls that come apart from the response do not change the outcome of the handshake.** -/
theorem awaitResponse_filter (hcb : cb.Respect (QuietAt G)) {blocks : List (List UInt8)}
    {w : World σ} (h : Invariant w) (hpolls : PollsApart cb blocks w) :
    awaitResponse cb blocks w = awaitResponse cb (blocks.filter fun data => !data.isEmpty) w := by
  induction blocks generalizing w with
  | nil => rfl
  | cons data blocks ih =>
    by_cases hs : w.inst.state = .parseHandshake
    swap
    · rw [awaitResponse_of_over hs, awaitResponse_of_over hs]
    cases data with
    | nil =>
      have hpoll := wicParse_nil_of_not_open hcb h (by simp [hs]) (hpolls.1 rfl)
      rw [awaitResponse, if_pos hs, hpoll]
      exact ih h (hpolls.2 0 w hpoll)
    | cons b bs =>
      obtain ⟨n, w', hrun, hinv, -⟩ := wicParse_induction (fun _ => True) hcb h (b :: bs)
        (fun _ _ => trivial) (fun _ _ _ => trivial) (fun _ _ _ _ _ => trivial)
        (fun _ _ _ _ => trivial) trivial
      rw [List.filter_cons_of_pos (by rfl), awaitResponse, awaitResponse, if_pos hs, if_pos hs, hrun]
      exact ih hinv (hpolls.2 n w' hrun)

end Await

/-- **A poll is harmless unless it comes in the middle of a response**, and the outcome of a
handshake with such polls is the one without them. -/
theorem Reachable.poll_harmless {allowed : Caller → Call → Prop} {cb : Callbacks σ}
    {w : World σ} (h : Reachable allowed w) (hcb : Reentrant allowed cb) :
    (∃ n w', wicParse cb [] w = some (n, w') ∧ (Harmless cb w w' ↔ ¬MidResponse w)) ∧
      ∀ blocks, PollsApart cb blocks w →
        awaitResponse cb blocks w =
          awaitResponse cb (blocks.filter fun data => !data.isEmpty) w := by
  have hinv := h.invariant
  refine ⟨?_, fun blocks hpolls => awaitResponse_filter hcb.quiet hinv hpolls⟩
  by_cases hmid : MidResponse w
  · obtain ⟨n, w', hrun, hleft⟩ := wicParse_nil_of_midResponse hcb.quiet hinv hmid
    refine ⟨n, w', hrun, iff_of_false ?_ (not_not.mpr hmid)⟩
    rintro (⟨ho, -⟩ | ⟨hs, -⟩)
    · simp [hmid.1] at ho
    · exact hleft (hs.trans hmid.1)
  by_cases ho : w.inst.state = .open
  · have hlive := hinv.live ho
    exact ⟨0, _, wicParse_nil_of_live hcb.quiet hlive,
      iff_of_true (settle_harmless hcb.quiet hlive h.waits) hmid⟩
  · exact ⟨0, w, wicParse_nil_of_not_open hcb.quiet hinv ho hmid, iff_of_true (.refl cb w) hmid⟩

namespace Sample

/-- A poll of the instance that has just opened. -/
theorem poll_harmless_opened : ∃ w : World Unit, ∃ n w',
    wicParse (host id) [] w = some (n, w') ∧ Harmless (host id) w w' ∧ w.inst.state = .open := by
  obtain ⟨w, hw, ho, -⟩ := opens
  obtain ⟨⟨n, w', hrun, hiff⟩, -⟩ :=
    (hw fun _ _ => True).poll_harmless (.passive host_passive)
  exact ⟨w, n, w', hrun, hiff.mpr fun hmid => by simp [MidResponse, ho] at hmid, ho⟩

/-- A poll behind the first byte of the response closes the instance and reports a failure; without
it the rest of the response opens the instance. -/
theorem poll_harms_response : ∃ w : World Unit, (∀ allowed, Reachable allowed w) ∧
    (∃ n w', wicParse (host id) [] w = some (n, w') ∧ ¬Harmless (host id) w w' ∧
      w'.inst.state = .closed ∧ .onHandshakeFailure .protocol ∈ w'.log) ∧
    ∃ n w', wicParse (host id) (response.drop 1) w = some (n, w') ∧ w'.inst.state = .open := by
  have hrun : (session (host id) arg () [response.take 1]).map (fun w =>
      (w.inst.state, (wicParse (host id) [] w).map fun r =>
          (r.2.inst.state, decide (.onHandshakeFailure .protocol ∈ r.2.log)),
        (wicParse (host id) (response.drop 1) w).map fun r => r.2.inst.state)) =
      some (.parseHandshake, some (.closed, true), some .open) := by
    decide +kernel
  obtain ⟨w, hw, heq⟩ := Option.map_eq_some_iff.mp hrun
  simp only [Prod.mk.injEq] at heq
  obtain ⟨hs, hpoll, hrest⟩ := heq
  obtain ⟨⟨n, w'⟩, hpoll, hw'⟩ := Option.map_eq_some_iff.mp hpoll
  obtain ⟨⟨m, w''⟩, hrest, hw''⟩ := Option.map_eq_some_iff.mp hrest
  simp only [Prod.mk.injEq, decide_eq_true_eq] at hw'
  refine ⟨w, fun _ => session_reachable (.passive host_passive) hw,
    ⟨n, w', hpoll, ?_, hw'⟩, m, w'', hrest, hw''⟩
  rintro (⟨ho, -⟩ | ⟨hs', -⟩)
  · simp [hs] at ho
  · simp [hs, hw'.1] at hs'

end Sample

end Wic
