import Mathlib.Algebra.BigOperators.Group.List.Basic
import Wic.Receiver.Output

/-!
# Feeding bytes again

A caller hands `wic_parse` the bytes it has, and hands those that were not read in again with the
next call. When a callback has refused, nothing is lost: the call reports what it read, and what it
made known so far is the beginning of the output.

## Main definitions

* `feed`: the caller
* `Refused`: a callback refused a message or a buffer for a pong

## Main results

* `feed_fed`: what the calls make known and what is still to be made known make up the output
* `feed_drain`: calls that nobody refuses are one run over the bytes
-/

namespace Wic

variable {σ : Type}

/-- The caller: each call is handed up to `k` of the bytes that are left, and those it does not
report as read are left for the next one. Emits the bytes that are left. -/
def feed (cb : Callbacks σ) : List Nat → List UInt8 → World σ → Option (List UInt8 × World σ)
  | [], bs, w => some (bs, w)
  | k :: ks, bs, w => do
    let (n, w) ← wicParse cb (bs.take k) w
    feed cb ks (bs.drop n) w

/-- Every message is accepted. -/
def Callbacks.Accepting (cb : Callbacks σ) : Prop :=
  ∀ encoding fin data w, (cb.onMessage encoding fin data w).1 = true

/-- A callback has refused a message or the buffer for a pong, which callbacks that accept every
message or have a buffer for every pong do not. -/
def Event.Refuses (cb : Callbacks σ) (e : Event) : Prop :=
  ¬cb.Accepting ∧ e = .answer false ∨ ¬cb.Replying ∧ ∃ n max, e = .buffer n .pong none max

/-- A refusal has been added to the trace. -/
def Refused (cb : Callbacks σ) (w w' : World σ) : Prop :=
  ∃ es, w'.log = w.log ++ es ∧ ∃ e ∈ es, e.Refuses cb

section Refused

variable {cb : Callbacks σ} {w w' w'' : World σ}

theorem Refused.left (h : Refused cb w w') (h' : w'.log <+: w''.log) : Refused cb w w'' := by
  obtain ⟨es, hes, e, he, hr⟩ := h
  obtain ⟨fs, hfs⟩ := h'
  exact ⟨es ++ fs, by rw [← hfs, hes, List.append_assoc], e, by simp [he], hr⟩

theorem Refused.right (h : w.log <+: w'.log) (h' : Refused cb w' w'') : Refused cb w w'' := by
  obtain ⟨es, hes⟩ := h
  obtain ⟨fs, hfs, e, he, hr⟩ := h'
  exact ⟨es ++ fs, by rw [hfs, ← hes, List.append_assoc], e, by simp [he], hr⟩

theorem Shows.log_prefix {keep : Part → Bool} {ps : List Part} (h : Shows keep ps w w') :
    w.log <+: w'.log := by
  obtain ⟨es, hes, -⟩ := h
  exact ⟨es, hes.symm⟩

/-- A message that is not accepted is refused. -/
theorem offer_refuses {G : Prop} (hcb : cb.Respect (QuietAt G)) (hr : w.inst.role = .client)
    {encoding : Encoding} {fin : Bool} (h : (offer cb encoding fin w).1 = false) :
    Refused cb w (offer cb encoding fin w).2 := by
  by_cases hm : w.inst.onMessage = true
  · rw [offer_of_handler hm] at h ⊢
    have hcall : Quiet G (w.emit (.message encoding fin w.inst.rx.s.payload.bytes)) _ :=
      hcb.onMessage encoding fin w.inst.rx.s.payload.bytes _ hr
    obtain ⟨es, hes, -⟩ := hcall.log
    dsimp only at h ⊢
    have hnot : ¬cb.Accepting := fun hall => by
      rw [hall _ _ _ _] at h
      cases h
    refine ⟨.message encoding fin w.inst.rx.s.payload.bytes :: (es ++ [.answer false]), ?_,
      .answer false, by simp, .inl ⟨hnot, rfl⟩⟩
    rw [h, World.emit_log, hes, World.emit_log]
    simp
  · simp [offer, hm] at h

/-- Callbacks that accept every message and have a buffer for every pong refuse nothing. -/
theorem not_refused (ha : cb.Accepting) (hp : cb.Replying) : ¬Refused cb w w' := by
  rintro ⟨es, -, e, -, ⟨hnot, -⟩ | ⟨hnot, -⟩⟩
  · exact hnot ha
  · exact hnot hp

theorem Callbacks.Obliging.not_refused (hcb : cb.Obliging) : ¬Refused cb w w' :=
  Wic.not_refused hcb.accepts hcb.supplying.replying

/-- Callbacks that supply every buffer refuse nothing but messages. -/
theorem Callbacks.Supplying.refused (hcb : cb.Supplying) (h : Refused cb w w') :
    .answer false ∈ w'.log.drop w.log.length := by
  obtain ⟨es, hes, e, he, ⟨-, rfl⟩ | ⟨hnot, -⟩⟩ := h
  · rw [hes, List.drop_left]
    exact he
  · exact absurd hcb.replying hnot

/-- A pong for which there is no buffer is refused. -/
theorem sendPong_refuses {keep : Part → Bool} (hcb : cb.Heard keep) (hr : w.inst.role = .client)
    (ho : w.inst.state = .open) (data : Payload)
    (h : (sendPongWithPayload cb data w).1 = .wouldBlock) :
    Refused cb w (sendPongWithPayload cb data w).2 := by
  have hallowed : allowedToSend w = (true, w) := by simp [allowedToSend, ho]
  have hdraw := drawMask_edits hcb.quiet w
  unfold sendPongWithPayload at h ⊢
  rw [hallowed] at h ⊢
  dsimp only at h ⊢
  rw [if_pos rfl, putAndSend_eq cb _ id w (by rw [hdraw.inst]; exact hr)] at h ⊢
  generalize drawMask cb w = d at hdraw h ⊢
  obtain ⟨m, w₁⟩ := d
  have htype : ((pongFrame data).withMask m).type = .pong := rfl
  rw [show ({ fin := true, opcode := .pong, type := .pong, payload := data } : TxFrame) =
    pongFrame data from rfl] at h ⊢
  dsimp only at hdraw h ⊢
  generalize (pongFrame data).withMask m = g at htype h ⊢
  rw [htype] at h ⊢
  -- the application has been asked for a buffer, and what it gave has room
  unfold lease at h ⊢
  have hfit := hcb.roomy g.wire.length w₁
  have hlease := hcb.quiet.onBuffer g.wire.length .pong w₁
  have hreply (hall : cb.Replying) := hall g.wire.length w₁
  generalize cb.onBuffer g.wire.length .pong w₁ = l at hfit hlease hreply h ⊢
  obtain ⟨⟨buf, max⟩, w₂⟩ := l
  dsimp only at hfit hlease hreply h ⊢
  unfold deliver at h ⊢
  rw [if_pos hfit] at h ⊢
  cases buf with
  | some buf => cases h
  -- so that it gave none, which is the refusal
  | none =>
    have hnot : ¬cb.Replying := fun hall => by
      obtain ⟨_, _, hbuf, -⟩ := hreply hall
      cases hbuf
    refine ⟨[.buffer g.wire.length .pong none max], ?_, _, List.mem_singleton_self _,
      .inr ⟨hnot, _, _, rfl⟩⟩
    rw [World.emit_log, hlease.log, hdraw.log]

/-- **Work that is not done has been refused.** -/
theorem settle_refuses {keep : Part → Bool} (hcb : cb.Heard keep) (h : Live w)
    (hb : (settle cb w).1 = true) : Refused cb w (settle cb w).2 := by
  -- work is due only behind a payload or behind a full buffer
  have hd : w.inst.rx.state = .data := by
    by_contra hne
    rw [settle_of_rests fun h => absurd h hne] at hb
    cases hb
  -- a message that is not accepted has been refused by `on_message`
  have hoffer (encoding : Encoding) (done : Inst → Inst)
      (hb : (offerAll cb encoding done w).1 = true) :
      Refused cb w (offerAll cb encoding done w).2 := by
    unfold offerAll at hb ⊢
    have hr : (offer cb encoding w.inst.rx.fin w).1 = false →
        Refused cb w (offer cb encoding w.inst.rx.fin w).2 := offer_refuses hcb.quiet h.role
    generalize offer cb encoding w.inst.rx.fin w = r at hr hb ⊢
    obtain ⟨accepted, w₁⟩ := r
    cases accepted with
    | false => exact hr rfl
    | true => cases hb
  rw [settle_of_data cb hd] at hb ⊢
  by_cases hz : w.inst.rx.size = 0
  · rw [if_pos hz] at hb ⊢
    dsimp only at hb ⊢
    rw [if_pos hb]
    cases hop : w.inst.rx.dataOpcode with
    | text =>
      have hop' : w.inst.rx.dataOpcode = Encoding.utf8.opcode := hop
      by_cases hc : w.inst.rx.fin = true ∧ utf8IsComplete w.inst.rx.utf8 = false
      · rw [finish_incomplete hop hc.1 hc.2] at hb
        cases hb
      · rw [finish_message hcb.quiet h.role hop' fun _ hf => by simpa [hf] using hc] at hb ⊢
        exact hoffer _ _ hb
    | binary =>
      have hop' : w.inst.rx.dataOpcode = Encoding.binary.opcode := hop
      rw [finish_message hcb.quiet h.role hop' fun he => by cases he] at hb ⊢
      exact hoffer _ _ hb
    -- a ping waits for the buffer of its pong
    | ping =>
      have hpong := sendPong_refuses hcb h.role h.state w.inst.rx.s.payload
      rw [finish_ping hop] at hb ⊢
      dsimp only at hb ⊢
      split_ifs at hb ⊢ with hs
      exact hpong hs
    | _ => simp [finish, hop] at hb
  -- the frame goes on, and its buffer is full
  · rw [if_neg hz] at hb ⊢
    split_ifs at hb ⊢ with he
    rw [flush_eq] at hb ⊢
    have hpass : (passOn cb w).1 = false → Refused cb w (passOn cb w).2 := by
      unfold passOn
      cases w.inst.rx.dataOpcode with
      | text => exact offer_refuses hcb.quiet h.role
      | binary => exact offer_refuses hcb.quiet h.role
      | _ => exact fun h => by cases h
    generalize passOn cb w = r at hpass hb ⊢
    obtain ⟨accepted, w₁⟩ := r
    cases accepted with
    | false => exact hpass rfl
    | true => cases hb

/-- **Bytes that are not all read have been refused, or the instance has closed.** -/
theorem drain_refuses {keep : Part → Bool} (hcb : cb.Heard keep) {w : World σ} (h : Live w)
    (bs : List UInt8) :
    Refused cb w (drain cb bs w).2 ∨ (drain cb bs w).2.inst.state ≠ .open ∨
      (drain cb bs w).1 = [] ∧ (drain cb bs w).2.inst.rx.Rests := by
  -- the work that is due has been refused, or it is done and the bytes follow
  cases hb : (settle cb w).1 with
  | true =>
    rw [drain_of_refused h.state hb]
    exact .inl (settle_refuses hcb h hb)
  | false =>
    obtain ⟨ps, hset⟩ := settle_outputs hcb h bs
    have hlog := hset.shows.log_prefix
    have hrest := settle_rests hcb.quiet h.receiving hb
    have hlive := settle_live hcb.quiet h
    rw [drain_settle hcb.quiet h.role h.lawful.toSound h.state hb]
    generalize (settle cb w).2 = w' at hlog hrest hlive
    by_cases ho : w'.inst.state = .open
    swap
    · rw [drain_of_not_open ho]
      exact .inr (.inl ho)
    cases bs with
    | nil =>
      rw [drain_nil_of_rests hrest]
      exact .inr (.inr ⟨rfl, hrest⟩)
    | cons b bs =>
      obtain ⟨qs, hbyte⟩ := consume_outputs hcb (hlive ho) hrest b bs
      have hlog' := hlog.trans hbyte.shows.log_prefix
      rw [drain_cons_of_rests ho hrest]
      by_cases ho' : (consume cb b w').inst.state = .open
      · have hrec := drain_refuses hcb (consume_live hcb.quiet (hlive ho) hrest ho') bs
        exact hrec.imp_left fun hr => hr.right hlog'
      · rw [drain_of_not_open ho']
        exact .inr (.inl ho')
termination_by bs.length

end Refused

/-! ## One call -/

section Feed

variable {keep : Part → Bool} {cb : Callbacks σ} {w w' : World σ}

/-- Bytes that are not handed over yet are left. -/
theorem Outputs.append {bs rest : List UInt8} {ps : List Part}
    (h : Outputs keep cb bs rest w w' ps) (cs : List UInt8) :
    Outputs keep cb (bs ++ cs) (rest ++ cs) w w' ps where
  shows := h.shows
  handlers := h.handlers
  goes ho ds := by rw [List.append_assoc, List.append_assoc, h.goes ho]
  starts ds := by
    rw [List.append_assoc]
    exact h.starts _
  ends hp hno ds := by rw [List.append_assoc, h.ends hp hno]
  keyless ho ds hk := by
    rw [List.append_assoc] at hk ⊢
    exact h.keyless ho _ hk

/-- What is left does not matter to a closed instance, nor does the frame under reception. -/
theorem Outputs.closed {bs rest : List UInt8} {ps : List Part}
    (h : Outputs keep cb bs rest w w' ps) (hno : w'.inst.state ≠ .open) (rest' : List UInt8)
    (f : RxFrame → RxFrame) : Outputs keep cb bs rest' w (w'.updateRx f) ps where
  shows := h.shows.congr rfl
  handlers := h.handlers
  goes ho := absurd ho hno
  starts := h.starts
  ends hp _ := h.ends hp hno
  keyless ho := absurd ho hno

theorem Outputs.log_prefix {bs rest : List UInt8} {ps : List Part}
    (h : Outputs keep cb bs rest w w' ps) : w.log <+: w'.log := h.shows.log_prefix

/-- What follows a call or several: what they made known, and what is left to be read. -/
structure Fed (keep : Part → Bool) (cb : Callbacks σ) (bs rest : List UInt8) (w w' : World σ) :
    Prop where
  outputs : ∃ ps, Outputs keep cb bs rest w w' ps
  live : w'.inst.state = .open → Live w'
  state : w'.inst.state = .open ∨ w'.inst.state = .closed

/-- The bytes that a whole call leaves. -/
theorem drop_length_take (bs : List UInt8) (k : Nat) : bs.drop (bs.take k).length = bs.drop k := by
  rw [List.length_take]
  by_cases hlt : k ≤ bs.length
  · rw [Nat.min_eq_left hlt]
  · rw [Nat.min_eq_right (by omega), List.drop_of_length_le (by omega),
      List.drop_of_length_le (by omega)]

/-- What calls of the sizes `ks` have read that were not refused: all of it where no call can be
broken off, and at least one byte a call in any case. -/
structure Reads (cb : Callbacks σ) (ks : List Nat) (bs rest : List UInt8) (w w' : World σ) :
    Prop where
  rests : ks ≠ [] → w'.inst.state = .open → w'.inst.rx.Rests
  whole : Unbroken cb bs w →
    rest = bs.drop ks.sum ∧ (w'.inst.state = .open → Unbroken cb rest w')
  each : (∀ k ∈ ks, 0 < k) → rest.length ≤ bs.length - ks.length

/-- Once there have been as many calls as bytes, nothing is left. -/
theorem Reads.nil {ks : List Nat} {bs rest : List UInt8} (h : Reads cb ks bs rest w w')
    (hks : ∀ k ∈ ks, 0 < k) (hlen : bs.length ≤ ks.length) : rest = [] := by
  have heach := h.each hks
  rw [← List.length_eq_zero_iff]
  omega

/-- One call, which is handed `k` of the bytes `bs`, has read no more than `as` of them and has left
`rest`. -/
structure Takes (cb : Callbacks σ) (k : Nat) (bs as cs rest : List UInt8) (w w' : World σ) :
    Prop where
  split : bs = as ++ cs
  of_open : (drain cb as w).2.inst.state = .open →
    w' = (drain cb as w).2 ∧ rest = (drain cb as w).1 ++ cs
  of_closed : (drain cb as w).2.inst.state ≠ .open →
    (∃ f, w' = (drain cb as w).2.updateRx f) ∧ rest = bs.drop k
  reads : (bs.take k).length < 2 ^ 32 →
    ((drain cb as w).2.inst.state = .open →
      (drain cb as w).1 = [] ∧ (drain cb as w).2.inst.rx.Rests) → Reads cb [k] bs rest w w'

/-- **One call**, whatever the callbacks do. -/
theorem wicParse_takes {G : Prop} (hcb : cb.Respect (QuietAt G)) (h : Receiving w)
    (ho : w.inst.state = .open) (k : Nat) (bs : List UInt8) :
    ∃ as cs n w', wicParse cb (bs.take k) w = some (n, w') ∧
      Takes cb k bs as cs (bs.drop n) w w' := by
  -- the bytes that the stream counts
  obtain ⟨j, hj⟩ : ∃ j, (bs.take k).length % 2 ^ 32 = j := ⟨_, rfl⟩
  have hjlen : j ≤ (bs.take k).length := hj ▸ Nat.mod_le _ _
  have htake : (bs.take k).take ((bs.take k).length % 2 ^ 32) = bs.take j := by
    have hjk : j ≤ k := Nat.le_trans hjlen (List.length_take_le k bs)
    rw [hj, List.take_take, Nat.min_eq_left hjk]
  have hcount : (bs.take j).length = j := by
    rw [List.length_take] at hjlen ⊢
    omega
  obtain ⟨as, cs, w', hsplit, hrun, hends⟩ := wicParse_open hcb h ho _ htake
  rw [hj] at hrun
  have hbs : bs = as ++ (cs ++ bs.drop j) := by
    rw [← List.append_assoc, ← hsplit, List.take_append_drop]
  have hsum : as.length + cs.length = j := by
    rw [← List.length_append, ← hsplit, hcount]
  refine ⟨as, cs ++ bs.drop j, _, w', hrun, ?_⟩
  by_cases hopen : (drain cb as w).2.inst.state = .open
  · obtain rfl := hends.of_open hopen
    have hread : bs.drop (j - ((drain cb as w).1 ++ cs).length) =
        (drain cb as w).1 ++ (cs ++ bs.drop j) := by
      obtain ⟨pre, hpre⟩ := drain_suffix cb as w
      have hlen := congrArg List.length hpre
      rw [List.length_append] at hlen
      have hj' : j - ((drain cb as w).1 ++ cs).length = pre.length := by
        rw [List.length_append]
        omega
      rw [hj']
      conv_lhs => rw [hbs, ← hpre, List.append_assoc]
      exact List.drop_left
    rw [if_pos hopen, hread]
    refine ⟨hbs, fun _ => ⟨rfl, rfl⟩, fun hno => absurd hopen hno, fun hk hno => ?_⟩
    obtain ⟨hnil, hrest⟩ := hno hopen
    have hall : bs.drop j = bs.drop k := by
      rw [← hj, Nat.mod_eq_of_lt hk, drop_length_take]
    rw [hnil, List.nil_append]
    refine ⟨fun _ _ => hrest, fun hu => ?_, fun hpos => ?_⟩
    · rw [hbs] at hu
      have hcs : cs = [] := by
        rw [← List.append_assoc] at hu
        exact hu.left.whole hends.whole
      subst hcs
      rw [List.nil_append] at hu ⊢
      exact ⟨by rw [hall, List.sum_singleton], fun _ =>
        hu.right hcb h fun hs => hs ⟨hopen, hrest⟩⟩
    · have hk₀ : 0 < k := hpos k (by simp)
      rw [List.length_append, List.length_singleton]
      rcases hends.whole with rfl | ⟨has, -⟩
      · rw [hall, List.length_nil, List.length_drop]
        omega
      · have hone := List.length_pos_iff.mpr has
        have htotal := congrArg List.length hbs
        rw [List.length_append, List.length_append] at htotal
        omega
  · obtain ⟨f, rfl⟩ := hends.of_closed hopen
    have hno : ((drain cb as w).2.updateRx f).inst.state ≠ .open := hopen
    rw [if_neg hno, drop_length_take]
    refine ⟨hbs, fun ho' => absurd ho' hopen, fun _ => ⟨⟨f, rfl⟩, rfl⟩, fun _ _ => ?_⟩
    refine ⟨fun _ ho' => absurd ho' hno, fun _ => ?_, fun hpos => ?_⟩
    · exact ⟨by rw [List.sum_singleton], fun ho' => absurd ho' hno⟩
    · have hk₀ : 0 < k := hpos k (by simp)
      rw [List.length_drop, List.length_singleton]
      omega

/-- **One call.** A call that is not refused reads all it is given, if a stream can count it and it is
not broken off, and reads something at least. -/
theorem wicParse_fed (hcb : cb.Heard keep) (h : Live w) (k : Nat) (bs : List UInt8) :
    ∃ n w', wicParse cb (bs.take k) w = some (n, w') ∧ Fed keep cb bs (bs.drop n) w w' ∧
      (k < 2 ^ 32 → ¬Refused cb w w' → Reads cb [k] bs (bs.drop n) w w') := by
  obtain ⟨as, cs, n, w', hrun, htakes⟩ := wicParse_takes hcb.quiet h.receiving h.state k bs
  obtain ⟨ps, hout⟩ := drain_outputs hcb h as
  have hrefused := drain_refuses hcb h as
  have hlive := drain_live hcb.quiet h as
  have hlead := (drain_receiving hcb.quiet h.receiving as).2.state
  rw [h.state] at hlead
  have hout' := hout.append cs
  rw [← htakes.split] at hout'
  have hshort (hk : k < 2 ^ 32) : (bs.take k).length < 2 ^ 32 :=
    Nat.lt_of_le_of_lt (List.length_take_le k _) hk
  have hreads := htakes.reads
  refine ⟨n, w', hrun, ?_⟩
  by_cases ho : (drain cb as w).2.inst.state = .open
  · obtain ⟨rfl, hrest⟩ := htakes.of_open ho
    rw [hrest] at hreads ⊢
    exact ⟨⟨⟨ps, hout'⟩, hlive, .inl ho⟩, fun hk hno => hreads (hshort hk) fun _ =>
      (hrefused.resolve_left hno).resolve_left (not_not.mpr ho)⟩
  · obtain ⟨⟨f, rfl⟩, hrest⟩ := htakes.of_closed ho
    have hc := hlead.open_or.resolve_left ho
    exact ⟨⟨⟨ps, hout'.closed ho _ f⟩, fun ho' => absurd ho' ho, .inr hc⟩,
      fun hk _ => hreads (hshort hk) fun ho' => absurd ho' ho⟩

/-- A closed instance takes all it is given. -/
theorem feed_of_closed (hc : w.inst.state = .closed) (ks : List Nat) (bs : List UInt8) :
    feed cb ks bs w = some (bs.drop ks.sum, w) := by
  induction ks generalizing bs with
  | nil => rfl
  | cons k ks ih =>
    have hrun : wicParse cb (bs.take k) w = some ((bs.take k).length, w) :=
      wicParse_of_idle (by simp [hc]) (by simp [hc]) _
    rw [feed, hrun]
    show feed cb ks (bs.drop (bs.take k).length) w = _
    rw [drop_length_take, ih, List.drop_drop, List.sum_cons]

/-- Calls follow each other. -/
theorem Reads.cons {k : Nat} {ks : List Nat} {bs cs rest : List UInt8} {w'' : World σ}
    (h : Reads cb [k] bs cs w w') (ho : w'.inst.state = .open) (h' : Reads cb ks cs rest w' w'')
    (hlast : ks = [] → w'' = w') : Reads cb (k :: ks) bs rest w w'' where
  rests _ ho'' := by
    by_cases hks : ks = []
    · rw [hlast hks]
      exact h.rests (by simp) ho
    · exact h'.rests hks ho''
  whole hu := by
    obtain ⟨hcs, hu'⟩ := h.whole hu
    obtain ⟨hrest, hu''⟩ := h'.whole (hu' ho)
    rw [hcs, List.sum_singleton, List.drop_drop] at hrest
    exact ⟨by rw [hrest, List.sum_cons], hu''⟩
  each hpos := by
    have hone := h.each fun k' hk' => hpos k' (by simp_all)
    have hmore := h'.each fun k' hk' => hpos k' (by simp [hk'])
    rw [List.length_singleton] at hone
    rw [List.length_cons]
    omega

/-- A closed instance is not refused either. -/
theorem Reads.of_closed (hno : w'.inst.state ≠ .open) (ks : List Nat) (bs : List UInt8) :
    Reads cb ks bs (bs.drop ks.sum) w w' where
  rests _ ho := absurd ho hno
  whole _ := ⟨rfl, fun ho => absurd ho hno⟩
  each hpos := by
    have hsum := List.length_le_sum_of_one_le ks hpos
    rw [List.length_drop]
    omega

/-- Behind a call that closes the instance everything is taken. -/
theorem Reads.cons_closed {k : Nat} {ks : List Nat} {bs rest : List UInt8}
    (h : Reads cb [k] bs rest w w') (hno : w'.inst.state ≠ .open) :
    Reads cb (k :: ks) bs (rest.drop ks.sum) w w' where
  rests _ ho := absurd ho hno
  whole hu := by
    obtain ⟨hdrop, -⟩ := h.whole hu
    exact ⟨by rw [hdrop, List.drop_drop, List.sum_singleton, List.sum_cons],
      fun ho => absurd ho hno⟩
  each hpos := by
    have hone := h.each fun k' hk' => hpos k' (by simp_all)
    have hmore := (Reads.of_closed hno ks rest : Reads cb ks _ _ w' w').each
      fun k' hk' => hpos k' (by simp [hk'])
    rw [List.length_singleton] at hone
    rw [List.length_cons]
    omega

/-- **Several calls.** What they make known and what is still to be made known make up the output;
and calls that are not refused read all they are given when they are not broken off, and something
at least. -/
theorem feed_fed (hcb : cb.Heard keep) (ks : List Nat) (bs : List UInt8) {w : World σ} (h : Live w) :
    ∃ rest w', feed cb ks bs w = some (rest, w') ∧ Fed keep cb bs rest w w' ∧
      ((∀ k ∈ ks, k < 2 ^ 32) → ¬Refused cb w w' → Reads cb ks bs rest w w') := by
  induction ks generalizing bs w with
  | nil =>
    have hfed : Fed keep cb bs bs w w :=
      ⟨⟨[], .refl w, rfl, fun _ _ => rfl, fun _ => List.nil_prefix, fun _ hno => absurd h.state hno,
        fun _ _ => id⟩, fun _ => h, .inl h.state⟩
    exact ⟨bs, w, rfl, hfed, fun _ _ =>
      ⟨fun hne => absurd rfl hne, fun hu => ⟨rfl, fun _ => hu⟩, fun _ => Nat.le_refl _⟩⟩
  | cons k ks ih =>
    obtain ⟨n, w₁, hrun, ⟨⟨ps, hout⟩, hlive, hstate⟩, hread⟩ := wicParse_fed hcb h k bs
    have hfeed : feed cb (k :: ks) bs w = feed cb ks (bs.drop n) w₁ := by
      rw [feed, hrun]
      rfl
    rw [hfeed]
    rcases hstate with ho | hc
    · obtain ⟨rest, w', hrest, ⟨⟨qs, hout'⟩, hlive', hstate'⟩, hread'⟩ := ih (bs.drop n) (hlive ho)
      refine ⟨rest, w', hrest, ⟨⟨_, hout.trans ho hout'⟩, hlive', hstate'⟩, fun hks hno => ?_⟩
      have hreads := hread (hks k (by simp)) fun hr => hno (hr.left hout'.log_prefix)
      have hreads' := hread' (fun k hk => hks k (by simp [hk]))
        fun hr => hno (hr.right hout.log_prefix)
      refine hreads.cons ho hreads' ?_
      rintro rfl
      exact (Prod.mk.inj (Option.some.inj hrest)).2.symm
    · have hno₁ : w₁.inst.state ≠ .open := by simp [hc]
      refine ⟨_, w₁, feed_of_closed hc ks _, ⟨⟨ps, hout.closed hno₁ _ id⟩, hlive, .inr hc⟩,
        fun hks hno => (hread (hks k (by simp)) hno).cons_closed hno₁⟩

/-- Calls that nobody refuses have left `rest` of the bytes: they have got as far as the receiver gets
with what is in front of it, or have closed the instance. -/
structure Drained (cb : Callbacks σ) (bs rest : List UInt8) (w w' : World σ) : Prop where
  of_open : w'.inst.state = .open → ∃ as, bs = as ++ rest ∧ drain cb as w = ([], w')
  of_closed : w'.inst.state ≠ .open → Agrees (drain cb bs w).2 w'

/-- **Several calls on bytes that nobody refuses**, whatever the callbacks do. -/
theorem feed_drain {G : Prop} (hcb : cb.Respect (QuietAt G)) {bs : List UInt8} (ks : List Nat)
    (hlen : ∀ k ∈ ks, (bs.take k).length < 2 ^ 32) {w : World σ} (h : Receiving w)
    (ho : w.inst.state = .open) (hrest : w.inst.rx.Rests)
    (hend : (drain cb bs w).2.inst.state = .open → (drain cb bs w).2.inst.rx.Rests) :
    ∃ rest w', feed cb ks bs w = some (rest, w') ∧ Reads cb ks bs rest w w' ∧
      Drained cb bs rest w w' := by
  induction ks generalizing bs w with
  | nil =>
    refine ⟨bs, w, rfl, ⟨fun hne => absurd rfl hne, fun hu => ⟨rfl, fun _ => hu⟩, fun _ => Nat.le_refl _⟩,
      fun _ => ⟨[], rfl, drain_nil_of_rests hrest⟩, fun hno => absurd ho hno⟩
  | cons k ks ih =>
    obtain ⟨as, cs, n, w₁, hrun, htakes⟩ := wicParse_takes hcb h ho k bs
    have hfeed : feed cb (k :: ks) bs w = feed cb ks (bs.drop n) w₁ := by
      rw [feed, hrun]
      rfl
    have hsplit := htakes.split
    obtain ⟨hrec, hsetup⟩ := drain_receiving hcb h as
    have hdrain := drain_append hcb h as cs
    rw [← hsplit] at hdrain
    rw [hfeed]
    have htake : (bs.take k).length < 2 ^ 32 := hlen k (by simp)
    by_cases ho₁ : (drain cb as w).2.inst.state = .open
    · obtain ⟨rfl, hleft⟩ := htakes.of_open ho₁
      -- it is not refused, since the whole is not
      rcases hdrain with ⟨hns, hnil, hd⟩ | ⟨hs, hd⟩
      swap
      · rw [hd] at hend
        exact absurd ⟨ho₁, hend ho₁⟩ hs
      have hrest₁ := (not_not.mp hns).2
      have hreads := htakes.reads htake fun _ => ⟨hnil, hrest₁⟩
      rw [hnil, List.nil_append] at hleft
      rw [hleft] at hreads ⊢
      rw [hd] at hend
      have hlen' : ∀ k ∈ ks, (cs.take k).length < 2 ^ 32 := fun k hk => by
        have hwhole := hlen k (by simp [hk])
        rw [hsplit, List.length_take, List.length_append] at hwhole
        rw [List.length_take]
        omega
      obtain ⟨rest, w', hrun', hreads', hdrained⟩ := ih hlen' hrec ho₁ hrest₁ hend
      refine ⟨rest, w', hrun', hreads.cons ho₁ hreads' ?_, fun ho' => ?_, fun hno => ?_⟩
      · rintro rfl
        exact (Prod.mk.inj (Option.some.inj hrun')).2.symm
      · obtain ⟨bs', rfl, hd'⟩ := hdrained.of_open ho'
        refine ⟨as ++ bs', by rw [hsplit, List.append_assoc], ?_⟩
        rcases drain_append hcb h as bs' with ⟨-, -, heq⟩ | ⟨hs, -⟩
        · rw [heq, hd']
        · exact absurd hs hns
      · rw [hd]
        exact hdrained.of_closed hno
    · obtain ⟨⟨f, rfl⟩, hleft⟩ := htakes.of_closed ho₁
      have hno₁ : ((drain cb as w).2.updateRx f).inst.state ≠ .open := ho₁
      have hc : ((drain cb as w).2.updateRx f).inst.state = .closed := by
        have hlead := hsetup.state
        rw [ho] at hlead
        exact hlead.open_or.resolve_left ho₁
      have hreads := htakes.reads htake fun ho' => absurd ho' ho₁
      refine ⟨_, _, feed_of_closed hc ks _, hreads.cons_closed hno₁, fun ho' => absurd ho' hno₁,
        fun _ => ?_⟩
      have hd : (drain cb bs w).2 = (drain cb as w).2 := by
        rcases hdrain with ⟨hns, -, -⟩ | ⟨-, hd⟩
        · exact absurd (not_not.mp hns).1 ho₁
        · rw [hd]
      rw [hd]
      exact ⟨fun ho' => absurd ho' ho₁, fun _ => ⟨f, rfl⟩⟩

/-- **More calls**, behind which the instance may have closed. -/
theorem Fed.feed (hcb : cb.Heard keep) {bs rest : List UInt8} (h : Fed keep cb bs rest w w')
    (ks : List Nat) :
    ∃ rest' w'', Wic.feed cb ks rest w' = some (rest', w'') ∧ Fed keep cb bs rest' w w'' ∧
      ((∀ k ∈ ks, k < 2 ^ 32) → ¬Refused cb w' w'' → Reads cb ks rest rest' w' w'') := by
  obtain ⟨⟨ps, hout⟩, hlive, hstate⟩ := h
  rcases hstate with ho | hc
  · obtain ⟨rest', w'', hfeed, ⟨⟨qs, hout'⟩, hlive', hstate'⟩, hread⟩ :=
      feed_fed hcb ks rest (hlive ho)
    exact ⟨rest', w'', hfeed, ⟨⟨_, hout.trans ho hout'⟩, hlive', hstate'⟩, hread⟩
  · have hno : w'.inst.state ≠ .open := by simp [hc]
    exact ⟨_, w', feed_of_closed hc ks rest, ⟨⟨ps, hout.closed hno _ id⟩, hlive, .inr hc⟩,
      fun _ _ => .of_closed hno ks rest⟩

end Feed

end Wic
