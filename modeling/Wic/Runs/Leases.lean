import Wic.Commons.Monitor
import Wic.Handshake.Registration
import Wic.Runs.Invariant

/-!
# Buffers on loan

`on_buffer` lends a buffer and `on_send` gives it back, with size zero when there is nothing to send.
A monitor of the trace says what that comes to: a buffer on loan goes back before anything else
happens that the application could see. A run keeps to it exactly when no buffer was smaller than
what had been asked for; `stream_put_frame` forgets a buffer that is too small. `wic_start` gives its
buffer back exactly when it comes to the end of the header list.

## Main definitions

* `leases`: the monitor
* `Trades`: the traces that calls write
* `Event.Honest`: a buffer on loan is as large as asked for
* `Borrows`, `listing`: `wic_start` takes a buffer, and goes through the header list

## Main results

* `Trades.returned_iff`: in such a trace every loan goes back exactly when every loan is honest
* `Reachable.leases_returned`: the same for runs
-/

namespace Wic

open Http (ascii)

variable {σ : Type}

/-! ## The monitor -/

/-- The monitor of loans; its state is the buffer on loan. Nothing but a write of the state comes
between a loan and its return. -/
def leases : Monitor Event (Option Nat) where
  next
    | none, .buffer _ _ buf _ => some buf
    | none, .send .. => none
    | none, _ => some none
    | some buf, .send buf' _ _ => if buf' = buf then some none else none
    | some buf, .state _ => some (some buf)
    | some _, _ => none

/-- A buffer on loan is as large as asked for. -/
def Event.Honest : Event → Prop
  | .buffer minSize _ (some _) max => minSize ≤ max
  | _ => True

/-- Neither a loan nor a return. -/
def Event.Unrelated : Event → Prop
  | .buffer _ _ (some _) _ | .send .. => False
  | _ => True

/-- The traces that calls write: a loan is returned, with a write of the state before it at most, or
it is too small and forgotten. -/
inductive Trades : List Event → Prop
  | nil : Trades []
  | other {e es} : e.Unrelated → Trades es → Trades (e :: es)
  | returned {minSize type buf max data type' es} : minSize ≤ max → Trades es →
      Trades (.buffer minSize type (some buf) max :: .send buf data type' :: es)
  | started {minSize type buf max s data type' es} : minSize ≤ max → Trades es →
      Trades (.buffer minSize type (some buf) max :: .state s :: .send buf data type' :: es)
  | forgotten {minSize type buf max es} : max < minSize → Trades es →
      Trades (.buffer minSize type (some buf) max :: es)

namespace Trades

variable {es fs : List Event}

theorem append (h : Trades es) (h' : Trades fs) : Trades (es ++ fs) := by
  induction h with
  | nil => exact h'
  | other he _ ih => exact .other he ih
  | returned hle _ ih => exact .returned hle ih
  | started hle _ ih => exact .started hle ih
  | forgotten hlt _ ih => exact .forgotten hlt ih

theorem single {e : Event} (h : e.Unrelated) : Trades [e] := .other h .nil

/-- Entries that are neither loans nor returns. -/
theorem of_unrelated (h : ∀ e ∈ es, e.Unrelated) : Trades es := by
  induction es with
  | nil => exact .nil
  | cons e es ih =>
    apply Trades.other
    · exact h e (by simp)
    · apply ih
      intro e' he'
      exact h e' (by simp [he'])

theorem next_unrelated {e : Event} (h : e.Unrelated) : leases.next none e = some none := by
  cases e with
  | send => exact absurd h id
  | buffer minSize type buf max =>
    cases buf with
    | none => rfl
    | some buf => exact absurd h id
  | _ => rfl

/-- A loan that was forgotten does not come back. -/
theorem run_forgotten (h : Trades es) (buf : Nat) : leases.run (some buf) es ≠ some none := by
  induction h with
  | nil => simp
  | @other e es he _ ih =>
    cases e with
    | send => exact absurd he id
    | state s => exact ih
    | _ => simp [leases]
  | returned | started | forgotten => simp [leases]

/-- **Every loan goes back exactly when every loan is honest.** -/
theorem returned_iff (h : Trades es) :
    leases.run none es = some none ↔ ∀ e ∈ es, e.Honest := by
  induction h with
  | nil => simp
  | @other e es he _ ih =>
    have hhonest : e.Honest := by
      cases e with
      | buffer minSize type buf max =>
        cases buf with
        | none => trivial
        | some buf => exact absurd he id
      | _ => trivial
    rw [Monitor.run_cons, next_unrelated he]
    simpa [hhonest] using ih
  | returned hle _ ih => simpa [leases, Event.Honest, hle] using ih
  | started hle _ ih => simpa [leases, Event.Honest, hle] using ih
  | @forgotten minSize type buf max es hlt hes _ =>
    constructor
    · intro hrun
      exact absurd hrun (hes.run_forgotten buf)
    · intro hall
      have hle : minSize ≤ max := hall (.buffer minSize type (some buf) max) (by simp)
      omega

end Trades

/-! ## What a step adds to the trace -/

/-- A step that adds such a trace. -/
structure Trading (w w' : World σ) : Prop where
  role : w'.inst.role = w.inst.role
  log : ∃ es, w'.log = w.log ++ es ∧ Trades es

/-- `Trading` for a client, between the worlds around a callback. -/
def TradingAt (_ : Caller) (w w' : World σ) : Prop := w.inst.role = .client → Trading w w'

namespace Trading

variable {w w' w'' : World σ}

theorem refl (w : World σ) : Trading w w := ⟨rfl, [], by simp, .nil⟩

theorem trans (h : Trading w w') (h' : Trading w' w'') : Trading w w'' := by
  obtain ⟨es, hes, htrades⟩ := h.log
  obtain ⟨fs, hfs, htrades'⟩ := h'.log
  constructor
  · rw [h'.role, h.role]
  · exact ⟨es ++ fs, by rw [hfs, hes, List.append_assoc], htrades.append htrades'⟩

theorem edits (h : Edits w w') : Trading w w' := ⟨by rw [h.inst], [], by simp [h.log], .nil⟩

theorem emit {e : Event} (h : e.Unrelated) : Trading w (w.emit e) := ⟨rfl, [e], rfl, .single h⟩

theorem setState (s : State) : Trading w (w.setState s) :=
  ⟨rfl, [.state s], rfl, .single trivial⟩

theorem update {f : Inst → Inst} (h : (f w.inst).role = w.inst.role) : Trading w (w.update f) :=
  ⟨h, [], by simp, .nil⟩

theorem updateRx (f : RxFrame → RxFrame) : Trading w (w.updateRx f) := update rfl

/-- A step behind one that keeps the role. -/
theorem next (h : Trading w w') (hr : w.inst.role = .client)
    (h' : w'.inst.role = .client → Trading w' w'') : Trading w w'' :=
  h.trans (h' (h.role.trans hr))

end Trading

section Calls

variable {cb : Callbacks σ} {w : World σ}

/-- A frame that fits its buffer is handed over, and the buffer with it; one that does not is
forgotten, buffer and all. -/
theorem deliver_trading (hcb : cb.Respect TradingAt) (f : TxFrame) {done : Inst → Inst}
    (hd : ∀ i, (done i).role = i.role) (buf : Option Nat) (max : Nat) :
    Trading w
      (deliver cb f done buf max (w.emit (.buffer f.wire.length f.type buf max))).2 := by
  unfold deliver
  by_cases hle : f.wire.length ≤ max
  · rw [if_pos hle]
    cases buf with
    | none => exact .emit trivial
    | some buf =>
      have hback : Trades [.buffer f.wire.length f.type (some buf) max, .send buf f.wire f.type] :=
        .returned hle .nil
      apply Trading.trans ⟨hd w.inst, _, ?_, hback⟩ (.edits (hcb.onSend _ _ _ _))
      simp
  · rw [if_neg hle]
    cases buf with
    | none => exact .emit trivial
    | some buf => exact ⟨rfl, _, rfl, .forgotten (Nat.lt_of_not_le hle) .nil⟩

theorem putAndSend_trading (hcb : cb.Respect TradingAt) (hr : w.inst.role = .client) (f : TxFrame)
    {done : Inst → Inst} (hd : ∀ i, (done i).role = i.role) :
    Trading w (putAndSend cb f done w).2 := by
  have hdraw := drawMask_edits hcb w
  rw [putAndSend_eq cb f done w (by rw [hdraw.inst]; exact hr)]
  apply (Trading.edits hdraw).trans
  have hlend := hcb.onBuffer (f.withMask (drawMask cb w).1).wire.length f.type (drawMask cb w).2
  exact (Trading.edits hlend).trans (deliver_trading hcb (f.withMask (drawMask cb w).1) hd _ _)

theorem allowedToSend_trading : Trading w (allowedToSend w).2 := by
  unfold allowedToSend
  split_ifs
  · exact .setState .open
  · exact .refl w

theorem Send.run_trading (hcb : cb.Respect TradingAt) (hr : w.inst.role = .client) (send : Send) :
    Trading w (send.run cb w).2 := by
  rw [send.run_eq]
  refine Trading.trans (allowedToSend_trading.next hr ?_) (.emit trivial)
  intro hr₁
  split
  · unfold attempt
    split
    · exact .refl _
    · exact putAndSend_trading hcb hr₁ _ fun _ => rfl
  · exact .refl _

theorem callOnClose_trading (hcb : cb.Respect TradingAt) (hr : w.inst.role = .client)
    (code : UInt16) (reason : List UInt8) : Trading w (callOnClose cb code reason w) := by
  unfold callOnClose
  split_ifs
  · exact Trading.trans (.emit (by trivial)) (hcb.onClose code reason _ hr)
  · exact .refl w

theorem callOnCloseTransport_trading (hcb : cb.Respect TradingAt) (hr : w.inst.role = .client) :
    Trading w (callOnCloseTransport cb w) := by
  unfold callOnCloseTransport
  split_ifs
  · exact Trading.trans (.emit (by trivial)) (hcb.onCloseTransport _ hr)
  · exact .refl w

theorem callOnHandshakeFailure_trading (hcb : cb.Respect TradingAt) (hr : w.inst.role = .client)
    (reason : HandshakeFailure) : Trading w (callOnHandshakeFailure cb reason w) := by
  unfold callOnHandshakeFailure
  split_ifs
  · exact Trading.trans (.emit (by trivial)) (hcb.onHandshakeFailure reason _ hr)
  · exact .refl w

theorem callOnOpen_trading (hcb : cb.Respect TradingAt) (hr : w.inst.role = .client) :
    Trading w (callOnOpen cb w) := by
  unfold callOnOpen
  split_ifs
  · exact Trading.trans (.emit (by trivial)) (hcb.onOpen _ hr)
  · exact .refl w

theorem callOnPing_trading (hcb : cb.Respect TradingAt) : Trading w (callOnPing cb w) := by
  unfold callOnPing
  split_ifs
  · exact Trading.trans (.emit (by trivial)) (.edits (hcb.onPing _))
  · exact .refl w

theorem callOnPong_trading (hcb : cb.Respect TradingAt) : Trading w (callOnPong cb w) := by
  unfold callOnPong
  split_ifs
  · exact Trading.trans (.emit (by trivial)) (.edits (hcb.onPong _))
  · exact .refl w

theorem closeWithReason_trading (hcb : cb.Respect TradingAt) (hr : w.inst.role = .client)
    (code : UInt16) (reason : Payload) (type : BufferType) :
    Trading w (closeWithReason cb code reason type w) := by
  have hclosed : Trading w ((w.emit (.closing code)).setState .closed) :=
    Trading.trans (.emit (by trivial)) (.setState .closed)
  unfold closeWithReason
  cases w.inst.state with
  | init => exact hclosed
  | closed => exact .refl w
  | parseHandshake =>
    apply (hclosed.next hr fun hr₁ => callOnCloseTransport_trading hcb hr₁).next hr
    intro hr₂
    exact callOnHandshakeFailure_trading hcb hr₂ _
  | ready | «open» =>
    have hframe : Trading w
        (sendClose cb code reason type ((w.emit (.closing code)).setState .closed)) := by
      apply hclosed.next hr
      intro hr₁
      unfold sendClose
      split_ifs
      · exact .refl _
      · exact putAndSend_trading hcb hr₁ _ fun _ => rfl
    apply (hframe.next hr fun hr₁ => callOnCloseTransport_trading hcb hr₁).next hr
    intro hr₂
    exact callOnClose_trading hcb hr₂ _ _

theorem Call.run_trading (hcb : cb.Respect TradingAt) (hr : w.inst.role = .client) (c : Call) :
    Trading w (c.run cb w) := by
  cases c with
  | sendBinary fin data => exact (Send.binary fin data).run_trading hcb hr
  | sendText fin data => exact (Send.text fin data).run_trading hcb hr
  | send encoding fin data =>
    simp only [run, wicSend]
    split_ifs
    · exact (Send.binary fin data).run_trading hcb hr
    · exact (Send.text fin data).run_trading hcb hr
  | sendPing => exact (Send.ping .null).run_trading hcb hr
  | sendPingWithPayload data => exact (Send.ping data).run_trading hcb hr
  | close => exact closeWithReason_trading hcb hr _ _ _
  | closeWithReason code reason => exact closeWithReason_trading hcb hr _ _ _
  | setHeader header =>
    simp only [run, wicSetHeader]
    split_ifs
    · exact ⟨rfl, [], by simp, .nil⟩
    · exact .refl w
  | rewindGetNextHeader => exact ⟨rfl, [], by simp [run, wicRewindGetNextHeader], .nil⟩
  | getNextHeader =>
    simp only [run, wicGetNextHeader]
    split_ifs
    · exact ⟨rfl, [], by simp, .nil⟩
    · exact .refl w

end Calls

section Receive

variable {cb : Callbacks σ} {w : World σ}

theorem offer_trading (hcb : cb.Respect TradingAt) (hr : w.inst.role = .client)
    (encoding : Encoding) (fin : Bool) : Trading w (offer cb encoding fin w).2 := by
  unfold offer
  split_ifs
  · have hcall : Trading (w.emit (.message encoding fin w.inst.rx.s.payload.bytes)) _ :=
      hcb.onMessage encoding fin w.inst.rx.s.payload.bytes _ hr
    exact (Trading.trans (.emit (by trivial)) hcall).trans (.emit trivial)
  · exact .refl w

theorem offerAll_trading (hcb : cb.Respect TradingAt) (hr : w.inst.role = .client)
    (encoding : Encoding) {done : Inst → Inst} (hd : ∀ i, (done i).role = i.role) :
    Trading w (offerAll cb encoding done w).2 := by
  have hoffer := offer_trading hcb hr encoding w.inst.rx.fin
  unfold offerAll
  generalize offer cb encoding w.inst.rx.fin w = r at hoffer ⊢
  obtain ⟨accepted, w'⟩ := r
  cases accepted with
  | false => exact hoffer
  | true => exact hoffer.trans (.update (hd w'.inst))

theorem sendPongWithPayload_trading (hcb : cb.Respect TradingAt) (hr : w.inst.role = .client)
    (data : Payload) : Trading w (sendPongWithPayload cb data w).2 := by
  have ha : Trading w (allowedToSend w).2 := allowedToSend_trading
  have hr₁ := ha.role.trans hr
  unfold sendPongWithPayload
  generalize allowedToSend w = a at ha hr₁ ⊢
  obtain ⟨allowed, w₁⟩ := a
  cases allowed with
  | false => exact ha
  | true => exact ha.trans (putAndSend_trading hcb hr₁ _ fun _ => rfl)

theorem finish_trading (hcb : cb.Respect TradingAt) (hr : w.inst.role = .client) :
    Trading w (finish cb w).2 := by
  unfold finish
  dsimp only
  split
  · split_ifs
    · exact offerAll_trading hcb hr .utf8 fun _ => rfl
    · exact offerAll_trading hcb hr .utf8 fun _ => rfl
    · exact closeWithReason_trading hcb hr _ _ _
  · exact offerAll_trading hcb hr .binary fun _ => rfl
  · obtain ⟨code, reason, heq, -⟩ := finishClose_eq cb w
    rw [heq]
    exact closeWithReason_trading hcb hr _ _ _
  · have hpong := sendPongWithPayload_trading hcb hr w.inst.rx.s.payload
    split <;> next heq => rw [heq] at hpong; first
      | exact hpong
      | exact hpong.trans (callOnPing_trading hcb)
  · exact callOnPong_trading hcb
  · exact .refl w

theorem settle_trading (hcb : cb.Respect TradingAt) (hr : w.inst.role = .client) :
    Trading w (settle cb w).2 := by
  have hpass : Trading w (passOn cb w).2 := by
    unfold passOn
    split
    · exact offer_trading hcb hr .utf8 false
    · exact offer_trading hcb hr .binary false
    · exact .refl w
  unfold settle
  split
  · split_ifs
    · have hfinish := finish_trading hcb hr
      dsimp only
      split_ifs
      · exact hfinish
      · exact hfinish.trans (.updateRx _)
    · rw [flush_eq]
      dsimp only
      split_ifs
      · exact hpass.trans (.updateRx _)
      · exact hpass
    · exact .refl w
  · exact .refl w

theorem consume_trading (hcb : cb.Respect TradingAt) (hr : w.inst.role = .client) (b : UInt8) :
    Trading w (consume cb b w) := by
  have hobeys := consume_obeys cb w b
  generalize consume cb b w = w' at hobeys ⊢
  cases hobeys with
  | stays f => exact .updateRx f
  | closes f g code type =>
    have hr' : (w.updateRx f).inst.role = .client := hr
    have hclose := closeWithReason_trading hcb hr' code .null type
    exact ((Trading.updateRx f).trans hclose).trans (.updateRx g)

theorem afterHttp_trading (hcb : cb.Respect TradingAt) (hr : w.inst.role = .client) :
    Trading w (afterHttp cb w) := by
  unfold afterHttp
  split
  · refine Trading.trans ?_ (.setState .closed)
    apply (callOnCloseTransport_trading hcb hr).next hr
    intro hr₁
    exact callOnHandshakeFailure_trading hcb hr₁ _
  · split
    · exact (callOnOpen_trading hcb hr).trans (.setState .open)
    · exact .refl w

/-- The buffer for the request goes back, with the request or with nothing. -/
theorem startClient_trading (hcb : cb.Respect TradingAt) {fuel : Nat} {w w' : World σ}
    {status : Status} (h : startClient cb fuel w = some (status, w')) : Trading w w' := by
  have hlend := hcb.onBuffer 0 .http w
  have hstarted := startClient_started h
  generalize hr : (status, w') = r at hstarted
  cases hstarted with
  | refused =>
    cases hr
    exact .refl w
  -- there was no buffer to lend
  | blocked hs hb =>
    cases hr
    have hnone : (Event.buffer 0 .http (lease cb 0 .http w).1.1
        (lease cb 0 .http w).1.2).Unrelated := by
      rw [hb]
      trivial
    exact (Trading.edits hlend).trans (.emit hnone)
  | @ended hs buf max w₁ nonce w₂ key u tx hb hk hn ht =>
    have hlog : w₁.log = w.log ++ [.buffer 0 .http (some buf) max] := by
      have hlent := lease_log cb 0 .http w
      rw [hb, hlend.log] at hlent
      exact hlent
    have hrole : w₁.inst.role = w.inst.role := by
      have hlent := lease_inst cb 0 .http w
      rw [hb, hlend.inst] at hlent
      rw [hlent]
    have hdraw : Edits w₁ w₂ := by
      have hkey := drawKey_edits hcb w₁
      rwa [hk] at hkey
    have hbase : tx.base = buf := putHandshake_base ht
    -- the buffer goes back empty when the request has not fitted, else with the request
    split_ifs at hr
    · cases hr
      have hback : Trades [.buffer 0 .http (some buf) max, .send buf (tx.mem.take 0) .http] :=
        .returned (Nat.zero_le max) .nil
      refine Trading.trans ⟨?_, _, ?_, hback⟩ (.edits (hcb.onSend _ _ _ _))
      · simp [hdraw.inst, hrole]
      · simp [hdraw.log, hlog, hbase]
    · cases hr
      have hback : Trades [.buffer 0 .http (some buf) max, .state .parseHandshake,
          .send buf (tx.mem.take tx.pos) .http] :=
        .started (Nat.zero_le max) .nil
      refine Trading.trans ⟨?_, _, ?_, hback⟩ (.edits (hcb.onSend _ _ _ _))
      · simp [hdraw.inst, hrole]
      · simp [hdraw.log, hlog, hbase]

end Receive

/-- Calls that trade make callbacks that trade. -/
theorem trading_lifts {allowed : Caller → Call → Prop} : Lifts allowed (TradingAt (σ := σ)) where
  refl _ w _ := .refl w
  trans h h' hr := (h hr).next hr h'
  edit he _ := .edits he
  call _ _ hcb hr := Call.run_trading hcb hr _

/-! ## Runs -/

/-- The trace of every run is made of such pieces. -/
theorem Reachable.trades {allowed : Caller → Call → Prop} {w : World σ}
    (h : Reachable allowed w) : Trades w.log := by
  -- a step adds pieces to a trace that is made of pieces
  have hlogs {w w' : World σ} (hw : Trades w.log) (hstep : Trading w w') : Trades w'.log := by
    obtain ⟨es, hlog, htrades⟩ := hstep.log
    rw [hlog]
    exact hw.append htrades
  induction h with
  | init => exact .nil
  | edit _ he ih => exact hlogs ih (.edits he)
  | call hw hcb _ ih =>
    exact hlogs ih (Call.run_trading (trading_lifts.respect hcb) hw.invariant.role _)
  | start _ hcb hrun ih => exact hlogs ih (startClient_trading (trading_lifts.respect hcb) hrun)
  | @parse cb data w n w' hw hcb hrun ih =>
    have hcb' : cb.Respect TradingAt := trading_lifts.respect hcb
    obtain ⟨n', w'', hrun', -, htrades⟩ := wicParse_induction (fun w => Trades w.log) hcb.quiet
      hw.invariant data
      (fun _ h => by
        have hparsing : Parsing w (httpParserExecute data w).2 := httpParserExecute_parsing data
        obtain ⟨es, hlog, hes⟩ := hparsing.log
        have hready : Trades es := .of_unrelated fun e he => by
          rw [hes e he]
          trivial
        refine hlogs ?_ (afterHttp_trading hcb' (hparsing.role.trans hw.invariant.role))
        rw [hlog]
        exact h.append hready)
      (fun w hl h => hlogs h (settle_trading hcb' hl.role))
      (fun w b hl _ h => hlogs h (consume_trading hcb' hl.role b))
      (fun w f _ h => h) ih
    rw [hrun] at hrun'
    obtain ⟨-, rfl⟩ := Prod.mk.inj (Option.some.inj hrun')
    exact htrades

/-! ## The buffer of `wic_start` -/

/-- `wic_start` takes a buffer. -/
def Borrows (cb : Callbacks σ) (w : World σ) : Prop :=
  w.inst.state = .init ∧ (Http.httpParserParseUrl (w.inst.url.getD []) {}).isSome ∧
    (lease cb 0 .http w).1.1.isSome

/-- The world in which `wic_start` goes through the header list: it has the buffer and the key. -/
def listing (cb : Callbacks σ) (w : World σ) : World σ := (drawKey cb (lease cb 0 .http w).2).2

/-- **`wic_start` returns exactly when the header list has an end, and its headers have a name and a
value.** -/
theorem Borrows.returns_iff {cb : Callbacks σ} {w : World σ} (h : Borrows cb w) :
    (∃ fuel r, wicStart cb fuel w = some r) ↔ ∃ l, Listed (listing cb w) l := by
  obtain ⟨hs, hurl, hbuf⟩ := h
  obtain ⟨u, hu⟩ := Option.isSome_iff_exists.mp hurl
  obtain ⟨buf, hbuf⟩ := Option.isSome_iff_exists.mp hbuf
  -- the world in which the header list is walked
  unfold listing
  rcases hb : lease cb 0 .http w with ⟨⟨buf', max⟩, w₁⟩
  rw [hb] at hbuf
  obtain rfl : buf' = some buf := hbuf
  -- `wic_start` returns as soon as the walk does
  have hrun (fuel : Nat) : ∃ (tx : Stream) (f : Stream → Status × World σ),
      wicStart cb fuel w =
        (putHeaders (drawKey cb w₁).2.heap fuel (drawKey cb w₁).2.inst.txHeader tx).map f := by
    unfold wicStart startClient
    rw [if_pos hs]
    dsimp only
    rw [hu]
    dsimp only
    rw [hb]
    exact ⟨_, _, rfl⟩
  constructor
  · rintro ⟨fuel, r, hstart⟩
    obtain ⟨tx, f, hput⟩ := hrun fuel
    rw [hstart] at hput
    obtain ⟨tx', hput, -⟩ := Option.map_eq_some_iff.mp hput.symm
    obtain ⟨l, hl, hwhole⟩ := chain_of_putHeaders hput
    exact ⟨l, hl, hwhole⟩
  · rintro ⟨l, hl, hwhole⟩
    obtain ⟨tx, f, hput⟩ := hrun l.length
    rw [putHeaders_of_chain hl hwhole] at hput
    exact ⟨l.length, _, hput⟩

/-- **In a run every buffer on loan goes back before anything else happens, and none is on loan
between the calls, exactly when no loan was smaller than what had been asked for; and a `wic_start`
that takes a buffer behind it returns, and gives it back, exactly when the header list that it finds
has an end, and its headers have a name and a value.** -/
theorem Reachable.leases_returned {allowed : Caller → Call → Prop} {w : World σ}
    (h : Reachable allowed w) (cb : Callbacks σ) :
    leases.run none w.log = some none ∧ (Borrows cb w → ∃ fuel r, wicStart cb fuel w = some r) ↔
      (∀ minSize type buf max, .buffer minSize type (some buf) max ∈ w.log → minSize ≤ max) ∧
        (Borrows cb w → ∃ l, Listed (listing cb w) l) := by
  refine and_congr ?_ (forall_congr' Borrows.returns_iff)
  rw [h.trades.returned_iff]
  constructor
  · intro hall minSize type buf max hmem
    exact hall _ hmem
  · intro hall e he
    cases e with
    | buffer minSize type buf max =>
      cases buf with
      | none => trivial
      | some buf => exact hall minSize type buf max he
    | _ => trivial

/-- The loans of a session that opens are as large as asked for, and it is not started again. -/
theorem leases_returned_sample : ∃ w : World Unit, w.inst.state = .open ∧
    (∀ minSize type buf max, .buffer minSize type (some buf) max ∈ w.log → minSize ≤ max) ∧
    (Borrows (Sample.host id) w → ∃ l, Listed (listing (Sample.host id) w) l) := by
  have hrun : (session (Sample.host id) Sample.arg () [Sample.response]).map (fun w =>
      (w.inst.state, leases.run none w.log)) = some (.open, some none) := by
    decide +kernel
  obtain ⟨w, hw, heq⟩ := Option.map_eq_some_iff.mp hrun
  have hreach : Reachable (fun _ _ => True) w := session_reachable (.passive Sample.host_passive) hw
  obtain ⟨ho, hback⟩ := Prod.mk.inj heq
  have hno : ¬Borrows (Sample.host id) w := fun hb => by simp [hb.1] at ho
  exact ⟨w, ho, (hreach.leases_returned _).mp ⟨hback, fun hb => absurd hb hno⟩⟩

namespace Sample

/-- An application whose buffers for frames are one byte smaller than what is asked for. -/
def shortHost : Callbacks Unit :=
  { host id with
    onBuffer := fun minSize _ w => ((some 0, if minSize = 0 then 70000 else minSize - 1), w) }

/-- A buffer that is too small for a frame is not given back. -/
theorem short_buffer_kept : ∃ w : World Unit, Reachable (fun _ _ => True) w ∧
    leases.run none w.log ≠ some none := by
  have hrun : (session shortHost arg () [response]).map (fun w =>
      leases.run none (Call.run shortHost (.sendBinary true .null) w).log) = some none := by
    decide +kernel
  obtain ⟨w, hw, heq⟩ := Option.map_eq_some_iff.mp hrun
  have hcb : Reentrant (fun _ _ => True) shortHost := .passive { host_passive with
    onBuffer := fun _ _ w => Edits.refl w }
  refine ⟨Call.run shortHost (.sendBinary true .null) w,
    .call (session_reachable hcb hw) hcb trivial, ?_⟩
  rw [heq]
  exact nofun

/-- A call of `wic_set_header`, or a change of an object, leads on in a run. -/
theorem reachable_header {w : World Unit} (h : Reachable (fun _ _ => True) w) (c : HeaderCall) :
    Reachable (fun _ _ => True) (c.run w) := by
  cases c with
  | set a =>
    have hrun : Reachable (fun _ _ => True) (Call.run (host id) (.setHeader a) w) :=
      h.call (.passive host_passive) trivial
    exact hrun
  | assign a name value => exact h.edit rfl

/-- A `wic_start` that finds a header registered twice takes a buffer and does not return. -/
theorem twice_registered_kept : ∃ w : World Unit, Reachable (fun _ _ => True) w ∧
    leases.run none w.log = some none ∧ Borrows (host id) w ∧
    ∀ fuel, wicStart (host id) fuel w = none := by
  -- the instance that `wic_init` makes, as computed
  have hinit : (wicInit arg {}).map (fun i => (i.state, i.txHeader, i.rand,
      (Http.httpParserParseUrl (i.url.getD []) {}).isSome)) = some (.init, none, false, true) := by
    decide +kernel
  obtain ⟨inst, hinst, heq⟩ := Option.map_eq_some_iff.mp hinit
  simp only [Prod.mk.injEq] at heq
  obtain ⟨hs, htx, hrand, hurl⟩ := heq
  let w₀ : World Unit := { inst, heap := fun _ => {}, log := [], app := () }
  have hw₀ : Reachable (fun _ _ => True) w₀ := .init hinst
  have hreach (cs : List HeaderCall) {w : World Unit} (hw : Reachable (fun _ _ => True) w) :
      Reachable (fun _ _ => True) (runHeaders cs w) := by
    induction cs generalizing w with
    | nil => exact hw
    | cons c cs ih => exact ih (reachable_header hw c)
  have hrun : (runHeaders registeredTwice w₀).inst = { inst with txHeader := some 1 } := rfl
  have hlog : (runHeaders registeredTwice w₀).log = [] := rfl
  -- the list of the calls repeats a header, so that the walk has no end
  obtain ⟨hnodup, -⟩ | ⟨-, hendless⟩ := runHeaders_listed (w := w₀) htx registeredTwice
  · exact absurd hnodup (by
      show ¬([1, 1] : List Nat).Nodup
      decide)
  · have hw := hreach registeredTwice hw₀
    generalize runHeaders registeredTwice w₀ = w at hrun hlog hendless hw
    have hborrows : Borrows (host id) w := by
      refine ⟨?_, ?_, rfl⟩
      · rw [hrun]
        exact hs
      · rw [hrun]
        exact hurl
    have hlisting : (listing (host id) w).inst = w.inst ∧ (listing (host id) w).heap = w.heap := by
      unfold listing drawKey
      rw [if_neg (by rw [lease_inst]; show ¬w.inst.rand = true; simp [hrun, hrand])]
      exact ⟨rfl, rfl⟩
    refine ⟨w, hw, by rw [hlog]; rfl, hborrows, fun fuel => ?_⟩
    cases hstart : wicStart (host id) fuel w with
    | none => rfl
    | some r =>
      obtain ⟨l, hl, -⟩ := hborrows.returns_iff.mp ⟨fuel, r, hstart⟩
      rw [hlisting.1, hlisting.2] at hl
      exact absurd hl (hendless l)

/-- **Buffers that are not given back**: one that is too small for a frame, and the one of a `wic_start`
that finds a header registered twice. -/
theorem buffers_kept :
    (∃ w : World Unit, Reachable (fun _ _ => True) w ∧ leases.run none w.log ≠ some none) ∧
    ∃ w : World Unit, Reachable (fun _ _ => True) w ∧ leases.run none w.log = some none ∧
      Borrows (host id) w ∧ ∀ fuel, wicStart (host id) fuel w = none :=
  ⟨short_buffer_kept, twice_registered_kept⟩

end Sample

end Wic
