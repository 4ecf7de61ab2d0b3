import Wic.Runs.BackPressure
import Wic.Runs.Rules

/-!
# Pings and pongs

Every ping is answered by one pong with the ping's payload, in the order of the pings, wherever the
pings stand between the frames of a message and however often there is no buffer for a pong or a
message is refused. The handlers an application gives for pings and pongs are another matter:
`wic_init` does not store them, so that no instance ever calls one.

## Main definitions

* `AnswersPings`: calls of up to so many bytes answer every ping once
* `Heeds`: the handlers see every ping and every pong

## Main results

* `answersPings_iff`
* `Reachable.heeds_iff`
-/

namespace Wic

open Websocket (Frame Kind encodeAll)

variable {σ : Type}

/-! ## Pongs -/

/-- The pongs that have been sent between two worlds. -/
def World.pongsSince (w w' : World σ) : List (UInt8 × List UInt8) :=
  (w.since w').filterMap Part.pong

/-- No message and no buffer for a pong has been refused between two worlds. -/
def World.unblockedSince (w w' : World σ) : Prop :=
  ∀ e ∈ w'.log.drop w.log.length, e ≠ .answer false ∧ ∀ n max, e ≠ .buffer n .pong none max

/-- Calls of at most `n` bytes answer every ping once. The frames `fs` are received while the instance
is open, as the calls of the sizes `ks₀` show with an application that refuses nothing; behind them
there may be close frames. The calls of the sizes `ks` may be refused, and the ones of the sizes
`more` are not; those of the sizes `ls` hand over the frames without the control frames. -/
def AnswersPings (n : Nat) : Prop :=
  ∀ (σ : Type) (cb cb' : Callbacks σ) (allowed : Caller → Call → Prop) (w w₀ : World σ)
    (fs last : List Frame) (ks₀ ks more : List Nat),
    Reentrant allowed cb → cb.Roomy → Reentrant allowed cb' → cb'.Agreeable → Reachable allowed w →
    w.inst.state = .open → w.inst.rx.state = .opcode → (∀ k ∈ ks₀ ++ ks ++ more, k ≤ n) →
    feed cb' ks₀ (encodeAll fs) w = some ([], w₀) → w₀.inst.state = .open →
    (∀ f ∈ last, f.opcode.val = 8) →
    ∃ rest u rest' v, feed cb ks (encodeAll (fs ++ last)) w = some (rest, u) ∧
      feed cb more rest u = some (rest', v) ∧ w.pongsSince v <+: pings fs ∧
      (u.unblockedSince v → Enough u more rest →
        rest' = [] ∧ (cb.Steady ∨ v.inst.state = .open →
          w.pongsSince v = pings fs ∧
          ∀ ls : List Nat, (∀ k ∈ ls, k ≤ n) →
            Enough w ls (encodeAll (fs.filter fun f => !f.isControl)) →
            ∃ w₁, feed cb' ls (encodeAll (fs.filter fun f => !f.isControl)) w = some ([], w₁) ∧
              w.messages w₁ = w.messages v))

section AnswersPings

variable {cb : Callbacks σ} {w w' : World σ} {bs rest : List UInt8} {ps : List Part}

/-- Only what is handed on counts for what is read off parts that are. -/
theorem Part.filterMap_handed {β : Type} {g : Part → Option β}
    (h : ∀ p : Part, p.handed = false → g p = none) (ps : List Part) :
    (ps.filter Part.handed).filterMap g = ps.filterMap g := by
  rw [List.filterMap_filter]
  refine congrArg (List.filterMap · ps) (funext fun p => ?_)
  by_cases hp : p.handed = true
  · rw [if_pos hp]
  · rw [if_neg hp, h p (by simpa using hp)]

theorem Part.pong_handed (p : Part) (h : p.handed = false) : p.pong = none := by
  cases p with
  | frame type contents =>
    cases type with
    | pong => cases h
    | _ => rfl
  | _ => rfl

theorem Part.messages_handed (ps : List Part) :
    (ps.filter Part.handed).filter Part.isMessage = ps.filter Part.isMessage := by
  rw [List.filter_filter]
  refine List.filter_congr fun p _ => ?_
  cases p <;> rfl

theorem Refused.unblocked (h : Refused cb w w') : ¬w.unblockedSince w' := by
  obtain ⟨es, hes, e, he, hr⟩ := h
  intro hall
  rw [World.unblockedSince, hes, List.drop_left] at hall
  obtain ⟨hmsg, hbuf⟩ := hall e he
  rcases hr with ⟨-, rfl⟩ | ⟨-, n, max, rfl⟩
  · exact hmsg rfl
  · exact hbuf n max rfl

/-- What is handed on is the beginning of what the output hands on, and all of it at the end. -/
theorem Outputs.handed (h : Outputs Part.handed cb bs rest w w' ps) :
    (w.since w').filter Part.handed <+: (w.output bs).filter Part.handed ∧
      (rest = [] → cb.Steady ∨ w'.inst.state = .open →
        (w'.inst.state = .open → w'.inst.rx.Rests) →
        (w.since w').filter Part.handed = (w.output bs).filter Part.handed) := by
  have hsince : (w.since w').filter Part.handed = ps.filter Part.handed := h.shows.eq_shown
  rw [hsince]
  refine ⟨?_, ?_⟩
  · have hpre := h.starts []
    rw [List.append_nil] at hpre
    exact hpre.filter _
  · rintro rfl hend hrests
    by_cases ho : w'.inst.state = .open
    · have hout := h.goes ho []
      have hnil : w'.output [] = [] := RxFrame.output_nil_of_rests (hrests ho)
      rw [List.append_nil, List.append_nil, hnil, List.append_nil] at hout
      rw [hout]
    · have hout := h.ends (hend.resolve_right ho) ho []
      rw [List.append_nil] at hout
      rw [hout]

/-- Close frames behind frames that leave the instance open hand nothing on. -/
theorem output_last {fs last : List Frame} (h : Boundary w)
    (ho : (received .granting (encodeAll fs) w).inst.state = .open)
    (hlast : ∀ f ∈ last, f.opcode.val = 8) :
    (w.output (encodeAll (fs ++ last))).filter Part.handed =
      (w.output (encodeAll fs)).filter Part.handed := by
  have hgrant : (Callbacks.granting : Callbacks σ).Obliging := Callbacks.granting_obliging
  obtain ⟨ps, hps, hout⟩ := output_exchanges hgrant fs last h ho hlast
  obtain ⟨qs, hqs, hout'⟩ := output_exchanges hgrant fs [] h ho (by simp)
  have hps := hps.shows.eq_shown
  have hqs := hqs.shows.eq_shown
  rw [List.filter_true, List.filter_true] at hps hqs
  rw [List.append_nil] at hout'
  rw [hout, hout', ← hps, ← hqs]

end AnswersPings

theorem answersPings_of_lt {n : Nat} (hn : n < 2 ^ 32) : AnswersPings n := by
  intro σ cb cb' allowed w w₀ fs last ks₀ ks more hcb hroom hcb' ha hw ho hb hsizes hfeed₀ ho₀ hlast
  have hbound := hw.boundary ho hb
  have hgrant : (Callbacks.granting : Callbacks σ).Obliging := Callbacks.granting_obliging
  have hheard : cb.Heard Part.handed := hcb.quiet.heard hroom
  have hshort {ls : List Nat} (h : ∀ k ∈ ls, k ≤ n) : ∀ k ∈ ls, k < 2 ^ 32 :=
    fun k hk => Nat.lt_of_le_of_lt (h k hk) hn
  -- the run that is never refused
  obtain ⟨-, -, hopen, -⟩ :=
    read_frames hcb'.calm ha hbound (hshort fun k hk => hsizes k (by simp [hk])) hfeed₀ ho₀
  obtain ⟨ps, hex, hout⟩ := output_exchanges hgrant fs last hbound hopen hlast
  obtain ⟨-, -, hmessages⟩ := messages_without_control hbound hopen
  -- the calls
  obtain ⟨rest, u, hfeed, hfed, -⟩ :=
    feed_fed hheard ks (encodeAll (fs ++ last)) hbound.toLive
  obtain ⟨rest', v, hfeed', ⟨⟨rs, hrs⟩, -, -⟩, hread⟩ := hfed.feed hheard more
  obtain ⟨hpre, hend⟩ := hrs.handed
  have hpongs : ((w.output (encodeAll (fs ++ last))).filter Part.handed).filterMap Part.pong =
      pings fs := by
    rw [hout, Part.filterMap_handed Part.pong_handed, hex.pongs]
  refine ⟨rest, u, rest', v, hfeed, hfeed', ?_, fun hfree hmore => ?_⟩
  · rw [← hpongs, World.pongsSince, ← Part.filterMap_handed Part.pong_handed]
    exact hpre.filterMap Part.pong
  · have hreads := hread (hshort fun k hk => hsizes k (by simp [hk])) fun hr => hr.unblocked hfree
    obtain rfl := hreads.enough hcb.quiet hfed.live hmore
    refine ⟨rfl, fun hsteady => ?_⟩
    have hsame := hend rfl hsteady (hreads.rests hmore.1)
    refine ⟨?_, fun ls hls henough => ?_⟩
    · rw [World.pongsSince, ← Part.filterMap_handed Part.pong_handed, hsame, hpongs]
    · obtain ⟨w₁, hrun, hmirrors⟩ := feed_mirrors hcb'.calm (ha.complies w _) hbound.toLive
        hbound.rests (fun k hk => Nat.lt_of_le_of_lt (List.length_take_le k _) (hshort hls k hk))
        henough
      refine ⟨w₁, hrun, ?_⟩
      rw [hmirrors.messages, hmessages, World.messages, ← Part.messages_handed (w.since v), hsame,
        output_last hbound hopen hlast, Part.messages_handed]

/-- An empty ping. -/
def emptyPing : Frame := .of true 9 none [] (by decide)

/-- Empty pings leave the instance open. -/
theorem received_emptyPings {cb : Callbacks σ} (hcb : cb.Obliging) (m : Nat) {w : World σ}
    (h : Boundary w) :
    (received cb (encodeAll (List.replicate m emptyPing)) w).inst.state = .open := by
  induction m generalizing w with
  | zero =>
    rw [List.replicate_zero, Websocket.encodeAll_nil, received_boundary h]
    exact h.state
  | succ m ih =>
    have hv : headerVerdict w.inst.rx.inside w.inst.rx.s.size emptyPing = none := by
      have hstart : startAllowed w.inst.rx.inside emptyPing = true := rfl
      rw [headerVerdict, if_pos hstart]
      rfl
    obtain ⟨w', ha, hrun⟩ := received_ping_pong hcb h hv (.inl rfl)
    rw [List.replicate_succ, Websocket.encodeAll_cons, hrun]
    exact ih ha.boundary

theorem length_encodeAll_emptyPings (m : Nat) :
    (encodeAll (List.replicate m emptyPing)).length = 2 * m := by
  have hlen : emptyPing.encode.length = 2 := by decide
  induction m with
  | zero => rfl
  | succ m ih =>
    rw [List.replicate_succ, Websocket.encodeAll_cons, List.length_append, ih, hlen]
    omega

/-- Pings that are handed over at once and make up 2^32 bytes are not even read. -/
theorem pings_unread {m : Nat} (hm : 2 * m = 2 ^ 32) : ∃ (w w₀ : World Unit) (ks : List Nat),
    (∀ allowed, Reachable allowed w) ∧ w.inst.state = .open ∧ w.inst.rx.state = .opcode ∧
    (∀ k ∈ ks, k ≤ 1) ∧
    feed Sample.giving ks (encodeAll (List.replicate m emptyPing)) w = some ([], w₀) ∧
    w₀.inst.state = .open ∧ Enough w [2 ^ 32] (encodeAll (List.replicate m emptyPing)) ∧
    feed Sample.giving [2 ^ 32] (encodeAll (List.replicate m emptyPing)) w =
      some (encodeAll (List.replicate m emptyPing), w) := by
  obtain ⟨w, hw, ho, hb, -⟩ := Sample.opens
  have hcb := Sample.giving_obliging
  have hbound := (hw fun _ _ => True).boundary ho hb
  -- handed over byte by byte all the pings are read
  have hopen := received_emptyPings hcb m hbound
  have hlen := length_encodeAll_emptyPings m
  have hkeys : ∀ f ∈ List.replicate m emptyPing, f.key = none := fun f hf => by
    rw [List.eq_of_mem_replicate hf]
    rfl
  have hone : ∀ k ∈ List.replicate (2 * m) 1, k ≤ 1 := fun k hk =>
    Nat.le_of_eq (List.eq_of_mem_replicate hk)
  have hne : List.replicate (2 * m) 1 ≠ [] := by
    refine List.length_pos_iff.mp ?_
    rw [List.length_replicate, hm]
    exact Nat.two_pow_pos 32
  have henough : Enough w (List.replicate (2 * m) 1) (encodeAll (List.replicate m emptyPing)) :=
    hbound.enough hkeys hne (by rw [hlen, List.sum_replicate_nat, Nat.mul_one])
  have henough' : Enough w [2 ^ 32] (encodeAll (List.replicate m emptyPing)) :=
    hbound.enough hkeys (List.cons_ne_nil _ _) (by rw [hlen, hm, List.sum_singleton])
  generalize List.replicate (2 * m) 1 = ks at hone henough
  generalize encodeAll (List.replicate m emptyPing) = bs at hopen hlen henough henough' ⊢
  obtain ⟨w₀, hrun, hagree⟩ := feed_received hcb hbound.toLive hbound.rests (fun k hk =>
    Nat.lt_of_le_of_lt (List.length_take_le k bs)
      (Nat.lt_of_le_of_lt (hone k hk) (by decide : 1 < 2 ^ 32))) henough
  -- handed over at once none is, as their length wraps to zero
  have hunread : wicParse Sample.giving (bs.take (2 ^ 32)) w = some (0, w) := by
    rw [← hm, ← hlen, List.take_length]
    exact hbound.unread hcb.quiet (by rw [hlen, hm, Nat.mod_self])
  refine ⟨w, w₀, ks, hw, ho, hb, hone, hrun, hagree.state.trans hopen, henough', ?_⟩
  rw [feed, hunread]
  rfl

/-- **Every ping gets its pong as long as a stream can count the bytes of every call.** -/
theorem answersPings_iff (n : Nat) : AnswersPings n ↔ n < 2 ^ 32 := by
  refine ⟨fun h => ?_, answersPings_of_lt⟩
  by_contra hn
  obtain ⟨m, hm⟩ : ∃ m, 2 * m = 2 ^ 32 := ⟨2 ^ 31, by decide⟩
  obtain ⟨w, w₀, ks, hw, ho, hb, hone, hrun, ho₀, henough, hunread⟩ := pings_unread hm
  have hroom : Sample.giving.Roomy := fun minSize w => Nat.le_refl _
  have hcb := Sample.giving_obliging
  have hlen := length_encodeAll_emptyPings m
  have hsizes : ∀ k ∈ ks ++ [] ++ [2 ^ 32], k ≤ n := by
    intro k hk
    rw [List.append_nil, List.mem_append, List.mem_singleton] at hk
    rcases hk with hk | rfl
    · exact Nat.le_trans (hone k hk) (by omega)
    · exact Nat.not_lt.mp hn
  obtain ⟨rest, u, rest', v, hfeed, hfeed', -, hread⟩ := h Unit Sample.giving Sample.giving
    (fun _ _ => True) w w₀ (List.replicate m emptyPing) [] ks [] [2 ^ 32] (.passive hcb.toPassive)
    hroom (.passive hcb.toPassive) hcb.agreeable (hw _) ho hb hsizes hrun ho₀ (by simp)
  rw [List.append_nil] at hfeed
  generalize encodeAll (List.replicate m emptyPing) = bs at hunread hlen hfeed henough
  obtain ⟨rfl, rfl⟩ := Prod.mk.inj (Option.some.inj hfeed)
  obtain ⟨rfl, rfl⟩ := Prod.mk.inj (Option.some.inj (hunread.symm.trans hfeed'))
  have hfree : w.unblockedSince w := fun e he => by
    rw [List.drop_length] at he
    cases he
  have hnil := (hread hfree henough).1
  rw [hnil, List.length_nil] at hlen
  omega

/-- 2^31 empty pings that are handed over at once: none of them is read or answered, and the instance
stays open. -/
theorem pings_unanswered : ∃ (m : Nat) (w w₀ : World Unit) (ks : List Nat),
    2 * m = 2 ^ 32 ∧ (∀ allowed, Reachable allowed w) ∧ w.inst.state = .open ∧
    w.inst.rx.state = .opcode ∧ (∀ k ∈ ks, k ≤ 1) ∧
    feed Sample.giving ks (encodeAll (List.replicate m emptyPing)) w = some ([], w₀) ∧
    w₀.inst.state = .open ∧ Enough w [2 ^ 32] (encodeAll (List.replicate m emptyPing)) ∧
    feed Sample.giving [2 ^ 32] (encodeAll (List.replicate m emptyPing)) w =
      some (encodeAll (List.replicate m emptyPing), w) := by
  obtain ⟨m, hm⟩ : ∃ m, 2 * m = 2 ^ 32 := ⟨2 ^ 31, by decide⟩
  obtain ⟨w, w₀, ks, h⟩ := pings_unread hm
  exact ⟨m, w, w₀, ks, hm, h⟩

/-! ## Handlers -/

/-- The handlers for pings and pongs are not set. -/
def Inst.Deaf (i : Inst) : Prop := i.onPing = false ∧ i.onPong = false

section Deaf

variable {w w' : World σ}

theorem Keeps.deaf (h : Keeps w w') (hd : w.inst.Deaf) : w'.inst.Deaf := by
  unfold Inst.Deaf
  rw [h.inst]
  exact hd

theorem KeepsSetup.deaf (h : KeepsSetup w w') (hd : w.inst.Deaf) : w'.inst.Deaf := by
  unfold Inst.Deaf
  rw [h.inst]
  exact hd

/-- `wic_init` sets neither handler, whatever it is given. -/
theorem wicInit_deaf {arg : InitArg} {u : Http.HttpParserUrl} {inst : Inst}
    (h : wicInit arg u = some inst) : inst.Deaf := by
  unfold wicInit at h
  by_cases hset : (!arg.onSend || !arg.onBuffer) = true
  · rw [if_pos hset] at h
    cases h
  rw [if_neg hset] at h
  split at h
  · cases h
  split at h
  · cases h
  by_cases hrole : arg.role = .client
  · rw [if_neg (not_not.mpr hrole)] at h
    cases h
    exact ⟨rfl, rfl⟩
  · rw [if_pos hrole] at h
    cases h

theorem afterHttp_deaf {cb : Callbacks σ} {G : Prop} (hcb : cb.Respect (QuietAt G))
    (hr : w.inst.role = .client) (hd : w.inst.Deaf) : (afterHttp cb w).inst.Deaf := by
  have hset (w' : World σ) (s : State) (h : w'.inst.Deaf) : (w'.setState s).inst.Deaf := h
  unfold afterHttp
  by_cases he : w.inst.http.httpErrno = .ok
  · rw [if_neg (not_not.mpr he)]
    split_ifs
    · exact hset _ _ ((callOnOpen_keeps hcb hr).deaf hd)
    · exact hd
  · rw [if_pos he]
    have h₁ := callOnCloseTransport_quiet hcb hr
    have h₂ := callOnHandshakeFailure_quiet hcb (h₁.role.trans hr)
      (if w.inst.http.httpErrno = .cbMessageComplete then .upgrade else .protocol)
    exact hset _ _ (h₂.toKeeps.deaf (h₁.toKeeps.deaf hd))

/-- **No instance has a handler for pings or pongs.** -/
theorem Reachable.deaf {allowed : Caller → Call → Prop} (h : Reachable allowed w) :
    w.inst.Deaf := by
  induction h with
  | init hinit => exact wicInit_deaf hinit
  | edit _ he ih => exact (Keeps.edits he).deaf ih
  | call hw hcb _ ih =>
    exact (Call.run_quiet hcb.quiet hw.invariant.role _ False.elim).toKeeps.deaf ih
  | start _ hcb hrun ih =>
    unfold Inst.Deaf
    rw [(startClient_starts hcb.quiet hrun).inst]
    exact ih
  | @parse cb data w n w' hw hcb hrun ih =>
    have hhand : (afterHttp cb (httpParserExecute data w).2).inst.Deaf := by
      have hp := httpParserExecute_parsing (w := w) data
      refine afterHttp_deaf hcb.quiet (hp.role.trans hw.invariant.role) ?_
      unfold Inst.Deaf
      rw [hp.inst]
      exact ih
    obtain ⟨n', w'', hrun', -, hdeaf⟩ := wicParse_induction (fun w => w.inst.Deaf) hcb.quiet
      hw.invariant data (fun _ _ => hhand)
      (fun w hl hd => (settle_receiving hcb.quiet hl.receiving).2.deaf hd)
      (fun w b hl _ hd => (consume_setup hcb.quiet hl.role b).deaf hd) (fun w f _ hd => hd) ih
    rw [hrun] at hrun'
    obtain ⟨-, rfl⟩ := Prod.mk.inj (Option.some.inj hrun')
    exact hdeaf

end Deaf

/-- The pongs and the notices of pings. -/
def Part.ofPing : Part → Bool
  | .pinged => true
  | .frame type _ => type = .pong
  | _ => false

/-- The handlers have seen the frames `fs`: every pong was followed by a call of `on_ping`, and for
every pong among the frames there was a call of `on_pong`. -/
def Heeds (fs : List Frame) (w w' : World σ) : Prop :=
  (w.since w').filter Part.ofPing =
      (w.pongsSince w').flatMap (fun contents => [.frame .pong contents, .pinged]) ∧
    (w.since w').count .ponged = pongs fs

section Heeds

variable {allowed : Caller → Call → Prop} {cb : Callbacks σ} {w v : World σ} {fs : List Frame}
  {ks : List Nat}

/-- Bytes that have been read and have left the instance open between two frames leave it open when
nothing is refused: behind a close nothing more would be handed on, not even the pong for a ping. -/
theorem open_of_read {bs : List UInt8} {ps : List Part} (h : Live w) (hv : Boundary v)
    (hread : Outputs Part.handed cb bs [] w v ps) :
    (Wic.received .granting bs w).inst.state = .open := by
  by_contra hno
  have hgrant : (Callbacks.granting : Callbacks σ).Obliging := Callbacks.granting_obliging
  have hheard : (Callbacks.granting : Callbacks σ).Heard Part.handed := hgrant.supplying.heard
  obtain ⟨qs, hqs⟩ := drain_outputs hheard h bs
  have hends (cs : List UInt8) : w.output (bs ++ cs) = qs := hqs.ends hgrant.toPassive.steady hno cs
  have hgoes (cs : List UInt8) : w.output (bs ++ cs) = ps ++ v.output ([] ++ cs) :=
    hread.goes hv.state cs
  have hping : v.output (encodeAll [emptyPing]) = [] := by
    have hsame := (hends []).trans (hends (encodeAll [emptyPing])).symm
    rw [hgoes, hgoes] at hsame
    exact (List.append_cancel_left hsame).symm.trans (RxFrame.output_nil_of_rests hv.rests)
  obtain ⟨rs, hex, hout⟩ := output_exchanges hgrant [emptyPing] [] hv
    (received_emptyPings hgrant 1 hv) (by simp)
  have hpongs := hex.pongs
  rw [← Part.filterMap_handed Part.pong_handed, ← hout, List.append_nil, hping] at hpongs
  cases hpongs

/-- What is made known of frames that have been read: every ping has its pong, and no handler has been
called. -/
theorem Reachable.pongs_read (hw : Reachable allowed w) (hcb : Reentrant allowed cb) (hroom : cb.Roomy)
    (ho : w.inst.state = .open) (hb : w.inst.rx.state = .opcode)
    (hfeed : feed cb ks (encodeAll fs) w = some ([], v)) (hov : v.inst.state = .open)
    (hbv : v.inst.rx.state = .opcode) :
    w.pongsSince v = pings fs ∧ .pinged ∉ w.since v ∧ .ponged ∉ w.since v := by
  have hbound := hw.boundary ho hb
  obtain ⟨hping, hpong⟩ := hw.deaf
  obtain ⟨rest, v', hfeed', ⟨⟨qs, hqs⟩, hlive, -⟩, -⟩ :=
    feed_fed (hcb.quiet.heard hroom) ks (encodeAll fs) hbound.toLive
  obtain ⟨rfl, rfl⟩ := Prod.mk.inj (Option.some.inj (hfeed.symm.trans hfeed'))
  have ho₀ := open_of_read hbound.toLive ⟨hlive hov, hbv⟩ hqs
  obtain ⟨ps, hex, hout⟩ :=
    output_exchanges Callbacks.granting_obliging fs [] hbound ho₀ (by simp)
  rw [List.append_nil] at hout
  have hsame := hqs.handed.2 rfl (.inr hov) fun _ hd => by simp [hbv] at hd
  have hhanded (p : Part) (hp : p.handed = true) (hno : p ∉ ps) : p ∉ w.since v := fun hin => by
    have hmem : p ∈ (w.since v).filter Part.handed := List.mem_filter.mpr ⟨hin, hp⟩
    rw [hsame, hout] at hmem
    exact hno (List.mem_filter.mp hmem).1
  refine ⟨?_, hhanded .pinged rfl (hex.pinged hping), hhanded .ponged rfl (hex.ponged hpong)⟩
  rw [World.pongsSince, ← Part.filterMap_handed Part.pong_handed, hsame, hout,
    Part.filterMap_handed Part.pong_handed, hex.pongs]

/-- Handlers that are not called see only streams in which there is nothing for them. -/
theorem heeds_iff_of_deaf (hpongs : w.pongsSince v = pings fs) (hping : .pinged ∉ w.since v)
    (hpong : .ponged ∉ w.since v) :
    Heeds fs w v ↔ ∀ f ∈ fs, f.opcode.val ≠ 9 ∧ f.opcode.val ≠ 10 := by
  have hcount : (w.since v).count .ponged = 0 := List.count_eq_zero.mpr hpong
  unfold Heeds
  rw [hpongs, hcount]
  constructor
  -- a ping or a pong of the stream would have been seen
  · rintro ⟨hseen, hnone⟩ f hf
    refine ⟨fun h₉ => ?_, fun h₁₀ => ?_⟩
    · have hmem : (0x8a, f.payload) ∈ pings fs :=
        List.mem_map.mpr ⟨f, List.mem_filter.mpr ⟨hf, by simpa using h₉⟩, rfl⟩
      have hpinged : Part.pinged ∈ (w.since v).filter Part.ofPing := by
        rw [hseen]
        exact List.mem_flatMap.mpr ⟨_, hmem, by simp⟩
      exact hping (List.mem_filter.mp hpinged).1
    · have hzero := List.countP_eq_zero.mp hnone.symm f hf
      exact hzero (by simpa using h₁₀)
  · intro hnone
    have hpings : pings fs = [] := by
      rw [pings, List.filter_eq_nil_iff.mpr fun f hf => by simpa using (hnone f hf).1]
      rfl
    refine ⟨?_, ?_⟩
    · rw [hpings, List.flatMap_nil]
      refine List.filter_eq_nil_iff.mpr fun p hp hof => ?_
      cases p with
      | pinged => exact hping hp
      | frame type contents =>
        obtain rfl : type = .pong := by simpa [Part.ofPing] using hof
        have hmem : contents ∈ w.pongsSince v := List.mem_filterMap.mpr ⟨_, hp, rfl⟩
        rw [hpongs, hpings] at hmem
        cases hmem
      | _ => cases hof
    · exact (List.countP_eq_zero.mpr fun f hf => by simpa using (hnone f hf).2).symm

/-- **The handlers see every ping and every pong exactly when there is none.** The frames `fs` are
received while the instance is open: the calls of the sizes `ks`, of which some may be refused, have
read them and have left it open. -/
theorem Reachable.heeds_iff (hw : Reachable allowed w) (hcb : Reentrant allowed cb)
    (hroom : cb.Roomy) (ho : w.inst.state = .open) (hb : w.inst.rx.state = .opcode)
    (hfeed : feed cb ks (encodeAll fs) w = some ([], v)) (hov : v.inst.state = .open)
    (hbv : v.inst.rx.state = .opcode) :
    Heeds fs w v ↔ ∀ f ∈ fs, f.opcode.val ≠ 9 ∧ f.opcode.val ≠ 10 := by
  obtain ⟨hpongs, hping, hpong⟩ := hw.pongs_read hcb hroom ho hb hfeed hov hbv
  exact heeds_iff_of_deaf hpongs hping hpong

end Heeds

/-! ## A session with handlers -/

namespace Sample

/-- A client that gives handlers for pings and pongs. -/
def heedfulArg : InitArg := { arg with onPing := true, onPong := true }

/-- A session of it that reads a ping. -/
theorem reads_ping : ∃ w v : World Unit, session (host id) heedfulArg () [response] = some w ∧
    Reachable (fun _ _ => True) w ∧ w.inst.state = .open ∧ w.inst.rx.state = .opcode ∧
    feed giving [2] (encodeAll [emptyPing]) w = some ([], v) ∧ v.inst.state = .open ∧
    v.inst.rx.state = .opcode := by
  obtain ⟨w, hrun, ho, hb, -⟩ := session_opens
  have hw : Reachable (fun _ _ => True) w := session_reachable (.passive host_passive) hrun
  have hbound := hw.boundary ho hb
  have hcb := giving_obliging
  have hopen := received_emptyPings hcb 1 hbound
  obtain ⟨hbound', -⟩ := received_frames hcb _ hbound hopen
  have henough : Enough w [2] (encodeAll [emptyPing]) := hbound.enough (by simp [emptyPing, Frame.of])
    (List.cons_ne_nil _ _) (by decide)
  obtain ⟨v, hfeed, hagree⟩ := feed_received hcb hbound.toLive hbound.rests
    (fun k _ => length_take_lt (by decide) k) henough
  obtain rfl := hagree.1 hopen
  exact ⟨w, _, hrun, hw, ho, hb, hfeed, hopen, hbound'.boundary⟩

/-- The handlers of that session do not see the ping. -/
theorem heeds_iff_ping : ∃ w v : World Unit, session (host id) heedfulArg () [response] = some w ∧
    feed giving [2] (encodeAll [emptyPing]) w = some ([], v) ∧
    (Heeds [emptyPing] w v ↔ ∀ f ∈ [emptyPing], f.opcode.val ≠ 9 ∧ f.opcode.val ≠ 10) := by
  obtain ⟨w, v, hrun, hw, ho, hb, hfeed, hov, hbv⟩ := reads_ping
  exact ⟨w, v, hrun, hfeed, hw.heeds_iff (.passive giving_obliging.toPassive)
    (fun minSize _ => Nat.le_refl minSize) ho hb hfeed hov hbv⟩

/-- A ping is answered, and the handler that was given for pings is not called. -/
theorem ping_unheeded : ∃ w v : World Unit,
    session (host id) heedfulArg () [response] = some w ∧ w.inst.state = .open ∧
    feed giving [2] (encodeAll [emptyPing]) w = some ([], v) ∧ w.pongsSince v = [(0x8a, [])] ∧
    .pinged ∉ w.since v ∧ ¬Heeds [emptyPing] w v := by
  obtain ⟨w, v, hrun, hw, ho, hb, hfeed, hov, hbv⟩ := reads_ping
  obtain ⟨hpongs, hping, hpong⟩ := hw.pongs_read
    (.passive giving_obliging.toPassive) (fun minSize _ => Nat.le_refl minSize) ho hb hfeed hov hbv
  refine ⟨w, v, hrun, ho, hfeed, hpongs, hping, fun hheeds => ?_⟩
  exact ((heeds_iff_of_deaf hpongs hping hpong).mp hheeds emptyPing (by simp)).1 rfl

end Sample

end Wic
