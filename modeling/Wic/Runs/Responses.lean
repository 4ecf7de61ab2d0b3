import Wic.Handshake.Lookup
import Wic.Receiver.Obliging
import Wic.Runs.Invariant

/-!
# Responses

A run up to the response: an instance that has not been started is as `wic_init` left it, one that
has been started has sent a request and waits, and every block of data up to the end of the response
adds to its header store. When the response is complete the instance is judged by the fields that
were reported.

## Main definitions

* `Inst.Untouched`: an instance before its response
* `Awaits`: the instance in the middle of the response
* `Response`, `Completes`: the blocks up to the end of the response, and what they leave

## Main results

* `Reachable.untouched`, `Awaits.parse`
* `Awaits.complete`: the instance when the response is complete
-/

namespace Wic

open Http (Errno Callback HttpParser)

variable {σ : Type}

/-! ## Before the response -/

/-- What a response finds. -/
structure Inst.Untouched (i : Inst) : Prop where
  http : i.http = {}
  headerState : i.headerState = .idle
  store : i.rx.s.Keeps []
  pos : i.pos = 0
  statusCode : i.statusCode = 0
  redirectUrl : i.redirectUrl = none

section Untouched

variable {w w' : World σ} {allowed : Caller → Call → Prop} {cb : Callbacks σ}

theorem Inst.Untouched.of_eq {i j : Inst} (h : i.Untouched) (hhttp : j.http = i.http)
    (hstate : j.headerState = i.headerState) (hrx : j.rx = i.rx) (hpos : j.pos = i.pos)
    (hcode : j.statusCode = i.statusCode) (hurl : j.redirectUrl = i.redirectUrl) :
    j.Untouched :=
  ⟨hhttp.trans h.http, hstate.trans h.headerState, hrx ▸ h.store, hpos.trans h.pos,
    hcode.trans h.statusCode, hurl.trans h.redirectUrl⟩

theorem wicInit_untouched {arg : InitArg} {u : Http.HttpParserUrl} {inst : Inst}
    (h : wicInit arg u = some inst) : inst.Untouched := by
  have hkeeps : (streamInit arg.rxBase arg.rx arg.rxMax).Keeps [] :=
    .nil ⟨Nat.zero_le _, Nat.le_trans (Nat.mod_le _ _) arg.rxMax_le⟩ rfl rfl rfl
  unfold wicInit at h
  by_cases hset : (!arg.onSend || !arg.onBuffer) = true
  · rw [if_pos hset] at h
    cases h
  rw [if_neg hset] at h
  split at h
  · cases h
  split at h
  · cases h
  by_cases hrole : arg.role = .client
  · rw [if_neg (not_not.mpr hrole)] at h
    cases h
    exact ⟨rfl, rfl, hkeeps, rfl, rfl, rfl⟩
  · rw [if_pos hrole] at h
    cases h

/-- A send before the start is refused. -/
theorem Send.run_of_init (hs : w.inst.state = .init) (send : Send) :
    (send.run cb w).2 = w.emit (.status .notOpen) := by
  have hallowed : allowedToSend w = (false, w) := by simp [allowedToSend, hs]
  rw [send.run_eq, hallowed]
  rfl

/-- A call before the start leaves the instance untouched, or closes it. -/
theorem Call.run_of_init (cb : Callbacks σ) (hs : w.inst.state = .init) (h : w.inst.Untouched) (c : Call) :
    (c.run cb w).inst.state = .closed ∨ (c.run cb w).inst.Untouched := by
  -- a send is refused before the start
  have hsend (send : Send) : (send.run cb w).2.inst.Untouched := by
    rw [send.run_of_init hs]
    exact h
  have hclose (code : UInt16) (reason : Payload) :
      (Wic.closeWithReason cb code reason .close w).inst.state = .closed := by
    unfold Wic.closeWithReason
    rw [hs]
    rfl
  cases c with
  | sendBinary fin data => exact .inr (hsend (.binary fin data))
  | sendText fin data => exact .inr (hsend (.text fin data))
  | send encoding fin data =>
    right
    simp only [run, wicSend]
    split_ifs
    · exact hsend (.binary fin data)
    · exact hsend (.text fin data)
  | sendPing => exact .inr (hsend (.ping .null))
  | sendPingWithPayload data => exact .inr (hsend (.ping data))
  | close => exact .inl (hclose closeNormal .null)
  | closeWithReason code reason => exact .inl (hclose code reason)
  | setHeader header =>
    right
    simp only [run, wicSetHeader]
    split_ifs
    · exact h.of_eq rfl rfl rfl rfl rfl rfl
    · exact h
  | rewindGetNextHeader => exact .inr (h.of_eq rfl rfl rfl h.pos.symm rfl rfl)
  | getNextHeader =>
    right
    -- no field has been stored yet
    have hend : w.inst.rx.s.pos = 0 := by
      have htext := (h.store.fits (Nat.zero_le _)).2
      rw [← h.store.ok.length_text, htext, List.length_nil]
    have hnone : wicGetNextHeader w = (none, w) := by
      unfold wicGetNextHeader
      dsimp only
      rw [if_neg (by omega)]
    simp only [run, hnone]
    exact h

theorem afterHttp_ne_init (hs : w.inst.state = .parseHandshake ∨ w.inst.state = .ready) :
    (afterHttp cb w).inst.state ≠ .init := by
  unfold afterHttp
  split
  · nofun
  split
  · nofun
  · rcases hs with hs | hs
    · rw [hs]
      nofun
    · contradiction

/-- `wic_parse` does not lead back to the start. -/
theorem wicParse_ne_init {G : Prop} (hcb : cb.Respect (QuietAt G)) (h : Invariant w)
    (hs : w.inst.state ≠ .init) {data : List UInt8} {n : Nat}
    (hrun : wicParse cb data w = some (n, w')) : w'.inst.state ≠ .init := by
  have hlead {w w' : World σ} (ho : w.inst.state = .open)
      (hl : w.inst.state.Leads w'.inst.state) : w'.inst.state ≠ .init := by
    rw [ho] at hl
    rcases hl.open_or with hl | hl <;> rw [hl] <;> nofun
  obtain ⟨n', w'', hrun', -, hne⟩ := wicParse_induction (fun w => w.inst.state ≠ .init) hcb h data
    (fun hp _ => afterHttp_ne_init ((httpParserExecute_parsing data).state.imp_left (·.trans hp)))
    (fun w hl _ => hlead hl.state (settle_receiving hcb hl.receiving).2.state)
    (fun w b hl hrest _ => hlead hl.state (consume_setup hcb hl.role b).state)
    (fun w f _ hne => hne) hs
  rw [hrun] at hrun'
  obtain ⟨-, rfl⟩ := Prod.mk.inj (Option.some.inj hrun')
  exact hne

/-- **Before the start an instance is as `wic_init` left it.** -/
theorem Reachable.untouched (h : Reachable allowed w) (hs : w.inst.state = .init) :
    w.inst.Untouched := by
  induction h with
  | init hinit => exact wicInit_untouched hinit
  | edit _ he ih =>
    rw [he.inst] at hs ⊢
    exact ih hs
  | @call cb c w h hcb hc ih =>
    have hlead := (Call.run_quiet hcb.quiet h.invariant.role c False.elim).state
    -- no call goes back to `INIT`
    have hbefore : w.inst.state = .init := by
      rcases hlead with hl | hl | ⟨-, hl⟩
      · exact hl ▸ hs
      · cases hl.symm.trans hs
      · cases hl.symm.trans hs
    rcases Call.run_of_init cb hbefore (ih hbefore) c with hclosed | hu
    · cases hclosed.symm.trans hs
    · exact hu
  | start h hcb hrun ih =>
    have hst := startClient_starts hcb.quiet hrun
    rcases hst.state with hl | ⟨-, hl⟩
    · have hu := ih (hl ▸ hs)
      refine hu.of_eq ?_ ?_ ?_ ?_ ?_ ?_ <;> rw [hst.inst]
    · cases hl.symm.trans hs
  | @parse cb data w n w' h hcb hrun ih =>
    -- and before the start `wic_parse` does nothing
    by_cases hw : w.inst.state = .init
    · have hidle : wicParse cb data w = some (data.length, w) :=
        wicParse_of_idle (by rw [hw]; nofun) (by rw [hw]; nofun) data
      rw [hrun] at hidle
      obtain ⟨-, rfl⟩ := Prod.mk.inj (Option.some.inj hidle)
      exact ih hw
    · exact absurd hs (wicParse_ne_init hcb.quiet h.invariant hw hrun)

end Untouched

/-! ## In the middle of the response -/

/-- The instance waits for more of a response of which `calls` have been reported, its parser `p`;
`w` is the world before the response. -/
structure Awaits (w : World σ) (calls : List Callback) (p : HttpParser) (w' : World σ) : Prop where
  state : w.inst.state = .parseHandshake
  idle : w.inst.headerState = .idle
  errno : p.httpErrno = .ok
  sound : Sound p.state (startLocals p) (calls.foldl leaves .idle)
  orderly : Orderly .idle calls
  incomplete : .messageComplete ∉ calls
  names : CleanNames calls
  answered : w' = answer calls (setHttp p w)

namespace Awaits

variable {w w₁ w' : World σ} {calls : List Callback} {p : HttpParser} {cb : Callbacks σ}
  {data : List UInt8}

theorem start (hs : w.inst.state = .parseHandshake) (hu : w.inst.Untouched) :
    Awaits w [] {} w where
  state := hs
  idle := hu.headerState
  errno := rfl
  sound := ⟨nofun, rfl, rfl⟩
  orderly := trivial
  incomplete := nofun
  names := nofun
  answered := by
    rw [answer_nil, ← hu.http, setHttp_self]

theorem part (h : Awaits w calls p w₁) (q : HttpParser) : AnswersPart calls (setHttp q w) := by
  apply answersPart _ h.incomplete
  rw [setHttp_headerState, h.idle]
  exact h.orderly

/-- A block more. -/
theorem execute (h : Awaits w calls p w₁) (data : List UInt8) :
    (httpParserExecute data w₁).2 =
      answer (calls ++ (report data p).1) (setHttp (report data p).2 w) := by
  have hpart := h.part p
  have hhttp : w₁.inst.http = p := by
    rw [h.answered, hpart.http, setHttp_http]
  have hstate : w₁.inst.headerState = calls.foldl leaves .idle := by
    rw [h.answered, hpart.state, setHttp_headerState, h.idle]
  have hrun : (httpParserExecute data w₁).2 = _ :=
    httpParserExecute_eq (by rw [hhttp, hstate]; exact h.sound)
  rw [hrun, hhttp, h.answered, ← hpart.setHttp, setHttp_setHttp, answer_append]

variable (cb) in
/-- **The response goes on behind a block of it.** -/
theorem parse (h : Awaits w calls p w₁) (hm : .messageComplete ∉ (report data p).1)
    (he : (report data p).2.httpErrno = .ok) :
    ∃ w₂, wicParse cb data w₁ = some (data.length, w₂) ∧
      Awaits w (calls ++ (report data p).1) (report data p).2 w₂ := by
  obtain ⟨horderly, hsound, -⟩ := report_sound data h.sound
  have hnames : CleanNames (report data p).1 := report_names h.sound
  have hrun := h.execute data
  -- the block is one more part of a response that is under way
  have hnext : Awaits w (calls ++ (report data p).1) (report data p).2
      (httpParserExecute data w₁).2 := {
    state := h.state
    idle := h.idle
    errno := he
    sound := by
      rw [List.foldl_append]
      exact hsound hm he
    orderly := (orderly_append h.incomplete).mpr ⟨h.orderly, horderly⟩
    incomplete := by simpa using ⟨h.incomplete, hm⟩
    names := h.names.append hnames
    answered := hrun }
  have hpart := hnext.part (report data p).2
  have hwaits {w' : World σ} {calls : List Callback} {q : HttpParser} (h : Awaits w calls q w') :
      w'.inst.state = .parseHandshake := by
    obtain ⟨s, state, hw⟩ := (h.part q).frame
    rw [h.answered, hw]
    exact h.state
  have hhttp : (httpParserExecute data w₁).2.inst.http.httpErrno = .ok := by
    rw [hrun, hpart.http]
    exact he
  -- nothing is judged before the response is complete
  have hafter : afterHttp cb (httpParserExecute data w₁).2 = (httpParserExecute data w₁).2 := by
    unfold afterHttp
    rw [if_neg (not_not.mpr hhttp), if_neg]
    rw [hwaits hnext]
    intro h
    cases h
  refine ⟨_, ?_, hnext⟩
  rw [wicParse, parseHandshake_eq cb (hwaits h), hafter]
  dsimp only
  rw [parseWebsocket, if_neg fun h => by cases (hwaits hnext).symm.trans h]
  simp only [Option.map_some, hwaits hnext]
  rfl

end Awaits

theorem report_failed {p : HttpParser} (he : p.httpErrno ≠ .ok) (data : List UInt8) :
    report data p = ([], p) := if_pos he

theorem reportAll_failed {p : HttpParser} (he : p.httpErrno ≠ .ok) (blocks : List (List UInt8)) :
    reportAll blocks p = ([], p) := by
  induction blocks with
  | nil => rfl
  | cons data blocks ih => simp only [reportAll, report_failed he, ih, List.append_nil]

/-- **The response goes on behind blocks of it.** -/
theorem Awaits.parseAll {w w₁ : World σ} {calls : List Callback} {p : HttpParser}
    (cb : Callbacks σ) (h : Awaits w calls p w₁) {blocks : List (List UInt8)}
    (hm : .messageComplete ∉ (reportAll blocks p).1) (he : (reportAll blocks p).2.httpErrno = .ok) :
    ∃ w₂, wicParseAll cb blocks w₁ = some w₂ ∧
      Awaits w (calls ++ (reportAll blocks p).1) (reportAll blocks p).2 w₂ := by
  induction blocks generalizing w₁ calls p with
  | nil => exact ⟨w₁, rfl, by simpa [reportAll] using h⟩
  | cons data blocks ih =>
    simp only [reportAll, List.mem_append, not_or] at hm he ⊢
    have hok : (report data p).2.httpErrno = .ok := by
      by_contra hno
      rw [reportAll_failed hno] at he
      exact hno he
    obtain ⟨w₂, hrun, h₂⟩ := h.parse cb hm.1 hok
    obtain ⟨w₃, hrest, h₃⟩ := ih h₂ hm.2 he
    refine ⟨w₃, ?_, by rwa [List.append_assoc] at h₃⟩
    simp only [wicParseAll, List.foldlM_cons, hrun, Option.map_some, Option.bind_eq_bind,
      Option.bind_some]
    exact hrest

/-! ## The end of the response -/

/-- A complete response: the blocks that come before the one with its end, and that one. -/
structure Response where
  blocks : List (List UInt8)
  last : List UInt8
  goesOn : .messageComplete ∉ (reportAll blocks {}).1
  errno : (reportAll blocks {}).2.httpErrno = .ok
  complete : .messageComplete ∈ (report last (reportAll blocks {}).2).1

namespace Response

variable (r : Response)

/-- The callbacks the parser reports the response with. -/
def calls : List Callback := (reportAll r.blocks {}).1 ++ (report r.last (reportAll r.blocks {}).2).1

/-- The parser behind the response: its status code, and whether it is an upgrade. -/
def parser : HttpParser := (report r.last (reportAll r.blocks {}).2).2

/-- The fields of the response. -/
def fields : List (List UInt8 × List UInt8) := fieldsOf r.calls

end Response

/-- The instance when the response is complete, before it is judged. -/
structure Completes (r : Response) (w w' : World σ) : Prop where
  frame : ∃ s state, w' = ((setHttp r.parser w).update fun i =>
    { i with rx.s := s, headerState := state }).setState .ready
  store : w'.inst.rx.s.Keeps (Fields.layout 0 r.fields)
  size : w'.inst.rx.s.size = w.inst.rx.s.size
  names : ∀ f ∈ r.fields, 0 ∉ f.1
  errno : r.parser.httpErrno = .ok

/-- The callbacks of an orderly response end with its end. -/
theorem Orderly.split {h : HeaderState} {calls : List Callback} (ho : Orderly h calls)
    (hm : .messageComplete ∈ calls) : ∃ calls', calls = calls' ++ [.messageComplete] ∧
      .messageComplete ∉ calls' ∧ Orderly h calls' ∧ calls'.foldl leaves h ≠ .field := by
  induction calls generalizing h with
  | nil => cases hm
  | cons c calls ih =>
    have hrest (hc : c ≠ .messageComplete) : .messageComplete ∈ calls :=
      (List.mem_cons.mp hm).resolve_left hc.symm
    cases c with
    | headerField bytes =>
      obtain ⟨calls', rfl, hm', ho', hf⟩ := ih (h := .field) ho (hrest nofun)
      exact ⟨.headerField bytes :: calls', rfl, by simpa using hm', ho', hf⟩
    | headerValue bytes =>
      obtain ⟨calls', rfl, hm', ho', hf⟩ := ih (h := .value) ho.2 (hrest nofun)
      exact ⟨.headerValue bytes :: calls', rfl, by simpa using hm', ⟨ho.1, ho'⟩, hf⟩
    | messageComplete =>
      obtain ⟨hf, rfl⟩ := ho
      exact ⟨[], rfl, nofun, trivial, hf⟩

theorem hear_state {calls : List Callback} {b : Block} (ho : Orderly b.part.state calls)
    (hm : .messageComplete ∉ calls) :
    (calls.foldl Block.hear b).part.state = calls.foldl leaves b.part.state := by
  induction calls generalizing b with
  | nil => rfl
  | cons c calls ih =>
    have hsplit : Orderly b.part.state ([c] ++ calls) := ho
    have hc : c ≠ .messageComplete := by
      rintro rfl
      exact hm List.mem_cons_self
    rw [orderly_append (by simpa using hc.symm)] at hsplit
    obtain ⟨hone, hrest⟩ := hsplit
    have hstate := Block.hear_state hone
    rw [List.foldl_cons, List.foldl_cons, ← hstate]
    apply ih
    · rw [hstate]
      exact hrest
    · exact fun h => hm (List.mem_cons_of_mem _ h)

/-- **What the last block of a response leads to.** -/
theorem Awaits.complete {r : Response} {w w₁ : World σ} (hu : w.inst.Untouched)
    (h : Awaits w (reportAll r.blocks {}).1 (reportAll r.blocks {}).2 w₁) :
    ∃ w', (httpParserExecute r.last w₁).2 = judged w' ∧ Completes r w w' := by
  obtain ⟨horderly, -, herrno⟩ := report_sound r.last h.sound
  -- the callbacks in front of the last one, which store the fields
  have hall : Orderly .idle r.calls := (orderly_append h.incomplete).mpr ⟨h.orderly, horderly⟩
  obtain ⟨calls, hcalls, hm, ho, hf⟩ := hall.split (List.mem_append_right _ r.complete)
  have hstate : (setHttp r.parser w).inst.headerState = .idle := h.idle
  have hempty : Records {} (setHttp r.parser w) := ⟨hstate, hu.store⟩
  have hstores : Records (calls.foldl Block.hear {}) (answer calls (setHttp r.parser w)) :=
    answer_stores hempty ho hm
  have hpart : AnswersPart calls (setHttp r.parser w) := answersPart (hstate ▸ ho) hm
  have hfields : r.fields = (calls.foldl Block.hear {}).fields := by
    rw [Response.fields, hcalls, fieldsOf, List.foldl_append]
    rfl
  -- the last one closes the block and judges it
  have hrun : (httpParserExecute r.last w₁).2 =
      respondOr .messageComplete (answer calls (setHttp r.parser w)) := by
    rw [h.execute]
    show answer r.calls (setHttp r.parser w) = _
    rw [hcalls, answer_append]
    rfl
  have hbetween : (calls.foldl Block.hear {}).part.state ≠ .field := by
    rw [hear_state (b := {}) ho hm]
    exact hf
  obtain ⟨s, hsize, hframe⟩ := completed_frame (answer calls (setHttp r.parser w))
  refine ⟨completed (answer calls (setHttp r.parser w)), ?_, ?_, ?_, ?_, ?_, ?_⟩
  · rw [hrun, respondOr_complete]
  · obtain ⟨s', state, hw⟩ := hpart.frame
    refine ⟨s, state, ?_⟩
    rw [hframe, hw]
    rfl
  · rw [hfields]
    exact hstores.completed hbetween
  · rw [hframe]
    exact hsize.trans (answer_parses (setHttp r.parser w)).size
  · exact fieldsOf_names (h.names.append (report_names h.sound))
  · exact herrno r.complete

end Wic
