import Wic.Handshake.Cuts

/-!
# Where the parser stops

`http_parser_execute` returns the number of bytes it has read, and `wic_parse` goes on behind them
when the response is complete. Why the parser has failed is in the parser: it never blames the
callback for the end of the response, which is what `wic_parse` takes for a refusal.

## Main results

* `httpParserExecute_rest`: the bytes that are left
* `report_blames`: a parser that fails by itself does not blame the callback
-/

namespace Wic

open Http (Callback Errno HttpParser Locals Pass)

variable {σ : Type}

/-! ## The bytes that are left -/

section Rest

variable {data : List UInt8} {w : World σ} {x : Locals}

/-- What is left is the end of the bytes. -/
theorem reportRest_suffix (data rest : List UInt8) (pos : Nat) (x : Locals) (p : HttpParser) :
    reportRest data rest pos x p <:+ rest := by
  induction rest generalizing pos x p with
  | nil => exact List.suffix_rfl
  | cons ch rest ih =>
    unfold reportRest
    dsimp only
    generalize (if p.state.parsingHeader && x.run.isNone then counted 1 p else p) = q
    split_ifs
    · exact List.suffix_rfl
    · generalize reportByte data pos ch 4 x q = r
      obtain ⟨calls, r⟩ := r
      cases r with
      | next x' p' => exact (ih (pos + 1) x' p').trans (List.suffix_cons ch rest)
      | stop p' => exact List.suffix_cons ch rest

/-- The bytes read and the bytes left are the bytes there are. -/
theorem executeLoop_count (rest : List UInt8) (pos : Nat)
    (hs : Sound w.inst.http.state x w.inst.headerState) :
    (executeLoop data rest pos x w).1 + (reportRest data rest pos x w.inst.http).length =
      pos + rest.length := by
  induction rest generalizing pos x w with
  | nil => rfl
  | cons ch rest ih =>
    rw [executeLoop_cons ch rest pos rfl hs, reportRest]
    generalize hp : (if w.inst.http.state.parsingHeader && x.run.isNone then counted 1 w.inst.http
      else w.inst.http) = p
    by_cases he : p.httpErrno = .ok
    · rw [if_neg (not_not.mpr he), if_neg (not_not.mpr he)]
      rcases hr : reportByte data pos ch 4 x p with ⟨calls, r⟩
      cases r with
      | stop p' =>
        show pos + 1 + rest.length = pos + (rest.length + 1)
        omega
      | next x' p' =>
        obtain ⟨hpart, hs'⟩ := reportByte_next hp he hs hr
        have hloop := ih (pos + 1) hs'
        rw [hpart.http, setHttp_http] at hloop
        show (executeLoop data rest (pos + 1) x' (answer calls (setHttp p' w))).1 +
          (reportRest data rest (pos + 1) x' p').length = pos + (rest.length + 1)
        omega
    · rw [if_pos he, if_pos he]

/-- **The bytes behind those that were read are left.** -/
theorem httpParserExecute_rest (hne : data ≠ []) (he : w.inst.http.httpErrno = .ok)
    (hs : Sound w.inst.http.state (startLocals w.inst.http) w.inst.headerState) :
    (httpParserExecute data w).1 ≤ data.length ∧ data.drop (httpParserExecute data w).1 =
      reportRest data data 0 (startLocals w.inst.http) w.inst.http := by
  have hlength : data.length ≠ 0 := fun h => hne (List.eq_nil_of_length_eq_zero h)
  have hloop : httpParserExecute data w =
      executeLoop data data 0 (startLocals w.inst.http) w := by
    unfold httpParserExecute
    rw [if_neg (not_not.mpr he), if_neg hlength]
    rfl
  have hcount : (executeLoop data data 0 (startLocals w.inst.http) w).1 + _ = _ :=
    executeLoop_count data 0 hs
  have hsuffix := reportRest_suffix data data 0 (startLocals w.inst.http) w.inst.http
  have hrest := List.suffix_iff_eq_drop.mp hsuffix
  rw [hloop]
  generalize reportRest data data 0 (startLocals w.inst.http) w.inst.http = left at hcount hrest ⊢
  have hread : data.length - left.length = (executeLoop data data 0 (startLocals w.inst.http) w).1 := by
    omega
  rw [← hread]
  exact ⟨Nat.sub_le _ _, hrest.symm⟩

end Rest

/-! ## Errors -/

/-- A pass that does not blame the callback for the end of the response. -/
structure Blames (o : Errno) (pass : Pass) : Prop where
  errno : pass.parser.httpErrno = o
  error : pass.next ≠ .error .cbMessageComplete

section Blames

variable {data : List UInt8} {p : HttpParser} {x : Locals} {pos : Nat} {ch : UInt8} {o : Errno}

theorem Blames.fail {e : Errno} (he : e ≠ .cbMessageComplete) (ho : p.httpErrno = o) :
    Blames o (Pass.fail p x e) := by
  refine ⟨ho, fun h => he ?_⟩
  exact Http.Next.error.inj h

theorem Blames.goto {s : Http.State} (ho : p.httpErrno = o) : Blames o (Pass.goto p x s) :=
  ⟨ho, nofun⟩

theorem Blames.expect {c : UInt8} {s : Http.State} {e : Errno} (he : e ≠ .cbMessageComplete) :
    Blames p.httpErrno (Pass.expect p x ch c s e) := by
  unfold Pass.expect
  split_ifs
  · exact .goto rfl
  · exact .fail he rfl

theorem valueStart_blames {e : Errno} (he : p.valueStart ch = .error e) :
    e ≠ .cbMessageComplete := by
  unfold HttpParser.valueStart at he
  dsimp only at he
  split at he <;> (try split_ifs at he) <;> cases he <;> nofun

theorem valueStart_errno {q : HttpParser} (hq : p.valueStart ch = .ok q) :
    q.httpErrno = p.httpErrno := by
  unfold HttpParser.valueStart at hq
  dsimp only at hq
  split at hq <;> (try split_ifs at hq) <;> cases hq <;> rfl

theorem number_blames {e : Errno} (he : HttpParser.valueChar.number ch p = .error e) :
    e ≠ .cbMessageComplete := by
  unfold HttpParser.valueChar.number at he
  split_ifs at he
  · cases he
    nofun
  · split at he <;> cases he
    nofun

theorem valueChar_blames {e : Errno} (he : p.valueChar ch = .error e) :
    e ≠ .cbMessageComplete := by
  unfold HttpParser.valueChar at he
  dsimp only at he
  split at he <;> (try split_ifs at he) <;>
    first
    | exact number_blames he
    | cases he
      nofun
    | cases he

theorem digit_errno {b d : Nat} {q : HttpParser} (hq : p.digit b d = some q) :
    q.httpErrno = p.httpErrno := by
  unfold HttpParser.digit at hq
  split_ifs at hq
  cases hq
  rfl

theorem blames_headerValueStart : Blames p.httpErrno (Http.headerValueStart p x pos ch) := by
  unfold Http.headerValueStart
  split
  · rename_i he
    exact .fail (valueStart_blames he) rfl
  · rename_i hq
    have hkept := valueStart_errno hq
    exact .goto hkept

theorem blames_headerField : Blames p.httpErrno (Http.headerField data p x pos ch) := by
  unfold Http.headerField
  dsimp only
  split
  · exact ⟨(fieldChar_kept p ch).2, nofun⟩
  split
  · rename_i hr
    exact .fail nofun (countHeaderSize_errno hr)
  · rename_i hr
    have hkept := countHeaderSize_errno hr
    split_ifs
    · exact ⟨hkept, nofun⟩
    · exact .fail nofun hkept

theorem blames_headerValue : Blames p.httpErrno (Http.headerValue data p x pos ch) := by
  unfold Http.headerValue
  dsimp only
  split
  · split
    all_goals
      rename_i hr
      have hkept := countHeaderSize_errno hr
      exact ⟨hkept, nofun⟩
  split
  · split
    all_goals
      rename_i hr
      have hkept := countHeaderSize_errno hr
      exact ⟨hkept, nofun⟩
  split
  · exact .fail nofun rfl
  · split
    · rename_i he
      exact .fail (valueChar_blames he) rfl
    · rename_i hq
      exact ⟨(valueChar_kept hq).2, nofun⟩

/-- **A pass does not blame the callback for the end of the response.** -/
theorem step_blames : Blames p.httpErrno (Http.step data p x pos ch) := by
  have hnew (q : HttpParser) {next : Http.Next} (hn : next ≠ .error .cbMessageComplete) :
      Blames q.httpErrno (Pass.complete q x next) := ⟨rfl, hn⟩
  -- the states with branches first, the others leave the error as it is
  cases hs : p.state <;> simp only [Http.step, hs]
  case headerField => exact blames_headerField
  case headerValue => exact blames_headerValue
  case headerValueStart => exact blames_headerValueStart
  case headerValueDiscardWs =>
    unfold Http.headerValueDiscardWs
    split_ifs
    · exact ⟨rfl, by intro h; cases h⟩
    · exact .goto rfl
    · exact .goto rfl
    · exact blames_headerValueStart
  case headerValueDiscardLws =>
    unfold Http.headerValueDiscardLws
    split_ifs
    · exact .goto rfl
    · exact .fail (by decide) rfl
    · exact ⟨rfl, by intro h; cases h⟩
  case headersDone =>
    unfold Http.headersDone
    dsimp only
    split_ifs
    all_goals
      first
      | exact .fail (by decide) rfl
      | exact .goto rfl
      | exact hnew { p with nread := 0 } (by decide)
  case messageDone =>
    apply hnew
    split_ifs <;> decide
  case headerFieldStart =>
    unfold Http.headerFieldStart
    dsimp only
    split_ifs <;> exact ⟨rfl, by intro h; cases h⟩
  case headerValueLws =>
    unfold Http.headerValueLws
    split_ifs <;> exact ⟨rfl, by intro h; cases h⟩
  case headersAlmostDone =>
    unfold Http.headersAlmostDone
    split_ifs <;> exact ⟨rfl, by intro h; cases h⟩
  case resH | resHT | resHTT | resHTTP | resHttpDot | resHttpEnd | resLineAlmostDone |
      headerAlmostDone | headerValueDiscardWsAlmostDone | chunkDataAlmostDone =>
    exact .expect (by decide)
  case resStatusStart =>
    refine ⟨rfl, ?_⟩
    dsimp only
    split_ifs <;> decide
  case chunkSizeStart => split <;> exact ⟨rfl, by intro h; cases h⟩
  case chunkSize =>
    unfold Http.chunkSize
    split
    · exact .goto rfl
    split
    · split_ifs <;> exact ⟨rfl, by intro h; cases h⟩
    · split
      · exact .fail (by decide) rfl
      · rename_i hq
        exact ⟨digit_errno hq, by intro h; cases h⟩
  case bodyIdentityEof => exact ⟨rfl, by intro h; cases h⟩
  all_goals
    split_ifs <;> exact ⟨rfl, by intro h; cases h⟩

theorem reportByte_blames (he : p.httpErrno ≠ .cbMessageComplete) (fuel : Nat) :
    (reportByte data pos ch fuel x p).2.parser.httpErrno ≠ .cbMessageComplete := by
  induction fuel generalizing x p with
  | zero => exact he
  | succ fuel ih =>
    have hstep : Blames p.httpErrno (Http.step data p x pos ch) := step_blames
    unfold reportByte
    dsimp only
    generalize Http.step data p x pos ch = pass at hstep ⊢
    have hkept : pass.parser.httpErrno ≠ .cbMessageComplete := hstep.errno ▸ he
    split_ifs
    · exact hkept
    cases hn : pass.next with
    | reexecute => exact ih hkept
    | error e =>
      intro h
      obtain rfl : e = .cbMessageComplete := h
      exact hstep.error hn
    | advance => exact hkept
    | «return» => exact hkept

theorem counted_blames (he : p.httpErrno ≠ .cbMessageComplete) (v : Nat) :
    (counted v p).httpErrno ≠ .cbMessageComplete := by
  unfold counted
  obtain ⟨q, ok, hq⟩ : ∃ q ok, p.countHeaderSize v = (q, ok) := ⟨_, _, rfl⟩
  rw [hq]
  cases ok with
  | false => nofun
  | true =>
    intro h
    exact he ((countHeaderSize_errno hq).symm.trans h)

theorem reportLoop_blames (rest : List UInt8) (he : p.httpErrno ≠ .cbMessageComplete) :
    (reportLoop data rest pos x p).2.httpErrno ≠ .cbMessageComplete := by
  induction rest generalizing pos x p with
  | nil =>
    -- a run that is counted leaves the header overflow at most
    have hrun : (countedRun x.run p).httpErrno ≠ .cbMessageComplete := by
      unfold countedRun
      split
      · exact he
      · exact counted_blames he _
    show (reportLeft data x p).2.httpErrno ≠ _
    unfold reportLeft
    dsimp only
    split_ifs <;> exact hrun
  | cons ch rest ih =>
    have hcount : (if p.state.parsingHeader && x.run.isNone then counted 1 p
        else p).httpErrno ≠ .cbMessageComplete := by
      split_ifs
      · exact counted_blames he 1
      · exact he
    unfold reportLoop
    dsimp only
    generalize (if p.state.parsingHeader && x.run.isNone then counted 1 p else p) = q at hcount ⊢
    -- a callback of this byte has not failed, as it would have stopped the loop
    have hbyte : (reportByte data pos ch 4 x q).2.parser.httpErrno ≠ .cbMessageComplete :=
      reportByte_blames hcount 4
    split_ifs
    · exact hcount
    generalize reportByte data pos ch 4 x q = r at hbyte ⊢
    obtain ⟨calls, r⟩ := r
    cases r with
    | next x' p' => exact ih hbyte
    | stop p' => exact hbyte

/-- **A parser that fails by itself does not blame the callback for the end of the response.** -/
theorem report_blames (data : List UInt8) (he : p.httpErrno ≠ .cbMessageComplete) :
    (report data p).2.httpErrno ≠ .cbMessageComplete := by
  unfold report
  split_ifs
  · exact he
  · cases p.atEof with
    | complete => exact he
    | nothing => exact he
    | invalid => nofun
  · exact reportLoop_blames data he

end Blames

end Wic
