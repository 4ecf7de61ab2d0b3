import Wic.Handshake.Stops

/-!
# A response without an end of its own

A response may last until the end of the input, when it says neither how long it is nor that it comes
in chunks. Such a response is no upgrade: the parser takes an upgrade as complete behind its headers,
unless they say how long it is.

## Main definitions

* `Measured`: what the parser keeps of the length of the response

## Main results

* `report_measured`
* `Measured.not_upgrade`: a response that ends at the end of the input is no upgrade
-/

namespace Wic

open Http (Callback Errno HttpParser Locals Pass chr)

/-- Where the length of the response is known, its headers have said so. -/
def Bounded (p : HttpParser) : Prop :=
  p.contentLength ≠ Http.ullongMax → p.flags.contentLength = true ∨ p.flags.chunked = true

/-- What the parser keeps of the length of the response. -/
def Measured (p : HttpParser) : Prop :=
  match p.state with
  | .dead | .startRes | .bodyIdentity | .messageDone => True
  | .chunkSizeStart | .chunkSize | .chunkParameters | .chunkSizeAlmostDone | .chunkData
  | .chunkDataAlmostDone | .chunkDataDone => p.flags.chunked = true
  | .bodyIdentityEof => p.upgrade = false
  | .headersDone =>
    Bounded p ∧ ¬(p.flags.transferEncoding = true ∧ p.flags.contentLength = true)
  | .headerValue =>
    Bounded p ∧ p.headerState ≠ .contentLength ∧
      (p.headerState = .contentLengthNum → p.flags.contentLength = true)
  | _ => Bounded p

section Steps

variable {data : List UInt8} {p q : HttpParser} {x : Locals} {pos : Nat} {ch : UInt8}

theorem Measured.of_newMessage (q : HttpParser) : Measured { q with state := q.newMessage } := by
  unfold HttpParser.newMessage
  split_ifs
  · exact trivial
  · exact trivial

theorem Measured.expect {c : UInt8} {s : Http.State} {e : Errno} (h : Measured p)
    (hs : Measured { p with state := s }) : Measured (Pass.expect p x ch c s e).parser := by
  unfold Pass.expect
  split_ifs
  · exact hs
  · exact h

/-- A byte of a name does not say how long the response is. -/
theorem fieldChar_bounded (h : Bounded p) : Bounded (p.fieldChar ch) := by
  have hword {word : List UInt8} {c : UInt8} {done fail : Http.HeaderState} :
      Bounded (p.matchWord word c done fail) := by
    unfold HttpParser.matchWord
    dsimp only
    split_ifs <;> exact h
  unfold HttpParser.fieldChar
  dsimp only
  split <;> (try split_ifs) <;> first | exact h | exact hword

theorem finish_bounded (h : Bounded p) : Bounded { p with flags := p.flags.finish p.headerState } := by
  intro hne
  have hmax := h hne
  unfold Http.Flags.finish
  split
  all_goals
    first
    | exact hmax
    | exact .inr rfl

theorem countHeaderSize_bounded {v : Nat} {ok : Bool} (hr : p.countHeaderSize v = (q, ok))
    (h : Bounded p) : Bounded q := by
  cases hr
  exact h

theorem countHeaderSize_measured {v : Nat} {ok : Bool} (hr : p.countHeaderSize v = (q, ok))
    (h : Measured p) : Measured q := by
  cases hr
  exact h

/-- The state of a value that is not about the length, or no longer. -/
def Plain (h : Http.HeaderState) : Prop := h ≠ .contentLength ∧ h ≠ .contentLengthNum

instance (h : Http.HeaderState) : Decidable (Plain h) := inferInstanceAs (Decidable (_ ∧ _))

/-- A value that is not about the length says nothing. -/
theorem Plain.silent {h : Http.HeaderState} {P : Prop} (hp : Plain h) :
    h ≠ .contentLength ∧ (h = .contentLengthNum → P) := ⟨hp.1, fun hn => absurd hn hp.2⟩

theorem Plain.measured (hs : p.state = .headerValue) (hb : Bounded p) (hp : Plain p.headerState) :
    Measured p := by
  unfold Measured
  rw [hs]
  exact ⟨hb, hp.silent⟩

/-- A value begins: its length is said, or it is not about the length. -/
theorem valueStart_measured (h : Bounded p) (hq : p.valueStart ch = .ok q) :
    Measured { q with state := .headerValue } := by
  unfold HttpParser.valueStart at hq
  dsimp only at hq
  split at hq
  case h_4 =>
    -- the first digit of a length
    split_ifs at hq
    cases hq
    refine ⟨fun _ => .inl rfl, ?_, fun _ => rfl⟩
    intro hl
    cases hl
  case h_2 | h_6 =>
    cases hq
    refine ⟨h, Plain.silent ?_⟩
    dsimp only
    split_ifs <;> decide
  case h_3 heq | h_5 heq | h_7 heq =>
    cases hq
    refine ⟨h, Plain.silent ?_⟩
    dsimp only
    rw [heq]
    decide
  all_goals
    cases hq
    exact ⟨h, (by decide : Plain .general).silent⟩

/-- A word that is not about the length. -/
theorem matchWord_measured (hs : p.state = .headerValue) (hb : Bounded p) (hp : Plain p.headerState)
    {word : List UInt8} {c : UInt8} {done fail : Http.HeaderState} (hd : Plain done)
    (hf : Plain fail) : Measured (p.matchWord word c done fail) := by
  unfold HttpParser.matchWord
  dsimp only
  split_ifs
  · exact Plain.measured hs hb hf
  · exact Plain.measured hs hb hd
  · exact Plain.measured hs hb hp

/-- A value goes on: a number does so only where a number has begun. -/
theorem valueChar_measured (hs : p.state = .headerValue) (h : Measured p)
    (hq : p.valueChar ch = .ok q) : Measured q := by
  have hvalue : Bounded p ∧ p.headerState ≠ .contentLength ∧
      (p.headerState = .contentLengthNum → p.flags.contentLength = true) := by
    unfold Measured at h
    rwa [hs] at h
  obtain ⟨hb, hl, hnum⟩ := hvalue
  unfold HttpParser.valueChar at hq
  dsimp only at hq
  split at hq
  case h_1 heq => exact absurd heq hl
  case h_2 heq =>
    -- the number goes on
    have hlength := hnum heq
    unfold HttpParser.valueChar.number at hq
    split_ifs at hq
    · cases hq
      exact Plain.measured hs hb (by decide : Plain .contentLengthWs)
    · split at hq
      · rename_i hd
        cases hq
        unfold HttpParser.digit at hd
        split_ifs at hd
        cases hd
        unfold Measured
        dsimp only
        rw [hs]
        exact ⟨fun _ => .inl hlength, hl, fun _ => hlength⟩
      · cases hq
  all_goals
    rename_i heq
    have hp : Plain p.headerState := by
      first
      | rw [heq]
        decide
      | exact ⟨hl, by assumption⟩
    try split_ifs at hq
    all_goals
      cases hq
    try split_ifs
    all_goals
      first
      | exact Plain.measured hs hb hp
      | exact matchWord_measured hs hb hp (by decide) (by decide)
      | exact Plain.measured hs hb (of_decide_eq_true rfl)
      | exact Plain.measured hs (finish_bounded hb) (of_decide_eq_true rfl)

theorem measured_headerValueStart (hb : Bounded p) (h : Measured p) :
    Measured (Http.headerValueStart p x pos ch).parser := by
  unfold Http.headerValueStart
  split
  · exact h
  · rename_i hq
    exact valueStart_measured (p := { p with index := 0 }) hb hq

theorem measured_headerField (hs : p.state = .headerField) (hb : Bounded p) :
    Measured (Http.headerField data p x pos ch).parser := by
  have hname {q : HttpParser} (hq : q.state = .headerField) (hb : Bounded q) : Measured q := by
    unfold Measured
    rwa [hq]
  unfold Http.headerField
  dsimp only
  split
  · exact hname ((fieldChar_state).trans hs) (fieldChar_bounded hb)
  split
  · rename_i hr
    exact hname ((countHeaderSize_state hr).trans hs) (countHeaderSize_bounded hr hb)
  · rename_i hr
    have hb' := countHeaderSize_bounded hr hb
    split_ifs
    · exact hb'
    · exact hname ((countHeaderSize_state hr).trans hs) hb'

theorem measured_headerValue (hs : p.state = .headerValue) (h : Measured p) :
    Measured (Http.headerValue data p x pos ch).parser := by
  have hb : Bounded p := by
    unfold Measured at h
    rw [hs] at h
    exact h.1
  have hover : Measured { p with state := .headerAlmostDone } := hb
  unfold Http.headerValue
  dsimp only
  split
  · split
    all_goals
      rename_i hr
      exact countHeaderSize_measured hr hover
  split
  · split
    all_goals
      rename_i hr
    · have hb' := countHeaderSize_bounded hr hb
      exact hb'
    · exact countHeaderSize_measured hr h
  split
  · exact h
  · split
    · exact h
    · rename_i hq
      exact valueChar_measured hs h hq

/-- Behind the headers the parser reads to the end of the input only where the response is no
upgrade. -/
theorem measured_headersDone (hs : p.state = .headersDone) (h : Measured p) :
    Measured (Http.headersDone p x ch).parser := by
  obtain ⟨hb, hboth⟩ : Bounded p ∧
      ¬(p.flags.transferEncoding = true ∧ p.flags.contentLength = true) := by
    unfold Measured at h
    rwa [hs] at h
  have hskip : p.flags.chunked ≠ true → p.flags.contentLength ≠ true →
      p.contentLength = Http.ullongMax := by
    intro hc hl
    by_contra hne
    exact (hb hne).elim hl hc
  have hunbounded {q : HttpParser} (hc : p.flags.chunked ≠ true) (hq : q.upgrade = p.upgrade)
      (hu : ¬(p.upgrade && (p.flags.skipBody || !(p.flags.chunked ||
        (0 < p.contentLength && p.contentLength ≠ Http.ullongMax)))) = true)
      (hmax : p.contentLength = Http.ullongMax) : q.upgrade = false := by
    rw [hq]
    simpa [hmax, hc] using hu
  unfold Http.headersDone
  dsimp only
  split_ifs with hlf hu hskipped hc hte hzero hknown heof
  · exact h
  · exact .of_newMessage { p with nread := 0 }
  · exact .of_newMessage { p with nread := 0 }
  · exact hc
  · exact hunbounded hc rfl hu (hskip hc fun hl => hboth ⟨hte, hl⟩)
  · exact .of_newMessage { p with nread := 0 }
  · exact trivial
  · exact .of_newMessage { p with nread := 0 }
  · exact hunbounded hc rfl hu (not_not.mp hknown)

theorem measured_headersAlmostDone (hb : Bounded p) (h : Measured p) :
    Measured (Http.headersAlmostDone p x ch).parser := by
  unfold Http.headersAlmostDone
  split_ifs with hlf htrailing hboth
  · exact h
  · exact trivial
  · exact h
  · have hnot : ¬(p.flags.transferEncoding = true ∧ p.flags.contentLength = true) := by
      simpa using hboth
    exact ⟨hb, hnot⟩

theorem measured_chunkSize (hs : p.state = .chunkSize) (hc : p.flags.chunked = true)
    (h : Measured p) : Measured (Http.chunkSize p x ch).parser := by
  unfold Http.chunkSize
  split
  · exact hc
  split
  · split_ifs
    · exact hc
    · exact h
  · split
    · exact h
    · rename_i hd
      unfold HttpParser.digit at hd
      split_ifs at hd
      cases hd
      unfold Measured
      dsimp only
      rw [hs]
      exact hc

/-- **A pass keeps to what is known of the length.** -/
theorem step_measured (h : Measured p) : Measured (Http.step data p x pos ch).parser := by
  have hm := h
  unfold Measured at h
  cases hs : p.state <;> rw [hs] at h <;> dsimp only at h <;> simp only [Http.step, hs]
  -- the states in which the length of the body is decided have lemmas of their own
  case headerField => exact measured_headerField hs h
  case headerValue => exact measured_headerValue hs hm
  case headersDone => exact measured_headersDone hs hm
  case headerValueStart => exact measured_headerValueStart h hm
  case headerValueDiscardWs =>
    unfold Http.headerValueDiscardWs
    split_ifs
    · exact hm
    · exact h
    · exact h
    · exact measured_headerValueStart h hm
  case headerValueDiscardLws =>
    unfold Http.headerValueDiscardLws
    split_ifs
    · exact h
    · exact hm
    · exact finish_bounded h
  case headerValueLws =>
    unfold Http.headerValueLws
    split_ifs
    · exact h
    · exact h
    · exact finish_bounded h
  case headerFieldStart =>
    unfold Http.headerFieldStart
    dsimp only
    split_ifs
    · exact h
    · exact h
    · exact hm
    all_goals exact h
  case headersAlmostDone => exact measured_headersAlmostDone h hm
  case startRes =>
    split_ifs
    · exact hm
    · exact fun hne => absurd rfl hne
    · exact trivial
  case chunkSize => exact measured_chunkSize hs h hm
  case chunkSizeStart =>
    split
    · exact hm
    · exact h
  case chunkSizeAlmostDone =>
    split_ifs
    · exact hm
    · exact fun _ => .inr h
    · exact h
  case messageDone => exact .of_newMessage p
  -- these expect one byte, and leave the length alone
  case resH | resHT | resHTT | resHTTP | resHttpDot | resHttpEnd | resLineAlmostDone |
      headerAlmostDone | headerValueDiscardWsAlmostDone | chunkDataAlmostDone =>
    exact .expect hm h
  case bodyIdentityEof => exact hm
  case bodyIdentity =>
    split_ifs
    · exact trivial
    · exact trivial
  case chunkData =>
    split_ifs
    · exact h
    · exact h
  case resStatusStart => exact h
  all_goals
    split_ifs <;> first | exact hm | exact h

theorem reportByte_measured (fuel : Nat) (h : Measured p) :
    Measured (reportByte data pos ch fuel x p).2.parser := by
  induction fuel generalizing x p with
  | zero => exact h
  | succ fuel ih =>
    have hstep : Measured (Http.step data p x pos ch).parser := step_measured h
    unfold reportByte
    dsimp only
    split_ifs
    · exact hstep
    cases (Http.step data p x pos ch).next with
    | reexecute => exact ih hstep
    | error e => exact hstep
    | advance => exact hstep
    | «return» => exact hstep

theorem counted_measured (v : Nat) (h : Measured p) : Measured (counted v p) := by
  unfold counted
  obtain ⟨q, ok, hq⟩ : ∃ q ok, p.countHeaderSize v = (q, ok) := ⟨_, _, rfl⟩
  have hkept := countHeaderSize_measured hq h
  rw [hq]
  cases ok with
  | false => exact h
  | true => exact hkept

theorem reportLoop_measured (rest : List UInt8) (h : Measured p) :
    Measured (reportLoop data rest pos x p).2 := by
  induction rest generalizing pos x p with
  | nil =>
    have hrun : Measured (countedRun x.run p) := by
      unfold countedRun
      split
      · exact h
      · exact counted_measured _ h
    show Measured (reportLeft data x p).2
    unfold reportLeft
    dsimp only
    split_ifs <;> exact hrun
  | cons ch rest ih =>
    have hcount : Measured (if p.state.parsingHeader && x.run.isNone then counted 1 p else p) := by
      split_ifs
      · exact counted_measured 1 h
      · exact h
    unfold reportLoop
    dsimp only
    generalize (if p.state.parsingHeader && x.run.isNone then counted 1 p else p) = q at hcount ⊢
    have hbyte : Measured (reportByte data pos ch 4 x q).2.parser := reportByte_measured 4 hcount
    split_ifs
    · exact hcount
    generalize reportByte data pos ch 4 x q = r at hbyte ⊢
    obtain ⟨calls, r⟩ := r
    cases r with
    | next x' p' => exact ih hbyte
    | stop p' => exact hbyte

/-- **The parser keeps to what it knows of the length.** -/
theorem report_measured (data : List UInt8) (h : Measured p) : Measured (report data p).2 := by
  unfold report
  split_ifs
  · exact h
  · cases p.atEof with
    | complete => exact h
    | nothing => exact h
    | invalid => exact h
  · exact reportLoop_measured data h

theorem Measured.start : Measured {} := trivial

/-- **A response that the end of the input completes is no upgrade.** -/
theorem Measured.not_upgrade (h : Measured p) (hend : p.atEof = .complete) : p.upgrade = false := by
  have hstate : p.state = .bodyIdentityEof := by
    unfold HttpParser.atEof at hend
    cases hs : p.state <;> rw [hs] at hend <;> first | rfl | cases hend
  unfold Measured at h
  rwa [hstate] at h

end Steps

end Wic
