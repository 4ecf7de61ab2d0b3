import Wic.Handshake.Response

/-!
# The response in pieces

A response comes in blocks, and a block may end anywhere in it. `http_parser_execute` keeps in the
parser what it has to know at the next byte, and reports of a name or a value at the end of a block
what it has of it. So the parser that reads the response byte by byte makes of it what the parser
makes of any blocks: the same fields, the same parser behind them, the same bytes left over.

The two are not in step inside a name or a value. There the parser counts a whole run of bytes when
the run is over, and the count of the parser that reads byte by byte is ahead of it.

## Main definitions

* `Heard`: what becomes of a response
* `hearBytes`: the response byte by byte
* `Ahead`: where the parser is when the other one is ahead of it

## Main results

* `heard_report`: a block is heard like its bytes
* `hearBytes_append`: one block behind the other
-/

namespace Wic

open Http (chr cr lf maxHeaderSize Callback Errno HttpParser Locals Pass)

/-! ## What becomes of a response -/

/-- What has become of a response: more of it is to come, or it is complete and `rest` is left behind
it, or the parser has failed. -/
inductive Heard
  | more (b : Block) (p : HttpParser)
  | complete (b : Block) (p : HttpParser) (rest : List UInt8)
  | failed
  deriving DecidableEq

/-- What the callbacks of a block make of it. -/
def hear (b : Block) (rest : List UInt8) (r : List Callback × HttpParser) : Heard :=
  if .messageComplete ∈ r.1 then .complete (r.1.foldl Block.hear b) r.2 rest
  else if r.2.httpErrno = .ok then .more (r.1.foldl Block.hear b) r.2
  else .failed

/-- The response byte by byte. -/
def hearBytes : List UInt8 → Block → HttpParser → Heard
  | [], b, p => .more b p
  | ch :: rest, b, p =>
    match hear b rest (report [ch] p) with
    | .more b p => hearBytes rest b p
    | .complete b p rest => .complete b p rest
    | .failed => .failed

/-- The bytes behind the one at which the loop of `http_parser_execute` is left. -/
def reportRest (data : List UInt8) : List UInt8 → Nat → Locals → HttpParser → List UInt8
  | [], _, _, _ => []
  | ch :: rest, pos, x, p =>
    let p := if p.state.parsingHeader && x.run.isNone then counted 1 p else p
    if p.httpErrno ≠ .ok then ch :: rest
    else match reportByte data pos ch 4 x p with
      | (_, .next x p) => reportRest data rest (pos + 1) x p
      | (_, .stop _) => rest

section Heard

variable {b : Block} {rest : List UInt8} {calls calls' : List Callback} {p : HttpParser}

/-- Callbacks that do not complete the response are part of what has been heard. -/
theorem hear_append (hm : .messageComplete ∉ calls) :
    hear b rest (calls ++ calls', p) = hear (calls.foldl Block.hear b) rest (calls', p) := by
  simp only [hear, List.mem_append, hm, false_or, List.foldl_append]

theorem hear_failed (hm : .messageComplete ∉ calls) (he : p.httpErrno ≠ .ok) :
    hear b rest (calls, p) = .failed := by
  rw [hear, if_neg hm, if_neg he]

theorem hear_more (hm : .messageComplete ∉ calls) (he : p.httpErrno = .ok) :
    hear b rest (calls, p) = .more (calls.foldl Block.hear b) p := by
  rw [hear, if_neg hm, if_pos he]

/-- The bytes behind a response are not heard. -/
theorem hear_rest (more : List UInt8) (r : List Callback × HttpParser) :
    hear b (rest ++ more) r = match hear b rest r with
      | .more b p => .more b p
      | .complete b p rest => .complete b p (rest ++ more)
      | .failed => .failed := by
  unfold hear
  split_ifs <;> rfl

/-- **What comes behind the bytes is heard behind them.** -/
theorem hearBytes_append (data more : List UInt8) (b : Block) (p : HttpParser) :
    hearBytes (data ++ more) b p = match hearBytes data b p with
      | .more b p => hearBytes more b p
      | .complete b p rest => .complete b p (rest ++ more)
      | .failed => .failed := by
  induction data generalizing b p with
  | nil => rfl
  | cons ch data ih =>
    rw [List.cons_append, hearBytes, hearBytes, hear_rest]
    cases hear b data (report [ch] p) with
    | more b p => exact ih b p
    | complete b p rest => rfl
    | failed => rfl

end Heard

/-! ## What is owed of a name or a value -/

/-- A state outside of names and values. -/
def Outside (s : Http.State) : Prop := s ≠ .headerField ∧ s ≠ .headerValue

/-- The locals behind a mark at `pos`, which there is inside a name or a value only. -/
def opened (pos : Nat) (s : Http.State) : Locals :=
  { fieldMark := if s = .headerField then some pos else none
    valueMark := if s = .headerValue then some pos else none }

/-- The callbacks for the bytes behind the mark. -/
def owed (s : Http.State) (bytes : List UInt8) : List Callback :=
  match s with
  | .headerField => [.headerField bytes]
  | .headerValue => [.headerValue bytes]
  | _ => []

/-- What has been heard when the bytes behind the mark have been. -/
def paid (s : Http.State) (bytes : List UInt8) (b : Block) : Block :=
  (owed s bytes).foldl Block.hear b

section Owed

variable {s : Http.State} {b : Block} {bytes : List UInt8}

instance : Decidable (Outside s) := inferInstanceAs (Decidable (_ ∧ _))

theorem Outside.of_decide (h : decide (Outside s) = true) : Outside s := of_decide_eq_true h

theorem opened_of_outside (h : Outside s) (pos : Nat) : opened pos s = {} := by
  rw [opened, if_neg h.1, if_neg h.2]

theorem not_mem_owed : .messageComplete ∉ owed s bytes := by
  unfold owed
  split <;> simp

theorem owed_of_outside (h : Outside s) : owed s bytes = [] := by
  unfold owed
  split
  · exact absurd rfl h.1
  · exact absurd rfl h.2
  · rfl

theorem paid_of_outside (h : Outside s) : paid s bytes b = b := by
  rw [paid, owed_of_outside h]
  rfl

/-- A name or a value may be heard in two pieces. -/
theorem paid_paid (bytes bytes' : List UInt8) (b : Block) :
    paid s bytes' (paid s bytes b) = paid s (bytes ++ bytes') b := by
  obtain ⟨whole, part⟩ := b
  cases s
  case headerField => cases part <;> simp [paid, owed, Block.hear]
  case headerValue => cases part <;> simp [paid, owed, Block.hear]
  all_goals rfl

end Owed

/-! ## Bytes outside of names and values -/

/-- A pass that leaves a mark at `pos` when it goes on inside a name or a value. -/
def openedPass (pos : Nat) (pass : Pass) : Pass :=
  { pass with locals := opened pos pass.parser.state }

/-- The parser behind a byte, with a mark at `pos` when it is inside a name or a value. -/
def openedAt (pos : Nat) : Reported → Reported
  | .next _ p => .next (opened pos p.state) p
  | .stop p => .stop p

section Outside

variable {data : List UInt8} {p : HttpParser} {pos : Nat} {ch : UInt8}

/-- A pass outside of names and values: it comes to the same wherever the byte is, up to a mark. -/
structure OutsidePass (pos : Nat) (pass₀ pass : Pass) : Prop where
  eq : pass = openedPass pos pass₀
  outside : pass₀.next = .reexecute → Outside pass₀.parser.state

/-- A pass that leaves no mark. -/
theorem OutsidePass.unmarked {pass : Pass} (hl : pass.locals = {})
    (hs : Outside pass.parser.state) : OutsidePass pos pass pass := by
  refine ⟨?_, fun _ => hs⟩
  rw [openedPass, opened_of_outside hs, ← hl]

theorem OutsidePass.expect {c : UInt8} {s : Http.State} {e : Errno} (hp : Outside p.state)
    (hs : Outside s) : OutsidePass pos (Pass.expect p {} ch c s e) (Pass.expect p {} ch c s e) := by
  unfold Pass.expect
  split_ifs
  · exact .unmarked rfl hs
  · exact .unmarked rfl hp

theorem outside_newMessage (p : HttpParser) : Outside p.newMessage := by
  unfold HttpParser.newMessage
  split_ifs <;> exact .of_decide rfl

theorem outsidePass_headerFieldStart (hp : Outside p.state) :
    OutsidePass pos (Http.headerFieldStart p {} 0 ch) (Http.headerFieldStart p {} pos ch) := by
  unfold Http.headerFieldStart
  dsimp only
  split_ifs
  · exact .unmarked rfl (.of_decide rfl)
  · exact .unmarked rfl (.of_decide rfl)
  · exact .unmarked rfl hp
  all_goals exact ⟨rfl, nofun⟩

theorem outsidePass_headerValueStart (hp : Outside p.state) :
    OutsidePass pos (Http.headerValueStart p {} 0 ch) (Http.headerValueStart p {} pos ch) := by
  unfold Http.headerValueStart
  split
  · exact .unmarked rfl hp
  · exact ⟨rfl, nofun⟩

/-- **A pass outside of names and values comes to the same wherever the byte is.** -/
theorem step_outside (hp : Outside p.state) (data : List UInt8) (pos : Nat) (ch : UInt8) :
    OutsidePass pos (Http.step [] p {} 0 ch) (Http.step data p {} pos ch) := by
  cases hs : p.state <;> simp only [Http.step, hs]
  case headerField => exact absurd hs hp.1
  case headerValue => exact absurd hs hp.2
  -- Here a name or a value begins, or an empty value is reported at its mark.
  case headerFieldStart => exact outsidePass_headerFieldStart hp
  case headerValueStart => exact outsidePass_headerValueStart hp
  case headerValueDiscardWs =>
    unfold Http.headerValueDiscardWs
    split_ifs
    · exact .unmarked rfl hp
    · exact .unmarked rfl (.of_decide rfl)
    · exact .unmarked rfl (.of_decide rfl)
    · exact outsidePass_headerValueStart hp
  case headerValueDiscardLws =>
    unfold Http.headerValueDiscardLws
    split_ifs
    · exact .unmarked rfl (.of_decide rfl)
    · exact .unmarked rfl hp
    · refine ⟨?_, fun _ => .of_decide rfl⟩
      simp [Pass.value, openedPass, opened, Http.marked]
  -- The other states have no mark to leave.
  case headerValueLws =>
    unfold Http.headerValueLws
    split_ifs <;> exact .unmarked rfl (.of_decide rfl)
  case headersAlmostDone =>
    unfold Http.headersAlmostDone
    split_ifs <;> first | exact .unmarked rfl hp | exact .unmarked rfl (.of_decide rfl)
  case headersDone =>
    unfold Http.headersDone
    dsimp only
    split_ifs
    all_goals
      first
      | exact .unmarked rfl hp
      | exact .unmarked rfl (outside_newMessage _)
      | exact .unmarked rfl (.of_decide rfl)
  case messageDone => exact .unmarked rfl (outside_newMessage _)
  case resH | resHT | resHTT | resHTTP | resHttpDot | resHttpEnd | resLineAlmostDone |
      headerAlmostDone | headerValueDiscardWsAlmostDone | chunkDataAlmostDone =>
    exact .expect hp (.of_decide rfl)
  case chunkSize =>
    unfold Http.chunkSize
    split
    · exact .unmarked rfl (.of_decide rfl)
    split
    · split_ifs
      · exact .unmarked rfl (.of_decide rfl)
      · exact .unmarked rfl hp
    · split
      · exact .unmarked rfl hp
      · rename_i hq
        exact .unmarked rfl (digit_state hq ▸ hp)
  case chunkSizeStart =>
    split
    · exact .unmarked rfl hp
    · exact .unmarked rfl (.of_decide rfl)
  case resStatusStart | bodyIdentityEof =>
    first | exact .unmarked rfl hp | exact .unmarked rfl (.of_decide rfl)
  all_goals
    split_ifs <;> first | exact .unmarked rfl hp | exact .unmarked rfl (.of_decide rfl)

/-- **A byte outside of names and values comes to the same wherever it is.** -/
theorem reportByte_outside (hp : Outside p.state) (data : List UInt8) (pos : Nat) (ch : UInt8)
    (fuel : Nat) : reportByte data pos ch fuel {} p =
      (reportByte [] 0 ch fuel {} p).map id (openedAt pos) := by
  induction fuel generalizing p with
  | zero =>
    show ([], Reported.next {} p) = ([], Reported.next (opened pos p.state) p)
    rw [opened_of_outside hp]
  | succ fuel ih =>
    obtain ⟨hpass, hout⟩ := step_outside hp data pos ch
    have hzero := (step_outside hp [] 0 ch).eq
    unfold reportByte
    dsimp only
    rw [hpass]
    generalize Http.step [] p {} 0 ch = pass at hout hzero ⊢
    unfold openedPass
    dsimp only
    split_ifs
    · rfl
    cases hn : pass.next with
    | reexecute =>
      have hq := hout hn
      have hlocals : pass.locals = {} := by
        rw [hzero, openedPass, opened_of_outside hq]
      dsimp only
      rw [opened_of_outside hq, hlocals, ih hq]
      rfl
    | advance => rfl
    | error e => rfl
    | «return» => rfl

end Outside

/-! ## Bytes inside of names and values -/

/-- The parser with its count ahead by `v`. -/
def ahead (v : Nat) (p : HttpParser) : HttpParser := { p with nread := p.nread + v }

/-- The parser with another count and another error. -/
def tagged (n : Nat) (e : Errno) (p : HttpParser) : HttpParser :=
  { p with nread := n, httpErrno := e }

section Inside

variable {data : List UInt8} {p q : HttpParser} {pos m n v : Nat} {r : Option Nat} {ch : UInt8}
  {e : Errno}

theorem tagged_self (p : HttpParser) : tagged p.nread p.httpErrno p = p := rfl

theorem matchWord_tagged {word : List UInt8} {c : UInt8} {done fail : Http.HeaderState} :
    (tagged n e p).matchWord word c done fail = tagged n e (p.matchWord word c done fail) := by
  unfold HttpParser.matchWord tagged
  dsimp only
  split_ifs <;> rfl

/-- A character of a name has nothing to do with the count. -/
theorem fieldChar_tagged : (tagged n e p).fieldChar ch = tagged n e (p.fieldChar ch) := by
  have hstate : (tagged n e p).headerState = p.headerState := rfl
  unfold HttpParser.fieldChar
  dsimp only
  rw [hstate]
  cases p.headerState <;> dsimp only
  case matchingTransferEncoding =>
    rw [matchWord_tagged]
    generalize p.matchWord _ _ _ _ = q
    show (if q.headerState = _ then _ else _) = _
    split_ifs <;> rfl
  case matchingConnection | matchingProxyConnection | matchingContentLength | matchingUpgrade =>
    exact matchWord_tagged
  all_goals first | rfl | (split_ifs <;> rfl)

/-- A character of a value has nothing to do with the count. -/
theorem number_tagged : HttpParser.valueChar.number ch (tagged n e p) =
    (HttpParser.valueChar.number ch p).map (tagged n e) := by
  unfold HttpParser.valueChar.number HttpParser.digit
  have hlength : (tagged n e p).contentLength = p.contentLength := rfl
  rw [hlength]
  split_ifs <;> rfl

theorem valueChar_tagged : (tagged n e p).valueChar ch = (p.valueChar ch).map (tagged n e) := by
  have hstate : (tagged n e p).headerState = p.headerState := rfl
  unfold HttpParser.valueChar
  dsimp only
  rw [hstate]
  cases p.headerState <;> dsimp only
  case contentLength =>
    split_ifs
    · rfl
    · exact number_tagged (p := { p with headerState := .contentLengthNum })
  case contentLengthNum => exact number_tagged
  case matchingTransferEncodingChunked | matchingConnectionKeepAlive | matchingConnectionClose |
      matchingConnectionUpgrade =>
    rw [matchWord_tagged]
    rfl
  all_goals first | rfl | (split_ifs <;> rfl)

/-- A character of a name leaves the count and the error alone. -/
theorem fieldChar_kept (p : HttpParser) (ch : UInt8) : (p.fieldChar ch).nread = p.nread ∧
    (p.fieldChar ch).httpErrno = p.httpErrno := by
  have h : (tagged p.nread p.httpErrno p).fieldChar ch = _ := fieldChar_tagged
  rw [tagged_self] at h
  exact ⟨(congrArg HttpParser.nread h :), (congrArg HttpParser.httpErrno h :)⟩

theorem valueChar_kept (h : p.valueChar ch = .ok q) :
    q.nread = p.nread ∧ q.httpErrno = p.httpErrno := by
  have hq : (tagged p.nread p.httpErrno p).valueChar ch = _ := valueChar_tagged
  rw [tagged_self, h] at hq
  have hself := Except.ok.inj hq
  exact ⟨(congrArg HttpParser.nread hself :), (congrArg HttpParser.httpErrno hself :)⟩

theorem ahead_eq (v : Nat) (p : HttpParser) :
    ahead v p = tagged (p.nread + v) p.httpErrno p := rfl

theorem fieldChar_ahead : (ahead v p).fieldChar ch = ahead v (p.fieldChar ch) := by
  obtain ⟨hn, he⟩ := fieldChar_kept p ch
  rw [ahead_eq, fieldChar_tagged, ahead_eq, hn, he]

theorem valueChar_ahead : (ahead v p).valueChar ch = (p.valueChar ch).map (ahead v) := by
  rw [ahead_eq, valueChar_tagged]
  cases h : p.valueChar ch with
  | error e => rfl
  | ok q =>
    obtain ⟨hn, he⟩ := valueChar_kept h
    show Except.ok _ = Except.ok _
    rw [ahead_eq, hn, he]

/-- The counts agree where the run is over. -/
theorem countHeaderSize_ahead : (ahead v p).countHeaderSize 0 = p.countHeaderSize v := rfl

theorem countHeaderSize_errno {ok : Bool} (h : p.countHeaderSize v = (q, ok)) :
    q.httpErrno = p.httpErrno := by
  obtain ⟨rfl, -⟩ := Prod.mk.inj h
  rfl

/-- A byte of a name. -/
theorem reportByte_field (hs : p.state = .headerField) (he : p.httpErrno = .ok) :
    reportByte data pos ch 4 { opened m .headerField with run := r } p =
      if Http.token ch ≠ 0 then
        ([], .next { opened m .headerField with run := some (r.getD 0 + 1) } (p.fieldChar ch))
      else if (p.countHeaderSize (r.getD 0)).2 = false then
        ([], .stop (fails .headerOverflow (p.countHeaderSize (r.getD 0)).1))
      else if ch = chr ':' then
        (owed .headerField (Http.marked data m pos), .next {}
          { (p.countHeaderSize (r.getD 0)).1 with state := .headerValueDiscardWs })
      else ([], .stop (fails .invalidHeaderToken (p.countHeaderSize (r.getD 0)).1)) := by
  have hkept : (p.fieldChar ch).httpErrno = .ok := (fieldChar_kept p ch).2.trans he
  unfold reportByte
  simp only [Http.step, hs, Http.headerField]
  by_cases ht : Http.token ch = 0
  · obtain ⟨q, ok, hq⟩ : ∃ q ok, p.countHeaderSize (r.getD 0) = (q, ok) := ⟨_, _, rfl⟩
    have hok : q.httpErrno = .ok := (countHeaderSize_errno hq).trans he
    simp only [hq, ht]
    cases ok with
    | false => simp [Pass.fail, hok]
    | true =>
      by_cases hc : ch = chr ':'
      · simp [hc, Pass.field, hok, opened, owed]
      · simp [hc, Pass.fail, hok]
  · simp [ht, hkept]

/-- A byte of a value. -/
theorem reportByte_value (hs : p.state = .headerValue) (he : p.httpErrno = .ok) :
    reportByte data pos ch 4 { opened m .headerValue with run := r } p =
      if ch = cr then
        (owed .headerValue (Http.marked data m pos),
          if (p.countHeaderSize (r.getD 0)).2 = false then
            .stop (fails .headerOverflow
              { (p.countHeaderSize (r.getD 0)).1 with state := .headerAlmostDone })
          else .next {} { (p.countHeaderSize (r.getD 0)).1 with state := .headerAlmostDone })
      else if ch = lf then
        if (p.countHeaderSize (r.getD 0)).2 = false then
          ([], .stop (fails .headerOverflow (p.countHeaderSize (r.getD 0)).1))
        else
          (owed .headerValue (Http.marked data m pos) ++
            (reportByte data pos ch 3 {}
              { (p.countHeaderSize (r.getD 0)).1 with state := .headerAlmostDone }).1,
            (reportByte data pos ch 3 {}
              { (p.countHeaderSize (r.getD 0)).1 with state := .headerAlmostDone }).2)
      else if Http.isHeaderChar ch = false then ([], .stop (fails .invalidHeaderToken p))
      else match p.valueChar ch with
        | .error e => ([], .stop (fails e p))
        | .ok q => ([], .next { opened m .headerValue with run := some (r.getD 0 + 1) } q) := by
  conv_lhs => unfold reportByte
  simp only [Http.step, hs, Http.headerValue]
  -- The value ends at a CR, which is not handed on with it.
  by_cases hcr : ch = cr
  · have hq : ({ p with state := .headerAlmostDone } : HttpParser).countHeaderSize (r.getD 0) =
        ({ (p.countHeaderSize (r.getD 0)).1 with state := .headerAlmostDone },
          (p.countHeaderSize (r.getD 0)).2) := rfl
    have hok : (p.countHeaderSize (r.getD 0)).1.httpErrno = .ok := he
    simp only [hcr, if_true, Pass.value, hq]
    generalize p.countHeaderSize (r.getD 0) = c at hok ⊢
    obtain ⟨q, ok⟩ := c
    cases ok <;> simp_all [opened, owed]
  -- A lone LF ends it too, and is read again as the one behind a CR.
  by_cases hlf : ch = lf
  · have hok : (p.countHeaderSize (r.getD 0)).1.httpErrno = .ok := he
    simp only [hlf, if_true]
    generalize p.countHeaderSize (r.getD 0) = c at hok ⊢
    obtain ⟨q, ok⟩ := c
    cases ok with
    | false => simp_all [Pass.fail]
    | true => simp_all [Pass.value, opened, owed]
  · simp only [hcr, hlf, if_false]
    by_cases hchar : Http.isHeaderChar ch = true
    · cases hv : p.valueChar ch with
      | error e => simp [hchar, Pass.fail, he]
      | ok q =>
        have hok : q.httpErrno = .ok := (valueChar_kept hv).2.trans he
        simp [hchar, hok]
    · simp [hchar, Pass.fail, he]

/-- What a byte inside a name or a value comes to, for the parser `p` that has `v` bytes of a run to
count and for the one ahead of it: more of the name or the value, or its end, or an error. -/
inductive Twins (data : List UInt8) (m pos v : Nat) (p : HttpParser) :
    List Callback × Reported → List Callback × Reported → Prop
  | inside {q : HttpParser} (state : q.state = p.state) (nread : q.nread = p.nread)
      (errno : q.httpErrno = .ok) : Twins data m pos v p
        ([], .next { opened m p.state with run := some (v + 1) } q)
        ([], .next { opened 0 p.state with run := some 1 } (ahead v q))
  | outside (calls : List Callback) (r : Reported) : Twins data m pos v p
      (owed p.state (Http.marked data m pos) ++ calls, openedAt pos r)
      (owed p.state [] ++ calls, openedAt 0 r)
  | fails {q q' : HttpParser} {calls calls' : List Callback} (hm : .messageComplete ∉ calls)
      (hm' : .messageComplete ∉ calls') (he : q.httpErrno ≠ .ok) (he' : q'.httpErrno ≠ .ok) :
      Twins data m pos v p (calls, .stop q) (calls', .stop q')

theorem twins_field (hs : p.state = .headerField) (he : p.httpErrno = .ok) :
    Twins data m pos (r.getD 0) p
      (reportByte data pos ch 4 { opened m p.state with run := r } p)
      (reportByte [ch] 0 ch 4 (opened 0 p.state) (ahead (r.getD 0) p)) := by
  have hs' : (ahead (r.getD 0) p).state = .headerField := hs
  have hnone : (none : Option Nat).getD 0 = 0 := rfl
  have htwin : reportByte [ch] 0 ch 4 { opened 0 .headerField with run := none }
      (ahead (r.getD 0) p) = _ := reportByte_field hs' he
  rw [hnone, countHeaderSize_ahead, fieldChar_ahead] at htwin
  have hopened : opened 0 p.state = { opened 0 .headerField with run := none } := by
    rw [hs]
    rfl
  rw [hopened, htwin, hs, reportByte_field hs he]
  obtain ⟨hn, hk⟩ := fieldChar_kept p ch
  split_ifs with ht hcount hc
  · have hin : Twins data m pos (r.getD 0) p _ _ := .inside fieldChar_state hn (hk.trans he)
    rwa [hs] at hin
  · exact .fails nofun nofun nofun nofun
  · have hout : Twins data m pos (r.getD 0) p _ _ := .outside []
      (.next {} { (p.countHeaderSize (r.getD 0)).1 with state := .headerValueDiscardWs })
    rwa [hs] at hout
  · exact .fails nofun nofun nofun nofun

theorem twins_value (hs : p.state = .headerValue) (he : p.httpErrno = .ok) :
    Twins data m pos (r.getD 0) p
      (reportByte data pos ch 4 { opened m p.state with run := r } p)
      (reportByte [ch] 0 ch 4 (opened 0 p.state) (ahead (r.getD 0) p)) := by
  have hs' : (ahead (r.getD 0) p).state = .headerValue := hs
  have hnone : (none : Option Nat).getD 0 = 0 := rfl
  -- Byte by byte the parser is ahead by the run, and does the same on this byte.
  have htwin : reportByte [ch] 0 ch 4 { opened 0 .headerValue with run := none }
      (ahead (r.getD 0) p) = _ := reportByte_value hs' he
  rw [hnone, countHeaderSize_ahead, valueChar_ahead] at htwin
  have hopened : opened 0 p.state = { opened 0 .headerValue with run := none } := by
    rw [hs]
    rfl
  have hempty : Http.marked [ch] 0 0 = [] := rfl
  have hout (calls : List Callback) (r' : Reported) : Twins data m pos (r.getD 0) p _ _ :=
    .outside calls r'
  rw [hs] at hout
  rw [hopened, htwin, hs, reportByte_value hs he, hempty]
  have hdone : Outside Http.State.headerAlmostDone := ⟨nofun, nofun⟩
  -- The cases are those of `reportByte_value`.
  split_ifs with hcr hcount hlf hcount hchar
  · exact .fails not_mem_owed not_mem_owed nofun nofun
  · exact hout [] (.next {} { (p.countHeaderSize (r.getD 0)).1 with state := .headerAlmostDone })
  · exact .fails nofun nofun nofun nofun
  · rw [reportByte_outside (by exact hdone) data, reportByte_outside (by exact hdone) [ch]]
    exact hout _ _
  · exact .fails nofun nofun nofun nofun
  · cases hv : p.valueChar ch with
    | error e =>
      have hne := valueChar_error hv
      exact .fails nofun nofun hne hne
    | ok q =>
      obtain ⟨hn, hk⟩ := valueChar_kept hv
      have hin : Twins data m pos (r.getD 0) p _ _ :=
        .inside (valueChar_state hv) hn (hk.trans he)
      rwa [hs] at hin

/-- **The twins agree on every byte inside a name or a value.** -/
theorem twins (ch : UInt8) (hp : ¬Outside p.state) (he : p.httpErrno = .ok) :
    Twins data m pos (r.getD 0) p
      (reportByte data pos ch 4 { opened m p.state with run := r } p)
      (reportByte [ch] 0 ch 4 (opened 0 p.state) (ahead (r.getD 0) p)) := by
  by_cases hs : p.state = .headerField
  · exact twins_field hs he
  · exact twins_value (by_contra fun hv => hp ⟨hs, hv⟩) he

/-- Beyond the limit a run only goes on to fail. -/
inductive Doomed (m v : Nat) (p : HttpParser) : List Callback × Reported → Prop
  | inside {q : HttpParser} (state : q.state = p.state) (nread : q.nread = p.nread)
      (errno : q.httpErrno = .ok) :
      Doomed m v p ([], .next { opened m p.state with run := some (v + 1) } q)
  | fails {q : HttpParser} {calls : List Callback} (hm : .messageComplete ∉ calls)
      (he : q.httpErrno ≠ .ok) : Doomed m v p (calls, .stop q)

theorem countHeaderSize_overflow (hn : maxHeaderSize < p.nread + v) (hlt : p.nread + v < 2 ^ 32) :
    (p.countHeaderSize v).2 = false := by
  have hmod : (p.nread + v) % 2 ^ 32 = p.nread + v := Nat.mod_eq_of_lt hlt
  show decide ((p.nread + v) % 2 ^ 32 ≤ maxHeaderSize) = false
  rw [hmod]
  exact decide_eq_false (Nat.not_le.mpr hn)

theorem doomed (hp : ¬Outside p.state) (he : p.httpErrno = .ok)
    (hn : maxHeaderSize < p.nread + r.getD 0) (hlt : p.nread + r.getD 0 < 2 ^ 32) :
    Doomed m (r.getD 0) p (reportByte data pos ch 4 { opened m p.state with run := r } p) := by
  have hover : (p.countHeaderSize (r.getD 0)).2 = false := countHeaderSize_overflow hn hlt
  by_cases hs : p.state = .headerField
  · obtain ⟨hkept, hk⟩ := fieldChar_kept p ch
    have hin : Doomed m (r.getD 0) p _ := .inside fieldChar_state hkept (hk.trans he)
    rw [hs] at hin ⊢
    rw [reportByte_field hs he, if_pos hover]
    split_ifs
    · exact hin
    · exact .fails nofun nofun
  · have hv : p.state = .headerValue := by_contra fun hv => hp ⟨hs, hv⟩
    have hin {q : HttpParser} (hq : p.valueChar ch = .ok q) : Doomed m (r.getD 0) p _ :=
      .inside (valueChar_state hq) (valueChar_kept hq).1 ((valueChar_kept hq).2.trans he)
    rw [hv] at hin ⊢
    rw [reportByte_value hv he, if_pos hover, if_pos hover]
    split_ifs
    · exact .fails not_mem_owed nofun
    · exact .fails nofun nofun
    · exact .fails nofun nofun
    · cases hq : p.valueChar ch with
      | error e => exact .fails nofun (valueChar_error hq)
      | ok q => exact hin hq

end Inside

/-! ## Blocks -/

section Blocks

variable {data rest : List UInt8} {p q : HttpParser} {pos m : Nat} {r : Option Nat} {ch : UInt8}
  {b : Block}

/-- The locals at a mark are sound. -/
theorem sound_opened (m : Nat) (s : Http.State) (run : Option Nat) :
    ∃ h, Sound s { opened m s with run } h := by
  cases s
  case headerField => exact ⟨.idle, rfl, rfl⟩
  case headerValueDiscardWs | headerValueDiscardWsAlmostDone | headerValueDiscardLws =>
    exact ⟨.field, rfl, rfl, rfl⟩
  case headerValueStart => exact ⟨.value, nofun, rfl, rfl⟩
  case headerValue => exact ⟨.value, nofun, rfl, rfl⟩
  case headerAlmostDone | headerValueLws => exact ⟨.value, rfl, rfl, rfl⟩
  all_goals exact ⟨.idle, nofun, rfl, rfl⟩

/-- The callbacks and the error behind a byte. -/
def Settled (calls : List Callback) : Reported → Prop
  | .next _ p => .messageComplete ∉ calls ∧ p.httpErrno = .ok
  | .stop p => p.httpErrno = .ok ↔ .messageComplete ∈ calls

theorem reportByte_settled (he : p.httpErrno = .ok) :
    Settled (reportByte data pos ch 4 { opened m p.state with run := r } p).1
      (reportByte data pos ch 4 { opened m p.state with run := r } p).2 := by
  obtain ⟨h, hs⟩ := sound_opened m p.state r
  obtain ⟨-, hb⟩ := reportByte_sound data pos ch 4 he hs
  generalize reportByte data pos ch 4 { opened m p.state with run := r } p = res at hb ⊢
  obtain ⟨calls, res⟩ := res
  cases res with
  | next x q => exact ⟨hb.1, hb.2.1⟩
  | stop q => exact hb

/-- What is heard when the loop goes on behind a byte. -/
def heardOn (data rest : List UInt8) (pos : Nat) (b : Block) :
    List Callback × Reported → Heard
  | (calls, .next x p) => hear (calls.foldl Block.hear b) (reportRest data rest (pos + 1) x p)
      (reportLoop data rest (pos + 1) x p)
  | (calls, .stop p) => hear b rest (calls, p)

/-- The count at the top of the loop. -/
def counting (r : Option Nat) (p : HttpParser) : HttpParser :=
  if p.state.parsingHeader && r.isNone then counted 1 p else p

theorem counting_state (r : Option Nat) (p : HttpParser) : (counting r p).state = p.state := by
  unfold counting
  split_ifs
  · exact counted_state 1
  · rfl

theorem heard_loop (r : Option Nat) (b : Block) :
    hear b (reportRest data (ch :: rest) pos { opened m p.state with run := r } p)
        (reportLoop data (ch :: rest) pos { opened m p.state with run := r } p) =
      if (counting r p).httpErrno ≠ .ok then .failed
      else heardOn data rest pos b
        (reportByte data pos ch 4 { opened m p.state with run := r } (counting r p)) := by
  have hstate := counting_state r p
  unfold reportRest reportLoop
  dsimp only
  rw [← counting, ← hstate]
  generalize counting r p = q
  split_ifs with he
  · exact hear_failed List.not_mem_nil he
  have hsettled : Settled (reportByte data pos ch 4 { opened m q.state with run := r } q).1 _ :=
    reportByte_settled (not_not.mp he)
  generalize reportByte data pos ch 4 { opened m q.state with run := r } q = res at hsettled ⊢
  obtain ⟨calls, res⟩ := res
  cases res with
  | next x q => exact hear_append hsettled.1
  | stop q => rfl

/-- What is heard of one byte by itself. -/
def heardOne (ch : UInt8) (rest : List UInt8) (b : Block) : List Callback × Reported → Heard
  | (calls, .next x p) => hear (calls.foldl Block.hear b) rest (reportLeft [ch] x p)
  | (calls, .stop p) => hear b rest (calls, p)

theorem heard_one (he : p.httpErrno = .ok) (b : Block) : hear b rest (report [ch] p) =
    if (counting none p).httpErrno ≠ .ok then .failed
    else heardOne ch rest b (reportByte [ch] 0 ch 4 (opened 0 p.state) (counting none p)) := by
  have hstart : startLocals p = { opened 0 p.state with run := none } := rfl
  have hopened : opened 0 p.state = { opened 0 p.state with run := none } := rfl
  have hstate := counting_state none p
  rw [report, if_neg (not_not.mpr he), if_neg (by simp), hstart, hopened]
  unfold reportLoop
  dsimp only
  rw [← counting, ← hstate]
  generalize counting none p = q
  split_ifs with heq
  · exact hear_failed List.not_mem_nil heq
  have hsettled : Settled (reportByte [ch] 0 ch 4 { opened 0 q.state with run := none } q).1 _ :=
    reportByte_settled (not_not.mp heq)
  generalize reportByte [ch] 0 ch 4 { opened 0 q.state with run := none } q = res at hsettled ⊢
  obtain ⟨calls, res⟩ := res
  cases res with
  | next x q => exact hear_append hsettled.1
  | stop q => rfl

/-- Where the parser is when the one that reads byte by byte is ahead of it: behind a mark at `m`,
with a run of `r` bytes that it has not counted but for the first. -/
structure Ahead (pos m : Nat) (r : Option Nat) (p : HttpParser) : Prop where
  mark : m ≤ pos
  errno : p.httpErrno = .ok
  run : ∀ n, r = some n → ¬Outside p.state ∧ 1 ≤ n ∧ n ≤ pos ∧ p.nread + (n - 1) ≤ maxHeaderSize

theorem Ahead.marked (hm : m ≤ pos) (he : p.httpErrno = .ok) : Ahead pos m none p :=
  ⟨hm, he, nofun⟩

theorem Ahead.countedRun (h : Ahead pos m r p) : countedRun r p = ahead (r.getD 1 - 1) p := by
  cases r with
  | none => rfl
  | some n => exact counted_of_le (h.run n rfl).2.2.2

/-- What is left at the end of the bytes. -/
theorem Ahead.reportLeft (h : Ahead pos m r p) :
    reportLeft data { opened m p.state with run := r } p =
      (owed p.state (Http.marked data m data.length), ahead (r.getD 1 - 1) p) := by
  have he : (ahead (r.getD 1 - 1) p).httpErrno = .ok := h.errno
  unfold Wic.reportLeft
  dsimp only
  rw [h.countedRun, if_neg (not_not.mpr he)]
  congr 1
  unfold opened owed
  cases p.state <;> rfl

theorem Ahead.heard_left (h : Ahead pos m r p) :
    hear b rest (Wic.reportLeft data { opened m p.state with run := r } p) =
      .more (paid p.state (Http.marked data m data.length) b) (ahead (r.getD 1 - 1) p) := by
  rw [h.reportLeft]
  exact hear_more not_mem_owed h.errno

/-- What is heard of the bytes behind `pos` agrees with what is heard of them one by one. -/
def HeardAs (data rest : List UInt8) (pos : Nat) : Prop :=
  ∀ (m : Nat) (r : Option Nat) (p : HttpParser) (b : Block), Ahead pos m r p →
    hear b (reportRest data rest pos { opened m p.state with run := r } p)
        (reportLoop data rest pos { opened m p.state with run := r } p) =
      hearBytes rest (paid p.state (Http.marked data m pos) b) (ahead (r.getD 1 - 1) p)

/-- The rest of a byte by byte. -/
def Heard.andThen (h : Heard) (rest : List UInt8) : Heard :=
  match h with
  | .more b p => hearBytes rest b p
  | .complete b p rest => .complete b p rest
  | .failed => .failed

theorem hearBytes_cons (b : Block) (p : HttpParser) :
    hearBytes (ch :: rest) b p = (hear b rest (report [ch] p)).andThen rest := rfl

/-- The bytes at a place. -/
structure At (data rest : List UInt8) (pos : Nat) (ch : UInt8) : Prop where
  byte : data[pos]? = some ch
  later : HeardAs data rest (pos + 1)

/-- What is heard behind a byte that does not stay inside a run. -/
theorem At.outside (h : At data rest pos ch) {calls : List Callback} {res : Reported}
    (hs : Settled calls res) (b : Block) : heardOn data rest pos b (calls, openedAt pos res) =
      (heardOne ch rest b (calls, openedAt 0 res)).andThen rest := by
  cases res with
  | next x q =>
    have hmarked : Http.marked data pos (pos + 1) = [ch] := by
      rw [marked_succ (Nat.le_refl pos) h.byte]
      simp [Http.marked]
    have hone : Http.marked [ch] 0 1 = [ch] := rfl
    have hnone : ((none : Option Nat).getD 1 - 1) = 0 := rfl
    have hlater := h.later pos none q (calls.foldl Block.hear b) (.marked (Nat.le_succ pos) hs.2)
    have hleft : hear (calls.foldl Block.hear b) rest
        (Wic.reportLeft [ch] { opened 0 q.state with run := none } q) = _ :=
      (Ahead.marked (Nat.zero_le 1) hs.2).heard_left
    rw [hmarked] at hlater
    show hear _ _ (reportLoop data rest (pos + 1) { opened pos q.state with run := none } q) =
      (hear _ rest (Wic.reportLeft [ch] { opened 0 q.state with run := none } q)).andThen rest
    rw [hleft]
    exact hlater
  | stop q =>
    show hear b rest (calls, q) = (hear b rest (calls, q)).andThen rest
    unfold hear
    split_ifs with hm he
    · rfl
    · exact absurd (hs.mp he) hm
    · rfl

/-- What is heard behind a byte inside a name or a value. -/
theorem At.inside (h : At data rest pos ch) (hp : ¬Outside p.state) (he : p.httpErrno = .ok)
    (hm : m ≤ pos) (hr : r.getD 0 ≤ pos) (hn : p.nread + r.getD 0 ≤ maxHeaderSize) (b : Block) :
    heardOn data rest pos b (reportByte data pos ch 4 { opened m p.state with run := r } p) =
      (heardOne ch rest (paid p.state (Http.marked data m pos) b)
        (reportByte [ch] 0 ch 4 (opened 0 p.state) (ahead (r.getD 0) p))).andThen rest := by
  have ht : Twins data m pos (r.getD 0) p _ _ := twins ch hp he
  have hs : Settled (reportByte data pos ch 4 { opened m p.state with run := r } p).1 _ :=
    reportByte_settled he
  generalize reportByte data pos ch 4 { opened m p.state with run := r } p = res at ht hs ⊢
  generalize reportByte [ch] 0 ch 4 (opened 0 p.state) (ahead (r.getD 0) p) = res' at ht ⊢
  cases ht with
  -- The byte is one more of the name or of the value.
  | @inside q hstate hnread herrno =>
    have hahead : Ahead (pos + 1) m (some (r.getD 0 + 1)) q := by
      refine ⟨Nat.le_succ_of_le hm, herrno, fun n hn' => ?_⟩
      obtain rfl := Option.some.inj hn'
      refine ⟨by rwa [hstate], Nat.le_add_left 1 _, by omega, ?_⟩
      rw [hnread]
      exact hn
    have hone : Ahead 1 0 (some 1) (ahead (r.getD 0) q) := by
      refine ⟨Nat.zero_le 1, herrno, fun n hn' => ?_⟩
      obtain rfl := Option.some.inj hn'
      refine ⟨by rwa [← hstate] at hp, Nat.le_refl 1, Nat.le_refl 1, ?_⟩
      show q.nread + r.getD 0 + 0 ≤ maxHeaderSize
      rw [hnread]
      exact hn
    have hlater := h.later m _ q b hahead
    -- Byte by byte it is handed on at once, all at once it is owed.
    have hleft : hear (paid q.state (Http.marked data m pos) b) rest
        (Wic.reportLeft [ch] { opened 0 q.state with run := some 1 } (ahead (r.getD 0) q)) = _ :=
      hone.heard_left
    rw [marked_succ hm h.byte, ← paid_paid] at hlater
    rw [← hstate]
    exact hlater.trans (congrArg (fun h => h.andThen rest) hleft).symm
  -- The byte ends the name or the value, of which all that is owed is handed on in front.
  | outside calls res =>
    have hs' : Settled calls res := by
      cases res with
      | next x q => exact ⟨fun hc => hs.1 (List.mem_append_right _ hc), hs.2⟩
      | stop q =>
        refine Iff.trans hs ⟨fun hc => ?_, List.mem_append_right _⟩
        exact (List.mem_append.mp hc).resolve_left not_mem_owed
    -- What is handed on first belongs to the block already.
    have hmove (pos : Nat) (bytes : List UInt8) (b : Block) :
        heardOne ch rest b (owed p.state bytes ++ calls, openedAt pos res) =
          heardOne ch rest (paid p.state bytes b) (calls, openedAt pos res) := by
      cases res with
      | next x q =>
        show hear ((owed p.state bytes ++ calls).foldl Block.hear b) _ _ = _
        rw [List.foldl_append]
        rfl
      | stop q => exact hear_append not_mem_owed
    have hmove' : heardOn data rest pos b
        (owed p.state (Http.marked data m pos) ++ calls, openedAt pos res) =
          heardOn data rest pos (paid p.state (Http.marked data m pos) b)
            (calls, openedAt pos res) := by
      cases res with
      | next x q =>
        show hear ((owed p.state _ ++ calls).foldl Block.hear b) _ _ = _
        rw [List.foldl_append]
        rfl
      | stop q => exact hear_append not_mem_owed
    rw [hmove', hmove, paid_paid, List.append_nil]
    exact h.outside hs' _
  -- Both fail, with the same error or with different ones.
  | fails hm hm' he he' =>
    show hear b rest _ = (hear _ rest _).andThen rest
    rw [hear_failed hm he, hear_failed hm' he']
    rfl

theorem counted_overflow {v : Nat} (hn : maxHeaderSize < p.nread + v)
    (hlt : p.nread + v < 2 ^ 32) : (counted v p).httpErrno ≠ .ok := by
  have hover := countHeaderSize_overflow hn hlt
  unfold counted
  generalize p.countHeaderSize v = c at hover ⊢
  obtain ⟨q, ok⟩ := c
  obtain rfl : ok = false := hover
  nofun

theorem counted_ok {v : Nat} (he : (counted v p).httpErrno = .ok) :
    (counted v p).nread ≤ maxHeaderSize := by
  obtain ⟨q, ok, hq⟩ : ∃ q ok, p.countHeaderSize v = (q, ok) := ⟨_, _, rfl⟩
  have hcounted : counted v p = if ok then q else fails .headerOverflow p := by
    unfold counted
    rw [hq]
    cases ok <;> rfl
  rw [hcounted] at he ⊢
  cases ok with
  | false => cases he
  | true =>
    obtain ⟨rfl, hle⟩ := Prod.mk.inj hq
    exact of_decide_eq_true hle

/-- Inside a name or a value the first byte of a run is counted by itself. -/
theorem counting_none (hp : ¬Outside p.state) : counting none p = counted 1 p := by
  apply if_pos
  by_cases hs : p.state = .headerField
  · rw [hs]
    rfl
  · have hv : p.state = .headerValue := by_contra fun hv => hp ⟨hs, hv⟩
    rw [hv]
    rfl

theorem counting_some (n : Nat) (p : HttpParser) : counting (some n) p = p := by
  unfold counting
  rw [Option.isNone_some, Bool.and_false, if_neg Bool.false_ne_true]

/-- **A run beyond the limit ends in an error**, whatever its bytes are. -/
theorem heard_doomed {n : Nat} (hp : ¬Outside p.state) (he : p.httpErrno = .ok)
    (hlen : pos + rest.length + 1 + maxHeaderSize < 2 ^ 32) (hle : n ≤ pos)
    (hcount : p.nread ≤ maxHeaderSize) (hn : maxHeaderSize < p.nread + n) :
    hear b (reportRest data (ch :: rest) pos { opened m p.state with run := some n } p)
      (reportLoop data (ch :: rest) pos { opened m p.state with run := some n } p) = .failed := by
  induction rest generalizing ch pos n p with
  -- The last byte: the run is counted behind it.
  | nil =>
    have hlt : p.nread + n < 2 ^ 32 := by omega
    have hd : Doomed m n p
        (reportByte data pos ch 4 { opened m p.state with run := some n } p) :=
      doomed (r := some n) hp he hn hlt
    rw [heard_loop, counting_some, if_neg (not_not.mpr he)]
    generalize reportByte data pos ch 4 { opened m p.state with run := some n } p = res at hd ⊢
    cases hd with
    | @inside q hstate hnread herrno =>
      have hover : (counted n q).httpErrno ≠ .ok :=
        counted_overflow (by rwa [hnread]) (by rw [hnread]; omega)
      show hear b [] (reportLeft data { opened m p.state with run := some (n + 1) } q) = .failed
      unfold Wic.reportLeft
      exact (congrArg (hear b []) (if_pos hover)).trans (hear_failed nofun hover)
    | fails hm he => exact hear_failed hm he
  -- Another byte follows: the run is longer still, or the parser has failed already.
  | cons ch' rest ih =>
    rw [List.length_cons] at hlen
    have hlt : p.nread + n < 2 ^ 32 := by omega
    have hd : Doomed m n p
        (reportByte data pos ch 4 { opened m p.state with run := some n } p) :=
      doomed (r := some n) hp he hn hlt
    rw [heard_loop, counting_some, if_neg (not_not.mpr he)]
    generalize reportByte data pos ch 4 { opened m p.state with run := some n } p = res at hd ⊢
    cases hd with
    | @inside q hstate hnread herrno =>
      have hp' : ¬Outside q.state := by rwa [hstate]
      have hlater : hear b (reportRest data (ch' :: rest) (pos + 1) _ q)
          (reportLoop data (ch' :: rest) (pos + 1)
            { opened m q.state with run := some (n + 1) } q) = .failed :=
        ih hp' herrno (by omega) (Nat.succ_le_succ hle) (by rwa [hnread]) (by rw [hnread]; omega)
      rw [hstate] at hlater
      exact hlater
    | fails hm he => exact hear_failed hm he

/-- Outside of names and values the two are in step. -/
theorem At.heard_outside (hat : At data rest pos ch) (he : p.httpErrno = .ok) (hp : Outside p.state)
    (b : Block) :
    hear b (reportRest data (ch :: rest) pos { opened m p.state with run := none } p)
        (reportLoop data (ch :: rest) pos { opened m p.state with run := none } p) =
      hearBytes (ch :: rest) (paid p.state (Http.marked data m pos) b) p := by
  have hstate := counting_state none p
  have hmark (m : Nat) : ({ opened m p.state with run := none } : Locals) = {} := by
    rw [opened_of_outside hp]
  rw [hearBytes_cons, heard_one he, heard_loop, hmark, paid_of_outside hp]
  show _ = (if (counting none p).httpErrno ≠ .ok then Heard.failed
    else heardOne ch rest b (reportByte [ch] 0 ch 4 { opened 0 p.state with run := none }
      (counting none p))).andThen rest
  rw [hmark]
  have hout : Outside (counting none p).state := by rwa [hstate]
  generalize counting none p = q at hout ⊢
  by_cases hcount : q.httpErrno = .ok
  · rw [if_neg (not_not.mpr hcount), if_neg (not_not.mpr hcount), reportByte_outside hout data,
      reportByte_outside hout [ch]]
    have hs : Settled (reportByte [] 0 ch 4 { opened 0 q.state with run := none } q).1 _ :=
      reportByte_settled hcount
    rw [opened_of_outside hout] at hs
    exact hat.outside hs b
  · rw [if_pos hcount, if_pos hcount]
    rfl

/-- The first byte of a run. -/
theorem At.heard_first (hat : At data rest pos ch) (h : Ahead pos m none p) (hp : ¬Outside p.state)
    (b : Block) :
    hear b (reportRest data (ch :: rest) pos { opened m p.state with run := none } p)
        (reportLoop data (ch :: rest) pos { opened m p.state with run := none } p) =
      hearBytes (ch :: rest) (paid p.state (Http.marked data m pos) b) p := by
  have hstate := counting_state none p
  have hcounting := counting_none hp
  rw [hearBytes_cons, heard_one h.errno, heard_loop, ← hstate]
  have hp' : ¬Outside (counting none p).state := by rwa [hstate]
  have hnread : (counting none p).httpErrno = .ok → (counting none p).nread ≤ maxHeaderSize := by
    rw [hcounting]
    exact counted_ok
  generalize counting none p = q at hp' hnread ⊢
  by_cases hcount : q.httpErrno = .ok
  · rw [if_neg (not_not.mpr hcount), if_neg (not_not.mpr hcount)]
    exact hat.inside (r := none) hp' hcount h.mark (Nat.zero_le pos) (hnread hcount) b
  · rw [if_pos hcount, if_pos hcount]
    rfl

/-- A byte inside of a run, which goes on or has become too long. -/
theorem At.heard_run {n : Nat} (hat : At data rest pos ch) (h : Ahead pos m (some n) p)
    (hlength : data.length = pos + rest.length + 1) (hlen : data.length + maxHeaderSize < 2 ^ 32)
    (b : Block) :
    hear b (reportRest data (ch :: rest) pos { opened m p.state with run := some n } p)
        (reportLoop data (ch :: rest) pos { opened m p.state with run := some n } p) =
      hearBytes (ch :: rest) (paid p.state (Http.marked data m pos) b) (ahead (n - 1) p) := by
  obtain ⟨hp, hone, hle, hrun⟩ := h.run n rfl
  have herrno : (ahead (n - 1) p).httpErrno = .ok := h.errno
  have hcount : (ahead (n - 1) p).nread + 1 = p.nread + n := by
    show p.nread + (n - 1) + 1 = p.nread + n
    omega
  have hcounting : counting none (ahead (n - 1) p) = counted 1 (ahead (n - 1) p) :=
    counting_none hp
  rw [hearBytes_cons, heard_one herrno]
  -- The run goes on, or has become too long.
  by_cases hn : p.nread + n ≤ maxHeaderSize
  · have hahead : counted 1 (ahead (n - 1) p) = ahead n p := by
      rw [counted_of_le (by rw [hcount]; exact hn), hcount]
      rfl
    rw [heard_loop, hcounting, hahead, counting_some, if_neg (not_not.mpr h.errno),
      if_neg (not_not.mpr (by exact h.errno))]
    exact hat.inside (r := some n) hp h.errno h.mark hle hn b
  · have hfailed : (counted 1 (ahead (n - 1) p)).httpErrno ≠ .ok := by
      apply counted_overflow
      · rw [hcount]
        exact Nat.not_le.mp hn
      · rw [hcount]
        omega
    rw [heard_doomed hp h.errno (by omega) hle (by omega) (Nat.not_le.mp hn), hcounting,
      if_pos hfailed]
    rfl

/-- **The loop hears the bytes as they are heard one by one.** -/
theorem heardAs (hpos : data.drop pos = rest) (hle : pos ≤ data.length)
    (hlen : data.length + maxHeaderSize < 2 ^ 32) : HeardAs data rest pos := by
  induction rest generalizing pos with
  | nil =>
    intro m r p b h
    have hend : data.length = pos :=
      Nat.le_antisymm (List.drop_eq_nil_iff.mp hpos) hle
    rw [← hend]
    exact h.heard_left
  | cons ch rest ih =>
    intro m r p b h
    have hbyte : data[pos]? = some ch := by
      rw [← Nat.add_zero pos, ← List.getElem?_drop, hpos]
      rfl
    have hlt : pos < data.length := (List.getElem?_eq_some_iff.mp hbyte).1
    have hrest : data.drop (pos + 1) = rest := by
      rw [← List.drop_drop, hpos]
      rfl
    have hlength : data.length = pos + rest.length + 1 := by
      have hdrop := congrArg List.length hpos
      rw [List.length_drop, List.length_cons] at hdrop
      omega
    have hat : At data rest pos ch := ⟨hbyte, ih hrest hlt⟩
    cases r with
    | none =>
      by_cases hp : Outside p.state
      · exact hat.heard_outside h.errno hp b
      · exact hat.heard_first h hp b
    | some n => exact hat.heard_run h hlength hlen b

/-- **A block is heard like its bytes.** The count of a run wraps around past 2^32, so that a block
may not come near it. -/
theorem heard_report (hb : paid p.state [] b = b) (he : p.httpErrno = .ok) (hne : data ≠ [])
    (hlen : data.length + maxHeaderSize < 2 ^ 32) :
    hear b (reportRest data data 0 (startLocals p) p) (report data p) = hearBytes data b p := by
  have hloop : HeardAs data data 0 := heardAs rfl (Nat.zero_le _) hlen
  have hheard := hloop 0 none p b (.marked (Nat.le_refl 0) he)
  have hmarked : Http.marked data 0 0 = [] := rfl
  have hzero : ahead ((none : Option Nat).getD 1 - 1) p = p := rfl
  have hlength : data.length ≠ 0 := fun h => hne (List.eq_nil_of_length_eq_zero h)
  rw [hmarked, hb, hzero] at hheard
  rw [report, if_neg (not_not.mpr he), if_neg hlength]
  exact hheard

/-- The parser is between two blocks: what it has of a name or a value has been heard. -/
structure Between (b : Block) (p : HttpParser) : Prop where
  paid : paid p.state [] b = b
  errno : p.httpErrno = .ok

theorem Between.start : Between {} {} := ⟨rfl, rfl⟩

theorem Ahead.between (h : Ahead pos m r p) {b' : Block} {p' : HttpParser}
    (hmore : hear b rest (Wic.reportLeft data { opened m p.state with run := r } p) =
      .more b' p') : Between b' p' := by
  rw [h.heard_left] at hmore
  obtain ⟨rfl, rfl⟩ := Heard.more.inj hmore
  refine ⟨?_, h.errno⟩
  show Wic.paid p.state [] (Wic.paid p.state _ b) = _
  rw [paid_paid, List.append_nil]

theorem between_openedAt {calls : List Callback} {res : Reported} (hs : Settled calls res)
    {b' : Block} {p' : HttpParser}
    (hmore : heardOne ch rest b (calls, openedAt 0 res) = .more b' p') : Between b' p' := by
  cases res with
  | next x q => exact (Ahead.marked (Nat.zero_le 1) hs.2).between hmore
  | stop q =>
    have hheard : hear b rest (calls, q) = .more b' p' := hmore
    unfold hear at hheard
    split_ifs at hheard with hm he
    exact absurd (hs.mp he) hm

/-- **Behind a byte the parser is between two blocks.** -/
theorem Between.byte (h : Between b p) {b' : Block} {p' : HttpParser}
    (hmore : hear b rest (report [ch] p) = .more b' p') : Between b' p' := by
  have hstate := counting_state none p
  rw [heard_one h.errno] at hmore
  split_ifs at hmore with hcount
  rw [not_not] at hcount
  rw [← hstate] at hmore
  have hs : Settled
      (reportByte [ch] 0 ch 4 { opened 0 (counting none p).state with run := none }
        (counting none p)).1 _ := reportByte_settled hcount
  -- Outside of names and values the parser keeps no mark.
  by_cases hp : Outside (counting none p).state
  · have hmark : ({ opened 0 (counting none p).state with run := none } : Locals) = {} := by
      rw [opened_of_outside hp]
    rw [opened_of_outside hp, reportByte_outside hp [ch]] at hmore
    rw [hmark, reportByte_outside hp [ch]] at hs
    generalize reportByte [] 0 ch 4 {} (counting none p) = res at hs hmore
    obtain ⟨calls, res⟩ := res
    have hs' : Settled calls res := by cases res <;> exact hs
    exact between_openedAt hs' hmore
  -- Inside of one the mark is at the byte, with a run of one.
  · have hnread : (counting none p).nread ≤ maxHeaderSize := by
      have hp' : ¬Outside p.state := by rwa [hstate] at hp
      rw [counting_none hp'] at hcount ⊢
      exact counted_ok hcount
    obtain ⟨res', ht⟩ : ∃ res', Twins [ch] 0 0 0 (counting none p)
        (reportByte [ch] 0 ch 4 { opened 0 (counting none p).state with run := none }
          (counting none p)) res' := ⟨_, twins (r := none) ch hp hcount⟩
    generalize counting none p = q at hp hnread hmore hs ht
    have hmore' : heardOne ch rest b (reportByte [ch] 0 ch 4
      { opened 0 q.state with run := none } q) = .more b' p' := hmore
    generalize reportByte [ch] 0 ch 4 { opened 0 q.state with run := none } q = res at hmore' hs ht
    cases ht with
    | @inside q' hstate' hnread' herrno =>
      have hone : Ahead 1 0 (some 1) q' := by
        refine ⟨Nat.zero_le 1, herrno, fun n hn' => ?_⟩
        obtain rfl := Option.some.inj hn'
        refine ⟨by rwa [hstate'], Nat.le_refl 1, Nat.le_refl 1, ?_⟩
        rw [hnread']
        exact hnread
      rw [← hstate'] at hmore'
      exact hone.between hmore'
    | outside calls res =>
      have hs' : Settled (owed q.state (Http.marked [ch] 0 0) ++ calls) res := by
        cases res <;> exact hs
      exact between_openedAt hs' hmore'
    | fails hm hm' he he' =>
      cases (hear_failed hm he).symm.trans hmore'

theorem Between.bytes (h : Between b p) {b' : Block} {p' : HttpParser}
    (hmore : hearBytes data b p = .more b' p') : Between b' p' := by
  induction data generalizing b p with
  | nil =>
    obtain ⟨rfl, rfl⟩ := Heard.more.inj hmore
    exact h
  | cons ch data ih =>
    rw [hearBytes_cons] at hmore
    cases hone : hear b data (report [ch] p) with
    | more c q =>
      rw [hone] at hmore
      exact ih (h.byte hone) hmore
    | complete c q rest =>
      rw [hone] at hmore
      cases hmore
    | failed =>
      rw [hone] at hmore
      cases hmore

end Blocks

/-! ## Blocks behind each other -/

/-- What is heard of one block after the other. -/
def hearAll : List (List UInt8) → Block → HttpParser → Heard
  | [], b, p => .more b p
  | data :: blocks, b, p =>
    match hear b (reportRest data data 0 (startLocals p) p) (report data p) with
    | .more b p => hearAll blocks b p
    | .complete b p rest => .complete b p (rest ++ blocks.flatten)
    | .failed => .failed

/-- A block that may be handed to the parser: an empty one would be the end of the file. -/
def Handy (data : List UInt8) : Prop := data ≠ [] ∧ data.length + maxHeaderSize < 2 ^ 32

/-- **Blocks are heard like their bytes.** -/
theorem hearAll_eq {blocks : List (List UInt8)} (hblocks : ∀ data ∈ blocks, Handy data)
    {b : Block} {p : HttpParser} (h : Between b p) :
    hearAll blocks b p = hearBytes blocks.flatten b p := by
  induction blocks generalizing b p with
  | nil => rfl
  | cons data blocks ih =>
    obtain ⟨⟨hne, hlen⟩, hrest⟩ := List.forall_mem_cons.mp hblocks
    rw [hearAll, List.flatten_cons, hearBytes_append, heard_report h.paid h.errno hne hlen]
    cases hdata : hearBytes data b p with
    | more b' p' => exact ih hrest (h.bytes hdata)
    | complete b' p' rest => rfl
    | failed => rfl

end Wic
