import Wic.Model.Types
import Mathlib.Tactic.SplitIfs
import Mathlib.Tactic.Common

/-!
# What the parser of the response reports

The callbacks `http_parser_execute` makes over a block of data when they all return zero, up to the
one that says that the response is complete. A field is reported by its name and then by its value,
each in one piece or more, and a response is complete only between two fields.

## Main definitions

* `report`: the callbacks made over a block of data, and the parser behind it
* `reportAll`: the same for one block after the other
* `Orderly`: the order in which the parts of a field are reported
* `Sound`: what the state of the parser says about the callbacks made so far

## Main results

* `report_sound`: the parser reports names and values in their order
* `report_names`: no name has a zero in it
-/

namespace Wic

open Http (Errno Callback Locals HttpParser Pass)

/-! ## The callbacks -/

/-- `SET_ERRNO(e)` -/
def fails (e : Errno) (p : HttpParser) : HttpParser := { p with httpErrno := e }

/-- `COUNT_HEADER_SIZE(V)`; the error past the limit. -/
def counted (v : Nat) (p : HttpParser) : HttpParser :=
  match p.countHeaderSize v with
  | (p, true) => p
  | (_, false) => fails .headerOverflow p

/-- Where the parser is after a byte. -/
inductive Reported
  | next (x : Locals) (p : HttpParser)
  | stop (p : HttpParser)

/-- The parser behind a byte. -/
def Reported.parser : Reported → HttpParser
  | .next _ p => p
  | .stop p => p

/-- One byte of `http_parser_execute`. Behind the callback for the end of the response it is left to
the caller whether to go on. -/
def reportByte (data : List UInt8) (pos : Nat) (ch : UInt8) :
    Nat → Locals → HttpParser → List Callback × Reported
  | 0, x, p => ([], .next x p)
  | fuel + 1, x, p =>
    let pass := Http.step data p x pos ch
    if pass.call = some .messageComplete || pass.parser.httpErrno ≠ .ok then
      (pass.call.toList, .stop pass.parser)
    else match pass.next with
      | .advance => (pass.call.toList, .next pass.locals pass.parser)
      | .reexecute =>
        let (calls, r) := reportByte data pos ch fuel pass.locals pass.parser
        (pass.call.toList ++ calls, r)
      | .error e => (pass.call.toList, .stop (fails e pass.parser))
      | .return => (pass.call.toList, .stop pass.parser)

/-- The count of an inner loop that the end of the bytes breaks off. -/
def countedRun (run : Option Nat) (p : HttpParser) : HttpParser :=
  match run with
  | none => p
  | some n => counted (n - 1) p

/-- What is left to report when the bytes run out. -/
def reportLeft (data : List UInt8) (x : Locals) (p : HttpParser) : List Callback × HttpParser :=
  let p := countedRun x.run p
  if p.httpErrno ≠ .ok then ([], p)
  else
    ((x.fieldMark.map fun m => .headerField (Http.marked data m data.length)).toList ++
      (x.valueMark.map fun m => .headerValue (Http.marked data m data.length)).toList, p)

/-- The loop of `http_parser_execute`. -/
def reportLoop (data : List UInt8) :
    List UInt8 → Nat → Locals → HttpParser → List Callback × HttpParser
  | [], _, x, p => reportLeft data x p
  | ch :: rest, pos, x, p =>
    let p := if p.state.parsingHeader && x.run.isNone then counted 1 p else p
    if p.httpErrno ≠ .ok then ([], p)
    else match reportByte data pos ch 4 x p with
      | (calls, .next x p) =>
        let (calls', p) := reportLoop data rest (pos + 1) x p
        (calls ++ calls', p)
      | (calls, .stop p) => (calls, p)

/-- The locals `http_parser_execute` starts with. -/
def startLocals (p : HttpParser) : Locals :=
  { fieldMark := if p.state = .headerField then some 0 else none
    valueMark := if p.state = .headerValue then some 0 else none }

/-- The callbacks of `http_parser_execute` over a block of data, and the parser behind it. -/
def report (data : List UInt8) (p : HttpParser) : List Callback × HttpParser :=
  if p.httpErrno ≠ .ok then ([], p)
  else if data.length = 0 then
    match p.atEof with
    | .complete => ([.messageComplete], p)
    | .nothing => ([], p)
    | .invalid => ([], fails .invalidEofState p)
  else reportLoop data data 0 (startLocals p) p

/-- The callbacks over one block of data after the other. -/
def reportAll : List (List UInt8) → HttpParser → List Callback × HttpParser
  | [], p => ([], p)
  | data :: blocks, p =>
    let (calls, p) := report data p
    let (calls', p) := reportAll blocks p
    (calls ++ calls', p)

/-! ## The order of the callbacks -/

/-- Where a callback leaves `header_state`. -/
def leaves (h : HeaderState) : Callback → HeaderState
  | .headerField _ => .field
  | .headerValue _ => .value
  | .messageComplete => h

/-- A value is reported behind a name, and the end of the response behind a whole field. -/
def Orderly : HeaderState → List Callback → Prop
  | _, [] => True
  | _, .headerField _ :: calls => Orderly .field calls
  | h, .headerValue _ :: calls => h ≠ .idle ∧ Orderly .value calls
  | h, .messageComplete :: calls => h ≠ .field ∧ calls = []

/-- What the state of the parser says about the callbacks made so far, and about its marks. -/
def Sound (s : Http.State) (x : Locals) (h : HeaderState) : Prop :=
  match s with
  | .headerField => x.fieldMark.isSome ∧ x.valueMark = none
  | .headerValueDiscardWs | .headerValueDiscardWsAlmostDone | .headerValueDiscardLws =>
    h = .field ∧ x.fieldMark = none ∧ x.valueMark = none
  | .headerValueStart => h ≠ .idle ∧ x.fieldMark = none ∧ x.valueMark = none
  | .headerValue => h ≠ .idle ∧ x.fieldMark = none ∧ x.valueMark.isSome
  | .headerAlmostDone | .headerValueLws => h = .value ∧ x.fieldMark = none ∧ x.valueMark = none
  | _ => h ≠ .field ∧ x.fieldMark = none ∧ x.valueMark = none

/-- A pass keeps `Sound`, and its callback comes in its turn. The parser has failed by `o` before it,
if at all. -/
structure InTurn (o : Errno) (pass : Pass) (h : HeaderState) : Prop where
  sound : Sound pass.parser.state pass.locals (pass.call.elim h (leaves h))
  value : ∀ bytes, pass.call = some (.headerValue bytes) → h ≠ .idle
  complete : pass.call = some .messageComplete → h ≠ .field
  upgrade : pass.call = some .messageComplete → pass.parser.upgrade → pass.next = .return
  returns : pass.next = .return → pass.call = some .messageComplete
  error : pass.next ≠ .error .ok
  errno : pass.call = some .messageComplete → pass.parser.httpErrno = o

section Step

variable {data : List UInt8} {p : HttpParser} {x : Locals} {pos : Nat} {ch : UInt8}
  {h : HeaderState} {o : Errno}

/-- A pass without a callback. -/
theorem InTurn.silent {pass : Pass} (hc : pass.call = none) (hn : pass.next ≠ .return)
    (he : pass.next ≠ .error .ok) (hs : Sound pass.parser.state pass.locals h) :
    InTurn o pass h where
  sound := by rwa [hc]
  value _ hv := by cases hc.symm.trans hv
  complete hm := by cases hc.symm.trans hm
  upgrade hm := by cases hc.symm.trans hm
  returns hr := absurd hr hn
  error := he
  errno hm := by cases hc.symm.trans hm

theorem InTurn.fail {e : Errno} (he : e ≠ .ok) (hs : Sound p.state x h) :
    InTurn o (Pass.fail p x e) h :=
  .silent rfl nofun (fun h => he (Http.Next.error.inj h)) hs

theorem InTurn.goto {s : Http.State} (hs : Sound s x h) : InTurn o (Pass.goto p x s) h :=
  .silent rfl nofun nofun hs

theorem InTurn.expect {c : UInt8} {s : Http.State} {e : Errno} (he : e ≠ .ok)
    (hs : Sound p.state x h) (hn : Sound s x h) : InTurn o (Pass.expect p x ch c s e) h := by
  unfold Pass.expect
  split_ifs
  · exact .goto hn
  · exact .fail he hs

/-- A name that is reported up to here. -/
theorem InTurn.fieldEnd {upto : Nat} (hf : x.fieldMark.isSome) (hv : x.valueMark = none) :
    InTurn o (Pass.field data p x .headerValueDiscardWs upto) h := by
  obtain ⟨m, hm⟩ := Option.isSome_iff_exists.mp hf
  rw [Pass.field, hm]
  exact ⟨⟨rfl, rfl, hv⟩, nofun, nofun, nofun, nofun, nofun, nofun⟩

/-- A value that is reported up to here. -/
theorem InTurn.valueEnd {upto : Nat} {next : Http.Next} (hi : h ≠ .idle)
    (hr : next ≠ .return) (he : next ≠ .error .ok) (hm : x.valueMark.isSome)
    (hn : Sound p.state { x with valueMark := none } .value) :
    InTurn o
      { parser := p
        locals := { x with valueMark := none }
        call := x.valueMark.map fun m => .headerValue (Http.marked data m upto)
        next } h := by
  obtain ⟨m, hm⟩ := Option.isSome_iff_exists.mp hm
  rw [hm]
  exact ⟨hn, fun _ _ => hi, nofun, nofun, fun h => absurd h hr, he, nofun⟩

/-- The state behind a whole response. -/
theorem sound_newMessage (hh : h ≠ .field) (hf : x.fieldMark = none) (hv : x.valueMark = none) :
    Sound p.newMessage x h := by
  unfold HttpParser.newMessage
  split_ifs
  · exact ⟨hh, hf, hv⟩
  · exact ⟨hh, hf, hv⟩

/-- The end of the response, reported between two fields. -/
theorem InTurn.ends {next : Http.Next} (hh : h ≠ .field) (hf : x.fieldMark = none)
    (hv : x.valueMark = none) (he : next ≠ .error .ok) (hn : p.upgrade → next = .return) :
    InTurn p.httpErrno (Pass.complete p x next) h where
  sound := sound_newMessage hh hf hv
  value _ hc := by cases hc
  complete _ := hh
  upgrade _ := hn
  returns _ := rfl
  error := he
  errno _ := rfl

/-! The functions for the characters of a field leave the state alone. -/

theorem matchWord_state {word : List UInt8} {c : UInt8} {done fail : Http.HeaderState} :
    (p.matchWord word c done fail).state = p.state := by
  unfold HttpParser.matchWord
  dsimp only
  split_ifs <;> rfl

theorem fieldChar_state : (p.fieldChar ch).state = p.state := by
  unfold HttpParser.fieldChar
  dsimp only
  split <;> (try split_ifs) <;> first | rfl | exact matchWord_state

theorem digit_state {b d : Nat} {q : HttpParser} (hq : p.digit b d = some q) :
    q.state = p.state := by
  unfold HttpParser.digit at hq
  split_ifs at hq
  cases hq
  rfl

theorem valueStart_error {e : Errno} (he : p.valueStart ch = .error e) : e ≠ .ok := by
  unfold HttpParser.valueStart at he
  dsimp only at he
  split at he <;> (try split_ifs at he) <;> cases he <;> nofun

theorem number_error {e : Errno} (he : HttpParser.valueChar.number ch p = .error e) :
    e ≠ .ok := by
  unfold HttpParser.valueChar.number at he
  split_ifs at he
  · cases he
    nofun
  · split at he <;> cases he
    nofun

theorem valueChar_error {e : Errno} (he : p.valueChar ch = .error e) : e ≠ .ok := by
  unfold HttpParser.valueChar at he
  dsimp only at he
  split at he <;> (try split_ifs at he) <;>
    first
    | exact number_error he
    | cases he
      nofun
    | cases he

theorem number_state {q : HttpParser} (hq : HttpParser.valueChar.number ch p = .ok q) :
    q.state = p.state := by
  unfold HttpParser.valueChar.number at hq
  split_ifs at hq
  · cases hq
    rfl
  · split at hq
    · rename_i r hr
      cases hq
      exact digit_state hr
    · cases hq

theorem valueChar_state {q : HttpParser} (hq : p.valueChar ch = .ok q) : q.state = p.state := by
  unfold HttpParser.valueChar at hq
  dsimp only at hq
  split at hq <;> (try split_ifs at hq) <;>
    first
    | exact (number_state hq :)
    | cases hq
      first
      | rfl
      | exact matchWord_state

theorem countHeaderSize_state {v : Nat} {r : HttpParser × Bool} (hr : p.countHeaderSize v = r) :
    r.1.state = p.state := by
  rw [← hr]
  rfl

theorem inTurn_headerFieldStart (hh : h ≠ .field) (hf : x.fieldMark = none)
    (hv : x.valueMark = none) (hp : p.state = .headerFieldStart) :
    InTurn o (Http.headerFieldStart p x pos ch) h := by
  unfold Http.headerFieldStart
  dsimp only
  split_ifs
  · exact .silent rfl nofun nofun ⟨hh, hf, hv⟩
  · exact .silent rfl nofun nofun ⟨hh, hf, hv⟩
  · refine .fail nofun ?_
    rw [hp]
    exact ⟨hh, hf, hv⟩
  all_goals
    refine .silent rfl nofun nofun ⟨?_, hv⟩
    simp [Pass.goto, hf]

theorem inTurn_headerField (hf : x.fieldMark.isSome) (hv : x.valueMark = none)
    (hp : p.state = .headerField) : InTurn o (Http.headerField data p x pos ch) h := by
  have hstay {q : HttpParser} (hq : q.state = p.state) (run : Option Nat) :
      Sound q.state { x with run } h := by
    rw [hq, hp]
    exact ⟨hf, hv⟩
  unfold Http.headerField
  dsimp only
  split
  · exact .silent rfl nofun nofun (hstay fieldChar_state _)
  split
  · rename_i hr
    exact .fail nofun (hstay (countHeaderSize_state hr) _)
  rename_i hr
  split_ifs
  · exact .fieldEnd (x := { x with run := none }) hf hv
  · exact .fail nofun (hstay (countHeaderSize_state hr) _)

theorem inTurn_headerValueStart (hi : h ≠ .idle) (hf : x.fieldMark = none)
    (hs : Sound p.state x h) : InTurn o (Http.headerValueStart p x pos ch) h := by
  unfold Http.headerValueStart
  split
  · rename_i he
    exact .fail (valueStart_error he) hs
  · apply InTurn.goto
    exact ⟨hi, hf, by cases x.valueMark <;> rfl⟩

theorem inTurn_headerValue (hi : h ≠ .idle) (hf : x.fieldMark = none) (hv : x.valueMark.isSome)
    (hp : p.state = .headerValue) : InTurn o (Http.headerValue data p x pos ch) h := by
  have hstay {q : HttpParser} (hq : q.state = p.state) (run : Option Nat) :
      Sound q.state { x with run } h := by
    rw [hq, hp]
    exact ⟨hi, hf, hv⟩
  unfold Http.headerValue
  dsimp only
  split
  · split
    all_goals
      rename_i hr
      refine .valueEnd (x := { x with run := none }) hi nofun nofun hv ?_
      rw [countHeaderSize_state hr]
      exact ⟨rfl, hf, rfl⟩
  split
  · split
    · exact .valueEnd (x := { x with run := none }) hi nofun nofun hv ⟨rfl, hf, rfl⟩
    · rename_i hr
      exact .fail nofun (hstay (countHeaderSize_state hr) _)
  split
  · exact .fail nofun (hstay rfl _)
  · split
    · rename_i he
      exact .fail (valueChar_error he) (hstay rfl _)
    · rename_i hq
      exact .silent rfl nofun nofun (hstay (valueChar_state hq) _)

theorem inTurn_headerValueDiscardWs (hh : h = .field) (hf : x.fieldMark = none)
    (hv : x.valueMark = none) (hs : Sound p.state x h) :
    InTurn o (Http.headerValueDiscardWs p x pos ch) h := by
  unfold Http.headerValueDiscardWs
  split_ifs
  · exact .silent rfl nofun nofun hs
  · exact .goto ⟨hh, hf, hv⟩
  · exact .goto ⟨hh, hf, hv⟩
  · refine inTurn_headerValueStart ?_ hf hs
    rw [hh]
    nofun

theorem inTurn_headerValueDiscardLws (hh : h = .field) (hf : x.fieldMark = none)
    (hv : x.valueMark = none) (hs : Sound p.state x h) :
    InTurn o (Http.headerValueDiscardLws data p x pos ch) h := by
  unfold Http.headerValueDiscardLws
  split_ifs
  · exact .goto ⟨hh, hf, hv⟩
  · exact .fail nofun hs
  · refine .valueEnd (x := { x with valueMark := x.valueMark <|> some pos }) ?_ nofun nofun ?_ ?_
    · rw [hh]
      nofun
    · rw [hv]
      rfl
    · exact ⟨nofun, hf, rfl⟩

theorem inTurn_headerValueLws (hh : h = .value) (hf : x.fieldMark = none)
    (hv : x.valueMark = none) : InTurn o (Http.headerValueLws p x ch) h := by
  have hi : h ≠ .idle ∧ h ≠ .field := by
    rw [hh]
    exact ⟨nofun, nofun⟩
  unfold Http.headerValueLws
  split_ifs
  · exact .silent rfl nofun nofun ⟨hi.1, hf, hv⟩
  · exact .silent rfl nofun nofun ⟨hi.1, hf, hv⟩
  · exact .silent rfl nofun nofun ⟨hi.2, hf, hv⟩

theorem inTurn_headersAlmostDone (hh : h ≠ .field) (hf : x.fieldMark = none)
    (hv : x.valueMark = none) (hs : Sound p.state x h) :
    InTurn o (Http.headersAlmostDone p x ch) h := by
  unfold Http.headersAlmostDone
  split_ifs
  · exact .fail nofun hs
  · exact .silent rfl nofun nofun ⟨hh, hf, hv⟩
  · exact .fail nofun hs
  · exact .silent rfl nofun nofun ⟨hh, hf, hv⟩

theorem inTurn_headersDone (hh : h ≠ .field) (hf : x.fieldMark = none) (hv : x.valueMark = none)
    (hs : Sound p.state x h) : InTurn p.httpErrno (Http.headersDone p x ch) h := by
  unfold Http.headersDone
  dsimp only
  split_ifs with h₀ h₁ h₂ h₃ h₄ h₅ h₆ h₇
  · exact .fail nofun hs
  · exact .ends (p := { p with nread := 0 }) hh hf hv nofun fun _ => rfl
  -- A response that is an upgrade and has no body has been taken care of.
  · exact .ends (p := { p with nread := 0 }) hh hf hv nofun fun hu => by simp_all
  · exact .goto ⟨hh, hf, hv⟩
  · exact .goto ⟨hh, hf, hv⟩
  · exact .ends (p := { p with nread := 0 }) hh hf hv nofun fun hu => by simp_all
  · exact .goto ⟨hh, hf, hv⟩
  · exact .ends (p := { p with nread := 0 }) hh hf hv nofun fun hu => by simp_all
  · exact .goto ⟨hh, hf, hv⟩

theorem inTurn_chunkSize (hh : h ≠ .field) (hf : x.fieldMark = none) (hv : x.valueMark = none)
    (hs : Sound p.state x h) : InTurn o (Http.chunkSize p x ch) h := by
  unfold Http.chunkSize
  split
  · exact .goto ⟨hh, hf, hv⟩
  split
  · split_ifs
    · exact .goto ⟨hh, hf, hv⟩
    · exact .fail nofun hs
  · split
    · exact .fail nofun hs
    · rename_i hq
      exact .silent rfl nofun nofun (digit_state hq ▸ hs)

/-- **A pass keeps the order of the callbacks.** -/
theorem step_inTurn (hs : Sound p.state x h) :
    InTurn p.httpErrno (Http.step data p x pos ch) h := by
  have hs' := hs
  cases hp : p.state <;> rw [hp] at hs' <;> simp only [Http.step, hp]
  -- The states in which a field is read.
  case headerFieldStart => exact inTurn_headerFieldStart hs'.1 hs'.2.1 hs'.2.2 hp
  case headerField => exact inTurn_headerField hs'.1 hs'.2 hp
  case headerValueDiscardWs => exact inTurn_headerValueDiscardWs hs'.1 hs'.2.1 hs'.2.2 hs
  case headerValueDiscardLws => exact inTurn_headerValueDiscardLws hs'.1 hs'.2.1 hs'.2.2 hs
  case headerValue => exact inTurn_headerValue hs'.1 hs'.2.1 hs'.2.2 hp
  case headerValueLws => exact inTurn_headerValueLws hs'.1 hs'.2.1 hs'.2.2
  case headerValueStart => exact inTurn_headerValueStart hs'.1 hs'.2.1 hs
  -- The states at the end of the header block.
  case headersAlmostDone => exact inTurn_headersAlmostDone hs'.1 hs'.2.1 hs'.2.2 hs
  case headersDone => exact inTurn_headersDone hs'.1 hs'.2.1 hs'.2.2 hs
  case messageDone =>
    refine .ends hs'.1 hs'.2.1 hs'.2.2 ?_ fun hu => if_pos hu
    split_ifs <;> nofun
  case chunkSize => exact inTurn_chunkSize hs'.1 hs'.2.1 hs'.2.2 hs
  -- No part of a field is read or reported in the others.
  case dead =>
    split_ifs
    · exact .silent rfl nofun nofun hs
    · exact .fail nofun hs
  case startRes =>
    split_ifs
    · exact .silent rfl nofun nofun hs
    · exact .goto hs'
    · exact .fail nofun hs'
  case resH | resHT | resHTT | resHTTP | resHttpDot | resHttpEnd | resLineAlmostDone |
      headerAlmostDone | headerValueDiscardWsAlmostDone | chunkDataAlmostDone =>
    exact .expect nofun hs hs'
  case resHttpMajor | resHttpMinor | resFirstStatusCode | resStatus | chunkParameters |
      chunkDataDone =>
    split_ifs
    all_goals first | exact .goto hs' | exact .silent rfl nofun nofun hs
  case resStatusCode | bodyIdentity | chunkData | chunkSizeAlmostDone =>
    split_ifs
    all_goals
      first
      | exact .silent rfl nofun nofun hs'
      | exact .fail nofun hs'
      | exact .fail nofun hs
  case resStatusStart =>
    refine .silent rfl ?_ ?_ hs'
    all_goals
      dsimp only
      split_ifs <;> nofun
  case bodyIdentityEof => exact .silent rfl nofun nofun hs
  case chunkSizeStart =>
    split
    · exact .fail nofun hs
    · exact .goto hs'

end Step

/-! ## Blocks of data -/

section Blocks

variable {h : HeaderState} {o : Errno} {calls calls' : List Callback} {p : HttpParser} {x : Locals}

/-- The callbacks behind others that do not complete the response. -/
theorem orderly_append (hm : .messageComplete ∉ calls) :
    Orderly h (calls ++ calls') ↔ Orderly h calls ∧ Orderly (calls.foldl leaves h) calls' := by
  induction calls generalizing h with
  | nil => exact (and_iff_right trivial).symm
  | cons c calls ih =>
    have hm' : .messageComplete ∉ calls := fun hc => hm (List.mem_cons_of_mem _ hc)
    cases c with
    | headerField bytes => exact ih hm'
    | headerValue bytes =>
      show h ≠ .idle ∧ Orderly .value (calls ++ calls') ↔ (h ≠ .idle ∧ Orderly .value calls) ∧ _
      rw [ih hm', and_assoc]
      rfl
    | messageComplete => exact absurd List.mem_cons_self hm

/-- The callback of a pass. -/
theorem InTurn.orderly {pass : Pass} (ht : InTurn o pass h) :
    Orderly h pass.call.toList ∧ pass.call.toList.foldl leaves h = pass.call.elim h (leaves h) := by
  obtain ⟨q, y, call, next⟩ := pass
  cases call with
  | none => exact ⟨trivial, rfl⟩
  | some c =>
    cases c with
    | headerField bytes => exact ⟨trivial, rfl⟩
    | headerValue bytes => exact ⟨⟨ht.value bytes rfl, trivial⟩, rfl⟩
    | messageComplete => exact ⟨⟨ht.complete rfl, rfl⟩, rfl⟩

/-- What has been reported when the parser goes on to the next byte, or does not. -/
def Behind (h : HeaderState) (calls : List Callback) : Reported → Prop
  | .next x p =>
    .messageComplete ∉ calls ∧ p.httpErrno = .ok ∧ Sound p.state x (calls.foldl leaves h)
  | .stop p => p.httpErrno = .ok ↔ .messageComplete ∈ calls

theorem Behind.append {r : Reported} (hm : .messageComplete ∉ calls)
    (hr : Behind (calls.foldl leaves h) calls' r) : Behind h (calls ++ calls') r := by
  cases r with
  | next x p =>
    obtain ⟨hm', he, hs⟩ := hr
    refine ⟨?_, he, ?_⟩
    · simpa using ⟨hm, hm'⟩
    · rwa [List.foldl_append]
  | stop p =>
    have hmem : .messageComplete ∈ calls ++ calls' ↔ .messageComplete ∈ calls' := by simp [hm]
    exact Iff.trans hr hmem.symm

theorem reportByte_sound (data : List UInt8) (pos : Nat) (ch : UInt8) (fuel : Nat)
    (he : p.httpErrno = .ok) (hs : Sound p.state x h) :
    Orderly h (reportByte data pos ch fuel x p).1 ∧
      Behind h (reportByte data pos ch fuel x p).1 (reportByte data pos ch fuel x p).2 := by
  induction fuel generalizing x p h with
  | zero => exact ⟨trivial, nofun, he, hs⟩
  | succ fuel ih =>
    have ht : InTurn p.httpErrno (Http.step data p x pos ch) h := step_inTurn hs
    obtain ⟨hcalls, hleaves⟩ := ht.orderly
    unfold reportByte
    dsimp only
    generalize Http.step data p x pos ch = pass at ht hcalls hleaves ⊢
    -- Either the pass stops, or there is no error and another pass or byte.
    split_ifs with hstop
    · refine ⟨hcalls, fun hok => ?_, fun hm => ?_⟩
      · simp only [hok, Bool.or_eq_true, decide_eq_true_eq, ne_eq, not_true_eq_false, or_false]
          at hstop
        rw [hstop]
        exact List.mem_singleton_self _
      · exact (ht.errno (by simpa using hm)).trans he
    · simp only [Bool.or_eq_true, decide_eq_true_eq, not_or, not_not] at hstop
      obtain ⟨hm, he⟩ := hstop
      have hm' : .messageComplete ∉ pass.call.toList := by simpa using hm
      have hsound := ht.sound
      rw [← hleaves] at hsound
      cases hn : pass.next with
      | advance => exact ⟨hcalls, hm', he, hsound⟩
      -- The same byte is looked at again, in another state.
      | reexecute =>
        obtain ⟨ho, hb⟩ := ih he hsound
        exact ⟨(orderly_append hm').mpr ⟨hcalls, ho⟩, hb.append hm'⟩
      | error e =>
        refine ⟨hcalls, fun he => ?_, fun hm => absurd hm hm'⟩
        -- An error of the pass is one of the parser.
        exact absurd (hn.trans (congrArg Http.Next.error he)) ht.error
      | «return» => exact absurd (ht.returns hn) hm

theorem counted_state (v : Nat) : (counted v p).state = p.state := by
  unfold counted
  split
  · rename_i hr
    exact countHeaderSize_state hr
  · rfl

/-- A count that stays in bounds. -/
theorem counted_of_le {v : Nat} (hn : p.nread + v ≤ Http.maxHeaderSize) :
    counted v p = { p with nread := p.nread + v } := by
  have hmod : (p.nread + v) % 2 ^ 32 = p.nread + v :=
    Nat.mod_eq_of_lt (Nat.lt_of_le_of_lt hn (by decide))
  unfold counted HttpParser.countHeaderSize
  dsimp only
  rw [hmod, decide_eq_true hn]

/-- The locals of the next block are as sound as those of this one. -/
theorem Sound.start (hs : Sound p.state x h) : Sound p.state (startLocals p) h := by
  unfold startLocals
  cases hp : p.state <;> rw [hp] at hs
  case headerField => exact ⟨rfl, rfl⟩
  case headerValue => exact ⟨hs.1, rfl, rfl⟩
  all_goals exact ⟨hs.1, rfl, rfl⟩

/-- What is left is reported of the name or the value that is being read. -/
theorem reportLeft_sound (data : List UInt8) (hs : Sound p.state x h) :
    Orderly h (reportLeft data x p).1 ∧ .messageComplete ∉ (reportLeft data x p).1 ∧
      ((reportLeft data x p).2.httpErrno = .ok → Sound (reportLeft data x p).2.state
        (startLocals (reportLeft data x p).2) ((reportLeft data x p).1.foldl leaves h)) := by
  have hstate : (countedRun x.run p).state = p.state := by
    cases x.run with
    | none => rfl
    | some n => exact counted_state _
  unfold reportLeft
  dsimp only
  generalize countedRun x.run p = q at hstate ⊢
  split_ifs with he
  · exact ⟨trivial, nofun, fun h => absurd h he⟩
  rw [← hstate] at hs
  have hs' := hs
  -- Only inside a name or a value a mark is left.
  cases hq : q.state <;> rw [hq] at hs'
  case headerField =>
    obtain ⟨hf, hv⟩ := hs'
    obtain ⟨m, hf⟩ := Option.isSome_iff_exists.mp hf
    rw [hf, hv]
    refine ⟨trivial, by simp, fun _ => ?_⟩
    rw [startLocals, hq]
    exact ⟨rfl, rfl⟩
  case headerValue =>
    obtain ⟨hi, hf, hv⟩ := hs'
    obtain ⟨m, hv⟩ := Option.isSome_iff_exists.mp hv
    rw [hf, hv]
    refine ⟨⟨hi, trivial⟩, by simp, fun _ => ?_⟩
    rw [startLocals, hq]
    exact ⟨nofun, rfl, rfl⟩
  all_goals
    rw [hs'.2.1, hs'.2.2]
    exact ⟨trivial, nofun, fun _ => hq ▸ hs.start⟩

/-- The callbacks of a block come in their order, and at its end the response is complete, or has
failed, or goes on. -/
structure ReportSound (h : HeaderState) (r : List Callback × HttpParser) : Prop where
  orderly : Orderly h r.1
  sound : .messageComplete ∉ r.1 → r.2.httpErrno = .ok →
    Sound r.2.state (startLocals r.2) (r.1.foldl leaves h)
  errno : .messageComplete ∈ r.1 → r.2.httpErrno = .ok

theorem reportLoop_sound (data rest : List UInt8) (pos : Nat) (he : p.httpErrno = .ok)
    (hs : Sound p.state x h) : ReportSound h (reportLoop data rest pos x p) := by
  induction rest generalizing pos x p h with
  | nil =>
    obtain ⟨ho, hm, hsound⟩ := reportLeft_sound data hs
    exact ⟨ho, fun _ => hsound, fun h => absurd h hm⟩
  | cons ch rest ih =>
    -- Counting the byte does not change the state.
    have hstate : (if p.state.parsingHeader && x.run.isNone then counted 1 p else p).state =
        p.state := by
      split_ifs
      · exact counted_state 1
      · rfl
    unfold reportLoop
    dsimp only
    generalize (if p.state.parsingHeader && x.run.isNone then counted 1 p else p) = q at hstate ⊢
    split_ifs with heq
    · exact ⟨trivial, fun _ h => absurd h heq, nofun⟩
    rw [not_not] at heq
    rw [← hstate] at hs
    obtain ⟨ho, hb⟩ := reportByte_sound data pos ch 4 heq hs
    generalize reportByte data pos ch 4 x q = r at ho hb ⊢
    obtain ⟨calls, r⟩ := r
    cases r with
    | stop p => exact ⟨ho, fun hm he => absurd (hb.mp he) hm, hb.mpr⟩
    | next x p =>
      obtain ⟨hm, he, hs⟩ := hb
      obtain ⟨ho', hs', herrno⟩ := ih (pos + 1) he hs
      refine ⟨(orderly_append hm).mpr ⟨ho, ho'⟩, fun hm' he' => ?_, fun hm' => ?_⟩
      -- The callbacks of this byte come in front of those of the rest.
      · have hm'' : .messageComplete ∉ (reportLoop data rest (pos + 1) x p).1 :=
          fun h => hm' (List.mem_append_right _ h)
        have hs'' := hs' hm'' he'
        rwa [← List.foldl_append] at hs''
      · exact herrno ((List.mem_append.mp hm').resolve_left hm)

/-- **The parser reports names and values in their order, however the response is cut.** -/
theorem report_sound (data : List UInt8) (hs : Sound p.state (startLocals p) h) :
    ReportSound h (report data p) := by
  unfold report
  split_ifs with he hd
  · exact ⟨trivial, fun _ h => absurd h he, nofun⟩
  · split
    · rename_i heof
      have hstate : p.state = .bodyIdentityEof := by
        unfold HttpParser.atEof at heof
        split at heof <;> first | assumption | cases heof
      rw [hstate] at hs
      exact ⟨⟨hs.1, rfl⟩, fun hm => absurd (List.mem_singleton_self _) hm, fun _ => not_not.mp he⟩
    · exact ⟨trivial, fun _ _ => hs, nofun⟩
    · refine ⟨trivial, fun _ h => ?_, nofun⟩
      cases h
  · exact reportLoop_sound data data 0 (not_not.mp he) hs

end Blocks

/-! ## The bytes of a name -/

section Names

variable {h : HeaderState} {data : List UInt8} {p : HttpParser} {x : Locals} {pos : Nat}
  {ch : UInt8}

/-- No byte of the name that is being read is zero. -/
def NameMark (data : List UInt8) (x : Locals) (pos : Nat) : Prop :=
  ∀ m, x.fieldMark = some m → m ≤ pos ∧ 0 ∉ Http.marked data m pos

/-- A pass that has nothing to do with a name. -/
def Nameless (x : Locals) (pass : Pass) : Prop :=
  pass.locals.fieldMark = x.fieldMark ∧ ∀ bytes, pass.call ≠ some (.headerField bytes)

theorem nameless_expect {c : UInt8} {s : Http.State} {e : Errno} :
    Nameless x (Pass.expect p x ch c s e) := by
  unfold Pass.expect
  split_ifs <;> exact ⟨rfl, nofun⟩

theorem nameless_value {y : Locals} (hy : y.fieldMark = x.fieldMark) {mark : Option Nat}
    {upto : Nat} {next : Http.Next} : Nameless x
      { parser := p
        locals := y
        call := mark.map fun m => .headerValue (Http.marked data m upto)
        next } := by
  refine ⟨hy, fun bytes hc => ?_⟩
  cases mark <;> cases hc

theorem nameless_valueStart : Nameless x (Http.headerValueStart p x pos ch) := by
  unfold Http.headerValueStart
  split <;> exact ⟨rfl, nofun⟩

theorem step_nameless (hs : p.state ≠ .headerFieldStart) (hf : p.state ≠ .headerField) :
    Nameless x (Http.step data p x pos ch) := by
  cases hp : p.state <;> simp only [Http.step, hp]
  case headerFieldStart => exact absurd hp hs
  case headerField => exact absurd hp hf
  case headerValueStart => exact nameless_valueStart
  case headerValueDiscardWs =>
    unfold Http.headerValueDiscardWs
    split_ifs
    · exact ⟨rfl, nofun⟩
    · exact ⟨rfl, nofun⟩
    · exact ⟨rfl, nofun⟩
    · exact nameless_valueStart
  -- The value of such a field is empty.
  case headerValueDiscardLws =>
    unfold Http.headerValueDiscardLws
    split_ifs
    · exact ⟨rfl, nofun⟩
    · exact ⟨rfl, nofun⟩
    · exact nameless_value rfl
  -- A value is handed on with a callback of its own.
  case headerValue =>
    unfold Http.headerValue
    dsimp only
    split
    · split
      · exact nameless_value rfl
      · exact nameless_value rfl
    split
    · split
      · exact nameless_value rfl
      · exact ⟨rfl, nofun⟩
    split
    · exact ⟨rfl, nofun⟩
    · split <;> exact ⟨rfl, nofun⟩
  case headerValueLws =>
    unfold Http.headerValueLws
    split_ifs <;> exact ⟨rfl, nofun⟩
  case headersAlmostDone =>
    unfold Http.headersAlmostDone
    split_ifs <;> exact ⟨rfl, nofun⟩
  case headersDone =>
    unfold Http.headersDone
    dsimp only
    split_ifs <;> exact ⟨rfl, nofun⟩
  case chunkSize =>
    unfold Http.chunkSize
    split
    · exact ⟨rfl, nofun⟩
    split
    · split_ifs <;> exact ⟨rfl, nofun⟩
    · split <;> exact ⟨rfl, nofun⟩
  case chunkSizeStart => split <;> exact ⟨rfl, nofun⟩
  -- No other state has a callback with a name.
  all_goals
    first
    | exact nameless_expect
    | exact ⟨rfl, nofun⟩
    | split_ifs <;> exact ⟨rfl, nofun⟩

/-- The bytes behind a mark, with one more. -/
theorem marked_succ {m : Nat} (hm : m ≤ pos) (hch : data[pos]? = some ch) :
    Http.marked data m (pos + 1) = Http.marked data m pos ++ [ch] := by
  have hget : (data.drop m)[pos - m]? = some ch := by
    rw [List.getElem?_drop, Nat.add_sub_cancel' hm, hch]
  rw [Http.marked, Http.marked, Nat.succ_sub hm, List.take_add_one, hget]
  rfl

theorem NameMark.none (hx : x.fieldMark = none) : NameMark data x pos := by
  intro m hm
  cases hx.symm.trans hm

/-- What a pass does with the name that is being read. -/
structure KeepsName (data : List UInt8) (pos : Nat) (pass : Pass) : Prop where
  call : ∀ bytes, pass.call = some (.headerField bytes) → 0 ∉ bytes
  advance : pass.next = .advance → NameMark data pass.locals (pos + 1)
  reexecute : pass.next = .reexecute → pass.locals.fieldMark = none

theorem ne_zero_of_token (h : Http.token ch ≠ 0) : ch ≠ 0 := by
  rintro rfl
  exact h rfl

/-- **A pass reports names without zeros.** -/
theorem step_keepsName (hs : Sound p.state x h) (hm : NameMark data x pos)
    (hch : data[pos]? = some ch) : KeepsName data pos (Http.step data p x pos ch) := by
  -- The first byte of a name sets the mark.
  by_cases hstart : p.state = .headerFieldStart
  · rw [hstart] at hs
    have hone (ht : Http.token ch ≠ 0) : 0 ∉ Http.marked data pos (pos + 1) := by
      rw [marked_succ (Nat.le_refl pos) hch]
      simpa [Http.marked] using (ne_zero_of_token ht).symm
    simp only [Http.step, hstart, Http.headerFieldStart]
    split_ifs with h₁ h₂ h₃
    · exact ⟨nofun, fun _ => .none hs.2.1, nofun⟩
    · exact ⟨nofun, nofun, fun _ => hs.2.1⟩
    · exact ⟨nofun, nofun, nofun⟩
    all_goals
      refine ⟨nofun, fun _ m hm => ?_, nofun⟩
      simp only [Pass.goto, hs.2.1] at hm
      obtain rfl : pos = m := Option.some.inj hm
      exact ⟨Nat.le_succ pos, hone h₃⟩
  -- Inside of a name the mark stays, and at its end the name is handed on.
  by_cases hfield : p.state = .headerField
  · simp only [Http.step, hfield, Http.headerField]
    split
    · rename_i ht
      refine ⟨nofun, fun _ m hm' => ?_, nofun⟩
      obtain ⟨hle, hzero⟩ := hm m hm'
      refine ⟨Nat.le_succ_of_le hle, ?_⟩
      rw [marked_succ hle hch, List.mem_append, List.mem_singleton, not_or]
      exact ⟨hzero, (ne_zero_of_token ht).symm⟩
    split
    · exact ⟨nofun, nofun, nofun⟩
    split_ifs
    · refine ⟨fun bytes hc => ?_, fun _ => .none rfl, nofun⟩
      obtain ⟨m, hm', hb⟩ := Option.map_eq_some_iff.mp hc
      rw [← Callback.headerField.inj hb]
      exact (hm m hm').2
    · exact ⟨nofun, nofun, nofun⟩
  · obtain ⟨hmark, hcall⟩ : Nameless x (Http.step data p x pos ch) := step_nameless hstart hfield
    -- Elsewhere there is no mark.
    have hx : x.fieldMark = Option.none := by
      cases hp : p.state <;> rw [hp] at hs
      case headerField => exact absurd hp hfield
      all_goals exact hs.2.1
    exact ⟨fun bytes hc => absurd hc (hcall bytes), fun _ => .none (hmark.trans hx),
      fun _ => hmark.trans hx⟩

/-- The names that are reported have no zeros. -/
def CleanNames (calls : List Callback) : Prop := ∀ bytes, .headerField bytes ∈ calls → 0 ∉ bytes

theorem CleanNames.append {calls calls' : List Callback} (h : CleanNames calls)
    (h' : CleanNames calls') : CleanNames (calls ++ calls') := by
  intro bytes hb
  rcases List.mem_append.mp hb with hb | hb
  · exact h bytes hb
  · exact h' bytes hb

theorem reportByte_names (fuel : Nat) (hs : Sound p.state x h) (hm : NameMark data x pos)
    (hlast : fuel = 0 → NameMark data x (pos + 1)) (hch : data[pos]? = some ch) :
    CleanNames (reportByte data pos ch fuel x p).1 ∧
      ∀ x' p', (reportByte data pos ch fuel x p).2 = .next x' p' → NameMark data x' (pos + 1) := by
  induction fuel generalizing x p h with
  | zero =>
    refine ⟨nofun, fun x' p' hr => ?_⟩
    cases hr
    exact hlast rfl
  | succ fuel ih =>
    have ht : InTurn p.httpErrno (Http.step data p x pos ch) h := step_inTurn hs
    have hk := step_keepsName hs hm hch
    unfold reportByte
    dsimp only
    -- The pass that is taken, and what is known of its callback.
    generalize Http.step data p x pos ch = pass at ht hk ⊢
    have hcalls : CleanNames pass.call.toList :=
      fun bytes hb => hk.call bytes (Option.mem_toList.mp hb)
    split_ifs with hstop
    · exact ⟨hcalls, fun x' p' hr => by cases hr⟩
    cases hn : pass.next with
    | advance =>
      refine ⟨hcalls, fun x' p' hr => ?_⟩
      cases hr
      exact hk.advance hn
    | reexecute =>
      have hnone := hk.reexecute hn
      obtain ⟨hnames, hnext⟩ := ih ht.sound (.none hnone) fun _ => .none hnone
      exact ⟨hcalls.append hnames, hnext⟩
    | error e => exact ⟨hcalls, fun x' p' hr => by cases hr⟩
    | «return» => exact ⟨hcalls, fun x' p' hr => by cases hr⟩

theorem reportLeft_names (hm : NameMark data x data.length) :
    CleanNames (reportLeft data x p).1 := by
  unfold reportLeft
  dsimp only
  split_ifs
  · nofun
  · intro bytes hb
    rcases List.mem_append.mp hb with hb | hb
    · obtain ⟨m, hm', heq⟩ := Option.map_eq_some_iff.mp (Option.mem_toList.mp hb)
      rw [← Callback.headerField.inj heq]
      exact (hm m hm').2
    · obtain ⟨m, -, heq⟩ := Option.map_eq_some_iff.mp (Option.mem_toList.mp hb)
      cases heq

theorem reportLoop_names {rest : List UInt8} (hs : Sound p.state x h) (hpos : data.drop pos = rest)
    (hle : pos ≤ data.length) (hm : NameMark data x pos) :
    CleanNames (reportLoop data rest pos x p).1 := by
  induction rest generalizing pos x p h with
  | nil =>
    have hend : data.length ≤ pos := List.drop_eq_nil_iff.mp hpos
    apply reportLeft_names
    rwa [Nat.le_antisymm hend hle]
  | cons ch rest ih =>
    -- The byte at this place is the first of the rest.
    have hch : data[pos]? = some ch := by
      rw [← Nat.add_zero pos, ← List.getElem?_drop, hpos]
      rfl
    have hrest : data.drop (pos + 1) = rest := by
      rw [← List.drop_drop, hpos]
      rfl
    have hlt : pos < data.length := (List.getElem?_eq_some_iff.mp hch).1
    have hstate : (if p.state.parsingHeader && x.run.isNone then counted 1 p else p).state =
        p.state := by
      split_ifs
      · exact counted_state 1
      · rfl
    unfold reportLoop
    dsimp only
    generalize (if p.state.parsingHeader && x.run.isNone then counted 1 p else p) = q at hstate ⊢
    rw [← hstate] at hs
    split_ifs with he
    · nofun
    obtain ⟨-, hb⟩ := reportByte_sound data pos ch 4 (not_not.mp he) hs
    obtain ⟨hnames, hnext⟩ := reportByte_names 4 hs hm (by nofun) hch
    generalize reportByte data pos ch 4 x q = r at hb hnames hnext ⊢
    obtain ⟨calls, r⟩ := r
    cases r with
    | stop p => exact hnames
    | next x' p' => exact hnames.append (ih hb.2.2 hrest hlt (hnext x' p' rfl))

/-- **No name that is reported has a zero in it.** -/
theorem report_names (hs : Sound p.state (startLocals p) h) : CleanNames (report data p).1 := by
  unfold report
  split_ifs
  · nofun
  · split
    · intro bytes hb
      cases List.mem_singleton.mp hb
    · nofun
    · nofun
  · refine reportLoop_names hs rfl (Nat.zero_le _) fun m hm => ?_
    obtain rfl : m = 0 := by
      have hmark : (startLocals p).fieldMark = if p.state = .headerField then some 0 else none := rfl
      rw [hmark] at hm
      split_ifs at hm
      exact (Option.some.inj hm).symm
    exact ⟨Nat.le_refl 0, by simp [Http.marked]⟩

end Names

end Wic
