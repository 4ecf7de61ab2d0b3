import Wic.Commons.Fields
import Wic.Handshake.Parses
import Wic.Handshake.Reports

/-!
# The response

What `wic_parse` keeps of the response: the instance behind a block of data is the instance that has
answered the callbacks the parser reports, one after the other. As long as they fit its rx buffer,
the buffer holds the names and values of the fields, each with a terminator.

## Main definitions

* `answer`: the callbacks answered one after the other
* `Block`: the fields that callbacks report
* `Records`: the instance that has answered the callbacks

## Main results

* `httpParserExecute_eq`: a block of data is its callbacks answered
* `answer_stores`: what is stored
-/

namespace Wic

open Http (Errno Callback Locals HttpParser Pass)

variable {σ : Type}

/-! ## Callbacks answered -/

/-- The callbacks answered one after the other. -/
def answer (calls : List Callback) (w : World σ) : World σ :=
  calls.foldl (fun w c => respondOr c w) w

/-- The world with another parser. -/
def setHttp (p : HttpParser) (w : World σ) : World σ := updateHttp (fun _ => p) w

section Answer

variable {w : World σ} {h : HeaderState} {calls calls' : List Callback}

theorem answer_append : answer (calls ++ calls') w = answer calls' (answer calls w) :=
  List.foldl_append

@[simp] theorem answer_nil : answer [] w = w := rfl

theorem answer_toList (c : Option Callback) : answer c.toList w = respondIf c w := by
  cases c <;> rfl

@[simp] theorem setHttp_http (p : HttpParser) : (setHttp p w).inst.http = p := rfl

@[simp] theorem setHttp_headerState (p : HttpParser) :
    (setHttp p w).inst.headerState = w.inst.headerState := rfl

@[simp] theorem setHttp_setHttp (p q : HttpParser) : setHttp p (setHttp q w) = setHttp p w := rfl

theorem setHttp_self : setHttp w.inst.http w = w := rfl

theorem setErrno_setHttp (e : Errno) : setErrno e w = setHttp (fails e w.inst.http) w := rfl

theorem countHeader_eq (v : Nat) : countHeader v w = setHttp (counted v w.inst.http) w := by
  unfold countHeader counted
  generalize w.inst.http.countHeaderSize v = r
  obtain ⟨p, ok⟩ := r
  cases ok <;> rfl

/-- What answering a part of a field leaves alone. -/
structure AnswersPart (calls : List Callback) (w : World σ) : Prop where
  frame : ∃ s state, answer calls w = w.update fun i => { i with rx.s := s, headerState := state }
  state : (answer calls w).inst.headerState = calls.foldl leaves w.inst.headerState
  setHttp (p) : answer calls (setHttp p w) = setHttp p (answer calls w)

theorem AnswersPart.http (h : AnswersPart calls w) :
    (answer calls w).inst.http = w.inst.http := by
  obtain ⟨s, state, hw⟩ := h.frame
  rw [hw]
  rfl

theorem respondOr_field (bytes : List UInt8) : respondOr (.headerField bytes) w =
    if w.inst.headerState = .value then putHeaderAfterNull bytes .field w
    else putHeader bytes .field w := by
  show onHeaderField bytes w = _
  unfold onHeaderField
  cases w.inst.headerState <;> rfl

theorem respondOr_value {bytes : List UInt8} (hi : w.inst.headerState ≠ .idle) :
    respondOr (.headerValue bytes) w =
      if w.inst.headerState = .value then putHeader bytes .value w
      else putHeaderAfterNull bytes .value w := by
  unfold respondOr respond onHeaderValue
  cases hs : w.inst.headerState with
  | idle => exact absurd hs hi
  | field => rfl
  | value => rfl

theorem answersPart_one {c : Callback} (ho : Orderly w.inst.headerState [c])
    (hm : c ≠ .messageComplete) : AnswersPart [c] w := by
  have hone (w : World σ) : answer [c] w = respondOr c w := rfl
  cases c with
  | headerField bytes =>
    refine ⟨?_, ?_, fun p => ?_⟩
    · rw [hone, respondOr_field]
      split_ifs <;> exact ⟨_, _, rfl⟩
    · rw [hone, respondOr_field]
      split_ifs <;> rfl
    · rw [hone, hone, respondOr_field, respondOr_field, setHttp_headerState]
      split_ifs <;> rfl
  | headerValue bytes =>
    have hi : w.inst.headerState ≠ .idle := ho.1
    refine ⟨?_, ?_, fun p => ?_⟩
    · rw [hone, respondOr_value hi]
      split_ifs <;> exact ⟨_, _, rfl⟩
    · rw [hone, respondOr_value hi]
      split_ifs <;> rfl
    · rw [hone, hone, respondOr_value hi, respondOr_value (w := setHttp p w) hi,
        setHttp_headerState]
      split_ifs <;> rfl
  | messageComplete => exact absurd rfl hm

/-- Answering the parts of fields. -/
theorem answersPart (ho : Orderly w.inst.headerState calls) (hm : .messageComplete ∉ calls) :
    AnswersPart calls w := by
  induction calls generalizing w with
  | nil => exact ⟨⟨_, _, rfl⟩, rfl, fun _ => rfl⟩
  | cons c calls ih =>
    have hcons (w : World σ) : answer (c :: calls) w = answer calls (answer [c] w) := rfl
    have hc : c ≠ .messageComplete := fun hc => hm (hc ▸ List.mem_cons_self)
    have hsplit : Orderly w.inst.headerState ([c] ++ calls) := ho
    rw [orderly_append (by simpa using hc.symm)] at hsplit
    obtain ⟨hone, hrest⟩ := hsplit
    have h₁ := answersPart_one hone hc
    rw [← h₁.state] at hrest
    have h₂ := ih hrest fun h => hm (List.mem_cons_of_mem _ h)
    refine ⟨?_, ?_, fun p => ?_⟩
    · obtain ⟨_, _, hw₁⟩ := h₁.frame
      obtain ⟨s, state, hw₂⟩ := h₂.frame
      exact ⟨s, state, by rw [hcons, hw₂, hw₁]; rfl⟩
    · rw [hcons, h₂.state, h₁.state]
      rfl
    · rw [hcons, hcons, h₁.setHttp, h₂.setHttp]

/-- A response that is accepted is an upgrade. -/
theorem upgrade_of_complete (he : (respondOr .messageComplete w).inst.http.httpErrno = .ok) :
    w.inst.http.upgrade = true := by
  unfold respondOr respond at he
  have hupgrade : (onResponseComplete w).1 = true → w.inst.http.upgrade = true := by
    intro h
    unfold onResponseComplete at h
    dsimp only at h
    split_ifs at h
    all_goals
      unfold acceptsUpgrade at h
      exact (Bool.and_eq_true _ _ |>.mp h).1
  generalize onResponseComplete w = r at he hupgrade
  obtain ⟨accepted, w'⟩ := r
  cases accepted with
  | true => exact hupgrade rfl
  | false => cases he

end Answer

/-! ## The parser run over a block of data -/

section Run

variable {data : List UInt8} {w : World σ} {x : Locals}

/-- Where the parser is after a byte, with the callbacks answered. -/
def Reported.world (calls : List Callback) (w : World σ) : Reported → AfterByte σ
  | .next x p => .next x (answer calls (setHttp p w))
  | .stop p => .stop (answer calls (setHttp p w))

theorem Reported.world_append {calls calls' : List Callback} {q : HttpParser}
    (h : AnswersPart calls (setHttp q w)) (r : Reported) :
    r.world calls' (answer calls (setHttp q w)) = r.world (calls ++ calls') w := by
  have hset (p : HttpParser) : setHttp p (answer calls (setHttp q w)) =
      answer calls (setHttp p w) := (h.setHttp p).symm
  cases r with
  | next x p =>
    show AfterByte.next x _ = AfterByte.next x _
    rw [hset, answer_append]
  | stop p =>
    show AfterByte.stop _ = AfterByte.stop _
    rw [hset, answer_append]

/-- **A byte is its callbacks answered.** -/
theorem executeByte_eq (pos : Nat) (ch : UInt8) (fuel : Nat)
    (hs : Sound w.inst.http.state x w.inst.headerState) :
    executeByte data pos ch fuel x w =
      (reportByte data pos ch fuel x w.inst.http).2.world
        (reportByte data pos ch fuel x w.inst.http).1 w := by
  induction fuel generalizing x w with
  | zero => rfl
  | succ fuel ih =>
    have ht : InTurn w.inst.http.httpErrno (Http.step data w.inst.http x pos ch)
        w.inst.headerState := step_inTurn hs
    obtain ⟨hcalls, hleaves⟩ := ht.orderly
    unfold executeByte reportByte
    dsimp only
    generalize Http.step data w.inst.http x pos ch = pass at ht hcalls hleaves ⊢
    have hworld : respondIf pass.call (updateHttp (fun _ => pass.parser) w) =
        answer pass.call.toList (setHttp pass.parser w) := (answer_toList pass.call).symm
    rw [hworld]
    -- at the end of the response the loop stops, whatever its callback says
    by_cases hm : pass.call = some .messageComplete
    · have hstop : (decide (pass.call = some Callback.messageComplete) ||
          decide (pass.parser.httpErrno ≠ .ok)) = true := by simp [hm]
      rw [if_pos hstop]
      by_cases he : (answer pass.call.toList (setHttp pass.parser w)).inst.http.httpErrno = .ok
      · have hup : pass.parser.upgrade = true := by
          rw [hm] at he
          exact upgrade_of_complete he
        rw [if_neg (not_not.mpr he), ht.upgrade hm hup]
        rfl
      · rw [if_pos he]
        rfl
    -- a callback of a part leaves the parser as it is
    · have hm' : .messageComplete ∉ pass.call.toList := by simpa using hm
      have hpart : AnswersPart pass.call.toList (setHttp pass.parser w) := answersPart hcalls hm'
      rw [hpart.http, setHttp_http]
      by_cases he : pass.parser.httpErrno = .ok
      · have hgo : (decide (pass.call = some Callback.messageComplete) ||
            decide (pass.parser.httpErrno ≠ .ok)) = false := by simp [hm, he]
        rw [if_neg (not_not.mpr he), if_neg (by rw [hgo]; exact Bool.false_ne_true)]
        cases hn : pass.next with
        | advance => rfl
        -- the byte is looked at again in the world the callback has left
        | reexecute =>
          have hsound := ht.sound
          rw [← hleaves] at hsound
          have hnext := ih (w := answer pass.call.toList (setHttp pass.parser w)) (x := pass.locals)
            (by rw [hpart.http, hpart.state]; exact hsound)
          rw [hpart.http, setHttp_http] at hnext
          exact hnext.trans (Reported.world_append hpart _)
        | error e =>
          show AfterByte.stop _ = AfterByte.stop _
          rw [setErrno_setHttp, hpart.http, ← hpart.setHttp]
          rfl
        | «return» => rfl
      · have hstop : (decide (pass.call = some Callback.messageComplete) ||
            decide (pass.parser.httpErrno ≠ .ok)) = true := by simp [he]
        rw [if_pos hstop, if_pos he]
        rfl

theorem countRun_eq (run : Option Nat) :
    countRun run w = setHttp (countedRun run w.inst.http) w := by
  cases run with
  | none => rfl
  | some n => exact countHeader_eq (n - 1)

theorem respondMark_eq (he : w.inst.http.httpErrno = .ok) (c : List UInt8 → Callback)
    (mark : Option Nat) : respondMark data c mark w =
      answer (mark.map fun m => c (Http.marked data m data.length)).toList w := by
  rw [respondMark, if_neg (not_not.mpr he), answer_toList]

/-- What is left at the end of a block. -/
theorem leftover_eq (hs : Sound w.inst.http.state x w.inst.headerState) :
    leftover data x w = answer (reportLeft data x w.inst.http).1
      (setHttp (reportLeft data x w.inst.http).2 w) := by
  obtain ⟨ho, hm, -⟩ := reportLeft_sound data hs
  unfold reportLeft at ho hm ⊢
  unfold leftover
  rw [countRun_eq]
  dsimp only at ho hm ⊢
  generalize countedRun x.run w.inst.http = p at ho hm ⊢
  by_cases he : p.httpErrno = .ok
  · rw [if_neg (not_not.mpr he)] at ho hm ⊢
    have hm' : .messageComplete ∉ (x.fieldMark.map fun m =>
        Callback.headerField (Http.marked data m data.length)).toList := by simp
    have hfield : AnswersPart _ (setHttp p w) := answersPart ((orderly_append hm').mp ho).1 hm'
    have hfirst : respondMark data .headerField x.fieldMark (setHttp p w) = _ :=
      respondMark_eq he .headerField x.fieldMark
    rw [hfirst, respondMark_eq (by rw [hfield.http]; exact he), answer_append]
  · have hkept (c : List UInt8 → Callback) (mark : Option Nat) :
        respondMark data c mark (setHttp p w) = setHttp p w := if_pos he
    rw [if_pos he, hkept, hkept]
    rfl

/-- What the loop does with a byte, once the bytes of the header are counted in `p`. -/
theorem executeLoop_cons {p : HttpParser} (ch : UInt8) (rest : List UInt8) (pos : Nat)
    (hp : (if w.inst.http.state.parsingHeader && x.run.isNone then counted 1 w.inst.http
      else w.inst.http) = p) (hs : Sound w.inst.http.state x w.inst.headerState) :
    executeLoop data (ch :: rest) pos x w =
      if p.httpErrno ≠ .ok then (pos, setHttp p w)
      else match (reportByte data pos ch 4 x p).2.world (reportByte data pos ch 4 x p).1 w with
        | .next x w => executeLoop data rest (pos + 1) x w
        | .stop w => (pos + 1, w) := by
  have hcount : (if w.inst.http.state.parsingHeader && x.run.isNone then countHeader 1 w else w) =
      setHttp p w := by
    rw [← hp]
    split_ifs
    · exact countHeader_eq 1
    · rfl
  have hstate : p.state = w.inst.http.state := by
    rw [← hp]
    split_ifs
    · exact counted_state 1
    · rfl
  have hbyte : executeByte data pos ch 4 x (setHttp p w) = _ :=
    executeByte_eq pos ch 4 (hstate ▸ hs)
  rw [executeLoop, hcount, hbyte]
  rfl

/-- Where the loop goes on behind a byte. -/
theorem reportByte_next {p p' : HttpParser} {x' : Locals} {ch : UInt8} {pos : Nat}
    {calls : List Callback}
    (hp : (if w.inst.http.state.parsingHeader && x.run.isNone then counted 1 w.inst.http
      else w.inst.http) = p) (he : p.httpErrno = .ok)
    (hs : Sound w.inst.http.state x w.inst.headerState)
    (h : reportByte data pos ch 4 x p = (calls, .next x' p')) :
    AnswersPart calls (setHttp p' w) ∧
      Sound (answer calls (setHttp p' w)).inst.http.state x'
        (answer calls (setHttp p' w)).inst.headerState := by
  have hstate : p.state = w.inst.http.state := by
    rw [← hp]
    split_ifs
    · exact counted_state 1
    · rfl
  obtain ⟨ho, hb⟩ := reportByte_sound data pos ch 4 he (hstate ▸ hs)
  rw [h] at ho hb
  obtain ⟨hm, -, hs'⟩ := hb
  have hpart : AnswersPart calls (setHttp p' w) := answersPart ho hm
  refine ⟨hpart, ?_⟩
  rw [hpart.http, hpart.state]
  exact hs'

/-- The loop is its callbacks answered. -/
theorem executeLoop_eq (rest : List UInt8) (pos : Nat)
    (hs : Sound w.inst.http.state x w.inst.headerState) :
    (executeLoop data rest pos x w).2 = answer (reportLoop data rest pos x w.inst.http).1
      (setHttp (reportLoop data rest pos x w.inst.http).2 w) := by
  induction rest generalizing pos x w with
  | nil => exact leftover_eq hs
  | cons ch rest ih =>
    rw [executeLoop_cons ch rest pos rfl hs, reportLoop]
    dsimp only
    generalize hp : (if w.inst.http.state.parsingHeader && x.run.isNone then counted 1 w.inst.http
      else w.inst.http) = p
    by_cases he : p.httpErrno = .ok
    · rw [if_neg (not_not.mpr he), if_neg (not_not.mpr he)]
      rcases hr : reportByte data pos ch 4 x p with ⟨calls, r⟩
      cases r with
      | stop p' => rfl
      | next x' p' =>
        obtain ⟨hpart, hs'⟩ := reportByte_next hp he hs hr
        have hloop := ih (pos + 1) hs'
        rw [hpart.http, setHttp_http, ← hpart.setHttp, setHttp_setHttp] at hloop
        refine hloop.trans ?_
        rw [answer_append]
    · rw [if_pos he, if_pos he]
      rfl

/-- **A block of data is its callbacks answered.** -/
theorem httpParserExecute_eq
    (hs : Sound w.inst.http.state (startLocals w.inst.http) w.inst.headerState) :
    (httpParserExecute data w).2 = answer (report data w.inst.http).1
      (setHttp (report data w.inst.http).2 w) := by
  unfold httpParserExecute report
  by_cases he : w.inst.http.httpErrno = .ok
  · rw [if_neg (not_not.mpr he), if_neg (not_not.mpr he)]
    by_cases hd : data.length = 0
    · rw [if_pos hd, if_pos hd]
      cases w.inst.http.atEof <;> rfl
    · rw [if_neg hd, if_neg hd]
      exact executeLoop_eq data 0 hs
  · rw [if_pos he, if_pos he]
    rfl

end Run

/-! ## The fields -/

/-- Where callbacks are in a field. -/
inductive Pending
  | idle
  | name (n : List UInt8)
  | value (n v : List UInt8)
  deriving DecidableEq

namespace Pending

/-- The `header_state` that goes with it. -/
def state : Pending → HeaderState
  | .idle => .idle
  | .name _ => .field
  | .value _ _ => .value

/-- The field, as far as it has been reported. -/
def fields : Pending → List (List UInt8 × List UInt8)
  | .idle => []
  | .name n => [(n, [])]
  | .value n v => [(n, v)]

/-- The text of the field, as far as it has been reported. -/
def text : Pending → List UInt8
  | .idle => []
  | .name n => n
  | .value n v => n ++ 0 :: v

end Pending

/-- The fields callbacks have reported: whole ones, and the one they are in. -/
structure Block where
  whole : List (List UInt8 × List UInt8) := []
  part : Pending := .idle
  deriving DecidableEq

namespace Block

/-- All of the fields. -/
def fields (b : Block) : List (List UInt8 × List UInt8) := b.whole ++ b.part.fields

/-- The text of the fields. -/
def text (b : Block) : List UInt8 := Fields.layout 0 b.whole ++ b.part.text

/-- A callback more. -/
def hear (b : Block) : Callback → Block
  | .headerField bytes =>
    match b.part with
    | .name n => { b with part := .name (n ++ bytes) }
    | _ => { whole := b.fields, part := .name bytes }
  | .headerValue bytes =>
    match b.part with
    | .idle => b
    | .name n => { b with part := .value n bytes }
    | .value n v => { b with part := .value n (v ++ bytes) }
  | .messageComplete => b

variable {b : Block} {bytes : List UInt8}

theorem hear_state {c : Callback} (ho : Orderly b.part.state [c]) :
    (b.hear c).part.state = leaves b.part.state c := by
  obtain ⟨whole, part⟩ := b
  cases c with
  | headerField bytes => cases part <;> rfl
  | headerValue bytes =>
    cases part with
    | idle => exact absurd rfl ho.1
    | name n => rfl
    | value n v => rfl
  | messageComplete => rfl

/-- The text behind a name, or more of it. -/
theorem hear_field_text : (b.hear (.headerField bytes)).text =
    b.text ++ if b.part.state = .value then 0 :: bytes else bytes := by
  obtain ⟨whole, part⟩ := b
  cases part <;> simp [hear, text, fields, Pending.fields, Pending.text, Pending.state, Fields.layout,
    Fields.entry]

/-- The text behind a value, or more of it. -/
theorem hear_value_text (hi : b.part.state ≠ .idle) : (b.hear (.headerValue bytes)).text =
    b.text ++ if b.part.state = .value then bytes else 0 :: bytes := by
  obtain ⟨whole, part⟩ := b
  cases part with
  | idle => exact absurd rfl hi
  | name n => simp [hear, text, Pending.text, Pending.state]
  | value n v => simp [hear, text, Pending.text, Pending.state]

/-- The text of the block when it is complete. -/
theorem layout_fields (hf : b.part.state ≠ .field) :
    Fields.layout 0 b.fields = b.text ++ if b.part.state = .value then [0] else [] := by
  obtain ⟨whole, part⟩ := b
  cases part with
  | idle => simp [text, fields, Pending.fields, Pending.text, Pending.state]
  | name n => exact absurd rfl hf
  | value n v =>
    simp [text, fields, Pending.fields, Pending.text, Pending.state, Fields.layout, Fields.entry]

end Block

/-- The fields of a response, by the callbacks it is reported with. -/
def fieldsOf (calls : List Callback) : List (List UInt8 × List UInt8) :=
  (calls.foldl Block.hear {}).fields

theorem Block.hear_names {b : Block} {c : Callback} (hb : ∀ f ∈ b.fields, 0 ∉ f.1)
    (hc : ∀ bytes, c = .headerField bytes → 0 ∉ bytes) : ∀ f ∈ (b.hear c).fields, 0 ∉ f.1 := by
  obtain ⟨whole, part⟩ := b
  rw [fields, List.forall_mem_append] at hb
  obtain ⟨hwhole, hpart⟩ := hb
  cases c with
  | headerField bytes =>
    have hbytes := hc bytes rfl
    cases part with
    | name n =>
      have hname : 0 ∉ n ++ bytes := by simpa using ⟨hpart _ (List.mem_singleton_self _), hbytes⟩
      exact List.forall_mem_append.mpr ⟨hwhole, List.forall_mem_singleton.mpr hname⟩
    | idle | value =>
      exact List.forall_mem_append.mpr
        ⟨List.forall_mem_append.mpr ⟨hwhole, hpart⟩, List.forall_mem_singleton.mpr hbytes⟩
  | headerValue bytes =>
    cases part with
    | idle => exact List.forall_mem_append.mpr ⟨hwhole, hpart⟩
    | name n =>
      have hname : 0 ∉ n := hpart _ (List.mem_singleton_self _)
      exact List.forall_mem_append.mpr ⟨hwhole, List.forall_mem_singleton.mpr hname⟩
    | value n v =>
      have hname : 0 ∉ n := hpart _ (List.mem_singleton_self _)
      exact List.forall_mem_append.mpr ⟨hwhole, List.forall_mem_singleton.mpr hname⟩
  | messageComplete => exact List.forall_mem_append.mpr ⟨hwhole, hpart⟩

/-- The names of the fields are made of the names that are reported. -/
theorem fieldsOf_names {calls : List Callback} (h : CleanNames calls) :
    ∀ f ∈ fieldsOf calls, 0 ∉ f.1 := by
  have hfold (b : Block) (hb : ∀ f ∈ b.fields, 0 ∉ f.1) :
      ∀ f ∈ (calls.foldl Block.hear b).fields, 0 ∉ f.1 := by
    induction calls generalizing b with
    | nil => exact hb
    | cons c calls ih =>
      apply ih
      · exact fun bytes hm => h bytes (List.mem_cons_of_mem _ hm)
      · exact Block.hear_names hb fun bytes hc => h bytes (hc ▸ List.mem_cons_self)
  exact hfold {} nofun

/-! ## The header store -/

/-- The instance has stored what the callbacks have reported. -/
structure Records (b : Block) (w : World σ) : Prop where
  state : w.inst.headerState = b.part.state
  text : w.inst.rx.s.Keeps b.text

section Store

variable {w : World σ} {b : Block} {calls : List Callback}

theorem stores_one {c : Callback} (h : Records b w) (ho : Orderly b.part.state [c])
    (hm : c ≠ .messageComplete) : Records (b.hear c) (respondOr c w) := by
  have ho' : Orderly w.inst.headerState [c] := h.state ▸ ho
  have hstate : (respondOr c w).inst.headerState = leaves w.inst.headerState c :=
    (answersPart_one ho' hm).state
  refine ⟨by rw [hstate, h.state, Block.hear_state ho], ?_⟩
  have hzero (bytes : List UInt8) : ((w.inst.rx.s.putU8 0).write bytes).Keeps
      (b.text ++ 0 :: bytes) := by
    have hwrite := (h.text.write [0]).write bytes
    rwa [List.append_assoc] at hwrite
  cases c with
  | headerField bytes =>
    rw [respondOr_field, h.state, Block.hear_field_text]
    split_ifs
    · exact hzero bytes
    · exact h.text.write bytes
  | headerValue bytes =>
    have hi : b.part.state ≠ .idle := ho.1
    rw [respondOr_value (by rw [h.state]; exact hi), h.state, Block.hear_value_text hi]
    split_ifs
    · exact h.text.write bytes
    · exact hzero bytes
  | messageComplete => exact absurd rfl hm

/-- **The instance stores what the callbacks report.** -/
theorem answer_stores (h : Records b w) (ho : Orderly b.part.state calls)
    (hm : .messageComplete ∉ calls) : Records (calls.foldl Block.hear b) (answer calls w) := by
  induction calls generalizing w b with
  | nil => exact h
  | cons c calls ih =>
    have hc : c ≠ .messageComplete := fun hc => hm (hc ▸ List.mem_cons_self)
    have hsplit : Orderly b.part.state ([c] ++ calls) := ho
    rw [orderly_append (by simpa using hc.symm)] at hsplit
    obtain ⟨hone, hrest⟩ := hsplit
    refine ih (stores_one h hone hc) ?_ fun h => hm (List.mem_cons_of_mem _ h)
    rw [Block.hear_state hone]
    exact hrest

/-- The instance when the response is complete, before its checks. -/
def completed (w : World σ) : World σ :=
  (if w.inst.headerState = .value then
    w.updateRx fun rx => { rx with s := rx.s.putU8 0 }
  else w).setState .ready

theorem completed_frame (w : World σ) : ∃ s, s.size = w.inst.rx.s.size ∧
    completed w = (w.update fun i => { i with rx.s := s }).setState .ready := by
  unfold completed
  split_ifs
  · exact ⟨_, Stream.write_size [0], rfl⟩
  · exact ⟨_, rfl, rfl⟩

/-- The checks of `on_response_complete`. -/
def judged (w : World σ) : World σ :=
  if w.inst.http.statusCode ≠ 101 then
    setErrno .cbMessageComplete (if w.inst.http.statusCode ∈ redirects then
      w.update fun i => { i with redirectUrl := wicGetHeader i (Http.ascii "location") } else w)
  else if acceptsUpgrade w.inst then w
  else setErrno .cbMessageComplete w

theorem respondOr_of_complete {r : Bool × World σ} (h : onResponseComplete w = r) :
    respondOr .messageComplete w = if r.1 then r.2 else setErrno .cbMessageComplete r.2 := by
  subst h
  unfold respondOr respond
  dsimp only
  generalize onResponseComplete w = r
  obtain ⟨accepted, w'⟩ := r
  cases accepted <;> rfl

/-- The response is stored and then judged. -/
theorem respondOr_complete (w : World σ) :
    respondOr .messageComplete w = judged (completed w) := by
  have hjudge : onResponseComplete w = if (completed w).inst.http.statusCode ≠ 101 then
        (false, if (completed w).inst.http.statusCode ∈ redirects then
          (completed w).update fun i =>
            { i with redirectUrl := wicGetHeader i (Http.ascii "location") }
          else completed w)
      else (acceptsUpgrade (completed w).inst, completed w) := rfl
  rw [respondOr_of_complete hjudge]
  unfold judged
  generalize completed w = w'
  by_cases hcode : w'.inst.http.statusCode ≠ 101
  · rw [if_pos hcode, if_pos hcode]
    rfl
  · rw [if_neg hcode, if_neg hcode]

theorem answer_parses (w : World σ) : Parses w (answer calls w) := by
  induction calls generalizing w with
  | nil => exact .refl w
  | cons c calls ih => exact (respondOr_parses c).trans (ih _)

/-- **The whole block is stored when the response is complete.** -/
theorem Records.completed (h : Records b w) (hf : b.part.state ≠ .field) :
    (completed w).inst.rx.s.Keeps (Fields.layout 0 b.fields) := by
  rw [Block.layout_fields hf]
  unfold Wic.completed
  rw [h.state]
  split_ifs
  · exact h.text.write [0]
  · rw [List.append_nil]
    exact h.text

end Store

end Wic
