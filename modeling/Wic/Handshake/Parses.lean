import Wic.Model.Api

/-!
# What parsing the handshake changes

The parser of the response writes to the header store at the front of the rx buffer and to its own
fields, and it moves the instance to the state `ready` when the response is complete. It makes no
callback of the application. An instance that is ready without an error has found a header, so that
its rx buffer has room.

## Main definitions

* `Parses`: what `http_parser_execute` may change
* `Accepted`: a ready instance has an error or room
* `Parsing`: what may change while the instance stays accepted

## Main results

* `httpParserExecute_parsing`: a block of data changes no more
-/

namespace Wic

open Http (Errno Callback Locals)

variable {σ : Type}

/-- What parsing the response may change. -/
structure Parses (w w' : World σ) : Prop where
  inst : w'.inst = { w.inst with
    rx.s := w'.inst.rx.s, state := w'.inst.state, http := w'.inst.http,
    headerState := w'.inst.headerState, redirectUrl := w'.inst.redirectUrl }
  heap : w'.heap = w.heap
  app : w'.app = w.app
  ok : w.inst.rx.s.Ok → w'.inst.rx.s.Ok
  size : w'.inst.rx.s.size = w.inst.rx.s.size
  writable : w'.inst.rx.s.writable = w.inst.rx.s.writable
  state : w'.inst.state = w.inst.state ∨ w'.inst.state = .ready
  log : ∃ es, w'.log = w.log ++ es ∧ ∀ e ∈ es, e = .state .ready

/-- A ready instance has an error or an rx buffer with room. -/
def Accepted (w : World σ) : Prop :=
  w.inst.state = .ready → w.inst.http.httpErrno ≠ .ok ∨ 0 < w.inst.rx.s.size

namespace Parses

variable {w w' w'' : World σ}

theorem refl (w : World σ) : Parses w w :=
  ⟨rfl, rfl, rfl, id, rfl, rfl, .inl rfl, [], by simp, by simp⟩

theorem trans (h : Parses w w') (h' : Parses w' w'') : Parses w w'' where
  inst := by rw [h'.inst, h.inst]
  heap := h'.heap.trans h.heap
  app := h'.app.trans h.app
  ok := h'.ok ∘ h.ok
  size := h'.size.trans h.size
  writable := h'.writable.trans h.writable
  state := by
    rcases h'.state with h₁ | h₁
    · rw [h₁]
      exact h.state
    · exact .inr h₁
  log := by
    obtain ⟨es, hes, hall⟩ := h.log
    obtain ⟨fs, hfs, hall'⟩ := h'.log
    refine ⟨es ++ fs, by rw [hfs, hes, List.append_assoc], ?_⟩
    simpa [or_imp, forall_and] using ⟨hall, hall'⟩

/-- A change of the parser, of the header store, and of the fields that go with them. -/
theorem update {f : Inst → Inst} (hf : f w.inst = { w.inst with
      rx.s := (f w.inst).rx.s, http := (f w.inst).http, headerState := (f w.inst).headerState,
      redirectUrl := (f w.inst).redirectUrl })
    (hok : w.inst.rx.s.Ok → (f w.inst).rx.s.Ok) (hsize : (f w.inst).rx.s.size = w.inst.rx.s.size)
    (hw : (f w.inst).rx.s.writable = w.inst.rx.s.writable) : Parses w (w.update f) where
  inst := by
    rw [World.update_inst, hf]
  heap := rfl
  app := rfl
  ok := hok
  size := hsize
  writable := hw
  state := .inl (by rw [World.update_inst, hf])
  log := ⟨[], by simp, by simp⟩

theorem updateHttp (f : Http.HttpParser → Http.HttpParser) : Parses w (updateHttp f w) :=
  update rfl id rfl rfl

theorem setReady : Parses w (w.setState .ready) :=
  ⟨rfl, rfl, rfl, id, rfl, rfl, .inr rfl, [.state .ready], rfl, by simp⟩

end Parses

section Callbacks

variable {w : World σ}

theorem putHeader_parses (bytes : List UInt8) (next : HeaderState) :
    Parses w (putHeader bytes next w) :=
  .update rfl (fun h => h.write bytes) (Stream.write_size bytes) (Stream.write_writable bytes)

theorem putHeaderAfterNull_parses (bytes : List UInt8) (next : HeaderState) :
    Parses w (putHeaderAfterNull bytes next w) :=
  .update rfl (fun h => (h.write [0]).write bytes)
    ((Stream.write_size bytes).trans (Stream.write_size [0]))
    ((Stream.write_writable bytes).trans (Stream.write_writable [0]))

theorem onHeaderField_parses (bytes : List UInt8) : Parses w (onHeaderField bytes w) := by
  unfold onHeaderField
  split
  · exact putHeader_parses bytes .field
  · exact putHeader_parses bytes .field
  · exact putHeaderAfterNull_parses bytes .field

theorem onHeaderValue_parses (bytes : List UInt8) : Parses w (onHeaderValue bytes w).2 := by
  unfold onHeaderValue
  split
  · exact .refl w
  · exact putHeaderAfterNull_parses bytes .value
  · exact putHeader_parses bytes .value

theorem onResponseComplete_parses : Parses w (onResponseComplete w).2 := by
  have hnull : Parses w (if w.inst.headerState = .value then
      w.updateRx fun rx => { rx with s := rx.s.putU8 0 } else w) := by
    split_ifs
    · exact .update rfl (fun h => h.write [0]) (Stream.write_size [0]) (Stream.write_writable [0])
    · exact .refl w
  unfold onResponseComplete
  dsimp only
  generalize (if w.inst.headerState = .value then
      w.updateRx fun rx => { rx with s := rx.s.putU8 0 } else w) = w₁ at hnull ⊢
  refine hnull.trans (Parses.setReady.trans ?_)
  split_ifs
  · exact ⟨rfl, rfl, rfl, id, rfl, rfl, .inl rfl, [], by simp, by simp⟩
  · exact .refl _
  · exact .refl _

theorem respond_parses (c : Callback) : Parses w (respond c w).2 := by
  cases c with
  | headerField bytes => exact onHeaderField_parses bytes
  | headerValue bytes => exact onHeaderValue_parses bytes
  | messageComplete => exact onResponseComplete_parses

theorem respondOr_parses (c : Callback) : Parses w (respondOr c w) := by
  have h : Parses w (respond c w).2 := respond_parses c
  unfold respondOr
  generalize respond c w = r at h ⊢
  obtain ⟨ok, w'⟩ := r
  cases ok with
  | true => exact h
  | false => exact h.trans (.updateHttp _)

/-! ## Accepting the upgrade -/

theorem getHeaderLoop_some {s : Stream} {name : List UInt8} {fuel pos offset : Nat}
    (h : getHeaderLoop s name fuel pos = some offset) : 0 < s.pos := by
  cases fuel with
  | zero => cases h
  | succ fuel =>
    unfold getHeaderLoop at h
    split_ifs at h with hp <;> omega

theorem wicGetHeader_some {i : Inst} {name : List UInt8} {offset : Nat}
    (h : wicGetHeader i name = some offset) : 0 < i.rx.s.pos := by
  unfold wicGetHeader at h
  split_ifs at h
  exact getHeaderLoop_some h

/-- An upgrade is accepted on the strength of a header. -/
theorem acceptsUpgrade_pos {i : Inst} (h : acceptsUpgrade i = true) : 0 < i.rx.s.pos := by
  unfold acceptsUpgrade at h
  cases hh : wicGetHeader i (Http.ascii "upgrade") with
  | none => simp [hh] at h
  | some offset => exact wicGetHeader_some hh

/-- What parsing does, with the header store inside the rx buffer. -/
structure Parsing (w w' : World σ) : Prop extends Parses w w' where
  accepted : w.inst.rx.s.Ok → Accepted w → Accepted w'

theorem Parsing.refl (w : World σ) : Parsing w w := ⟨.refl w, fun _ => id⟩

theorem Parsing.trans {w w' w'' : World σ} (h : Parsing w w') (h' : Parsing w' w'') :
    Parsing w w'' :=
  ⟨h.toParses.trans h'.toParses, fun hok ha => h'.accepted (h.ok hok) (h.accepted hok ha)⟩

theorem setErrno_parsing {e : Errno} (he : e ≠ .ok) : Parsing w (setErrno e w) :=
  ⟨.updateHttp _, fun _ _ _ => .inl he⟩

/-- The parser changes while it has no error. -/
theorem updateHttp_parsing (he : w.inst.http.httpErrno = .ok)
    (f : Http.HttpParser → Http.HttpParser) : Parsing w (updateHttp f w) :=
  ⟨.updateHttp f, fun _ ha hs => .inr ((ha hs).resolve_left fun h => h he)⟩

/-- A response is accepted only into an rx buffer with room. -/
theorem onResponseComplete_room (hok : w.inst.rx.s.Ok) (h : (onResponseComplete w).1 = true) :
    0 < (onResponseComplete w).2.inst.rx.s.size := by
  have hp : Parses w (onResponseComplete w).2 := onResponseComplete_parses
  have hle := (hp.ok hok).pos_le
  suffices hpos : 0 < (onResponseComplete w).2.inst.rx.s.pos by omega
  unfold onResponseComplete at h ⊢
  dsimp only at h ⊢
  split_ifs at h ⊢ <;> simp_all only
  all_goals exact acceptsUpgrade_pos h

/-- **A callback of the parser leaves an error or an rx buffer with room.** -/
theorem respondOr_parsing (c : Callback) : Parsing w (respondOr c w) := by
  refine ⟨respondOr_parses c, fun hok ha => ?_⟩
  -- a callback that fails leaves its errno
  have hne (w' : World σ) : Accepted (setErrno c.errno w') := fun _ =>
    .inl (by cases c <;> simp [setErrno, updateHttp, Callback.errno])
  -- one that stores something changes neither the size of the buffer nor the state
  have hstore {w' : World σ} (hs : w'.inst.state = w.inst.state) (hh : w'.inst.http = w.inst.http)
      (hsize : w'.inst.rx.s.size = w.inst.rx.s.size) : Accepted w' := by
    unfold Accepted
    rw [hs, hh, hsize]
    exact ha
  have hnull (bytes : List UInt8) : ((w.inst.rx.s.putU8 0).write bytes).size = w.inst.rx.s.size :=
    (Stream.write_size bytes).trans (Stream.write_size [0])
  cases c with
  | headerField bytes =>
    simp only [respondOr, respond, onHeaderField]
    split
    · exact hstore rfl rfl (Stream.write_size bytes)
    · exact hstore rfl rfl (Stream.write_size bytes)
    · exact hstore rfl rfl (hnull bytes)
  | headerValue bytes =>
    cases hs : w.inst.headerState with
    | idle => simpa [respondOr, respond, onHeaderValue, hs] using hne w
    | field =>
      simp only [respondOr, respond, onHeaderValue, hs]
      exact hstore rfl rfl (hnull bytes)
    | value =>
      simp only [respondOr, respond, onHeaderValue, hs]
      exact hstore rfl rfl (Stream.write_size bytes)
  -- the end of the response is taken only with an rx buffer that has room
  | messageComplete =>
    have hroom := onResponseComplete_room hok
    simp only [respondOr, respond]
    generalize onResponseComplete w = r at hroom ⊢
    obtain ⟨accepted, w'⟩ := r
    cases accepted with
    | true => exact fun _ => .inr (hroom rfl)
    | false => exact hne w'

theorem respondIf_parsing (c : Option Callback) : Parsing w (respondIf c w) := by
  cases c with
  | none => exact .refl w
  | some c => exact respondOr_parsing c

theorem countHeader_parsing (he : w.inst.http.httpErrno = .ok) (v : Nat) :
    Parsing w (countHeader v w) := by
  unfold countHeader
  split
  · exact updateHttp_parsing he _
  · exact setErrno_parsing (by simp)

end Callbacks

/-! ## The loop of the parser -/

section Loop

variable {w : World σ}

/-- The world a byte ends with. -/
def AfterByte.world : AfterByte σ → World σ
  | .next _ w => w
  | .stop w => w

theorem executeByte_parsing (he : w.inst.http.httpErrno = .ok) (data : List UInt8) (pos : Nat)
    (ch : UInt8) (fuel : Nat) (x : Locals) :
    Parsing w (executeByte data pos ch fuel x w).world ∧
      ∀ x' w', executeByte data pos ch fuel x w = .next x' w' → w'.inst.http.httpErrno = .ok := by
  induction fuel generalizing w x with
  | zero => exact ⟨.refl w, by rintro _ _ ⟨⟩; exact he⟩
  | succ fuel ih =>
    unfold executeByte
    dsimp only
    generalize Http.step data w.inst.http x pos ch = pass
    have hcall := (updateHttp_parsing he fun _ => pass.parser).trans (respondIf_parsing pass.call)
    generalize respondIf pass.call (updateHttp (fun _ => pass.parser) w) = w₁ at hcall ⊢
    by_cases he₁ : w₁.inst.http.httpErrno = .ok
    · rw [if_neg (not_not.mpr he₁)]
      cases pass.next with
      | advance => exact ⟨hcall, by rintro _ _ ⟨⟩; exact he₁⟩
      | reexecute =>
        obtain ⟨h, hnext⟩ := ih he₁ pass.locals
        exact ⟨hcall.trans h, hnext⟩
      | error e =>
        have herr : Parsing w₁ (setErrno e w₁) := updateHttp_parsing he₁ _
        exact ⟨hcall.trans herr, by rintro _ _ ⟨⟩⟩
      | «return» => exact ⟨hcall, by rintro _ _ ⟨⟩⟩
    · rw [if_pos he₁]
      exact ⟨hcall, by rintro _ _ ⟨⟩⟩

theorem respondMark_parsing (data : List UInt8) (c : List UInt8 → Callback) (mark : Option Nat) :
    Parsing w (respondMark data c mark w) := by
  unfold respondMark
  split_ifs
  · exact .refl w
  · exact respondIf_parsing _

theorem leftover_parsing (he : w.inst.http.httpErrno = .ok) (data : List UInt8) (x : Locals) :
    Parsing w (leftover data x w) := by
  have hrun : Parsing w (countRun x.run w) := by
    unfold countRun
    split
    · exact .refl w
    · exact countHeader_parsing he _
  exact hrun.trans ((respondMark_parsing _ _ _).trans (respondMark_parsing _ _ _))

theorem executeLoop_parsing (he : w.inst.http.httpErrno = .ok) (data rest : List UInt8)
    (pos : Nat) (x : Locals) : Parsing w (executeLoop data rest pos x w).2 := by
  induction rest generalizing w pos x with
  | nil => exact leftover_parsing he data x
  | cons ch rest ih =>
    unfold executeLoop
    dsimp only
    have hcount : Parsing w
        (if w.inst.http.state.parsingHeader && x.run.isNone then countHeader 1 w else w) := by
      split_ifs
      · exact countHeader_parsing he 1
      · exact .refl w
    generalize (if w.inst.http.state.parsingHeader && x.run.isNone then
      countHeader 1 w else w) = w₁ at hcount ⊢
    by_cases he₁ : w₁.inst.http.httpErrno = .ok
    · rw [if_neg (not_not.mpr he₁)]
      obtain ⟨hbyte, hnext⟩ := executeByte_parsing he₁ data pos ch 4 x
      cases hr : executeByte data pos ch 4 x w₁ with
      | next x' w' =>
        rw [hr] at hbyte
        exact (hcount.trans hbyte).trans (ih (hnext x' w' hr) (pos + 1) x')
      | stop w' =>
        rw [hr] at hbyte
        exact hcount.trans hbyte
    · rw [if_pos he₁]
      exact hcount

/-- **Parsing the response changes what `Parsing` says, however the response is cut.** -/
theorem httpParserExecute_parsing (data : List UInt8) : Parsing w (httpParserExecute data w).2 := by
  unfold httpParserExecute
  by_cases he : w.inst.http.httpErrno = .ok
  · rw [if_neg (not_not.mpr he)]
    by_cases hd : data.length = 0
    · rw [if_pos hd]
      cases w.inst.http.atEof with
      | complete => exact respondOr_parsing .messageComplete
      | nothing => exact .refl w
      | invalid => exact setErrno_parsing (by simp)
    · rw [if_neg hd]
      exact executeLoop_parsing he data data 0 _
  · rw [if_pos he]
    exact .refl w

end Loop

end Wic
