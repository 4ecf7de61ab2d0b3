import Wic.Calls.Idle
import Wic.Receiver.Reception
import Wic.Runs.Chunks

/-!
# Close frames from the peer

What an open instance makes of a close frame with a code and a reason, in any calls, whatever its
callbacks do. The codes below 3000 that may be sent are answered with the code and the reason that
came; those from 3000 on, which are for libraries and applications, with `WIC_CLOSE_NORMAL`. Every
other code, and a reason that is not UTF-8, is an error.

## Main definitions

* `applicationCode`: the codes for libraries and applications

## Main results

* `Reachable.close_judged`
-/

namespace Wic

open Websocket (Frame bigEndian encodeAll)

variable {σ : Type}

/-! ## The code and the reason -/

/-- The two bytes of a code. -/
theorem code_of_bytes (code : UInt16) :
    (((code >>> 8).toUInt8.toUInt16 <<< 8) ||| code.toUInt8.toUInt16) = code := by
  have hlow : code.toNat % 256 < 2 ^ 8 := Nat.mod_lt _ (by decide)
  have hlt := code.toNat_lt
  apply UInt16.toNat_inj.mp
  have hor := Nat.shiftLeft_add_eq_or_of_lt hlow (code.toNat / 256)
  rw [Nat.shiftLeft_eq] at hor
  have hhigh : code.toNat / 256 % 256 * 256 % 65536 = code.toNat / 256 * 2 ^ 8 := by omega
  simp [Nat.shiftRight_eq_div_pow, Nat.shiftLeft_eq, hhigh, ← hor]
  omega

section Buffer

variable {s : Stream} {code : UInt16} {reason : List UInt8}

/-- The code in the buffer of a close frame. -/
theorem closeCode_of_text (h : s.text = bigEndian 2 code.toNat ++ reason) : closeCode s = code := by
  rw [bigEndian_code] at h
  have hget (i : Nat) (hi : i < s.text.length) : s.mem.getD i 0 = s.text.getD i 0 := by
    simp only [Stream.text, List.length_take] at hi
    simp only [Stream.text, List.getD_eq_getElem?_getD]
    rw [List.getElem?_take_of_lt (by omega)]
  have hlen : 2 ≤ s.text.length := by
    rw [h]
    simp
  unfold closeCode
  rw [hget 0 (by omega), hget 1 (by omega), h]
  exact code_of_bytes code

/-- The reason in the buffer of a close frame. -/
theorem closeReason_of_text (hs : s.Ok) (h : s.text = bigEndian 2 code.toNat ++ reason)
    (hlen : reason.length ≤ 123) : (closeReason s).bytes = reason := by
  have hpos := hs.length_text
  rw [h, List.length_append, Websocket.length_bigEndian] at hpos
  have hcount : (s.pos + 2 ^ 64 - 2) % 65536 = reason.length := by omega
  have hdrop : s.text.drop 2 = reason := by
    rw [h]
    exact List.drop_left' (Websocket.length_bigEndian 2 code.toNat)
  unfold closeReason
  dsimp only
  have hlen' : s.pos - 2 = reason.length := by omega
  rw [hcount, ← hlen', ← List.drop_take]
  exact hdrop

end Buffer

/-- The codes for libraries and applications. -/
def applicationCode (code : UInt16) : Prop := 3000 ≤ code ∧ code ≤ 4999

instance (code : UInt16) : Decidable (applicationCode code) :=
  inferInstanceAs (Decidable (_ ∧ _))

/-- What a complete close frame is answered with. -/
def answerTo (code : UInt16) (reason : List UInt8) : UInt16 × List UInt8 :=
  if code ∈ echoed then
    if utf8IsComplete (utf8ParseString 0 reason) then (code, reason) else (closeProtocolError, [])
  else if applicationCode code then (closeNormal, [])
  else (closeProtocolError, [])

section Judgement

variable {cb : Callbacks σ} {w : World σ}

theorem ClosedWith.congr {code : UInt16} {reason : List UInt8} {type : BufferType}
    {w' : World σ} {f g : RxFrame → RxFrame} (h : ClosedWith code reason type (w.updateRx f) w') :
    ClosedWith code reason type w (w'.updateRx g) :=
  ⟨h.state, h.log⟩

/-- Closing without a reason. -/
theorem closeWithCode_closedWith (hcb : cb.Respect IdlesAt) (hr : w.inst.role = .client)
    (ho : w.inst.state = .open) {code : UInt16} (hu : unwritten code = false) (type : BufferType) :
    ClosedWith code [] type w (closeWithCode cb code type w) := by
  have hnull : closePayload .null = .null := rfl
  exact closeWithReason_closedWith hcb hr ho hu hnull (Nat.zero_le _) type

/-- A byte with a verdict closes the instance with its code. -/
theorem consume_closedWith (hcb : cb.Respect IdlesAt) (hr : w.inst.role = .client)
    (ho : w.inst.state = .open) {b : UInt8} {code : UInt16} {type : BufferType}
    (hv : w.inst.rx.verdict w.inst.utf8Rx b = some (code, type)) (hu : unwritten code = false) :
    ClosedWith code [] type w (consume cb b w) := by
  have hobeys := consume_obeys cb w b
  generalize consume cb b w = w' at hobeys ⊢
  cases hobeys with
  | stays f h => simp [hv] at h
  | closes f g code' type' h =>
    obtain ⟨rfl, rfl⟩ : code = code' ∧ type = type' := by simpa [hv] using h
    have hr' : (w.updateRx f).inst.role = .client := hr
    exact (closeWithCode_closedWith hcb hr' ho hu type).congr

theorem written_of_all {l : List UInt16} (h : l.all fun c => !unwritten c) :
    ∀ code ∈ l, unwritten code = false := fun code hc => by
  simpa using List.all_eq_true.mp h code hc

/-- A complete close frame is answered. -/
theorem finishClose_closedWith (hcb : cb.Respect IdlesAt) (h : Live w) {code : UInt16}
    {reason : List UInt8} (hlen : reason.length ≤ 123)
    (htext : w.inst.rx.s.text = bigEndian 2 code.toNat ++ reason)
    (hutf8 : w.inst.rx.utf8 = utf8ParseString 0 reason) :
    ClosedWith (answerTo code reason).1 (answerTo code reason).2 .closeResponse w
      (finishClose cb w) := by
  have hreason := closeReason_of_text h.lawful.ok htext hlen
  have hwritten := written_of_all (l := echoed) (by decide)
  have hplain {answer : UInt16} (hu : unwritten answer = false) :
      ClosedWith answer [] .closeResponse w (closeWithCode cb answer .closeResponse w) :=
    closeWithCode_closedWith hcb h.role h.state hu .closeResponse
  have hnormal : ClosedWith closeNormal [] .closeResponse w _ := hplain (by decide)
  have hprotocol : ClosedWith closeProtocolError [] .closeResponse w _ := hplain (by decide)
  unfold finishClose answerTo
  dsimp only
  rw [closeCode_of_text htext, hutf8]
  by_cases he : code ∈ echoed
  · rw [if_pos he, if_pos he]
    by_cases hc : utf8IsComplete (utf8ParseString 0 reason) = true
    · rw [if_pos hc, if_pos hc]
      have hkept : closePayload (closeReason w.inst.rx.s) = closeReason w.inst.rx.s := by
        rw [closePayload, hreason, if_pos hc]
      have hclosed := closeWithReason_closedWith hcb h.role h.state (hwritten code he) hkept
        (by rw [hreason]; exact hlen) .closeResponse
      rw [hreason] at hclosed
      exact hclosed
    · rw [if_neg hc, if_neg hc]
      exact hprotocol
  · rw [if_neg he, if_neg he]
    -- the source has a branch for each thousand
    by_cases h₃ : 3000 ≤ code ∧ code ≤ 3999
    · have happ : applicationCode code :=
        ⟨h₃.1, UInt16.le_trans h₃.2 (by decide)⟩
      rw [if_pos h₃, if_pos happ]
      exact hnormal
    · rw [if_neg h₃]
      have hsplit : (4000 ≤ code ∧ code ≤ 4999) ↔ applicationCode code := by
        simp only [applicationCode, UInt16.le_iff_toNat_le, UInt16.reduceToNat] at h₃ ⊢
        omega
      by_cases h₄ : 4000 ≤ code ∧ code ≤ 4999
      · rw [if_pos h₄, if_pos (hsplit.mp h₄)]
        exact hnormal
      · rw [if_neg h₄, if_neg fun h => h₄ (hsplit.mpr h)]
        exact hprotocol

/-- **A close frame behind a boundary**: it is answered, or its reason is cut short where it stops
being UTF-8. -/
theorem drain_close (hcb : cb.Respect IdlesAt) (h : Boundary w) {f : Frame}
    (hl : f.Legal w.inst.rx.inside) (h₈ : f.opcode.val = 8) {code : UInt16} {reason : List UInt8}
    (hp : f.payload = bigEndian 2 code.toNat ++ reason) (hroom : f.payload.length ≤ w.inst.rx.s.size) :
    (utf8ParseString 0 reason ≠ 1 ∧ ClosedWith (answerTo code reason).1 (answerTo code reason).2
        .closeResponse w (drain cb f.encode w).2) ∨
      utf8ParseString 0 reason = 1 ∧
        ClosedWith closeInvalidData [] .closeResponse w (drain cb f.encode w).2 := by
  have hq := hcb.quietOfIdles
  have hlen : f.payload.length = 2 + reason.length := by
    rw [hp, List.length_append, Websocket.length_bigEndian]
  have hdrop : f.payload.drop 2 = reason := by
    rw [hp]
    exact List.drop_left' (Websocket.length_bigEndian 2 code.toNat)
  have hshort : f.payload.length ≤ 125 := by
    simp only [Frame.Legal, h₈] at hl
    exact hl.2.2.1
  -- the header of a legal close frame is accepted
  have hv : headerVerdict w.inst.rx.inside w.inst.rx.s.size f = none := by
    have hstart : startAllowed w.inst.rx.inside f = true := by
      simp only [Frame.Legal, h₈] at hl
      simp [startAllowed, h₈, hl.1, hl.2.1]
    rw [headerVerdict, if_pos hstart]
    simp only [sizeVerdict, h₈]
    rw [if_neg (by omega), if_neg (by omega), if_neg (by omega)]
  -- its payload is gathered, or its reason breaks in the middle
  rcases h.lawful.flows_encode h.boundary hv (.inl h₈) w.inst.utf8Rx with ⟨hf, hg⟩ | ⟨-, hb, hbad⟩
  · have hopcode : (w.inst.rx.entered w.inst.utf8Rx f).opcode = .close := by
      show Opcode.ofFin f.opcode = .close
      rw [ofFin_control (.inl h₈), if_pos h₈]
    have hzero : (w.inst.rx.entered w.inst.utf8Rx f).utf8 = 0 := by
      show (if Opcode.ofFin f.opcode = .continue ∧ _ then _ else 0) = 0
      rw [if_neg]
      rintro ⟨ho, -⟩
      have ho' : Opcode.ofFin f.opcode = .close := hopcode
      simp [ho'] at ho
    have hutf8 := hg.utf8 hopcode
    have hvalid := hg.valid hopcode (by simp [hzero])
    rw [hzero, show (w.inst.rx.entered w.inst.utf8Rx f).s.pos = 0 from rfl, Nat.sub_zero, hdrop]
      at hutf8
    have htext := hg.text
    rw [show (w.inst.rx.entered w.inst.utf8Rx f).s.text = [] from Stream.rewind_text, List.nil_append,
      hp] at htext
    -- behind its last byte the frame is finished
    have hlive : Live (w.updateRx fun rx => rx.takeAll w.inst.utf8Rx f.encode) :=
      ⟨h.state, h.role, hg.lawful⟩
    have hrun : drain cb (f.encode ++ []) w = _ := drain_flows h.state hf []
    rw [List.append_nil] at hrun
    have hd : (w.updateRx fun rx => rx.takeAll w.inst.utf8Rx f.encode).inst.rx.state = .data := by
      rw [World.updateRx_inst, hg.fields]
      rfl
    have hz : (w.updateRx fun rx => rx.takeAll w.inst.utf8Rx f.encode).inst.rx.size = 0 := by
      rw [World.updateRx_inst, hg.fields]
      exact Nat.sub_self _
    have ho : (w.updateRx fun rx => rx.takeAll w.inst.utf8Rx f.encode).inst.rx.dataOpcode = .close := by
      have ho' : (w.inst.rx.takeAll w.inst.utf8Rx f.encode).opcode = .close := by
        rw [hg.fields]
        exact hopcode
      have hc : (w.inst.rx.takeAll w.inst.utf8Rx f.encode).opcode.isControl = true := by
        rw [ho']
        rfl
      exact (dataOpcode_of_control hc).trans ho'
    -- which closes the instance with the answer to the code and the reason
    have hclosed := finishClose_closedWith hcb hlive (by omega) htext hutf8
    have hset := settle_of_data cb hd
    rw [if_pos hz, finish_close ho] at hset
    simp only [Bool.false_eq_true, if_false] at hset
    have hno : (settle cb (w.updateRx fun rx => rx.takeAll w.inst.utf8Rx f.encode)).2.inst.state ≠
        .open := by
      rw [hset]
      simp [hclosed.state]
    rw [hrun, drain_settle hq hlive.role hlive.lawful.toSound hlive.state (by rw [hset]),
      drain_of_not_open hno, hset]
    refine .inl ⟨?_, ?_⟩
    · rw [← hutf8]
      exact hvalid
    · dsimp only
      exact hclosed.congr
  · obtain ⟨g, b, hv', hrun⟩ := drain_breaks hq h.role h.state hb
    have hrun := hrun []
    rw [List.append_nil] at hrun
    rw [hrun]
    have hclosed := consume_closedWith hcb (w := w.updateRx g) h.role h.state hv' (by decide)
    exact .inr ⟨by rw [← hdrop]; exact hbad, hclosed.congr (g := id)⟩

/-- A close frame that does not fit the buffer is not read beyond its header. -/
theorem drain_close_large (hcb : cb.Respect IdlesAt) (h : Boundary w) {f : Frame}
    (hl : f.Legal w.inst.rx.inside) (h₈ : f.opcode.val = 8) (hp : f.payload ≠ [])
    (hroom : w.inst.rx.s.size < f.payload.length) :
    ClosedWith closeTooBig [] .close w (drain cb f.encode w).2 := by
  simp only [Frame.Legal, h₈] at hl
  have hlen : f.payload.length ≠ 0 := fun h => hp (List.length_eq_zero_iff.mp h)
  have hv : headerVerdict w.inst.rx.inside w.inst.rx.s.size f = some closeTooBig := by
    have hstart : startAllowed w.inst.rx.inside f = true := by
      simp [startAllowed, h₈, hl.1, hl.2.1]
    rw [headerVerdict, if_pos hstart]
    simp only [sizeVerdict, h₈]
    rw [if_neg (by omega), if_neg hlen, if_pos hroom]
  obtain ⟨g, b, hv', hrun⟩ := drain_breaks hcb.quietOfIdles h.role h.state
    (RxFrame.breaks_header h.boundary h.lawful.frag hv)
  rw [Frame.encode, hrun]
  have hclosed := consume_closedWith hcb (w := w.updateRx g) h.role h.state hv' (by decide)
  exact hclosed.congr (g := id)

theorem applicationCode.not_echoed {code : UInt16} (h : applicationCode code) : code ∉ echoed := by
  have hsmall : ∀ c ∈ echoed, c < 3000 := by simp [echoed]
  exact fun he => absurd h.1 (UInt16.not_le.mpr (hsmall code he))

/-- The answer to a close frame is its own code and reason, success without a reason, or an error. -/
theorem answerTo_judges (code : UInt16) (reason : List UInt8) :
    (code ∈ echoed → Utf8.WellFormed reason → answerTo code reason = (code, reason)) ∧
      (applicationCode code → answerTo code reason = (closeNormal, [])) ∧
      (¬applicationCode code → (code ∈ echoed → ¬Utf8.WellFormed reason) →
        answerTo code reason = (closeProtocolError, [])) := by
  unfold answerTo
  refine ⟨fun he hw => ?_, fun ha => ?_, fun ha hw => ?_⟩
  · rw [if_pos he, if_pos (utf8IsComplete_iff.mpr hw)]
  · rw [if_neg ha.not_echoed, if_pos ha]
  · by_cases he : code ∈ echoed
    · rw [if_pos he, if_neg fun h => hw he (utf8IsComplete_iff.mp h)]
    · rw [if_neg he, if_neg ha]

/-- Bytes that close the instance may come in any calls. -/
theorem ClosedWith.feed (hcb : cb.Respect IdlesAt) (h : Boundary w) {bs : List UInt8}
    (hlen : bs.length < 2 ^ 32) {answer : UInt16} {words : List UInt8} {type : BufferType}
    (hclosed : ClosedWith answer words type w (drain cb bs w).2) {ks : List Nat}
    (henough : Enough w ks bs) :
    ∃ w', Wic.feed cb ks bs w = some ([], w') ∧ ClosedWith answer words type w w' := by
  have hrest : w.inst.rx.Rests := RxFrame.rests_of_opcode h.boundary
  obtain ⟨w', hrun, hagree⟩ := feed_agrees hcb.quietOfIdles h.toLive hrest
    (fun k _ => length_take_lt hlen k)
    (fun ho => by simp [hclosed.state] at ho) henough
  obtain ⟨g, rfl⟩ := hagree.2 (by simp [hclosed.state])
  exact ⟨_, hrun, hclosed.congr (f := id)⟩

/-- **A close frame from the peer is judged.** Whatever the callbacks do and in however many calls
its bytes come, if they are enough, it closes the instance once; a code below 3000 with its reason
comes back, a code of an application is answered with success, every other code and a reason that
cannot be UTF-8 with an error, and a frame that does not fit the buffer with `WIC_CLOSE_TOO_BIG`. -/
theorem Reachable.close_judged {allowed : Caller → Call → Prop} (hcb : Reentrant allowed cb)
    (h : Reachable allowed w) (ho : w.inst.state = .open) (hb : w.inst.rx.state = .opcode)
    {f : Frame} (hl : f.Legal w.inst.rx.inside) (h₈ : f.opcode.val = 8) {code : UInt16}
    {reason : List UInt8} (hp : f.payload = bigEndian 2 code.toNat ++ reason) {ks : List Nat}
    (henough : Enough w ks f.encode) :
    ∃ w' answer words type, feed cb ks f.encode w = some ([], w') ∧
      ClosedWith answer words type w w' ∧
      (w.inst.rx.s.size < f.payload.length → answer = closeTooBig ∧ words = []) ∧
      (f.payload.length ≤ w.inst.rx.s.size →
        (code ∈ echoed ∧ Utf8.WellFormed reason → answer = code ∧ words = reason) ∧
        (applicationCode code ∧ Utf8.WellFormed reason → answer = closeNormal ∧ words = []) ∧
        (code ∉ echoed ∧ ¬applicationCode code ∨ code ∈ echoed ∧ ¬Utf8.WellFormed reason ∨
            ¬(∃ more, Utf8.WellFormed (reason ++ more)) →
          (answer = closeProtocolError ∨ answer = closeInvalidData) ∧ words = [])) := by
  have hbound := h.boundary ho hb
  have hidle := hcb.idles
  have hlen : f.encode.length < 2 ^ 32 := by
    have henc := f.length_encode_le
    simp only [Frame.Legal, h₈] at hl
    omega
  -- a frame longer than the buffer is closed on at its header
  by_cases hroom : f.payload.length ≤ w.inst.rx.s.size
  swap
  · have hnil : f.payload ≠ [] := by
      rw [hp]
      simp [bigEndian]
    obtain ⟨w', hrun, hclosed⟩ :=
      (drain_close_large hidle hbound hl h₈ hnil (by omega)).feed hidle hbound hlen henough
    exact ⟨w', _, _, _, hrun, hclosed, fun _ => ⟨rfl, rfl⟩, fun hroom' => absurd hroom' hroom⟩
  -- what the answer is, from the code and the reason
  obtain ⟨hecho, happ, herr⟩ := answerTo_judges code reason
  rcases drain_close hidle hbound hl h₈ hp hroom with ⟨hvalid, hclosed⟩ | ⟨hbad, hclosed⟩
  · obtain ⟨w', hrun, hclosed⟩ := hclosed.feed hidle hbound hlen henough
    refine ⟨w', _, _, _, hrun, hclosed, fun h => absurd hroom (by omega), fun _ => ⟨?_, ?_, ?_⟩⟩
    · rintro ⟨he, hw⟩
      rw [hecho he hw]
      exact ⟨rfl, rfl⟩
    · rintro ⟨ha, -⟩
      rw [happ ha]
      exact ⟨rfl, rfl⟩
    · intro h
      have hanswer : answerTo code reason = (closeProtocolError, []) := by
        rcases h with ⟨he, ha⟩ | ⟨he, hw⟩ | hno
        · exact herr ha fun h => absurd h he
        · exact herr (fun ha => ha.not_echoed he) fun _ => hw
        · exact absurd (utf8ParseString_eq_one_iff.mpr hno) hvalid
      rw [hanswer]
      exact ⟨.inl rfl, rfl⟩
  · have hno := utf8ParseString_eq_one_iff.mp hbad
    have hnot : ¬Utf8.WellFormed reason := fun hw => hno ⟨[], by rwa [List.append_nil]⟩
    obtain ⟨w', hrun, hclosed⟩ := hclosed.feed hidle hbound hlen henough
    refine ⟨w', _, _, _, hrun, hclosed, fun h => absurd hroom (by omega), fun _ => ⟨?_, ?_, ?_⟩⟩
    · exact fun h => absurd h.2 hnot
    · exact fun h => absurd h.2 hnot
    · exact fun _ => ⟨.inr rfl, rfl⟩

end Judgement

namespace Sample

/-- The close frame with the code 3000 and no reason. -/
def applicationClose : Frame := .of true 8 none (bigEndian 2 3000) (by decide)

theorem applicationClose_legal (inside : Option Websocket.Kind) : applicationClose.Legal inside :=
  ⟨rfl, rfl, by decide, by decide⟩

theorem applicationClose_payload :
    applicationClose.payload = bigEndian 2 (3000 : UInt16).toNat ++ [] := rfl

/-- A session that receives it, byte by byte. -/
theorem open_close_judged : ∃ w w' : World Unit, (∀ allowed, Reachable allowed w) ∧
    feed giving [1, 1, 1, 1] [0x88, 0x02, 0x0b, 0xb8] w = some ([], w') ∧
      w'.inst.state = .closed := by
  obtain ⟨w, hw, ho, hb, -⟩ := opens
  have henough : Enough w [1, 1, 1, 1] applicationClose.encode := ⟨by decide, .inl (by decide)⟩
  obtain ⟨w', answer, words, type, hrun, hclosed, -⟩ :=
    (hw fun _ _ => True).close_judged (.passive giving_obliging.toPassive) ho hb
      (applicationClose_legal _) rfl applicationClose_payload henough
  exact ⟨w, w', hw, hrun, hclosed.state⟩

/-- The code 3000 may be sent, and its reason is UTF-8; but the frame that answers it and what
`on_close` is told of carry the code 1000. -/
theorem application_code_replaced : applicationCode 3000 ∧ Utf8.WellFormed [] ∧
    ∃ w w' : World Unit, (∀ allowed, Reachable allowed w) ∧ w.inst.state = .open ∧
      feed giving [4] [0x88, 0x02, 0x0b, 0xb8] w = some ([], w') ∧
      ClosedWith 1000 [] .closeResponse w w' := by
  obtain ⟨w, hw, ho, hb, -, hsize, -⟩ := opens
  have hbound := (hw fun _ _ => True).boundary ho hb
  have hidle : giving.Respect IdlesAt := (idles_lifts fun _ _ => True).respect
    (.passive giving_obliging.toPassive)
  have henough : Enough w [4] (encodeAll [applicationClose]) :=
    hbound.enough (fun f hf => by rw [List.mem_singleton.mp hf]; rfl) (by decide) (by decide)
  refine ⟨by decide, ⟨[], rfl⟩, w, ?_⟩
  rcases drain_close hidle hbound (applicationClose_legal _) rfl applicationClose_payload
    (by rw [hsize]; decide) with ⟨-, hclosed⟩ | ⟨hbad, -⟩
  · obtain ⟨w', hrun, hclosed⟩ := hclosed.feed hidle hbound (by decide) henough
    exact ⟨w', hw, ho, hrun, hclosed⟩
  · cases hbad

end Sample

end Wic
