import Wic.Runs.Judgement

/-!
# Headers of any form

The receiver judges a header by its first byte, and that of a control frame by the seven bits of its
length too. Nothing else closes an instance: not a mask, not a length in a longer form than it needs,
and not one with its most significant bit set. Behind such a header the instance is where the minimal
header with the same fields leaves it, and what follows has the same effect.

## Main results

* `Reachable.header_judged`
-/

namespace Wic

open Websocket (Frame LengthForm)

variable {σ : Type}

/-- A header that is let through in some form is let through in the minimal one. -/
theorem headerVerdict_of_as {form : LengthForm} {inside : Option Websocket.Kind} {room : Nat}
    {f : Frame} (hv : headerVerdictAs form inside room f = none) :
    headerVerdict inside room f = none := by
  unfold headerVerdictAs at hv
  unfold headerVerdict
  split_ifs at hv ⊢
  unfold sizeVerdictAs at hv
  split_ifs at hv with hform hcontrol
  · exact hv
  · simp only [not_or] at hcontrol
    exact RxFrame.sizeVerdict_of_data hcontrol

/-- The codes a header closes the instance with. -/
def headerCodes : List UInt16 := [closeNormal, closeProtocolError, closeTooBig]

theorem headerVerdictAs_code {form : LengthForm} {inside : Option Websocket.Kind} {room : Nat}
    {f : Frame} {code : UInt16} (hv : headerVerdictAs form inside room f = some code) :
    code ∈ headerCodes := by
  have hsize (hv : sizeVerdict room f = some code) : code ∈ headerCodes := by
    unfold sizeVerdict at hv
    dsimp only at hv
    split at hv
    · split_ifs at hv <;> simp [headerCodes, ← Option.some.inj hv]
    · split_ifs at hv <;> simp [headerCodes, ← Option.some.inj hv]
    · split_ifs at hv <;> simp [headerCodes, ← Option.some.inj hv]
    · cases hv
  unfold headerVerdictAs at hv
  split_ifs at hv
  · unfold sizeVerdictAs at hv
    split_ifs at hv
    · exact hsize hv
    · simp [headerCodes, ← Option.some.inj hv]
  · simp [headerCodes, ← Option.some.inj hv]

/-- A header is at most 14 bytes. -/
theorem length_headerAs (form : LengthForm) (f : Frame) : (f.headerAs form).length ≤ 14 := by
  have hkey := f.length_keyBytes
  have hext : (form.extension f.payload.length).length ≤ 8 := by
    cases form <;> simp [LengthForm.extension]
  simp only [Frame.headerAs, List.length_cons, List.length_append]
  omega

section Headers

variable {cb : Callbacks σ} {w : World σ} {f : Frame} {form : LengthForm}

/-- A header that is let through leaves the frame with its fields. -/
theorem drain_headerAs (h : Boundary w) (hform : form.Holds f.payload.length)
    (hv : headerVerdictAs form w.inst.rx.inside w.inst.rx.s.size f = none) (rest : List UInt8) :
    drain cb (f.headerAs form ++ rest) w =
      drain cb rest (w.updateRx fun rx => rx.entered w.inst.utf8Rx f) := by
  have hrsv : f.rsv = 0 := by
    unfold headerVerdictAs at hv
    split_ifs at hv with hstart
    exact rsv_of_startAllowed hstart
  rw [drain_flows h.state (RxFrame.flows_headerAs h.boundary h.lawful.frag hform hv)]
  congr 1
  exact World.updateRx_congr (RxFrame.takeAll_headerAs h.boundary hrsv hform)

/-- A header that is let through may come in any calls. -/
theorem feed_headerAs (hcb : cb.Respect IdlesAt) (h : Boundary w)
    (hform : form.Holds f.payload.length)
    (hv : headerVerdictAs form w.inst.rx.inside w.inst.rx.s.size f = none) (hp : f.payload ≠ [])
    {ks : List Nat} (henough : Enough w ks (f.headerAs form)) :
    feed cb ks (f.headerAs form) w = some ([], w.updateRx fun rx => rx.entered w.inst.utf8Rx f) := by
  have hrest : (w.updateRx fun rx => rx.entered w.inst.utf8Rx f).inst.rx.Rests := entered_rests h hp
  have hdrain : drain cb (f.headerAs form) w = ([], w.updateRx fun rx => rx.entered w.inst.utf8Rx f) := by
    rw [← List.append_nil (f.headerAs form), drain_headerAs h hform hv, drain_nil_of_rests hrest]
  have hshort : (f.headerAs form).length < 2 ^ 32 :=
    Nat.lt_of_le_of_lt (length_headerAs form f) (by decide)
  obtain ⟨w', hrun, hagree⟩ := feed_agrees hcb.quietOfIdles h.toLive
    (RxFrame.rests_of_opcode h.boundary) (fun k _ => length_take_lt hshort k)
    (fun _ => by rw [hdrain]; exact hrest) henough
  rw [hdrain] at hagree
  rw [hrun, hagree.1 h.state]

/-- A header that is not let through closes the instance, whatever follows it. -/
theorem drain_headerAs_verdict (hcb : cb.Respect IdlesAt) (h : Boundary w)
    (hform : form.Holds f.payload.length) {code : UInt16}
    (hv : headerVerdictAs form w.inst.rx.inside w.inst.rx.s.size f = some code)
    (rest : List UInt8) :
    ClosedWith code [] .close w (drain cb (f.headerAs form ++ rest) w).2 := by
  obtain ⟨g, b, hv', hrun⟩ := drain_breaks hcb.quietOfIdles h.role h.state
    (RxFrame.breaks_headerAs h.boundary h.lawful.frag hform hv)
  have hwritten := written_of_all (l := headerCodes) (by decide)
  have hclosed := consume_closedWith hcb (w := w.updateRx g) h.role h.state hv'
    (hwritten code (headerVerdictAs_code hv))
  rw [hrun]
  exact hclosed.congr (g := id)

/-- A header that is not let through may come in any calls. -/
theorem feed_headerAs_verdict (hcb : cb.Respect IdlesAt) (h : Boundary w)
    (hform : form.Holds f.payload.length) {code : UInt16}
    (hv : headerVerdictAs form w.inst.rx.inside w.inst.rx.s.size f = some code)
    {ks : List Nat} (henough : Enough w ks (f.headerAs form)) :
    ∃ w', feed cb ks (f.headerAs form) w = some ([], w') ∧ ClosedWith code [] .close w w' := by
  have hclosed := drain_headerAs_verdict hcb h hform hv []
  rw [List.append_nil] at hclosed
  exact hclosed.feed hcb h (Nat.lt_of_le_of_lt (length_headerAs form f) (by decide)) henough

/-! ## What follows a header -/

/-- The header of a frame without a mask, and what follows it, in one call. -/
theorem wicParse_headerAs (hcb : cb.Respect (QuietAt False)) (h : Boundary w)
    (hform : form.Holds f.payload.length)
    (hv : headerVerdictAs form w.inst.rx.inside w.inst.rx.s.size f = none) (hkey : f.key = none)
    {rest : List UInt8} (hlen : rest.length + 14 < 2 ^ 32)
    (hk : (w.updateRx fun rx => rx.entered w.inst.utf8Rx f).Keyless rest) :
    ∃ n w', wicParse cb (f.headerAs form ++ rest) w = some (n, w') ∧
      Agrees (drain cb rest (w.updateRx fun rx => rx.entered w.inst.utf8Rx f)).2 w' := by
  have hshort : (f.headerAs form ++ rest).length < 2 ^ 32 := by
    have hhead := length_headerAs form f
    rw [List.length_append]
    omega
  have hwhole : (f.headerAs form ++ rest).take ((f.headerAs form ++ rest).length % 2 ^ 32) =
      f.headerAs form ++ rest := by
    rw [Nat.mod_eq_of_lt hshort, List.take_length]
  have hkeyless : w.Keyless (f.headerAs form ++ rest) :=
    RxFrame.keyless_headerAs h.boundary hform hkey hk
  obtain ⟨w', hrun, hopen, hclosed⟩ :=
    wicParse_drain hcb h.receiving h.state _ hwhole (hkeyless.unbroken hcb h.toLive)
  rw [drain_headerAs h hform hv] at hopen hclosed
  exact ⟨_, w', hrun, hopen, hclosed⟩

/-- One byte. -/
theorem wicParse_single (hcb : cb.Respect (QuietAt False)) (h : Receiving w)
    (ho : w.inst.state = .open) (b : UInt8) :
    ∃ n w', wicParse cb [b] w = some (n, w') ∧ Agrees (drain cb [b] w).2 w' := by
  have hall : [b].take ([b].length % 2 ^ 32) = [b] := rfl
  obtain ⟨w', hrun, hopen, hclosed⟩ :=
    wicParse_drain hcb h ho [b] hall (unbroken_of_length (Nat.le_refl _))
  exact ⟨_, w', hrun, hopen, hclosed⟩

/-- Bytes that the receiver takes without a word, one by one. -/
theorem wicParseAll_flows (hcb : cb.Respect (QuietAt False)) {as : List UInt8} {b : UInt8}
    (h : Receiving w) (ho : w.inst.state = .open)
    (hf : w.inst.rx.Flows w.inst.utf8Rx (as ++ [b])) :
    ∃ w', wicParseAll cb ((as ++ [b]).map fun c => [c]) w = some w' ∧
      Agrees (drain cb (as ++ [b]) w).2 w' := by
  induction as generalizing w with
  | nil =>
    obtain ⟨n, w', hrun, hagree⟩ := wicParse_single hcb h ho b
    refine ⟨w', ?_, hagree⟩
    simp [wicParseAll, hrun]
  | cons a as ih =>
    obtain ⟨hrest, hv, hflows⟩ := hf
    obtain ⟨n, w₁, hrun, hagree⟩ := wicParse_single hcb h ho a
    have hd (ds : List UInt8) : drain cb (a :: ds) w =
        drain cb ds (w.updateRx fun rx => rx.take w.inst.utf8Rx a) := by
      rw [drain_cons_of_rests ho hrest, consume_of_none hv]
    have hnext : (w.updateRx fun rx => rx.take w.inst.utf8Rx a).inst.rx.Rests := by
      cases as with
      | nil => exact hflows.1
      | cons c as => exact hflows.1
    rw [hd, drain_nil_of_rests hnext] at hagree
    obtain rfl := hagree.1 ho
    have hall (ds : List UInt8) : wicParseAll cb ((a :: ds).map fun c => [c]) w =
        wicParseAll cb (ds.map fun c => [c]) (w.updateRx fun rx => rx.take w.inst.utf8Rx a) := by
      simp [wicParseAll, hrun]
    rw [List.cons_append, hall, hd]
    have hrec := (drain_receiving hcb h [a]).1
    rw [hd, drain_nil_of_rests hnext] at hrec
    exact ih hrec ho hflows

theorem wicParseAll_append (cb : Callbacks σ) (as bs : List (List UInt8)) (w : World σ) :
    wicParseAll cb (as ++ bs) w = (wicParseAll cb as w).bind (wicParseAll cb bs) := by
  unfold wicParseAll
  rw [List.foldlM_append]
  rfl

/-- Calls come to an end, whatever they are given. -/
theorem wicParseAll_returns (hcb : cb.Respect (QuietAt False)) (blocks : List (List UInt8))
    (h : w.inst.state = .open → Receiving w) (hs : w.inst.state = .open ∨ w.inst.state = .closed) :
    ∃ w', wicParseAll cb blocks w = some w' := by
  induction blocks generalizing w with
  | nil => exact ⟨w, rfl⟩
  | cons data blocks ih =>
    rcases hs with ho | hc
    · obtain ⟨as, cs, w₁, -, hrun, hends⟩ := wicParse_open hcb (h ho) ho data rfl
      have hparse : wicParseAll cb (data :: blocks) w = wicParseAll cb blocks w₁ := by
        simp [wicParseAll, hrun]
      obtain ⟨hrec, hsetup⟩ := drain_receiving hcb (h ho) as
      have hagree : Agrees (drain cb as w).2 w₁ := ⟨hends.of_open, hends.of_closed⟩
      rw [hparse]
      refine ih (fun ho₁ => ?_) ?_
      · rwa [hagree.1 (hagree.state.symm.trans ho₁)]
      · have hlead := hsetup.state
        rw [ho] at hlead
        rw [hagree.state]
        exact hlead.open_or
    · exact ⟨w, wicParseAll_of_closed hc _⟩

/-- What follows has the same effect on worlds that agree. -/
theorem Agrees.wicParseAll {u v v' : World σ} (hcb : cb.Respect (QuietAt False)) (hu : Receiving u)
    (hs : u.inst.state = .open ∨ u.inst.state = .closed) (h : Agrees u v) (h' : Agrees u v')
    (blocks : List (List UInt8)) : ∃ w₁ w₂, Wic.wicParseAll cb blocks v = some w₁ ∧
      Wic.wicParseAll cb blocks v' = some w₂ ∧ w₂.log = w₁.log ∧ w₂.inst.state = w₁.inst.state ∧
        (w₁.inst.state = .open → w₂ = w₁) := by
  rcases hs with ho | hc
  · obtain rfl := h.1 ho
    obtain rfl := h'.1 ho
    obtain ⟨w', hrun⟩ := wicParseAll_returns hcb blocks (fun _ => hu) (.inl ho)
    exact ⟨w', w', hrun, hrun, rfl, rfl, fun _ => rfl⟩
  · have hv := h.state.trans hc
    refine ⟨v, v', wicParseAll_of_closed hv blocks, wicParseAll_of_closed (h'.state.trans hc) blocks,
      h'.log.trans h.log.symm, h'.state.trans h.state.symm, fun ho => ?_⟩
    cases hv.symm.trans ho

/-- The bytes of a header, one by one. -/
theorem wicParseAll_headerAs (hcb : cb.Respect (QuietAt False)) (h : Boundary w)
    (hform : form.Holds f.payload.length)
    (hv : headerVerdictAs form w.inst.rx.inside w.inst.rx.s.size f = none) :
    ∃ w', wicParseAll cb ((f.headerAs form).map fun b => [b]) w = some w' ∧
      Agrees (drain cb [] (w.updateRx fun rx => rx.entered w.inst.utf8Rx f)).2 w' := by
  have hne : f.headerAs form ≠ [] := by simp [Frame.headerAs]
  obtain ⟨as, b, hsplit⟩ := List.eq_nil_or_concat' (f.headerAs form) |>.resolve_left hne
  have hflows := RxFrame.flows_headerAs (u := w.inst.utf8Rx) h.boundary h.lawful.frag hform hv
  have hd : drain cb (f.headerAs form ++ []) w = _ := drain_headerAs h hform hv []
  rw [List.append_nil] at hd
  rw [← hd]
  rw [hsplit] at hflows ⊢
  exact wicParseAll_flows hcb h.receiving h.state hflows

/-- **Headers are judged by their first byte, and those of control frames by the seven bits of their
length.** In however many calls its bytes come, if they are enough, and whatever the callbacks do, a
header either closes the instance with a code, or leaves it where the minimal header with the same
fields leaves it. Whatever follows such a header has the same effect behind both: byte by byte, and in
one call with the header when there is no mask. -/
theorem Reachable.header_judged {allowed : Caller → Call → Prop} (hcb : Reentrant allowed cb)
    (h : Reachable allowed w) (ho : w.inst.state = .open) (hb : w.inst.rx.state = .opcode)
    (hform : form.Holds f.payload.length) :
    (∀ code, headerVerdictAs form w.inst.rx.inside w.inst.rx.s.size f = some code →
      ∀ ks, Enough w ks (f.headerAs form) →
        ∃ w', feed cb ks (f.headerAs form) w = some ([], w') ∧ ClosedWith code [] .close w w') ∧
    (headerVerdictAs form w.inst.rx.inside w.inst.rx.s.size f = none →
      (f.payload ≠ [] →
        (∀ ks, Enough w ks (f.headerAs form) → feed cb ks (f.headerAs form) w =
          some ([], w.updateRx fun rx => rx.entered w.inst.utf8Rx f)) ∧
        (∀ ks, Enough w ks f.header → feed cb ks f.header w =
          some ([], w.updateRx fun rx => rx.entered w.inst.utf8Rx f))) ∧
      (∀ rest : List UInt8, ∃ w₁ w₂,
        wicParseAll cb ((f.headerAs form ++ rest).map fun b => [b]) w = some w₁ ∧
          wicParseAll cb ((f.header ++ rest).map fun b => [b]) w = some w₂ ∧ w₂.log = w₁.log ∧
            w₂.inst.state = w₁.inst.state ∧ (w₁.inst.state = .open → w₂ = w₁)) ∧
      (f.key = none → ∀ rest : List UInt8, rest.length + 14 < 2 ^ 32 →
        (w.updateRx fun rx => rx.entered w.inst.utf8Rx f).Keyless rest →
        ∃ n n' w₁ w₂, wicParse cb (f.headerAs form ++ rest) w = some (n, w₁) ∧
          wicParse cb (f.header ++ rest) w = some (n', w₂) ∧ w₂.log = w₁.log ∧
            w₂.inst.state = w₁.inst.state ∧ (w₁.inst.state = .open → w₂ = w₁))) := by
  have hbound := h.boundary ho hb
  have hidle := hcb.idles
  refine ⟨fun code hv ks henough => feed_headerAs_verdict hidle hbound hform hv henough,
    fun hv => ?_⟩
  -- the minimal header is one of the forms
  have hmin := LengthForm.minimal_holds f.length_lt
  have hvmin : headerVerdictAs (.minimal f.payload.length) w.inst.rx.inside w.inst.rx.s.size f =
      none := by
    rw [← headerVerdict_eq]
    exact headerVerdict_of_as hv
  rw [f.header_eq]
  refine ⟨fun hp => ⟨fun ks henough => feed_headerAs hidle hbound hform hv hp henough,
    fun ks henough => feed_headerAs hidle hbound hmin hvmin hp henough⟩, fun rest => ?_,
    fun hkey rest hlen hk => ?_⟩
  · obtain ⟨v₁, hrun₁, hagree₁⟩ := wicParseAll_headerAs hidle.quietOfIdles hbound hform hv
    obtain ⟨v₂, hrun₂, hagree₂⟩ := wicParseAll_headerAs hidle.quietOfIdles hbound hmin hvmin
    simp only [List.map_append, wicParseAll_append, hrun₁, hrun₂]
    obtain ⟨hrec, hsetup⟩ :=
      drain_receiving hidle.quietOfIdles hbound.receiving (f.headerAs form ++ [])
    rw [drain_headerAs hbound hform hv] at hrec hsetup
    have hlead := hsetup.state
    rw [ho] at hlead
    exact hagree₁.wicParseAll hidle.quietOfIdles hrec hlead.open_or hagree₂ _
  · obtain ⟨n, w₁, hrun₁, hagree₁⟩ :=
      wicParse_headerAs hidle.quietOfIdles hbound hform hv hkey hlen hk
    obtain ⟨n', w₂, hrun₂, hagree₂⟩ :=
      wicParse_headerAs hidle.quietOfIdles hbound hmin hvmin hkey hlen hk
    refine ⟨n, n', w₁, w₂, hrun₁, hrun₂, hagree₂.log.trans hagree₁.log.symm,
      hagree₂.state.trans hagree₁.state.symm, fun ho₁ => ?_⟩
    have ho' := hagree₁.state.symm.trans ho₁
    rw [hagree₂.1 ho', hagree₁.1 ho']

end Headers

namespace Sample

/-- The text `hi` in a masked frame. -/
def maskedHi : Frame := .of true 1 (some #v[1, 2, 3, 4]) [0x68, 0x69] (by decide)

/-- Its header with a length of eight bytes, one by one. -/
theorem open_header_judged : ∃ w : World Unit, (∀ allowed, Reachable allowed w) ∧
    feed giving (List.replicate 14 1) (maskedHi.headerAs .long) w =
      feed giving (List.replicate 6 1) maskedHi.header w := by
  obtain ⟨w, hw, ho, hb, hf, -⟩ := opens
  have hin : w.inst.rx.inside = none := by simp [RxFrame.inside, hf]
  have hv : headerVerdictAs .long w.inst.rx.inside w.inst.rx.s.size maskedHi = none := by
    rw [hin]
    rfl
  have hholds : LengthForm.long.Holds maskedHi.payload.length := maskedHi.length_lt
  obtain ⟨hlong, hminimal⟩ := (((hw fun _ _ => True).header_judged
    (.passive giving_obliging.toPassive) ho hb hholds).2 hv).1 (by decide)
  have henough : Enough w (List.replicate 14 1) (maskedHi.headerAs .long) :=
    ⟨by decide, .inl (by decide)⟩
  have henough' : Enough w (List.replicate 6 1) maskedHi.header := ⟨by decide, .inl (by decide)⟩
  exact ⟨w, hw, by rw [hlong _ henough, hminimal _ henough']⟩

/-- A masked text frame from the server is delivered, and the instance stays open. -/
theorem masked_delivered : ∃ w w' : World Unit, (∀ allowed, Reachable allowed w) ∧
    w.inst.state = .open ∧ w.inst.rx.state = .opcode ∧
    feed giving (List.replicate 8 1) [0x81, 0x82, 1, 2, 3, 4, 0x69, 0x6b] w = some ([], w') ∧
      w'.inst.state = .open ∧
      w'.log = w.log ++ [.message .utf8 true [0x68, 0x69], .answer true] := by
  obtain ⟨w, hw, ho, hb, hf, hsize, hm, -⟩ := opens
  have hbound := (hw fun _ _ => True).boundary ho hb
  have hin : w.inst.rx.inside = none := by simp [RxFrame.inside, hf]
  have hcarries : maskedHi.Carries w.inst.rx.inside .text := ⟨rfl, .inl ⟨hin, rfl⟩⟩
  have hencode : [0x81, 0x82, 1, 2, 3, 4, 0x69, 0x6b] = maskedHi.encode := by decide
  have hcb : giving.Obliging := giving_obliging
  -- with one byte a call, no call can be broken off in the mask
  have henough : Enough w (List.replicate 8 1) maskedHi.encode := ⟨by decide, .inl (by decide)⟩
  obtain ⟨w', hrun, hagree⟩ := feed_agrees hcb.quiet hbound.toLive
    (RxFrame.rests_of_opcode hb) (fun k _ => length_take_lt (by decide) k)
    (fun ho => (drain_obliging hcb hbound.toLive _ ho).2.1) henough
  have hpayload : decode maskedHi.key w.inst.rx.s.size 0 maskedHi.body = [0x68, 0x69] :=
    decode_body maskedHi (by rw [hsize]; decide)
  rw [hencode]
  -- the frame is delivered, as its text is complete
  rcases received_data hcb hbound (headerVerdict_of_carries hcarries)
    hcarries.kind_eq with ⟨w₁, hd, hend⟩ | ⟨-, hbad, -⟩
  · have hend := hend []
    rw [List.append_nil, received_nil_of_rests fun h => by simp [hd.boundary.boundary] at h] at hend
    have hopen : (received giving maskedHi.encode w).inst.state = .open := by
      rw [hend]
      exact hd.boundary.state
    have hlog := hd.log
    rw [hpayload, hm, hsize] at hlog
    rw [hagree.1 hopen] at hrun
    rw [← hend] at hlog
    exact ⟨w, _, hw, ho, hb, hrun, hopen, hlog⟩
  · have hstart : textStart maskedHi w.inst.utf8Rx = 0 := rfl
    rw [hpayload, hstart] at hbad
    exact absurd (by decide) hbad

end Sample

end Wic
