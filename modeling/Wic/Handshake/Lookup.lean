import Wic.Handshake.Response

/-!
# Looking up headers

`wic_get_header` and `wic_get_next_header` walk through the header store by the lengths of the
strings in it. In a store that holds whole fields, none of them with a zero inside, they are at the
front of a field at every turn. `wic_get_next_header` keeps its offset in 16 bits, so that behind
65535 bytes it starts again somewhere at the front.

## Main definitions

* `HeaderStore`: the rx buffer holds fields
* `Enumerates`: the lookups agree with the fields
* `NeverBeyond`: the lookups read nothing behind the fields

## Main results

* `HeaderStore.get`: `wic_get_header` finds the first field of a name
* `HeaderStore.enumerates_iff`: the lookups agree with up to 65535 bytes of fields
* `HeaderStore.neverBeyond`: they read nothing behind the fields
-/

namespace Wic

variable {σ : Type}

/-- The stream holds the fields. -/
structure HeaderStore (fs : List (List UInt8 × List UInt8)) (s : Stream) : Prop where
  ok : s.Ok
  text : s.text = Fields.layout 0 fs

namespace HeaderStore

variable {fs done rest : List (List UInt8 × List UInt8)} {f : List UInt8 × List UInt8} {s : Stream}

theorem pos_eq (h : HeaderStore fs s) : s.pos = (Fields.layout 0 fs).length := by
  rw [← h.ok.length_text, h.text]

/-- The strings at the front of a field. -/
theorem at_field (h : HeaderStore (done ++ f :: rest) s)
    (hclean : Fields.Clean 0 (done ++ f :: rest)) :
    cString s.mem (Fields.layout 0 done).length = f.1 ∧
      cString s.mem ((Fields.layout 0 done).length + f.1.length + 1) = f.2 := by
  have hmem : s.mem = Fields.layout 0 done ++ Fields.entry 0 f ++
      (Fields.layout 0 rest ++ s.mem.drop s.pos) := by
    have hsplit := List.take_append_drop s.pos s.mem
    rw [← Stream.text, h.text, Fields.layout_append, Fields.layout_cons] at hsplit
    simpa only [List.append_assoc] using hsplit.symm
  obtain ⟨hname, hvalue⟩ := hclean f (by simp)
  rw [hmem]
  exact ⟨Fields.strAt_name hname, Fields.strAt_value hvalue⟩

/-- The fields of which the first has been passed. -/
theorem behind (h : HeaderStore (done ++ f :: rest) s) :
    HeaderStore (done ++ [f] ++ rest) s := by
  rwa [List.append_assoc]

/-! ## `wic_get_header` -/

/-- **The loop of `wic_get_header` finds the first of the fields that are left.** -/
theorem getLoop (name : List UInt8) {fuel : Nat} (h : HeaderStore (done ++ rest) s)
    (hclean : Fields.Clean 0 (done ++ rest)) (hfuel : (Fields.layout 0 rest).length ≤ fuel) :
    (getHeaderLoop s name fuel (Fields.layout 0 done).length).map (cString s.mem) =
      (rest.find? fun f => strEqual f.1 name).map Prod.snd := by
  induction rest generalizing done fuel with
  | nil =>
    have hpos := h.pos_eq
    rw [List.append_nil] at hpos
    cases fuel with
    | zero => rfl
    | succ fuel => rw [getHeaderLoop, if_neg (by omega)]; rfl
  | cons f rest ih =>
    have hpos := h.pos_eq
    have hlen : (Fields.layout 0 (done ++ [f])).length = _ := Fields.length_layout_concat
    obtain ⟨hname, hvalue⟩ := h.at_field hclean
    rw [Fields.layout_append, Fields.layout_cons, List.length_append, List.length_append,
      Fields.length_entry] at hpos
    rw [Fields.layout_cons, List.length_append, Fields.length_entry] at hfuel
    cases fuel with
    | zero => omega
    | succ fuel =>
      rw [getHeaderLoop, if_pos (by omega), hname]
      dsimp only
      -- The field is the wanted one, or the loop goes on behind its value.
      by_cases heq : strEqual f.1 name = true
      · have hfound : (f :: rest).find? (fun f => strEqual f.1 name) = some f :=
          List.find?_cons_of_pos heq
        rw [if_pos heq, hfound, Option.map_some, Option.map_some, hvalue]
      · have hpassed : (f :: rest).find? (fun f => strEqual f.1 name) =
            rest.find? fun f => strEqual f.1 name := List.find?_cons_of_neg heq
        rw [if_neg heq, hpassed, hvalue]
        have hnext : (Fields.layout 0 done).length + f.1.length + 1 + f.2.length + 1 =
            (Fields.layout 0 (done ++ [f])).length := by omega
        rw [hnext]
        apply ih h.behind
        · rwa [List.append_assoc]
        · omega

end HeaderStore

/-- The value `wic_get_header` returns a pointer to. -/
def headerValue (i : Inst) (name : List UInt8) : Option (List UInt8) :=
  (wicGetHeader i name).map (cString i.rx.s.mem)

/-- The value of the first field of a name, which is not told from another by the case of its
letters. -/
def firstField (fs : List (List UInt8 × List UInt8)) (name : List UInt8) : Option (List UInt8) :=
  (fs.find? fun f => f.1.map tolower = name.map tolower).map Prod.snd

/-- **`wic_get_header` finds the first field of a name.** -/
theorem HeaderStore.get {fs : List (List UInt8 × List UInt8)} {i : Inst}
    (h : HeaderStore fs i.rx.s) (hclean : Fields.Clean 0 fs) (hs : i.state = .ready)
    (name : List UInt8) : headerValue i name = firstField fs name := by
  have hloop := HeaderStore.getLoop name (show HeaderStore ([] ++ fs) i.rx.s from h) hclean
    (Nat.le_of_eq h.pos_eq.symm)
  rw [headerValue, wicGetHeader, if_pos hs]
  refine hloop.trans ?_
  unfold firstField strEqual
  congr 2
  ext f
  exact beq_eq_decide _ _

/-! ## `wic_get_next_header` -/

/-- The name and the value `wic_get_next_header` returns pointers to. -/
def nextHeader (w : World σ) : Option (List UInt8 × List UInt8) :=
  (wicGetNextHeader w).1.map fun (name, value) =>
    (cString w.inst.rx.s.mem name, cString w.inst.rx.s.mem value)

/-- The world after `n` calls of `wic_get_next_header`. -/
def afterHeaders : Nat → World σ → World σ
  | 0, w => w
  | n + 1, w => (wicGetNextHeader (afterHeaders n w)).2

/-- The lookups agree with the fields: behind a rewind they are returned in their order, and then
nothing more, and by its name the first field is found that has it. -/
structure Enumerates (fs : List (List UInt8 × List UInt8)) (w : World σ) : Prop where
  next (n : Nat) : nextHeader (afterHeaders n (wicRewindGetNextHeader w)) = fs[n]?
  get (name : List UInt8) : headerValue w.inst name = firstField fs name

section Next

variable {w : World σ} {fs : List (List UInt8 × List UInt8)}

/-- `wic_get_next_header` moves its offset only. -/
theorem wicGetNextHeader_frame : (wicGetNextHeader w).2.inst.rx = w.inst.rx := by
  unfold wicGetNextHeader
  dsimp only
  split_ifs <;> rfl

theorem afterHeaders_frame (n : Nat) : (afterHeaders n w).inst.rx = w.inst.rx := by
  induction n with
  | zero => rfl
  | succ n ih => exact wicGetNextHeader_frame.trans ih

/-- The offset is kept in 16 bits. -/
theorem afterHeaders_pos (hw : w.inst.pos < 65536) (n : Nat) :
    (afterHeaders n w).inst.pos < 65536 := by
  induction n with
  | zero => exact hw
  | succ n ih =>
    show (wicGetNextHeader (afterHeaders n w)).2.inst.pos < 65536
    unfold wicGetNextHeader
    dsimp only
    split_ifs
    · exact Nat.mod_lt _ (by decide)
    · exact ih

/-- At the front of a field `wic_get_next_header` returns the field and moves behind it. -/
theorem HeaderStore.next {f : List UInt8 × List UInt8} {done rest : List (List UInt8 × List UInt8)}
    (h : HeaderStore (done ++ f :: rest) w.inst.rx.s)
    (hclean : Fields.Clean 0 (done ++ f :: rest))
    (hshort : (Fields.layout 0 (done ++ [f])).length < 65536)
    (hpos : w.inst.pos = (Fields.layout 0 done).length) :
    nextHeader w = some f ∧
      (wicGetNextHeader w).2.inst.pos = (Fields.layout 0 (done ++ [f])).length := by
  have hend := h.pos_eq
  rw [Fields.layout_append, Fields.layout_cons, List.length_append, List.length_append,
    Fields.length_entry] at hend
  rw [Fields.length_layout_concat] at hshort ⊢
  obtain ⟨hname, hvalue⟩ := h.at_field hclean
  -- The offset of the value still fits 16 bits.
  have hvaluePos : ((Fields.layout 0 done).length + f.1.length + 1) % 65536 =
      (Fields.layout 0 done).length + f.1.length + 1 := Nat.mod_eq_of_lt (by omega)
  have hnext : wicGetNextHeader w = (some ((Fields.layout 0 done).length,
      (Fields.layout 0 done).length + f.1.length + 1), w.update fun i =>
        { i with pos := (Fields.layout 0 done).length + f.1.length + f.2.length + 2 }) := by
    unfold wicGetNextHeader
    dsimp only
    rw [hpos, if_pos (by omega), hname, hvaluePos, hvalue]
    congr 2
    funext i
    congr 1
    omega
  constructor
  · rw [nextHeader, hnext, Option.map_some]
    dsimp only
    rw [hname, hvalue]
  · rw [hnext]
    rfl

theorem HeaderStore.take_le (n : Nat) :
    (Fields.layout 0 (fs.take n)).length ≤ (Fields.layout 0 fs).length := by
  conv_rhs => rw [← List.take_append_drop n fs, Fields.layout_append, List.length_append]
  exact Nat.le_add_right _ _

/-- In front of field `n` it returns that field, if there is one, and moves on to the next. -/
theorem HeaderStore.nextCall (h : HeaderStore fs w.inst.rx.s) (hclean : Fields.Clean 0 fs)
    (hshort : (Fields.layout 0 fs).length < 65536) {n : Nat}
    (hn : w.inst.pos = (Fields.layout 0 (fs.take n)).length) :
    nextHeader w = fs[n]? ∧
      (wicGetNextHeader w).2.inst.pos = (Fields.layout 0 (fs.take (n + 1))).length := by
  by_cases hlt : n < fs.length
  · have hsplit : fs = fs.take n ++ fs[n] :: fs.drop (n + 1) := by
      rw [← List.drop_eq_getElem_cons hlt, List.take_append_drop]
    have htake : fs.take (n + 1) = fs.take n ++ [fs[n]] := by
      rw [List.take_add_one, List.getElem?_eq_getElem hlt]
      rfl
    have hfits : (Fields.layout 0 (fs.take n ++ [fs[n]])).length < 65536 := by
      rw [← htake]
      exact Nat.lt_of_le_of_lt (take_le _) hshort
    rw [hsplit] at h hclean
    rw [List.getElem?_eq_getElem hlt, htake]
    exact h.next hclean hfits hn
  · have hend : w.inst.pos = w.inst.rx.s.pos := by
      rw [hn, h.pos_eq, List.take_of_length_le (by omega)]
    have hnone : wicGetNextHeader w = (none, w) := by
      unfold wicGetNextHeader
      dsimp only
      rw [if_neg (by omega)]
    constructor
    · rw [nextHeader, hnone, List.getElem?_eq_none (by omega)]
      rfl
    · rw [hnone, hn, List.take_of_length_le (by omega), List.take_of_length_le (by omega)]

/-- Behind a rewind the offset is in front of one field after the other. -/
theorem HeaderStore.afterHeaders (h : HeaderStore fs w.inst.rx.s) (hclean : Fields.Clean 0 fs)
    (hshort : (Fields.layout 0 fs).length < 65536) (hpos : w.inst.pos = 0) (n : Nat) :
    nextHeader (Wic.afterHeaders n w) = fs[n]? := by
  have hstore (n : Nat) : HeaderStore fs (Wic.afterHeaders n w).inst.rx.s := by
    rw [afterHeaders_frame]
    exact h
  have hfront : (Wic.afterHeaders n w).inst.pos = (Fields.layout 0 (fs.take n)).length := by
    induction n with
    | zero => exact hpos
    | succ n ih => exact ((hstore n).nextCall hclean hshort ih).2
  exact ((hstore n).nextCall hclean hshort hfront).1

/-- **The lookups agree with the fields if and only if they have less than 65536 bytes.** -/
theorem HeaderStore.enumerates_iff (h : HeaderStore fs w.inst.rx.s) (hclean : Fields.Clean 0 fs)
    (hs : w.inst.state = .ready) :
    Enumerates fs w ↔ (Fields.layout 0 fs).length < 65536 := by
  have hrewound : HeaderStore fs (wicRewindGetNextHeader w).inst.rx.s := h
  constructor
  · intro he
    by_contra hlong
    have hnone := he.next fs.length
    rw [List.getElem?_eq_none (Nat.le_refl _), nextHeader, Option.map_eq_none_iff] at hnone
    -- An offset of 16 bits is never at the end of the block.
    have hpos := afterHeaders_pos (w := wicRewindGetNextHeader w) (show (0 : Nat) < 65536 by decide)
      fs.length
    have hend : (Wic.afterHeaders fs.length (wicRewindGetNextHeader w)).inst.rx.s.pos =
        (Fields.layout 0 fs).length := by
      rw [afterHeaders_frame]
      exact hrewound.pos_eq
    unfold wicGetNextHeader at hnone
    dsimp only at hnone
    rw [if_pos (by omega)] at hnone
    cases hnone
  · intro hshort
    exact ⟨hrewound.afterHeaders hclean hshort rfl, h.get hclean hs⟩

end Next

/-! ## What the lookups read -/

/-- The string at offset `pos` ends before the end of what has been written. -/
def Stream.Inside (s : Stream) (pos : Nat) : Prop := pos + (cString s.mem pos).length < s.pos

/-- The offsets of the strings that `wic_get_header` reads, to their ends at most. -/
def getHeaderReads (s : Stream) (name : List UInt8) : Nat → Nat → List Nat
  | 0, _ => []
  | fuel + 1, pos =>
    if pos < s.pos then
      let next := pos + (cString s.mem pos).length + 1
      if strEqual (cString s.mem pos) name then [pos]
      else
        pos :: next :: getHeaderReads s name fuel (next + (cString s.mem next).length + 1)
    else []

/-- The offsets of the strings that `wic_get_next_header` reads. -/
def nextHeaderReads (i : Inst) : List Nat :=
  if i.pos < i.rx.s.pos then [i.pos, (i.pos + (cString i.rx.s.mem i.pos).length + 1) % 65536]
  else []

/-- Calls of `wic_get_next_header` and `wic_rewind_get_next_header`. -/
inductive Walks (w : World σ) : World σ → Prop
  | refl : Walks w w
  | next {w'} : Walks w w' → Walks w (wicGetNextHeader w').2
  | rewind {w'} : Walks w w' → Walks w (wicRewindGetNextHeader w')

/-- The lookups read nothing behind what has been stored. -/
structure NeverBeyond (w : World σ) : Prop where
  get (name : List UInt8) :
    ∀ pos ∈ getHeaderReads w.inst.rx.s name w.inst.rx.s.pos 0, w.inst.rx.s.Inside pos
  next {w' : World σ} : Walks w w' → ∀ pos ∈ nextHeaderReads w'.inst, w'.inst.rx.s.Inside pos

namespace HeaderStore

variable {fs done rest : List (List UInt8 × List UInt8)} {s : Stream} {w : World σ}

theorem inside (h : HeaderStore fs s) {pos : Nat} (hpos : pos < s.pos) : s.Inside pos := by
  have hlen := h.pos_eq
  have hne : fs ≠ [] := by
    rintro rfl
    rw [Fields.layout_nil, List.length_nil] at hlen
    omega
  have hmem : s.mem = Fields.layout 0 fs ++ s.mem.drop s.pos := by
    conv_lhs => rw [← List.take_append_drop s.pos s.mem, ← Stream.text, h.text]
  have hin : pos + (Fields.strAt 0 (Fields.layout 0 fs ++ s.mem.drop s.pos) pos).length < _ :=
    Fields.strAt_inside (Fields.layout_getLast hne) (hlen ▸ hpos)
  rw [← hmem, ← hlen] at hin
  exact hin

theorem getReads (name : List UInt8) {fuel : Nat} (h : HeaderStore (done ++ rest) s)
    (hclean : Fields.Clean 0 (done ++ rest)) :
    ∀ pos ∈ getHeaderReads s name fuel (Fields.layout 0 done).length, s.Inside pos := by
  induction rest generalizing done fuel with
  | nil =>
    have hpos := h.pos_eq
    rw [List.append_nil] at hpos
    cases fuel with
    | zero => nofun
    | succ fuel =>
      rw [getHeaderReads, if_neg (by omega)]
      nofun
  | cons f rest ih =>
    have hpos := h.pos_eq
    have hlen : (Fields.layout 0 (done ++ [f])).length = _ := Fields.length_layout_concat
    obtain ⟨hname, hvalue⟩ := h.at_field hclean
    rw [Fields.layout_append, Fields.layout_cons, List.length_append, List.length_append,
      Fields.length_entry] at hpos
    cases fuel with
    | zero => nofun
    | succ fuel =>
      -- Both strings of the field are inside the block.
      have hfront : s.Inside (Fields.layout 0 done).length := h.inside (by omega)
      have hbehind : s.Inside ((Fields.layout 0 done).length + f.1.length + 1) := h.inside (by omega)
      rw [getHeaderReads, if_pos (by omega), hname]
      dsimp only
      -- When the name is the wanted one, the search ends with the value.
      split_ifs
      · intro pos hmem
        rw [List.mem_singleton.mp hmem]
        exact hfront
      -- Else it goes on behind the value, where the next field begins.
      · rw [hvalue]
        have hnext : (Fields.layout 0 done).length + f.1.length + 1 + f.2.length + 1 =
            (Fields.layout 0 (done ++ [f])).length := by omega
        rw [hnext]
        rintro pos (_ | ⟨_, _ | ⟨_, hmem⟩⟩)
        · exact hfront
        · exact hbehind
        · exact ih h.behind (by rwa [List.append_assoc]) pos hmem

/-- The offset of `wic_get_next_header` in front of a field. -/
def AtField (fs : List (List UInt8 × List UInt8)) (i : Inst) : Prop :=
  ∃ n, i.pos = (Fields.layout 0 (fs.take n)).length

theorem walks (h : HeaderStore fs w.inst.rx.s) (hclean : Fields.Clean 0 fs)
    (hshort : (Fields.layout 0 fs).length < 65536) (hpos : AtField fs w.inst) {w' : World σ}
    (hw : Walks w w') : w'.inst.rx = w.inst.rx ∧ AtField fs w'.inst := by
  induction hw with
  | refl => exact ⟨rfl, hpos⟩
  | next _ ih =>
    obtain ⟨hrx, n, hn⟩ := ih
    exact ⟨wicGetNextHeader_frame.trans hrx, n + 1, ((hrx ▸ h).nextCall hclean hshort hn).2⟩
  | rewind _ ih => exact ⟨ih.1, 0, rfl⟩

theorem walks_frame {w' : World σ} (hw : Walks w w') : w'.inst.rx = w.inst.rx := by
  induction hw with
  | refl => rfl
  | next _ ih => exact wicGetNextHeader_frame.trans ih
  | rewind _ ih => exact ih

/-- **The lookups read nothing behind the fields.** -/
theorem neverBeyond (h : HeaderStore fs w.inst.rx.s) (hclean : Fields.Clean 0 fs)
    (hpos : w.inst.pos = 0) : NeverBeyond w := by
  refine ⟨fun name => getReads name (show HeaderStore ([] ++ fs) w.inst.rx.s from h) hclean,
    fun {w'} hw => ?_⟩
  have hrx := walks_frame hw
  have h' : HeaderStore fs w'.inst.rx.s := hrx ▸ h
  unfold nextHeaderReads
  split_ifs with hlt
  · rintro pos (_ | ⟨_, _ | ⟨_, hmem⟩⟩)
    · exact h'.inside hlt
    · apply h'.inside
      -- A block of less than 2^16 bytes is walked field by field.
      by_cases hshort : (Fields.layout 0 fs).length < 65536
      · obtain ⟨-, n, hn⟩ := h.walks hclean hshort ⟨0, hpos⟩ hw
        have hend := h'.pos_eq
        have hfield : n < fs.length := by
          by_contra hge
          rw [List.take_of_length_le (by omega)] at hn
          omega
        -- The field at this offset, with the ones in front of it and behind it.
        have hsplit : fs = fs.take n ++ fs[n] :: fs.drop (n + 1) := by
          rw [← List.drop_eq_getElem_cons hfield, List.take_append_drop]
        rw [hsplit] at h' hclean
        have hname := (h'.at_field hclean).1
        rw [hsplit, Fields.layout_append, Fields.layout_cons, List.length_append,
          List.length_append, Fields.length_entry] at hend hshort
        rw [hn, hname, Nat.mod_eq_of_lt (by omega)]
        omega
      · -- An offset of 16 bits is inside the block wherever it is.
        rw [h'.pos_eq]
        have hmod := Nat.mod_lt (w'.inst.pos + (cString w'.inst.rx.s.mem w'.inst.pos).length + 1)
          (show 0 < 65536 by decide)
        omega
    · cases hmem
  · nofun

end HeaderStore

end Wic
