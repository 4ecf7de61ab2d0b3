import Mathlib.Algebra.GroupWithZero.Nat
import Mathlib.Data.List.Basic
import Mathlib.Tactic.Common
import Mathlib.Tactic.SplitIfs

/-!
# Well formed UTF-8

A list of bytes is well formed when it is the encoding of a list of Unicode scalar values. The
automaton of byte ranges reads such a list byte by byte and is between two characters behind it, and
behind no other.

## Main definitions

* `Utf8.WellFormed`: encodings of characters
* `Utf8.State`, `Utf8.step`, `Utf8.run`: the automaton

## Main results

* `Utf8.run_start_iff`: the automaton accepts what is well formed
* `Utf8.run_start_eq_none_iff`: it stops at the first byte behind which nothing helps
-/

namespace Utf8

/-- The bytes encode a list of characters. -/
def WellFormed (bs : List UInt8) : Prop := ∃ cs : List Char, bs = cs.flatMap String.utf8EncodeChar

/-- What is left of the character that is being read: nothing, or so many bytes, the first of them
perhaps in a narrower range. -/
inductive State
  | start
  | tail1 | tail2 | tail3
  | afterE0 | afterED | afterF0 | afterF4
  deriving DecidableEq, Repr

/-- The range of the next byte inside a character, and the state behind it. -/
def State.expects : State → Nat × Nat × State
  | .start => (0x00, 0x7f, .start)
  | .tail1 => (0x80, 0xbf, .start)
  | .tail2 => (0x80, 0xbf, .tail1)
  | .tail3 => (0x80, 0xbf, .tail2)
  | .afterE0 => (0xa0, 0xbf, .tail1)
  | .afterED => (0x80, 0x9f, .tail1)
  | .afterF0 => (0x90, 0xbf, .tail2)
  | .afterF4 => (0x80, 0x8f, .tail2)

/-- The state behind the first byte of a character. -/
def first (b : Nat) : Option State :=
  if b ≤ 0x7f then some .start
  else if b < 0xc2 then none
  else if b ≤ 0xdf then some .tail1
  else if b = 0xe0 then some .afterE0
  else if b = 0xed then some .afterED
  else if b ≤ 0xef then some .tail2
  else if b = 0xf0 then some .afterF0
  else if b ≤ 0xf3 then some .tail3
  else if b = 0xf4 then some .afterF4
  else none

/-- The state behind a byte. -/
def step (q : State) (b : UInt8) : Option State :=
  if q = .start then first b.toNat
  else if q.expects.1 ≤ b.toNat ∧ b.toNat ≤ q.expects.2.1 then some q.expects.2.2
  else none

/-- The state behind a list of bytes. -/
def run (q : State) (bs : List UInt8) : Option State := bs.foldlM step q

@[simp] theorem run_nil (q : State) : run q [] = some q := rfl

@[simp] theorem run_cons (q : State) (b : UInt8) (bs : List UInt8) :
    run q (b :: bs) = (step q b).bind fun q => run q bs := rfl

theorem run_append (q : State) (bs cs : List UInt8) :
    run q (bs ++ cs) = (run q bs).bind fun q => run q cs := by
  simp [run, List.foldlM_append]

/-- A character that is begun can be brought to its end. -/
theorem exists_run_start (q : State) : ∃ bs, run q bs = some .start := by
  -- the lowest byte that may come next, each time
  have hlast : run .tail1 [0x80] = some .start := by decide
  have hnext {p p' : State} {b : UInt8} (h : step p b = some p')
      (h' : ∃ bs, run p' bs = some .start) : ∃ bs, run p bs = some .start := by
    obtain ⟨bs, hbs⟩ := h'
    exact ⟨b :: bs, by rw [run_cons, h, Option.bind_some, hbs]⟩
  have h₁ : ∃ bs, run .tail1 bs = some .start := ⟨[0x80], hlast⟩
  have h₂ : ∃ bs, run .tail2 bs = some .start := hnext (show step _ 0x80 = _ by decide) h₁
  cases q with
  | start => exact ⟨[], rfl⟩
  | tail1 => exact h₁
  | tail2 => exact h₂
  | tail3 => exact hnext (show step _ 0x80 = _ by decide) h₂
  | afterE0 => exact hnext (show step _ 0xa0 = _ by decide) h₁
  | afterED => exact hnext (show step _ 0x80 = _ by decide) h₁
  | afterF0 => exact hnext (show step _ 0x90 = _ by decide) h₂
  | afterF4 => exact hnext (show step _ 0x80 = _ by decide) h₂

/-! ## Encodings are accepted -/

theorem step_start {n : Nat} (hn : n < 256) : step .start (UInt8.ofNat n) = first n := by
  rw [step, if_pos rfl, UInt8.toNat_ofNat', Nat.mod_eq_of_lt hn]

theorem step_within {q : State} (hq : q ≠ .start) {n : Nat} (hn : n < 256) (hl : q.expects.1 ≤ n)
    (hh : n ≤ q.expects.2.1) : step q (UInt8.ofNat n) = some q.expects.2.2 := by
  rw [step, if_neg hq, UInt8.toNat_ofNat', Nat.mod_eq_of_lt hn, if_pos ⟨hl, hh⟩]

/-- The last byte of a character. -/
theorem run_tail1 (n : Nat) : run .tail1 [UInt8.ofNat (n % 0x40 + 0x80)] = some .start := by
  have hlow : State.tail1.expects.1 ≤ n % 0x40 + 0x80 := by
    show 0x80 ≤ n % 0x40 + 0x80
    omega
  have hhigh : n % 0x40 + 0x80 ≤ State.tail1.expects.2.1 := by
    show n % 0x40 + 0x80 ≤ 0xbf
    omega
  rw [run_cons, step_within (by decide) (by omega) hlow hhigh]
  rfl

/-- The last two bytes of a character. -/
theorem run_tail2 (m n : Nat) :
    run .tail2 [UInt8.ofNat (m % 0x40 + 0x80), UInt8.ofNat (n % 0x40 + 0x80)] = some .start := by
  have hlow : State.tail2.expects.1 ≤ m % 0x40 + 0x80 := by
    show 0x80 ≤ m % 0x40 + 0x80
    omega
  have hhigh : m % 0x40 + 0x80 ≤ State.tail2.expects.2.1 := by
    show m % 0x40 + 0x80 ≤ 0xbf
    omega
  rw [run_cons, step_within (by decide) (by omega) hlow hhigh]
  exact run_tail1 n

/-- The bytes behind the first of a character of three. -/
theorem run_three {v : Nat} (h : 0x7ff < v) (hv : v < 0xd800 ∨ 0xdfff < v) (hle : v ≤ 0xffff) :
    ∃ q, first (v / 4096 % 0x10 + 0xe0) = some q ∧
      run q [UInt8.ofNat (v / 64 % 0x40 + 0x80), UInt8.ofNat (v % 0x40 + 0x80)] = some .start := by
  have hstep {q : State} (hq : q ≠ .start) (hn : q.expects.2.2 = .tail1)
      (hl : q.expects.1 ≤ v / 64 % 0x40 + 0x80) (hh : v / 64 % 0x40 + 0x80 ≤ q.expects.2.1) :
      run q [UInt8.ofNat (v / 64 % 0x40 + 0x80), UInt8.ofNat (v % 0x40 + 0x80)] = some .start := by
    rw [run_cons, step_within hq (by omega) hl hh, hn]
    exact run_tail1 v
  have hfirst : ∀ k : Fin 16, first (k + 0xe0) =
      some (if k.val = 0 then .afterE0 else if k.val = 13 then .afterED else .tail2) := by decide
  have hk := hfirst ⟨v / 4096 % 0x10, Nat.mod_lt _ (by decide)⟩
  dsimp only at hk
  refine ⟨_, hk, ?_⟩
  split_ifs with h0 h13
  · refine hstep (by decide) rfl ?_ ?_
    · show 0xa0 ≤ v / 64 % 0x40 + 0x80
      omega
    · show v / 64 % 0x40 + 0x80 ≤ 0xbf
      omega
  · refine hstep (by decide) rfl ?_ ?_
    · show 0x80 ≤ v / 64 % 0x40 + 0x80
      omega
    · show v / 64 % 0x40 + 0x80 ≤ 0x9f
      omega
  · exact run_tail2 (v / 64) v

/-- The bytes behind the first of a character of four. -/
theorem run_four {v : Nat} (h : 0xffff < v) (hlt : v < 0x110000) :
    ∃ q, first (v / 262144 % 0x08 + 0xf0) = some q ∧
      run q [UInt8.ofNat (v / 4096 % 0x40 + 0x80), UInt8.ofNat (v / 64 % 0x40 + 0x80),
        UInt8.ofNat (v % 0x40 + 0x80)] = some .start := by
  -- the bounds of the second byte depend on the first, those of the others do not
  have hstep {q : State} (hq : q ≠ .start) (hn : q.expects.2.2 = .tail2)
      (hl : q.expects.1 ≤ v / 4096 % 0x40 + 0x80) (hh : v / 4096 % 0x40 + 0x80 ≤ q.expects.2.1) :
      run q [UInt8.ofNat (v / 4096 % 0x40 + 0x80), UInt8.ofNat (v / 64 % 0x40 + 0x80),
        UInt8.ofNat (v % 0x40 + 0x80)] = some .start := by
    rw [run_cons, step_within hq (by omega) hl hh, hn]
    exact run_tail2 (v / 64) v
  -- five first bytes are allowed: the lowest and the highest narrow the second byte
  have hfirst : ∀ k : Fin 5, first (k + 0xf0) =
      some (if k.val = 0 then .afterF0 else if k.val = 4 then .afterF4 else .tail3) := by decide
  have hmod : v / 262144 % 0x08 = v / 262144 := by omega
  have hk := hfirst ⟨v / 262144, by omega⟩
  dsimp only at hk
  rw [hmod]
  refine ⟨_, hk, ?_⟩
  split_ifs with h0 h4
  · refine hstep (by decide) rfl ?_ ?_
    · show 0x90 ≤ v / 4096 % 0x40 + 0x80
      omega
    · show v / 4096 % 0x40 + 0x80 ≤ 0xbf
      omega
  · refine hstep (by decide) rfl ?_ ?_
    · show 0x80 ≤ v / 4096 % 0x40 + 0x80
      omega
    · show v / 4096 % 0x40 + 0x80 ≤ 0x8f
      omega
  · refine hstep (by decide) rfl ?_ ?_
    · show 0x80 ≤ v / 4096 % 0x40 + 0x80
      omega
    · show v / 4096 % 0x40 + 0x80 ≤ 0xbf
      omega

/-- **The encoding of a character is accepted.** -/
theorem run_encodeChar (c : Char) : run .start (String.utf8EncodeChar c) = some .start := by
  have hvalid : c.val.toNat < 0xd800 ∨ 0xdfff < c.val.toNat ∧ c.val.toNat < 0x110000 := c.valid
  unfold String.utf8EncodeChar
  dsimp only
  generalize c.val.toNat = v at hvalid
  by_cases h₁ : v ≤ 0x7f
  · rw [if_pos h₁, run_cons, step_start (by omega), first, if_pos h₁]
    rfl
  rw [if_neg h₁]
  by_cases h₂ : v ≤ 0x7ff
  · have hfirst : first (v / 64 % 0x20 + 0xc0) = some .tail1 := by
      unfold first
      rw [if_neg (by omega), if_neg (by omega), if_pos (by omega)]
    rw [if_pos h₂, run_cons, step_start (by omega), hfirst]
    exact run_tail1 v
  rw [if_neg h₂]
  by_cases h₃ : v ≤ 0xffff
  · obtain ⟨q, hq, hrun⟩ := run_three (by omega) (by omega) h₃
    rw [if_pos h₃, run_cons, step_start (by omega), hq]
    exact hrun
  · obtain ⟨q, hq, hrun⟩ := run_four (Nat.lt_of_not_le h₃) (by omega)
    rw [if_neg h₃, run_cons, step_start (by omega), hq]
    exact hrun

theorem run_encode (cs : List Char) :
    run .start (cs.flatMap String.utf8EncodeChar) = some .start := by
  induction cs with
  | nil => rfl
  | cons c cs ih => rw [List.flatMap_cons, run_append, run_encodeChar, Option.bind_some, ih]

/-! ## What is accepted is an encoding -/

theorem exists_char (v : Nat) (hv : v < 0xd800 ∨ 0xdfff < v ∧ v < 0x110000) :
    ∃ c : Char, c.val.toNat = v :=
  ⟨Char.ofNatAux v hv, rfl⟩

theorem byte_eq {n : Nat} (b : UInt8) (h : n = b.toNat) : UInt8.ofNat n = b := by
  rw [h, UInt8.ofNat_toNat]

/-- A byte inside a character. -/
theorem run_inside {q : State} (hq : q ≠ .start) {bs : List UInt8}
    (h : run q bs = some .start) : ∃ b cs, bs = b :: cs ∧ q.expects.1 ≤ b.toNat ∧
      b.toNat ≤ q.expects.2.1 ∧ run q.expects.2.2 cs = some .start := by
  cases bs with
  | nil => exact absurd (Option.some.inj h) hq
  | cons b cs =>
    rw [run_cons, step, if_neg hq] at h
    by_cases hb : q.expects.1 ≤ b.toNat ∧ b.toNat ≤ q.expects.2.1
    · rw [if_pos hb] at h
      exact ⟨b, cs, rfl, hb.1, hb.2, h⟩
    · rw [if_neg hb] at h
      cases h

/-- The first byte of a character. -/
theorem first_cases {n : Nat} {q : State} (h : first n = some q) :
    n ≤ 0x7f ∧ q = .start ∨ 0xc2 ≤ n ∧ n ≤ 0xdf ∧ q = .tail1 ∨
      n = 0xe0 ∧ q = .afterE0 ∨ n = 0xed ∧ q = .afterED ∨
      0xe1 ≤ n ∧ n ≤ 0xef ∧ n ≠ 0xed ∧ q = .tail2 ∨
      n = 0xf0 ∧ q = .afterF0 ∨ 0xf1 ≤ n ∧ n ≤ 0xf3 ∧ q = .tail3 ∨ n = 0xf4 ∧ q = .afterF4 := by
  unfold first at h
  split_ifs at h <;> cases h <;> simp <;> omega

section Encodings

variable (a : UInt8) {b c d : UInt8}

theorem encode_one (ha : a.toNat ≤ 0x7f) : ∃ x : Char, String.utf8EncodeChar x = [a] := by
  obtain ⟨x, hx⟩ := exists_char a.toNat (by omega)
  refine ⟨x, ?_⟩
  unfold String.utf8EncodeChar
  dsimp only
  rw [hx, if_pos ha, byte_eq a rfl]

theorem encode_two (ha : 0xc2 ≤ a.toNat) (ha' : a.toNat ≤ 0xdf) (hb : 0x80 ≤ b.toNat)
    (hb' : b.toNat ≤ 0xbf) : ∃ x : Char, String.utf8EncodeChar x = [a, b] := by
  obtain ⟨x, hx⟩ := exists_char ((a.toNat - 0xc0) * 64 + (b.toNat - 0x80)) (by omega)
  refine ⟨x, ?_⟩
  unfold String.utf8EncodeChar
  dsimp only
  rw [hx, if_neg (by omega), if_pos (by omega), byte_eq a (by omega),
    byte_eq b (by omega)]

theorem encode_three (ha : 0xe0 ≤ a.toNat) (ha' : a.toNat ≤ 0xef) (hb : 0x80 ≤ b.toNat)
    (hb' : b.toNat ≤ 0xbf) (hc : 0x80 ≤ c.toNat) (hc' : c.toNat ≤ 0xbf)
    (he0 : a.toNat = 0xe0 → 0xa0 ≤ b.toNat) (hed : a.toNat = 0xed → b.toNat ≤ 0x9f) :
    ∃ x : Char, String.utf8EncodeChar x = [a, b, c] := by
  obtain ⟨x, hx⟩ := exists_char
    ((a.toNat - 0xe0) * 4096 + (b.toNat - 0x80) * 64 + (c.toNat - 0x80)) (by omega)
  refine ⟨x, ?_⟩
  unfold String.utf8EncodeChar
  dsimp only
  rw [hx, if_neg (by omega), if_neg (by omega), if_pos (by omega), byte_eq a (by omega),
    byte_eq b (by omega), byte_eq c (by omega)]

theorem encode_four (ha : 0xf0 ≤ a.toNat) (ha' : a.toNat ≤ 0xf4) (hb : 0x80 ≤ b.toNat)
    (hb' : b.toNat ≤ 0xbf) (hc : 0x80 ≤ c.toNat) (hc' : c.toNat ≤ 0xbf) (hd : 0x80 ≤ d.toNat)
    (hd' : d.toNat ≤ 0xbf) (hf0 : a.toNat = 0xf0 → 0x90 ≤ b.toNat)
    (hf4 : a.toNat = 0xf4 → b.toNat ≤ 0x8f) :
    ∃ x : Char, String.utf8EncodeChar x = [a, b, c, d] := by
  obtain ⟨x, hx⟩ := exists_char
    ((a.toNat - 0xf0) * 262144 + (b.toNat - 0x80) * 4096 + (c.toNat - 0x80) * 64 +
      (d.toNat - 0x80)) (by omega)
  refine ⟨x, ?_⟩
  unfold String.utf8EncodeChar
  dsimp only
  rw [hx, if_neg (by omega), if_neg (by omega), if_neg (by omega), byte_eq a (by omega),
    byte_eq b (by omega), byte_eq c (by omega), byte_eq d (by omega)]

end Encodings

/-- What is accepted begins with the encoding of a character. -/
theorem run_start_cons {a : UInt8} {bs : List UInt8} (h : run .start (a :: bs) = some .start) :
    ∃ (x : Char) (cs : List UInt8), a :: bs = String.utf8EncodeChar x ++ cs ∧
      cs.length ≤ bs.length ∧ run .start cs = some .start := by
  rw [run_cons, step, if_pos rfl] at h
  obtain ⟨q, hq, hrun⟩ := Option.bind_eq_some_iff.mp h
  have htail2 {bs : List UInt8} (h : run .tail2 bs = some .start) : ∃ b c cs, bs = b :: c :: cs ∧
      0x80 ≤ b.toNat ∧ b.toNat ≤ 0xbf ∧ 0x80 ≤ c.toNat ∧ c.toNat ≤ 0xbf ∧
        run .start cs = some .start := by
    obtain ⟨b, bs, rfl, hb, hb', h⟩ := run_inside (by decide) h
    obtain ⟨c, cs, rfl, hc, hc', h⟩ := run_inside (by decide) h
    exact ⟨b, c, cs, rfl, hb, hb', hc, hc', h⟩
  have htail1 {bs : List UInt8} (h : run .tail1 bs = some .start) : ∃ b cs, bs = b :: cs ∧
      0x80 ≤ b.toNat ∧ b.toNat ≤ 0xbf ∧ run .start cs = some .start :=
    run_inside (by decide) h
  -- the seven rows of the table of well formed sequences, and the one for a single byte
  rcases first_cases hq with ⟨ha, rfl⟩ | ⟨ha, ha', rfl⟩ | ⟨ha, rfl⟩ | ⟨ha, rfl⟩ |
    ⟨ha, ha', hne, rfl⟩ | ⟨ha, rfl⟩ | ⟨ha, ha', rfl⟩ | ⟨ha, rfl⟩
  · obtain ⟨x, hx⟩ := encode_one a ha
    exact ⟨x, bs, by rw [hx]; rfl, Nat.le_refl _, hrun⟩
  · obtain ⟨b, cs, rfl, hb, hb', h⟩ := htail1 hrun
    obtain ⟨x, hx⟩ := encode_two a ha ha' hb hb'
    exact ⟨x, cs, by rw [hx]; rfl, by simp, h⟩
  · obtain ⟨b, bs, rfl, hb, hb', h⟩ := run_inside (by decide) hrun
    obtain ⟨c, cs, rfl, hc, hc', h⟩ := htail1 h
    dsimp only [State.expects] at hb hb'
    obtain ⟨x, hx⟩ := encode_three a (by omega) (by omega) (by omega) hb' hc hc'
      (fun _ => hb) (by omega)
    exact ⟨x, cs, by rw [hx]; rfl, by simp; omega, h⟩
  · obtain ⟨b, bs, rfl, hb, hb', h⟩ := run_inside (by decide) hrun
    obtain ⟨c, cs, rfl, hc, hc', h⟩ := htail1 h
    dsimp only [State.expects] at hb hb'
    obtain ⟨x, hx⟩ := encode_three a (by omega) (by omega) hb (by omega) hc hc'
      (by omega) (fun _ => hb')
    exact ⟨x, cs, by rw [hx]; rfl, by simp; omega, h⟩
  · obtain ⟨b, c, cs, rfl, hb, hb', hc, hc', h⟩ := htail2 hrun
    obtain ⟨x, hx⟩ := encode_three a (by omega) ha' hb hb' hc hc' (by omega) (by omega)
    exact ⟨x, cs, by rw [hx]; rfl, by simp; omega, h⟩
  · obtain ⟨b, bs, rfl, hb, hb', h⟩ := run_inside (by decide) hrun
    obtain ⟨c, d, cs, rfl, hc, hc', hd, hd', h⟩ := htail2 h
    dsimp only [State.expects] at hb hb'
    obtain ⟨x, hx⟩ := encode_four a (by omega) (by omega) (by omega) hb' hc hc' hd hd'
      (fun _ => hb) (by omega)
    exact ⟨x, cs, by rw [hx]; rfl, by simp; omega, h⟩
  · obtain ⟨b, bs, rfl, hb, hb', h⟩ := run_inside (by decide) hrun
    obtain ⟨c, d, cs, rfl, hc, hc', hd, hd', h⟩ := htail2 h
    dsimp only [State.expects] at hb hb'
    obtain ⟨x, hx⟩ := encode_four a (by omega) (by omega) hb hb' hc hc' hd hd'
      (by omega) (by omega)
    exact ⟨x, cs, by rw [hx]; rfl, by simp; omega, h⟩
  · obtain ⟨b, bs, rfl, hb, hb', h⟩ := run_inside (by decide) hrun
    obtain ⟨c, d, cs, rfl, hc, hc', hd, hd', h⟩ := htail2 h
    dsimp only [State.expects] at hb hb'
    obtain ⟨x, hx⟩ := encode_four a (by omega) (by omega) hb (by omega) hc hc' hd hd'
      (by omega) (fun _ => hb')
    exact ⟨x, cs, by rw [hx]; rfl, by simp; omega, h⟩

theorem wellFormed_of_run {bs : List UInt8} (h : run .start bs = some .start) : WellFormed bs := by
  induction hn : bs.length using Nat.strongRecOn generalizing bs with
  | _ n ih =>
    cases bs with
    | nil => exact ⟨[], rfl⟩
    | cons a bs =>
      obtain ⟨x, cs, heq, hlen, hrun⟩ := run_start_cons h
      rw [List.length_cons] at hn
      obtain ⟨xs, hxs⟩ := ih cs.length (by omega) hrun rfl
      exact ⟨x :: xs, by rw [heq, hxs]; rfl⟩

/-- **The automaton accepts what is well formed.** -/
theorem run_start_iff {bs : List UInt8} : run .start bs = some .start ↔ WellFormed bs := by
  refine ⟨wellFormed_of_run, ?_⟩
  rintro ⟨cs, rfl⟩
  exact run_encode cs

/-- **The automaton stops at the first byte behind which nothing helps.** -/
theorem run_start_eq_none_iff {bs : List UInt8} :
    run .start bs = none ↔ ¬∃ more, WellFormed (bs ++ more) := by
  constructor
  · rintro h ⟨more, hmore⟩
    rw [← run_start_iff, run_append, h] at hmore
    cases hmore
  · intro h
    rcases hq : run .start bs with _ | q
    · rfl
    · obtain ⟨more, hmore⟩ := exists_run_start q
      refine absurd ⟨more, ?_⟩ h
      rw [← run_start_iff, run_append, hq]
      exact hmore

end Utf8
