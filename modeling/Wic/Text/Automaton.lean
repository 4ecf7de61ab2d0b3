import Wic.Commons.Utf8
import Wic.Model.Utf8

/-!
# The table accepts UTF-8

The table behind `utf8_parse` is the automaton of well formed UTF-8, with a number for each of its
states and one more for a text that cannot be completed.

## Main definitions

* `utf8State`: the number of a state

## Main results

* `utf8ParseString_eq`: the table runs the automaton
* `utf8IsComplete_iff`: a complete text is well formed, and the other way round
-/

namespace Wic

/-- The number of a state in the table; 1 is the state of an invalid text. -/
def utf8State : Option Utf8.State → Nat
  | some .start => 0
  | none => 1
  | some .tail1 => 2
  | some .tail2 => 3
  | some .afterE0 => 4
  | some .afterED => 5
  | some .afterF0 => 6
  | some .tail3 => 7
  | some .afterF4 => 8

theorem utf8Parse_eq (q : Option Utf8.State) (b : UInt8) :
    utf8Parse (utf8State q) b = utf8State (q.bind fun q => Utf8.step q b) := by
  have hnone : ∀ n : Fin 256, utf8Parse 1 (UInt8.ofNat n) = 1 := by decide +kernel
  have hsome : ∀ q ∈ [Utf8.State.start, .tail1, .tail2, .tail3, .afterE0, .afterED, .afterF0,
      .afterF4], ∀ n : Fin 256, utf8Parse (utf8State (some q)) (UInt8.ofNat n) =
        utf8State (Utf8.step q (UInt8.ofNat n)) := by decide +kernel
  have hb : UInt8.ofNat (⟨b.toNat, b.toNat_lt⟩ : Fin 256) = b := UInt8.ofNat_toNat
  rw [← hb]
  cases q with
  | none => exact hnone _
  | some q => exact hsome q (by cases q <;> simp) _

/-- **The table runs the automaton.** -/
theorem utf8ParseString_eq (q : Option Utf8.State) (bs : List UInt8) :
    utf8ParseString (utf8State q) bs = utf8State (q.bind fun q => Utf8.run q bs) := by
  induction bs generalizing q with
  | nil => cases q <;> rfl
  | cons b bs ih =>
    rw [utf8ParseString_cons, utf8Parse_eq, ih]
    cases q <;> rfl

theorem utf8State_eq_zero {q : Option Utf8.State} : utf8State q = 0 ↔ q = some .start := by
  rcases q with _ | q
  · simp [utf8State]
  · cases q <;> simp [utf8State]

theorem utf8State_eq_one {q : Option Utf8.State} : utf8State q = 1 ↔ q = none := by
  rcases q with _ | q
  · simp [utf8State]
  · cases q <;> simp [utf8State]

/-- **A text is complete when it is well formed.** -/
theorem utf8IsComplete_iff {bs : List UInt8} :
    utf8IsComplete (utf8ParseString 0 bs) = true ↔ Utf8.WellFormed bs := by
  have h : utf8ParseString 0 bs = utf8State (Utf8.run .start bs) :=
    utf8ParseString_eq (some .start) bs
  rw [h, utf8IsComplete, beq_iff_eq, utf8State_eq_zero, Utf8.run_start_iff]

/-- **A text is invalid when nothing can complete it.** -/
theorem utf8ParseString_eq_one_iff {bs : List UInt8} :
    utf8ParseString 0 bs = 1 ↔ ¬∃ more, Utf8.WellFormed (bs ++ more) := by
  have h : utf8ParseString 0 bs = utf8State (Utf8.run .start bs) :=
    utf8ParseString_eq (some .start) bs
  rw [h, utf8State_eq_one, Utf8.run_start_eq_none_iff]

/-- An invalid text cannot be completed. -/
theorem utf8ParseString_invalid (bs : List UInt8) : utf8ParseString 1 bs = 1 :=
  utf8ParseString_eq none bs

end Wic
