import Mathlib.Algebra.GroupWithZero.Nat
import Mathlib.Data.List.Basic
import Mathlib.Tactic.Common

/-!
# Fields in a block of memory

Names and values one after the other, each with a terminator behind it, as strings are kept in
memory that has no room for pointers. A reader gets on by the lengths of the strings; as long as no
string has a terminator inside, it reads the fields in their order, and nothing behind the last of
them.

## Main definitions

* `layout`: the fields one after the other
* `strAt`: the string at an offset

## Main results

* `strAt_name`, `strAt_value`: the strings at the offsets of a field
* `strAt_inside`: a string that starts inside the block ends there
-/

namespace Fields

variable {α : Type}

/-- A field, a terminator behind its name and behind its value. -/
def entry (sep : α) (f : List α × List α) : List α := f.1 ++ sep :: (f.2 ++ [sep])

/-- The fields one after the other. -/
def layout (sep : α) (fs : List (List α × List α)) : List α := fs.flatMap (entry sep)

/-- No string has a terminator inside. -/
def Clean (sep : α) (fs : List (List α × List α)) : Prop := ∀ f ∈ fs, sep ∉ f.1 ∧ sep ∉ f.2

variable {sep : α} {fs : List (List α × List α)} {f : List α × List α} {tail : List α}

@[simp] theorem layout_nil : layout sep [] = [] := rfl

theorem layout_cons : layout sep (f :: fs) = entry sep f ++ layout sep fs := rfl

theorem layout_concat : layout sep (fs ++ [f]) = layout sep fs ++ entry sep f := by
  simp [layout]

theorem layout_append (gs : List (List α × List α)) :
    layout sep (fs ++ gs) = layout sep fs ++ layout sep gs := by
  simp [layout]

theorem length_entry : (entry sep f).length = f.1.length + f.2.length + 2 := by
  simp only [entry, List.length_append, List.length_cons, List.length_nil]
  omega

theorem length_layout_concat :
    (layout sep (fs ++ [f])).length = (layout sep fs).length + f.1.length + f.2.length + 2 := by
  rw [layout_concat, List.length_append, length_entry]
  omega

/-- A block that is not empty ends with a terminator. -/
theorem layout_getLast (h : fs ≠ []) : (layout sep fs).getLast? = some sep := by
  obtain ⟨gs, g, rfl⟩ := List.eq_nil_or_concat fs |>.resolve_left h
  have hentry : entry sep g = g.1 ++ sep :: g.2 ++ [sep] := by simp [entry]
  rw [List.concat_eq_append, layout_concat, hentry, ← List.append_assoc, List.getLast?_concat]

variable [DecidableEq α]

/-- The string at offset `pos`, up to the next terminator. -/
def strAt (sep : α) (mem : List α) (pos : Nat) : List α := (mem.drop pos).takeWhile (· ≠ sep)

theorem strAt_append {a b : List α} (ha : sep ∉ a) (tail : List α) :
    strAt sep (b ++ a ++ sep :: tail) b.length = a := by
  rw [strAt, List.append_assoc, List.drop_left, List.takeWhile_append_of_pos]
  · simp
  · intro c hc
    have hne : c ≠ sep := ne_of_mem_of_not_mem hc ha
    simpa using hne

/-- **The string at the offset of a field is its name.** -/
theorem strAt_name (hf : sep ∉ f.1) :
    strAt sep (layout sep fs ++ entry sep f ++ tail) (layout sep fs).length = f.1 := by
  rw [entry, ← List.append_assoc (layout sep fs), List.append_assoc, List.cons_append]
  exact strAt_append hf _

/-- **The string behind the name is the value.** -/
theorem strAt_value (hf : sep ∉ f.2) :
    strAt sep (layout sep fs ++ entry sep f ++ tail)
      ((layout sep fs).length + f.1.length + 1) = f.2 := by
  have hsplit : layout sep fs ++ entry sep f ++ tail =
      (layout sep fs ++ f.1 ++ [sep]) ++ f.2 ++ sep :: tail := by
    simp [entry]
  have hlen : (layout sep fs).length + f.1.length + 1 =
      (layout sep fs ++ f.1 ++ [sep]).length := by
    simp only [List.length_append, List.length_cons, List.length_nil]
  rw [hsplit, hlen]
  exact strAt_append hf tail

/-- **A string that starts inside a block with a terminator at its end, ends there.** -/
theorem strAt_inside {block : List α} {pos : Nat} (hlast : block.getLast? = some sep)
    (hpos : pos < block.length) : pos + (strAt sep (block ++ tail) pos).length < block.length := by
  obtain ⟨body, rfl⟩ : ∃ body, block = body ++ [sep] := by
    obtain ⟨body, c, rfl⟩ := List.eq_nil_or_concat block |>.resolve_left (by rintro rfl; cases hlast)
    rw [List.concat_eq_append, List.getLast?_append, List.getLast?_singleton] at hlast
    exact ⟨body, by rw [List.concat_eq_append, ← Option.some.inj hlast]⟩
  have hle : pos ≤ body.length := by
    rw [List.length_append, List.length_singleton] at hpos
    omega
  have hstr : (strAt sep (body ++ [sep] ++ tail) pos).length ≤ (body.drop pos).length := by
    rw [strAt, List.append_assoc, List.drop_append_of_le_length hle, List.takeWhile_append]
    split
    · simp
    · exact (List.takeWhile_sublist _).length_le
  rw [List.length_drop] at hstr
  rw [List.length_append, List.length_singleton]
  omega

end Fields
