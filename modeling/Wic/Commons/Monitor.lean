import Mathlib.Algebra.GroupWithZero.Nat
import Mathlib.Data.List.Basic
import Mathlib.Data.Option.Basic

/-!
# Monitors

A safety property of a trace is one that an automaton can watch: it reads the trace entry by entry
and refuses the first entry that breaks the property. What such a monitor accepts is closed under
prefixes, and a property of the entries behind a prefix is a property of the state the prefix leads
to.

## Main definitions

* `Monitor`: a partial step
* `Monitor.run`: reading a trace
* `Justified`: every entry rests on those before it

## Main results

* `Monitor.run_append`: a trace is read part by part
* `Monitor.run_invariant`, `Monitor.run_count`: what the states of a run say of its entries
* `Justified.concat`: a trace grows by entries it justifies
-/

/-- An automaton that reads entries of type `ε` and may refuse one. -/
structure Monitor (ε κ : Type*) where
  next : κ → ε → Option κ

namespace Monitor

variable {ε κ : Type*} (m : Monitor ε κ)

/-- The state behind a trace, when no entry of it is refused. -/
def run : κ → List ε → Option κ
  | k, [] => some k
  | k, e :: es => (m.next k e).bind fun k => run k es

@[simp] theorem run_nil (k : κ) : m.run k [] = some k := rfl

@[simp] theorem run_cons (k : κ) (e : ε) (es : List ε) :
    m.run k (e :: es) = (m.next k e).bind fun k => m.run k es := rfl

theorem run_append (k : κ) (xs ys : List ε) :
    m.run k (xs ++ ys) = (m.run k xs).bind fun k => m.run k ys := by
  induction xs generalizing k with
  | nil => rfl
  | cons x xs ih =>
    simp only [List.cons_append, run_cons, Option.bind_assoc, ih]

theorem run_concat (k : κ) (es : List ε) (e : ε) :
    m.run k (es ++ [e]) = (m.run k es).bind fun k => m.next k e := by
  simp [run_append]

variable {m}

/-- What follows an accepted prefix is read from the state the prefix leads to. -/
theorem run_append_some {k k' : κ} {xs ys : List ε} (h : m.run k (xs ++ ys) = some k') :
    ∃ l, m.run k xs = some l ∧ m.run l ys = some k' := by
  rw [run_append] at h
  exact Option.bind_eq_some_iff.mp h

/-- **A state that the monitor keeps satisfying `P` is satisfied at every later entry.** -/
theorem run_invariant {P : κ → Prop} {Q : ε → Prop}
    (hP : ∀ k e k', P k → m.next k e = some k' → P k' ∧ Q e) {es : List ε} {k k' : κ} (hk : P k)
    (h : m.run k es = some k') : P k' ∧ ∀ e ∈ es, Q e := by
  induction es generalizing k with
  | nil =>
    obtain rfl : k = k' := by simpa using h
    exact ⟨hk, by simp⟩
  | cons e es ih =>
    obtain ⟨l, hl, hrun⟩ := Option.bind_eq_some_iff.mp h
    obtain ⟨hl', he⟩ := hP k e l hk hl
    obtain ⟨hk', hes⟩ := ih hl' hrun
    exact ⟨hk', by simpa using ⟨he, hes⟩⟩

/-- A state that counts the entries of a kind counts them in every trace. -/
theorem run_count {f : κ → Nat} {q : ε → Bool}
    (hf : ∀ k e k', m.next k e = some k' → f k' = f k + (if q e then 1 else 0)) {es : List ε}
    {k k' : κ} (h : m.run k es = some k') : f k' = f k + es.countP q := by
  induction es generalizing k with
  | nil =>
    obtain rfl : k = k' := by simpa using h
    simp
  | cons e es ih =>
    obtain ⟨l, hl, hrun⟩ := Option.bind_eq_some_iff.mp h
    rw [ih hrun, hf k e l hl, List.countP_cons]
    omega

end Monitor

/-! ## Entries that rest on others -/

section Justified

variable {ε : Type*} {allowed : List ε → ε → Prop} {es : List ε}

/-- Every entry is allowed by those before it. -/
def Justified (allowed : List ε → ε → Prop) (es : List ε) : Prop :=
  ∀ pre x, pre ++ [x] <+: es → allowed pre x

theorem Justified.nil : Justified allowed [] := by
  intro pre x h
  simp at h

/-- **A trace grows by entries it justifies.** -/
theorem Justified.concat (h : Justified allowed es) {x : ε} (hx : allowed es x) :
    Justified allowed (es ++ [x]) := by
  intro pre y hy
  rcases List.prefix_concat_iff.mp hy with heq | hpre
  · obtain ⟨rfl, hxy⟩ := List.append_inj' heq rfl
    obtain rfl : y = x := by simpa using hxy
    exact hx
  · exact h pre y hpre

end Justified
