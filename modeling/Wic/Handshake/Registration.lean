import Wic.Handshake.Request

/-!
# The header list

`wic_set_header` puts an object of the application in front of a list whose links are in the
objects, and `wic_start` goes through that list until it ends. The list has an end as long as no
object is put in front of it twice.

## Main definitions

* `HeaderChain`: the objects from one on, by their links
* `HeaderCall`: what an application does with its objects
* `ListsOnce`: the list has an end and every registered object in it once, and is written

## Main results

* `HeaderChain.nodup`: a list with an end has no object twice
* `listsOnce_iff`: the list is as it should be if and only if no object is registered twice
-/

namespace Wic

open Http (ascii)

variable {σ : Type}

/-! ## Chains -/

/-- The objects from `p` on, up to the one without a link. -/
inductive HeaderChain (heap : Nat → Header) : Option Nat → List Nat → Prop
  | nil : HeaderChain heap none []
  | cons {a l} (h : HeaderChain heap (heap a).next l) : HeaderChain heap (some a) (a :: l)

namespace HeaderChain

variable {heap heap' : Nat → Header} {p : Option Nat} {l l' : List Nat}

theorem unique (h : HeaderChain heap p l) (h' : HeaderChain heap p l') : l = l' := by
  induction h generalizing l' with
  | nil =>
    cases h'
    rfl
  | cons h ih =>
    cases h' with
    | cons h' => rw [ih h']

/-- A chain is one as long as the links of its objects stay. -/
theorem frame (h : HeaderChain heap p l) (hf : ∀ a ∈ l, (heap' a).next = (heap a).next) :
    HeaderChain heap' p l := by
  induction h with
  | nil => exact .nil
  | cons h ih =>
    constructor
    rw [hf _ List.mem_cons_self]
    exact ih fun a ha => hf a (List.mem_cons_of_mem _ ha)

/-- From every object of a chain there is a chain, and it is no longer. -/
theorem from_mem (h : HeaderChain heap p l) {a : Nat} (ha : a ∈ l) :
    ∃ m, HeaderChain heap (some a) m ∧ m.length ≤ l.length := by
  induction h with
  | nil => cases ha
  | cons h ih =>
    obtain rfl | ha := List.mem_cons.mp ha
    · exact ⟨_, .cons h, Nat.le_refl _⟩
    · obtain ⟨m, hm, hlen⟩ := ih ha
      exact ⟨m, hm, Nat.le_succ_of_le hlen⟩

/-- **A list with an end has no object twice.** -/
theorem nodup (h : HeaderChain heap p l) : l.Nodup := by
  induction h with
  | nil => exact List.nodup_nil
  | cons h ih =>
    refine List.nodup_cons.mpr ⟨fun ha => ?_, ih⟩
    obtain ⟨m, hm, hlen⟩ := h.from_mem ha
    rw [← (HeaderChain.cons h).unique hm, List.length_cons] at hlen
    omega

end HeaderChain

/-- There is no end to the objects from `p` on. -/
def Endless (heap : Nat → Header) (p : Option Nat) : Prop := ∀ l, ¬HeaderChain heap p l

/-! ## The loop of `wic_start` -/

/-- The writes of `wic_start` for a header. -/
def putOneHeader (h : Header) (tx : Stream) : Stream :=
  (((tx.putStr (h.name.getD [])).putStr (ascii ": ")).putStr (h.value.getD [])).putStr
    (ascii "\r\n")

/-- A header has a name and a value. -/
def Header.Whole (h : Header) : Prop := h.name.isSome ∧ h.value.isSome

/-- The loop ends at the end of the list, having written every header of it in its turn. -/
theorem putHeaders_of_chain {heap : Nat → Header} {p : Option Nat} {l : List Nat}
    (h : HeaderChain heap p l) (hl : ∀ a ∈ l, (heap a).Whole) (tx : Stream) :
    putHeaders heap l.length p tx = some (l.foldl (fun tx a => putOneHeader (heap a) tx) tx) := by
  induction h generalizing tx with
  | nil => rfl
  | @cons a l h ih =>
    obtain ⟨hname, hvalue⟩ := hl a List.mem_cons_self
    obtain ⟨name, hname⟩ := Option.isSome_iff_exists.mp hname
    obtain ⟨value, hvalue⟩ := Option.isSome_iff_exists.mp hvalue
    have hone : (((tx.putStr name).putStr (ascii ": ")).putStr value).putStr (ascii "\r\n") =
        putOneHeader (heap a) tx := by
      rw [putOneHeader, hname, hvalue]
      rfl
    rw [List.length_cons, putHeaders, hname, hvalue]
    dsimp only
    rw [hone]
    exact ih (fun b hb => hl b (List.mem_cons_of_mem _ hb)) _

/-- A loop that ends has gone through a list with an end, and every header had a name and a value. -/
theorem chain_of_putHeaders {heap : Nat → Header} {fuel : Nat} {p : Option Nat} {tx tx' : Stream}
    (h : putHeaders heap fuel p tx = some tx') :
    ∃ l, HeaderChain heap p l ∧ ∀ a ∈ l, (heap a).Whole := by
  induction fuel generalizing p tx with
  | zero =>
    cases p with
    | none => exact ⟨[], .nil, by simp⟩
    | some a => cases h
  | succ fuel ih =>
    cases p with
    | none => exact ⟨[], .nil, by simp⟩
    | some a =>
      rw [putHeaders] at h
      split at h
      · next name value hname hvalue =>
        obtain ⟨l, hl, hwhole⟩ := ih h
        refine ⟨a :: l, .cons hl, fun b hb => ?_⟩
        rcases List.mem_cons.mp hb with rfl | hb
        · exact ⟨Option.isSome_of_eq_some hname, Option.isSome_of_eq_some hvalue⟩
        · exact hwhole b hb
      · cases h

/-- The loop has no end where the list has none. -/
theorem putHeaders_of_endless {heap : Nat → Header} {p : Option Nat} (h : Endless heap p)
    (fuel : Nat) (tx : Stream) : putHeaders heap fuel p tx = none := by
  cases hput : putHeaders heap fuel p tx with
  | none => rfl
  | some tx' =>
    obtain ⟨l, hl, -⟩ := chain_of_putHeaders hput
    exact absurd hl (h l)

/-! ## Registrations -/

/-- What an application does with its header objects. -/
inductive HeaderCall
  | set (header : Nat)
  | assign (header : Nat) (name value : List UInt8)

namespace HeaderCall

/-- A call of `wic_set_header`, or a change of an object. -/
def run (c : HeaderCall) (w : World σ) : World σ :=
  match c with
  | .set a => (wicSetHeader a w).2
  | .assign a name value =>
    let h := { w.heap a with name := some name, value := some value }
    { w with heap := Function.update w.heap a h }

/-- The objects a call registers: one with a name and a value. -/
def registers (c : HeaderCall) (w : World σ) : List Nat :=
  match c with
  | .set a => if (w.heap a).name.isSome && (w.heap a).value.isSome then [a] else []
  | .assign _ _ _ => []

end HeaderCall

/-- The world after a sequence of calls. -/
def runHeaders (cs : List HeaderCall) (w : World σ) : World σ :=
  cs.foldl (fun w c => c.run w) w

/-- The objects a sequence of calls registers, one after the other. -/
def registered : List HeaderCall → World σ → List Nat
  | [], _ => []
  | c :: cs, w => c.registers w ++ registered cs (c.run w)

/-- The header list of the instance has an end, has every registered object in it exactly once, and
`wic_start` goes through it and writes each. -/
def ListsOnce (w : World σ) (headers : List Nat) : Prop :=
  ∃ l, HeaderChain w.heap w.inst.txHeader l ∧ l.Nodup ∧ (∀ a, a ∈ l ↔ a ∈ headers) ∧
    ∀ tx, ∃ fuel, putHeaders w.heap fuel w.inst.txHeader tx =
      some (l.foldl (fun tx a => putOneHeader (w.heap a) tx) tx)

/-- `wic_set_header` returns true for an object that it registers. -/
theorem wicSetHeader_registers (a : Nat) (w : World σ) :
    (wicSetHeader a w).1 = true ↔ (HeaderCall.set a).registers w = [a] := by
  unfold wicSetHeader HeaderCall.registers
  dsimp only
  split_ifs <;> simp

/-! ## One call -/

variable {w : World σ} {l : List Nat}

/-- The list of the instance, all of its objects with a name and a value. -/
structure Listed (w : World σ) (l : List Nat) : Prop where
  chain : HeaderChain w.heap w.inst.txHeader l
  whole : ∀ a ∈ l, (w.heap a).Whole

/-- What a call does: it registers an object, or leaves the list and its links alone. -/
theorem HeaderCall.run_cases (c : HeaderCall) (w : World σ) :
    (∃ a, c.registers w = [a] ∧ (w.heap a).Whole ∧ (c.run w).inst.txHeader = some a ∧
      (c.run w).heap = Function.update w.heap a { w.heap a with next := w.inst.txHeader }) ∨
    (c.registers w = [] ∧ (c.run w).inst.txHeader = w.inst.txHeader ∧
      (∀ a, ((c.run w).heap a).next = (w.heap a).next) ∧
      ∀ a, (w.heap a).Whole → ((c.run w).heap a).Whole) := by
  cases c with
  | set a =>
    by_cases hset : (w.heap a).name.isSome && (w.heap a).value.isSome
    · have hrun : (HeaderCall.set a).run w =
          { w.update fun i => { i with txHeader := some a } with
            heap := Function.update w.heap a { w.heap a with next := w.inst.txHeader } } := by
        simp only [run, wicSetHeader, if_pos hset]
      rw [hrun]
      exact .inl ⟨a, if_pos hset, by simpa [Header.Whole] using hset, rfl, rfl⟩
    · have hrun : (HeaderCall.set a).run w = w := by
        simp only [run, wicSetHeader, if_neg hset]
      rw [hrun]
      exact .inr ⟨if_neg hset, rfl, fun b => rfl, fun b hb => hb⟩
  | assign a name value =>
    refine .inr ⟨rfl, rfl, fun b => ?_, fun b hb => ?_⟩ <;>
      by_cases hab : b = a <;> simp_all [run, Header.Whole]

/-- An object that is not in the list is put in front of it. -/
theorem Listed.call (h : Listed w l) (c : HeaderCall)
    (hnew : ∀ a ∈ c.registers w, a ∉ l) : Listed (c.run w) (c.registers w ++ l) := by
  obtain ⟨a, hr, hwhole, htx, hheap⟩ | ⟨hr, htx, hnext, hwhole⟩ := c.run_cases w
  · rw [hr] at hnew ⊢
    have ha : a ∉ l := hnew a (List.mem_singleton_self a)
    have hother : ∀ b ∈ l, (c.run w).heap b = w.heap b := fun b hb => by
      rw [hheap]
      exact Function.update_of_ne (ne_of_mem_of_not_mem hb ha) _ _
    refine ⟨?_, fun b hb => ?_⟩
    · rw [htx]
      constructor
      rw [hheap, Function.update_self, ← hheap]
      exact h.chain.frame fun b hb => by rw [hother b hb]
    · obtain rfl | hb := List.mem_cons.mp hb
      · rw [hheap, Function.update_self]
        exact hwhole
      · rw [hother b hb]
        exact h.whole b hb
  · rw [hr]
    refine ⟨?_, fun b hb => hwhole b (h.whole b hb)⟩
    rw [htx]
    exact h.chain.frame fun b _ => hnext b

/-- An object that is in the list already makes it endless, and it stays so. -/
theorem endless_call (c : HeaderCall)
    (h : Endless w.heap w.inst.txHeader ∨
      HeaderChain w.heap w.inst.txHeader l ∧ ∃ a ∈ c.registers w, a ∈ l) :
    Endless (c.run w).heap (c.run w).inst.txHeader := by
  intro m hm
  obtain ⟨a, hr, -, htx, hheap⟩ | ⟨hr, htx, hnext, -⟩ := c.run_cases w
  · have hnodup := hm.nodup
    rw [htx] at hm
    cases hm with
    | @cons _ m hm =>
      rw [hheap, Function.update_self, ← hheap] at hm
      have ha : a ∉ m := (List.nodup_cons.mp hnodup).1
      -- The rest of the new list does not go through the object, so that it was the list before.
      have hold : HeaderChain w.heap w.inst.txHeader m := hm.frame fun b hb => by
        rw [hheap, Function.update_of_ne (ne_of_mem_of_not_mem hb ha)]
      obtain h | ⟨hchain, b, hb, hbl⟩ := h
      · exact h m hold
      · rw [hr, List.mem_singleton] at hb
        rw [hchain.unique hold, hb] at hbl
        exact ha hbl
  · rw [htx] at hm
    have hold : HeaderChain w.heap w.inst.txHeader m := hm.frame fun b _ => (hnext b).symm
    obtain h | ⟨-, b, hb, -⟩ := h
    · exact h m hold
    · rw [hr] at hb
      cases hb

/-! ## Sequences of calls -/

theorem endless_run (cs : List HeaderCall) (h : Endless w.heap w.inst.txHeader) :
    Endless (runHeaders cs w).heap (runHeaders cs w).inst.txHeader := by
  induction cs generalizing w with
  | nil => exact h
  | cons c cs ih => exact ih (endless_call (l := []) c (.inl h))

/-- The list after a sequence of calls: the new objects in front, as long as none of them is there
already; otherwise there is no end to it. -/
theorem Listed.run (h : Listed w l) (cs : List HeaderCall) :
    ((registered cs w).reverse ++ l).Nodup ∧
        Listed (runHeaders cs w) ((registered cs w).reverse ++ l) ∨
      ¬((registered cs w).reverse ++ l).Nodup ∧
        Endless (runHeaders cs w).heap (runHeaders cs w).inst.txHeader := by
  induction cs generalizing w l with
  | nil => exact .inl ⟨h.chain.nodup, h⟩
  | cons c cs ih =>
    have hreverse : (registered (c :: cs) w).reverse ++ l =
        (registered cs (c.run w)).reverse ++ (c.registers w ++ l) := by
      have hone : (c.registers w).reverse = c.registers w := by
        obtain ⟨a, hr, -⟩ | ⟨hr, -⟩ := c.run_cases w <;> rw [hr] <;> rfl
      rw [registered, List.reverse_append, hone, List.append_assoc]
    rw [hreverse]
    by_cases hnew : ∀ a ∈ c.registers w, a ∉ l
    · exact ih (h.call c hnew)
    · have hold : ∃ a ∈ c.registers w, a ∈ l := by
        by_contra hno
        exact hnew fun a ha hal => hno ⟨a, ha, hal⟩
      refine .inr ⟨fun hnodup => ?_, endless_run cs (endless_call c (.inr ⟨h.chain, hold⟩))⟩
      obtain ⟨a, ha, hal⟩ := hold
      have hdisjoint := (List.nodup_append.mp (List.nodup_append.mp hnodup).2.1).2.2
      exact hdisjoint a ha a hal rfl

/-- The list of an instance that had none. -/
theorem runHeaders_listed (hw : w.inst.txHeader = none) (cs : List HeaderCall) :
    (registered cs w).Nodup ∧ Listed (runHeaders cs w) (registered cs w).reverse ∨
      ¬(registered cs w).Nodup ∧
        Endless (runHeaders cs w).heap (runHeaders cs w).inst.txHeader := by
  have hstart : Listed w [] := ⟨hw ▸ .nil, fun a ha => by cases ha⟩
  have hreverse : (registered cs w).reverse.Nodup ↔ (registered cs w).Nodup :=
    (List.reverse_perm _).nodup_iff
  have hrun := hstart.run cs
  rwa [List.append_nil, hreverse] at hrun

/-- Once an object is registered twice, the loop of `wic_start` has no end. -/
theorem putHeaders_of_twice (hw : w.inst.txHeader = none) {cs : List HeaderCall}
    (h : ¬(registered cs w).Nodup) (fuel : Nat) (tx : Stream) :
    putHeaders (runHeaders cs w).heap fuel (runHeaders cs w).inst.txHeader tx = none := by
  obtain ⟨hnodup, -⟩ | ⟨-, hendless⟩ := runHeaders_listed hw cs
  · exact absurd hnodup h
  · exact putHeaders_of_endless hendless fuel tx

/-- **The list has an end and every registered object once, and is written, if and only if no
object is registered twice.** -/
theorem listsOnce_iff (hw : w.inst.txHeader = none) (cs : List HeaderCall) :
    ListsOnce (runHeaders cs w) (registered cs w) ↔ (registered cs w).Nodup := by
  obtain ⟨hnodup, hlist⟩ | ⟨hnot, hendless⟩ := runHeaders_listed hw cs
  · refine iff_of_true ⟨_, hlist.chain, hlist.chain.nodup, fun a => List.mem_reverse, ?_⟩ hnodup
    exact fun tx => ⟨_, putHeaders_of_chain hlist.chain hlist.whole tx⟩
  · refine iff_of_false ?_ hnot
    rintro ⟨l, hl, -⟩
    exact hendless l hl

namespace Sample

/-- A world with cleared header objects and an empty list. -/
def unregistered : World Unit := { inst := {}, heap := fun _ => {}, log := [], app := () }

/-- One object, registered with one value and again with another one. -/
def registeredTwice : List HeaderCall :=
  [.assign 1 (ascii "a") (ascii "b"), .set 1, .assign 1 (ascii "a") (ascii "c"), .set 1]

/-- Two objects. -/
theorem two_listed : ListsOnce (runHeaders [.assign 1 (ascii "a") (ascii "b"), .set 1,
    .assign 2 (ascii "a") (ascii "c"), .set 2] unregistered) [1, 2] := by
  have hlists := (listsOnce_iff (w := unregistered) rfl [.assign 1 (ascii "a") (ascii "b"), .set 1,
    .assign 2 (ascii "a") (ascii "c"), .set 2]).mpr
  exact hlists (by decide)

/-- The object is its own successor, and the loop of `wic_start` does not end. -/
theorem registered_twice :
    ((runHeaders registeredTwice unregistered).heap 1).next = some 1 ∧
      (∀ fuel tx, putHeaders (runHeaders registeredTwice unregistered).heap fuel
        (runHeaders registeredTwice unregistered).inst.txHeader tx = none) ∧
      ¬ListsOnce (runHeaders registeredTwice unregistered)
        (registered registeredTwice unregistered) := by
  have hloop := putHeaders_of_twice (w := unregistered) rfl
    (show ¬(registered registeredTwice unregistered).Nodup by decide)
  refine ⟨rfl, hloop, ?_⟩
  rintro ⟨l, -, -, -, hput⟩
  obtain ⟨fuel, h⟩ := hput {}
  rw [hloop fuel {}] at h
  cases h

end Sample

end Wic
