import Mathlib.Algebra.GroupWithZero.Nat
import Mathlib.Data.List.Basic
import Mathlib.Tactic.Common

/-!
# Uniform resource identifiers

The generic syntax as far as it says whom to connect to: a scheme, and an authority with user
information, a host and a port. Any bytes can be taken apart this way.

## Main definitions

* `scheme`, `authority`: the two components
* `hostName`, `port`: the parts of an authority
* `decimal`: the number a port stands for

## Main results

* `scheme_of_letters`, `authority_of_letters`: the components of letters before `"://"`
-/

namespace Uri

/-- The bytes before the first one of `stops`. -/
def before (stops bs : List UInt8) : List UInt8 := bs.takeWhile (· ∉ stops)

/-- The bytes from the first one of `stops` on. -/
def behind (stops bs : List UInt8) : List UInt8 := bs.dropWhile (· ∉ stops)

/-- A letter, which a scheme starts with. -/
def isLetter (c : UInt8) : Bool := (65 ≤ c && c ≤ 90) || (97 ≤ c && c ≤ 122)

/-- The scheme, up to its colon, and what is behind it. -/
def splitScheme (url : List UInt8) : Option (List UInt8) × List UInt8 :=
  match behind [58, 47, 63, 35] url with
  | 58 :: rest =>
    if url.head?.any isLetter then (some (before [58, 47, 63, 35] url), rest) else (none, url)
  | _ => (none, url)

/-- The delimiters behind an authority. -/
def authorityStops : List UInt8 := [47, 63, 35]

/-- The authority behind two slashes. -/
def splitAuthority : List UInt8 → Option (List UInt8)
  | 47 :: 47 :: rest => some (before authorityStops rest)
  | _ => none

/-- The scheme. -/
def scheme (url : List UInt8) : Option (List UInt8) := (splitScheme url).1

/-- The authority. -/
def authority (url : List UInt8) : Option (List UInt8) := splitAuthority (splitScheme url).2

/-- An authority without the user information and the at sign behind it. -/
def hostPort (authority : List UInt8) : List UInt8 :=
  match behind [64] authority with
  | _ :: rest => rest
  | [] => authority

/-- The host in front of a port: what is in brackets, or goes up to the colon. -/
def nameOf : List UInt8 → List UInt8
  | 91 :: rest => before [93] rest
  | bs => before [58] bs

/-- How many bytes stand before the host. -/
def nameOffset : List UInt8 → Nat
  | 91 :: _ => 1
  | _ => 0

/-- What follows the host. -/
def behindName : List UInt8 → List UInt8
  | 91 :: rest => (behind [93] rest).tail
  | bs => behind [58] bs

/-- The port behind a host and a colon. -/
def portOf (bs : List UInt8) : Option (List UInt8) :=
  match behindName bs with
  | 58 :: digits => some digits
  | _ => none

/-- The host. -/
def hostName (authority : List UInt8) : List UInt8 := nameOf (hostPort authority)

/-- The offset of the host in an authority. -/
def hostOffset (authority : List UInt8) : Nat :=
  authority.length - (hostPort authority).length + nameOffset (hostPort authority)

/-- The port, where there is one. -/
def port (authority : List UInt8) : Option (List UInt8) := portOf (hostPort authority)

/-- The number that digits stand for. -/
def decimal (digits : List UInt8) : Nat := digits.foldl (fun n c => 10 * n + (c.toNat - 48)) 0

/-! ## Up to a delimiter -/

section Delimiters

variable {stops a : List UInt8} {c : UInt8}

theorem before_append_behind (stops bs : List UInt8) : before stops bs ++ behind stops bs = bs :=
  List.takeWhile_append_dropWhile

theorem before_append (ha : ∀ c ∈ a, c ∉ stops) (bs : List UInt8) :
    before stops (a ++ bs) = a ++ before stops bs := by
  rw [before, List.takeWhile_append_of_pos (by simpa using ha)]
  rfl

theorem behind_append (ha : ∀ c ∈ a, c ∉ stops) (bs : List UInt8) :
    behind stops (a ++ bs) = behind stops bs := by
  rw [behind, List.dropWhile_append_of_pos (by simpa using ha)]
  rfl

theorem before_cons_of_mem (hc : c ∈ stops) (bs : List UInt8) : before stops (c :: bs) = [] := by
  rw [before, List.takeWhile_cons_of_neg (by simpa using hc)]

theorem before_cons_of_not_mem (hc : c ∉ stops) (bs : List UInt8) :
    before stops (c :: bs) = c :: before stops bs := by
  rw [before, List.takeWhile_cons_of_pos (by simpa using hc)]
  rfl

theorem behind_cons_of_mem (hc : c ∈ stops) (bs : List UInt8) :
    behind stops (c :: bs) = c :: bs := by
  rw [behind, List.dropWhile_cons_of_neg (by simpa using hc)]

theorem behind_cons_of_not_mem (hc : c ∉ stops) (bs : List UInt8) :
    behind stops (c :: bs) = behind stops bs := by
  rw [behind, List.dropWhile_cons_of_pos (by simpa using hc)]
  rfl

theorem head?_behind {stop : UInt8} {bs : List UInt8} (h : (behind [stop] bs).head? = some c) :
    c = stop := by
  have := List.head?_dropWhile_not (fun c => decide (c ∉ [stop])) bs
  rw [← behind, h] at this
  simpa using this

end Delimiters

/-! ## The components -/

/-- Letters, a colon and two slashes. -/
theorem splitScheme_of_letters {a : List UInt8} (hne : a ≠ []) (ha : ∀ c ∈ a, isLetter c)
    (r : List UInt8) :
    splitScheme (a ++ 58 :: 47 :: 47 :: r) = (some a, 47 :: 47 :: r) := by
  have hstop : ∀ c ∈ a, c ∉ [(58 : UInt8), 47, 63, 35] := by
    intro c hc hmem
    have hletter := ha c hc
    simp only [List.mem_cons, List.not_mem_nil, or_false] at hmem
    obtain rfl | rfl | rfl | rfl := hmem <;> exact absurd hletter (by decide)
  have hhead : (a ++ 58 :: 47 :: 47 :: r).head?.any isLetter = true := by
    obtain ⟨c, a, rfl⟩ := List.exists_cons_of_ne_nil hne
    exact ha c List.mem_cons_self
  rw [splitScheme, behind_append hstop, behind_cons_of_mem (by decide), before_append hstop,
    before_cons_of_mem (by decide), List.append_nil]
  exact if_pos hhead

theorem scheme_of_letters {a : List UInt8} (hne : a ≠ []) (ha : ∀ c ∈ a, isLetter c)
    (r : List UInt8) : scheme (a ++ 58 :: 47 :: 47 :: r) = some a := by
  rw [scheme, splitScheme_of_letters hne ha]

theorem authority_of_letters {a : List UInt8} (hne : a ≠ []) (ha : ∀ c ∈ a, isLetter c)
    (r : List UInt8) :
    authority (a ++ 58 :: 47 :: 47 :: r) = some (before authorityStops r) := by
  rw [authority, splitScheme_of_letters hne ha]
  rfl

/-! ## The parts of an authority -/

theorem hostPort_of_userinfo {u : List UInt8} (hu : 64 ∉ u) (bs : List UInt8) :
    hostPort (u ++ 64 :: bs) = bs := by
  have hstop : ∀ c ∈ u, c ∉ [(64 : UInt8)] := by
    rintro c hc hmem
    exact hu (List.mem_singleton.1 hmem ▸ hc)
  rw [hostPort, behind_append hstop, behind_cons_of_mem (by decide)]

theorem hostPort_of_not_mem {authority : List UInt8} (h : 64 ∉ authority) :
    hostPort authority = authority := by
  have hstop : ∀ c ∈ authority, c ∉ [(64 : UInt8)] := by
    rintro c hc hmem
    exact h (List.mem_singleton.1 hmem ▸ hc)
  have hnil : behind [64] authority = [] := by
    rw [← List.append_nil authority, behind_append hstop]
    rfl
  rw [hostPort, hnil]

/-- A host that is not in brackets. -/
theorem nameOf_cons {c : UInt8} (hc : c ≠ 91) (bs : List UInt8) :
    nameOf (c :: bs) = before [58] (c :: bs) ∧ nameOffset (c :: bs) = 0 ∧
      behindName (c :: bs) = behind [58] (c :: bs) := by
  refine ⟨?_, ?_, ?_⟩
  · unfold nameOf
    split
    · rename_i heq
      exact absurd (List.cons.inj heq).1 hc
    · rfl
  · unfold nameOffset
    split
    · rename_i heq
      exact absurd (List.cons.inj heq).1 hc
    · rfl
  · unfold behindName
    split
    · rename_i heq
      exact absurd (List.cons.inj heq).1 hc
    · rfl

end Uri
