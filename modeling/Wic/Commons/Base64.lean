import Mathlib.Algebra.GroupWithZero.Nat
import Mathlib.Data.List.Basic
import Mathlib.Tactic.Common

/-!
# Base64

The encoding of bytes as characters of a 64 letter alphabet, three bytes to four characters, with
the last ones filled up by padding, and a decoder that takes nothing but canonical encodings.

## Main definitions

* `digit`, `value`: the alphabet, and its inverse
* `encode`, `decode`: the encoding and its decoder

## Main results

* `decode_encode`: the decoder gives the bytes back
* `length_encode`: the number of characters
-/

namespace Base64

/-- The letter of a six-bit value. -/
def digit (n : Nat) : UInt8 :=
  if n < 26 then UInt8.ofNat (65 + n)
  else if n < 52 then UInt8.ofNat (97 + (n - 26))
  else if n < 62 then UInt8.ofNat (48 + (n - 52))
  else if n = 62 then 43
  else 47

/-- The value of a letter. -/
def value (c : UInt8) : Option Nat :=
  if 65 ≤ c.toNat ∧ c.toNat ≤ 90 then some (c.toNat - 65)
  else if 97 ≤ c.toNat ∧ c.toNat ≤ 122 then some (c.toNat - 97 + 26)
  else if 48 ≤ c.toNat ∧ c.toNat ≤ 57 then some (c.toNat - 48 + 52)
  else if c = 43 then some 62
  else if c = 47 then some 63
  else none

/-- The padding character. -/
def pad : UInt8 := 61

/-- The letters of the 24-bit value `n`. -/
def quantum (n : Nat) : List UInt8 :=
  [digit (n / 2 ^ 18), digit (n / 2 ^ 12 % 64), digit (n / 2 ^ 6 % 64), digit (n % 64)]

/-- The encoding: each three bytes as one 24-bit value, the last one or two with zero bits behind
them and with padding in place of the letters they do not reach. -/
def encode : List UInt8 → List UInt8
  | [] => []
  | [a] => (quantum (a.toNat * 2 ^ 16)).take 2 ++ [pad, pad]
  | [a, b] => (quantum (a.toNat * 2 ^ 16 + b.toNat * 2 ^ 8)).take 3 ++ [pad]
  | a :: b :: c :: bytes =>
    quantum (a.toNat * 2 ^ 16 + b.toNat * 2 ^ 8 + c.toNat) ++ encode bytes

/-- The bytes of four six-bit values. -/
def octets (x y z t : Nat) : List UInt8 :=
  [UInt8.ofNat (x * 4 + y / 16), UInt8.ofNat (y % 16 * 16 + z / 4), UInt8.ofNat (z % 4 * 64 + t)]

/-- The bytes of the last four characters, whose values may be cut short by padding. The bits that
padding stands for have to be zero. -/
def decodeLast (p q r s : UInt8) : Option (List UInt8) := do
  let x ← value p
  let y ← value q
  if r = pad then
    if s = pad ∧ y % 16 = 0 then some ((octets x y 0 0).take 1) else none
  else
    let z ← value r
    if s = pad then
      if z % 4 = 0 then some ((octets x y z 0).take 2) else none
    else
      let t ← value s
      some (octets x y z t)

/-- The decoder. -/
def decode : List UInt8 → Option (List UInt8)
  | [] => some []
  | [p, q, r, s] => decodeLast p q r s
  | p :: q :: r :: s :: rest => do
    let x ← value p
    let y ← value q
    let z ← value r
    let t ← value s
    let bytes ← decode rest
    some (octets x y z t ++ bytes)
  | _ => none

/-! ## Letters -/

theorem value_digit {n : Nat} (h : n < 64) : value (digit n) = some n :=
  (by decide : ∀ n : Fin 64, value (digit n) = some n.val) ⟨n, h⟩

theorem digit_ne_pad {n : Nat} (h : n < 64) : digit n ≠ pad :=
  (by decide : ∀ n : Fin 64, digit n ≠ pad) ⟨n, h⟩

/-! ## The length -/

theorem length_encode : ∀ bytes : List UInt8, (encode bytes).length = 4 * ((bytes.length + 2) / 3)
  | [] => rfl
  | [_] => by simp [encode, quantum]
  | [_, _] => by simp [encode, quantum]
  | a :: b :: c :: bytes => by
    have ih := length_encode bytes
    simp only [encode, quantum, List.length_append, List.length_cons, List.length_nil, ih]
    omega

/-! ## The round trip -/

theorem octets_quantum (n : Nat) :
    octets (n / 2 ^ 18) (n / 2 ^ 12 % 64) (n / 2 ^ 6 % 64) (n % 64) =
      [UInt8.ofNat (n / 2 ^ 16), UInt8.ofNat (n / 2 ^ 8), UInt8.ofNat n] := by
  have h₀ : n / 2 ^ 18 * 4 + n / 2 ^ 12 % 64 / 16 = n / 2 ^ 16 := by omega
  have h₁ : UInt8.ofNat (n / 2 ^ 12 % 64 % 16 * 16 + n / 2 ^ 6 % 64 / 4) =
      UInt8.ofNat (n / 2 ^ 8) := by
    apply UInt8.toNat_inj.mp
    simp only [UInt8.toNat_ofNat']
    omega
  have h₂ : UInt8.ofNat (n / 2 ^ 6 % 64 % 4 * 64 + n % 64) = UInt8.ofNat n := by
    apply UInt8.toNat_inj.mp
    simp only [UInt8.toNat_ofNat']
    omega
  rw [octets, h₀, h₁, h₂]

section Quantum

variable {n : Nat}

private theorem value_quantum (h : n < 2 ^ 24) :
    value (digit (n / 2 ^ 18)) = some (n / 2 ^ 18) ∧
      value (digit (n / 2 ^ 12 % 64)) = some (n / 2 ^ 12 % 64) ∧
      value (digit (n / 2 ^ 6 % 64)) = some (n / 2 ^ 6 % 64) ∧
      value (digit (n % 64)) = some (n % 64) := by
  refine ⟨value_digit ?_, value_digit ?_, value_digit ?_, value_digit ?_⟩ <;> omega

/-- Four letters give three bytes. -/
theorem decode_quantum (h : n < 2 ^ 24) {rest bytes : List UInt8}
    (hrest : decode rest = some bytes) :
    decode (quantum n ++ rest) =
      some ([UInt8.ofNat (n / 2 ^ 16), UInt8.ofNat (n / 2 ^ 8), UInt8.ofNat n] ++ bytes) := by
  obtain ⟨h₀, h₁, h₂, h₃⟩ := value_quantum h
  rw [← octets_quantum n]
  cases rest with
  | nil =>
    cases hrest
    have hr : digit (n / 2 ^ 6 % 64) ≠ pad := digit_ne_pad (by omega)
    have hs : digit (n % 64) ≠ pad := digit_ne_pad (by omega)
    simp only [quantum, List.append_nil, decode, decodeLast, h₀, h₁, h₂, h₃, if_neg hr, if_neg hs,
      Option.bind_eq_bind, Option.bind_some]
  | cons r rest =>
    simp only [quantum, List.cons_append, List.nil_append, decode, h₀, h₁, h₂, h₃, hrest,
      Option.bind_eq_bind, Option.bind_some]

/-- Two letters with padding give one byte. -/
theorem decode_take_two (h : n < 2 ^ 24) (hz : n % 2 ^ 16 = 0) :
    decode ((quantum n).take 2 ++ [pad, pad]) = some [UInt8.ofNat (n / 2 ^ 16)] := by
  obtain ⟨h₀, h₁, -, -⟩ := value_quantum h
  have hy : n / 2 ^ 12 % 64 % 16 = 0 := by omega
  have ho := congrArg (List.take 1) (octets_quantum n)
  simp only [quantum, List.take_succ_cons, List.take_zero, List.cons_append, List.nil_append,
    decode, decodeLast, h₀, h₁, if_true, hy, and_true, Option.bind_eq_bind, Option.bind_some]
  exact congrArg some ho

/-- Three letters with padding give two bytes. -/
theorem decode_take_three (h : n < 2 ^ 24) (hz : n % 2 ^ 8 = 0) :
    decode ((quantum n).take 3 ++ [pad]) =
      some [UInt8.ofNat (n / 2 ^ 16), UInt8.ofNat (n / 2 ^ 8)] := by
  obtain ⟨h₀, h₁, h₂, -⟩ := value_quantum h
  have hy : n / 2 ^ 6 % 64 % 4 = 0 := by omega
  have hr : digit (n / 2 ^ 6 % 64) ≠ pad := digit_ne_pad (by omega)
  have ho := congrArg (List.take 2) (octets_quantum n)
  simp only [quantum, List.take_succ_cons, List.take_zero, List.cons_append, List.nil_append,
    decode, decodeLast, h₀, h₁, h₂, if_neg hr, if_true, hy, Option.bind_eq_bind, Option.bind_some]
  exact congrArg some ho

end Quantum

/-- The bytes of a 24-bit value. -/
theorem ofNat_quantum (a b c : UInt8) :
    UInt8.ofNat ((a.toNat * 2 ^ 16 + b.toNat * 2 ^ 8 + c.toNat) / 2 ^ 16) = a ∧
      UInt8.ofNat ((a.toNat * 2 ^ 16 + b.toNat * 2 ^ 8 + c.toNat) / 2 ^ 8) = b ∧
      UInt8.ofNat (a.toNat * 2 ^ 16 + b.toNat * 2 ^ 8 + c.toNat) = c := by
  have ha := a.toNat_lt
  have hb := b.toNat_lt
  have hc := c.toNat_lt
  refine ⟨?_, ?_, ?_⟩ <;> apply UInt8.toNat_inj.mp <;> rw [UInt8.toNat_ofNat'] <;> omega

/-- **The decoder gives the bytes back.** -/
theorem decode_encode : ∀ bytes : List UInt8, decode (encode bytes) = some bytes
  | [] => rfl
  | [a] => by
    have ha := a.toNat_lt
    have hbytes := (ofNat_quantum a 0 0).1
    simp only [UInt8.toNat_zero, Nat.zero_mul, Nat.add_zero] at hbytes
    rw [encode, decode_take_two (by omega) (by omega), hbytes]
  | [a, b] => by
    have ha := a.toNat_lt
    have hb := b.toNat_lt
    obtain ⟨h₀, h₁, -⟩ := ofNat_quantum a b 0
    simp only [UInt8.toNat_zero, Nat.add_zero] at h₀ h₁
    rw [encode, decode_take_three (by omega) (by omega), h₀, h₁]
  | a :: b :: c :: bytes => by
    have ha := a.toNat_lt
    have hb := b.toNat_lt
    have hc := c.toNat_lt
    obtain ⟨h₀, h₁, h₂⟩ := ofNat_quantum a b c
    rw [encode, decode_quantum (by omega) (decode_encode bytes), h₀, h₁, h₂]
    rfl

end Base64
