import Wic.Commons.Base64
import Wic.Model.Digest

/-!
# The encoding of the nonce

`b64_encode` with the index of every character it writes. It carries the bits of a byte that do not
make up a character in an 8-bit accumulator, and its guard compares the size it needs, modulo the
range of a `size_t`, with the capacity and with the number of bytes.

## Main definitions

* `b64EncodeWrites`: the writes of `b64_encode`, and what it returns

## Main results

* `b64EncodeLoop_eq`: the characters are the base64 encoding
* `b64EncodeWrites_chars`: the characters written are those of `b64Encode`
* `b64Encode_correct`: what `b64_encode` writes and returns, for every input and every capacity
-/

namespace Wic

open Http (chr)

/-! ## The writes -/

/-- The writes of `b64_encode` to `out` for the bytes at index `i` on, with `acc` carried over and
`retval` characters written, and the `retval` it returns. -/
def b64WriteLoop (w : Nat) : List UInt8 → Nat → UInt8 → Nat → List (Nat × UInt8) × Nat
  | [], i, acc, retval =>
    if i % 3 = 0 then ([], retval)
    else
      let writes := [(retval, b64EncodeByte acc), ((retval + 1) % 2 ^ w, chr '=')]
      let retval := (retval + 2) % 2 ^ w
      if i % 3 = 1 then (writes ++ [(retval, chr '=')], (retval + 1) % 2 ^ w) else (writes, retval)
  | c :: rest, i, acc, retval =>
    match i % 3 with
    | 0 =>
      let (writes, n) := b64WriteLoop w rest (i + 1) (c <<< 4) ((retval + 1) % 2 ^ w)
      ((retval, b64EncodeByte (c >>> 2)) :: writes, n)
    | 1 =>
      let (writes, n) := b64WriteLoop w rest (i + 1) (c <<< 2) ((retval + 1) % 2 ^ w)
      ((retval, b64EncodeByte (acc ||| c >>> 4)) :: writes, n)
    | _ =>
      let (writes, n) := b64WriteLoop w rest (i + 1) acc ((retval + 2) % 2 ^ w)
      ((retval, b64EncodeByte (acc ||| c >>> 6)) :: ((retval + 1) % 2 ^ w, b64EncodeByte c) :: writes,
        n)

/-- `b64_encode` -/
def b64EncodeWrites (w : Nat) (bytes : List UInt8) (max : Nat) : List (Nat × UInt8) × Nat :=
  if b64EncodedSize w bytes.length ≤ max ∧ bytes.length ≤ b64EncodedSize w bytes.length then
    b64WriteLoop w bytes 0 0 0
  else ([], 0)

/-- The writes go to one index after the other. -/
theorem b64WriteLoop_eq {w : Nat} : ∀ {bytes : List UInt8} {i : Nat} {acc : UInt8} {retval : Nat},
    retval + (b64EncodeLoop bytes i acc).length < 2 ^ w →
    b64WriteLoop w bytes i acc retval =
      ((List.range' retval (b64EncodeLoop bytes i acc).length).zip (b64EncodeLoop bytes i acc),
        retval + (b64EncodeLoop bytes i acc).length)
  | [], i, acc, retval, h => by
    simp only [b64EncodeLoop, b64WriteLoop] at h ⊢
    -- The last quantum is filled up by one or two paddings, or there is none.
    split_ifs at h ⊢ with h₀ h₁
    · rfl
    · simp only [List.length_append, List.length_cons, List.length_nil] at h
      simp only [Nat.mod_eq_of_lt (show retval + 1 < 2 ^ w by omega),
        Nat.mod_eq_of_lt (show retval + 2 < 2 ^ w by omega),
        Nat.mod_eq_of_lt (show retval + 2 + 1 < 2 ^ w by omega)]
      rfl
    · simp only [List.length_append, List.length_cons, List.length_nil] at h
      simp only [Nat.mod_eq_of_lt (show retval + 1 < 2 ^ w by omega),
        Nat.mod_eq_of_lt (show retval + 2 < 2 ^ w by omega)]
      rfl
  | c :: rest, i, acc, retval, h => by
    simp only [b64EncodeLoop, b64WriteLoop] at h ⊢
    -- The third byte of a quantum gives two characters, the others one.
    obtain hi | hi | hi : i % 3 = 0 ∨ i % 3 = 1 ∨ i % 3 = 2 := by omega
    all_goals
      simp only [hi, List.length_cons] at h ⊢
      simp only [Nat.mod_eq_of_lt (show retval + 1 < 2 ^ w by omega)]
    · rw [b64WriteLoop_eq (by omega), List.range'_succ, List.zip_cons_cons, Nat.add_right_comm,
        Nat.add_assoc]
    · rw [b64WriteLoop_eq (by omega), List.range'_succ, List.zip_cons_cons, Nat.add_right_comm,
        Nat.add_assoc]
    · simp only [Nat.mod_eq_of_lt (show retval + 2 < 2 ^ w by omega)]
      rw [b64WriteLoop_eq (by omega), List.range'_succ, List.range'_succ, List.zip_cons_cons,
        List.zip_cons_cons]
      simp only [Prod.mk.injEq, true_and]
      omega

/-! ## The characters -/

/-- The table of `b64_encode_byte` is the alphabet, its index the low six bits. -/
theorem b64EncodeByte_eq (b : UInt8) : b64EncodeByte b = Base64.digit (b.toNat % 64) := by
  have hmap : ∀ n : Fin 64, b64Map.getD n 0 = Base64.digit n := by
    decide +kernel
  have hlow : (b &&& 0x3f).toNat = b.toNat % 64 := by
    rw [UInt8.toNat_and]
    exact Nat.and_two_pow_sub_one_eq_mod b.toNat 6
  rw [b64EncodeByte, hlow]
  exact hmap ⟨b.toNat % 64, Nat.mod_lt _ (by decide)⟩

/-- Two values whose bits do not overlap. -/
theorem or_shift {x y k : Nat} (h : y < 2 ^ k) : x * 2 ^ k ||| y = x * 2 ^ k + y := by
  rw [Nat.mul_comm]
  exact (Nat.two_pow_add_eq_or_of_lt h x).symm

section Bits

variable (a b : UInt8)

theorem b64EncodeByte_first : b64EncodeByte (a >>> 2) = Base64.digit (a.toNat / 4) := by
  have ha := a.toNat_lt
  have hright : (a >>> 2).toNat = a.toNat / 4 := by
    rw [UInt8.toNat_shiftRight, Nat.shiftRight_eq_div_pow]
    rfl
  rw [b64EncodeByte_eq, hright]
  exact congrArg Base64.digit (by omega)

theorem b64EncodeByte_second :
    b64EncodeByte (a <<< 4 ||| b >>> 4) = Base64.digit (a.toNat % 4 * 16 + b.toNat / 16) := by
  have hb := b.toNat_lt
  have hshift : (a <<< 4).toNat = a.toNat % 16 * 2 ^ 4 := by
    rw [UInt8.toNat_shiftLeft, Nat.shiftLeft_eq]
    show a.toNat * 16 % 256 = _
    omega
  have hright : (b >>> 4).toNat = b.toNat / 16 := by
    rw [UInt8.toNat_shiftRight, Nat.shiftRight_eq_div_pow]
    rfl
  rw [b64EncodeByte_eq, UInt8.toNat_or, hshift, hright, or_shift (by omega)]
  exact congrArg Base64.digit (by omega)

theorem b64EncodeByte_third :
    b64EncodeByte (a <<< 2 ||| b >>> 6) = Base64.digit (a.toNat % 16 * 4 + b.toNat / 64) := by
  have hb := b.toNat_lt
  have hshift : (a <<< 2).toNat = a.toNat % 64 * 2 ^ 2 := by
    rw [UInt8.toNat_shiftLeft, Nat.shiftLeft_eq]
    show a.toNat * 4 % 256 = _
    omega
  have hright : (b >>> 6).toNat = b.toNat / 64 := by
    rw [UInt8.toNat_shiftRight, Nat.shiftRight_eq_div_pow]
    rfl
  rw [b64EncodeByte_eq, UInt8.toNat_or, hshift, hright, or_shift (by omega)]
  exact congrArg Base64.digit (by omega)

/-- The bits of the last byte but for a full group. -/
theorem b64EncodeByte_rest : b64EncodeByte (a <<< 4) = Base64.digit (a.toNat % 4 * 16) ∧
    b64EncodeByte (a <<< 2) = Base64.digit (a.toNat % 16 * 4) := by
  have h₄ := b64EncodeByte_second a 0
  have h₂ := b64EncodeByte_third a 0
  simpa using And.intro h₄ h₂

end Bits

/-- **The characters are the base64 encoding.** -/
theorem b64EncodeLoop_eq : ∀ (bytes : List UInt8) (i : Nat) (acc : UInt8), i % 3 = 0 →
    b64EncodeLoop bytes i acc = Base64.encode bytes
  | [], i, acc, h => by simp [b64EncodeLoop, Base64.encode, h]
  | [a], i, acc, h => by
    have h₁ : (i + 1) % 3 = 1 := by omega
    -- The six bits of each character, out of the 24 of the quantum.
    have hq : a.toNat * 2 ^ 16 / 2 ^ 18 = a.toNat / 4 := by omega
    have hr : a.toNat * 2 ^ 16 / 2 ^ 12 % 64 = a.toNat % 4 * 16 := by omega
    simp only [b64EncodeLoop, h, h₁, b64EncodeByte_first, (b64EncodeByte_rest a).1, Base64.encode,
      Base64.quantum, hq, hr]
    rfl
  | [a, b], i, acc, h => by
    have hb := b.toNat_lt
    have h₁ : (i + 1) % 3 = 1 := by omega
    have h₂ : (i + 1 + 1) % 3 = 2 := by omega
    have hq : (a.toNat * 2 ^ 16 + b.toNat * 2 ^ 8) / 2 ^ 18 = a.toNat / 4 := by omega
    have hr : (a.toNat * 2 ^ 16 + b.toNat * 2 ^ 8) / 2 ^ 12 % 64 =
        a.toNat % 4 * 16 + b.toNat / 16 := by omega
    have hs : (a.toNat * 2 ^ 16 + b.toNat * 2 ^ 8) / 2 ^ 6 % 64 = b.toNat % 16 * 4 := by omega
    simp only [b64EncodeLoop, h, h₁, h₂, b64EncodeByte_first, b64EncodeByte_second,
      (b64EncodeByte_rest b).2, Base64.encode, Base64.quantum, hq, hr, hs]
    rfl
  | a :: b :: c :: bytes, i, acc, h => by
    have hb := b.toNat_lt
    have hc := c.toNat_lt
    have h₁ : (i + 1) % 3 = 1 := by omega
    have h₂ : (i + 1 + 1) % 3 = 2 := by omega
    have hq : (a.toNat * 2 ^ 16 + b.toNat * 2 ^ 8 + c.toNat) / 2 ^ 18 = a.toNat / 4 := by omega
    have hr : (a.toNat * 2 ^ 16 + b.toNat * 2 ^ 8 + c.toNat) / 2 ^ 12 % 64 =
        a.toNat % 4 * 16 + b.toNat / 16 := by omega
    have hs : (a.toNat * 2 ^ 16 + b.toNat * 2 ^ 8 + c.toNat) / 2 ^ 6 % 64 =
        b.toNat % 16 * 4 + c.toNat / 64 := by omega
    have ht : (a.toNat * 2 ^ 16 + b.toNat * 2 ^ 8 + c.toNat) % 64 = c.toNat % 64 := by omega
    simp only [b64EncodeLoop, h, h₁, h₂, b64EncodeByte_first, b64EncodeByte_second,
      b64EncodeByte_third, b64EncodeByte_eq c, Base64.encode, Base64.quantum, hq, hr, hs, ht,
      b64EncodeLoop_eq bytes (i + 1 + 1 + 1) _ (by omega)]
    rfl

/-! ## The guard -/

/-- The size `b64_encode` computes is below the number of bytes where it does not fit a `size_t`. -/
theorem b64EncodedSize_cases {w len : Nat} (h : len < 2 ^ w) :
    4 * ((len + 2) / 3) < 2 ^ w ∧ b64EncodedSize w len = 4 * ((len + 2) / 3) ∨
      2 ^ w ≤ 4 * ((len + 2) / 3) ∧ b64EncodedSize w len < len := by
  have hsize : b64EncodedSize w len = 4 * ((len + 2) / 3) % 2 ^ w := by
    unfold b64EncodedSize
    congr 2
    split_ifs <;> omega
  rw [hsize]
  by_cases hfit : 4 * ((len + 2) / 3) < 2 ^ w
  · exact .inl ⟨hfit, Nat.mod_eq_of_lt hfit⟩
  · refine .inr ⟨by omega, ?_⟩
    match w with
    | 0 => simp only [Nat.pow_zero] at h hfit; omega
    | 1 => simp only [Nat.pow_one] at h ⊢; omega
    | w + 2 =>
      -- The size wraps round once, and to less than the number of bytes.
      have hpow : 2 ^ 2 ≤ 2 ^ (w + 2) := Nat.pow_le_pow_right (by decide) (Nat.le_add_left 2 w)
      generalize 2 ^ (w + 2) = m at h hfit hpow ⊢
      rw [Nat.mod_eq_sub_mod (by omega), Nat.mod_eq_of_lt (by omega)]
      omega

/-- The guard lets through what fits. -/
theorem b64EncodedSize_guard {w len max : Nat} (hlen : len < 2 ^ w) (hmax : max < 2 ^ w) :
    b64EncodedSize w len ≤ max ∧ len ≤ b64EncodedSize w len ↔ 4 * ((len + 2) / 3) ≤ max := by
  rcases b64EncodedSize_cases hlen with ⟨h, hsize⟩ | ⟨h, hsize⟩
  · rw [hsize]
    constructor
    · exact And.left
    · intro hle
      exact ⟨hle, by omega⟩
  · constructor
    · rintro ⟨-, hge⟩
      omega
    · intro hle
      omega

/-- The characters of `b64_encode` are those of its writes. -/
theorem b64EncodeWrites_chars {w max : Nat} {bytes : List UInt8} (hlen : bytes.length < 2 ^ w)
    (hmax : max < 2 ^ w) :
    (b64EncodeWrites w bytes max).1.map Prod.snd = b64Encode w bytes max := by
  have hchars := b64EncodeLoop_eq bytes 0 0 rfl
  rw [b64EncodeWrites, b64Encode]
  by_cases hguard : b64EncodedSize w bytes.length ≤ max ∧
      bytes.length ≤ b64EncodedSize w bytes.length
  · have hfit := (b64EncodedSize_guard hlen hmax).mp hguard
    rw [if_pos hguard, if_pos hguard, b64WriteLoop_eq]
    · exact List.map_snd_zip (by simp)
    · rw [hchars, Base64.length_encode]
      omega
  · rw [if_neg hguard, if_neg hguard]
    rfl

/-- **`b64_encode` writes the base64 encoding, one character to each index from zero on, and returns
their number; or nothing, when they do not fit the capacity or their number a `size_t`.** -/
theorem b64Encode_correct {w max : Nat} {bytes : List UInt8} (hlen : bytes.length < 2 ^ w)
    (hmax : max < 2 ^ w) :
    (4 * ((bytes.length + 2) / 3) ≤ max →
      (b64EncodeWrites w bytes max).1 =
        (List.range (4 * ((bytes.length + 2) / 3))).zip (Base64.encode bytes) ∧
      (b64EncodeWrites w bytes max).2 = 4 * ((bytes.length + 2) / 3) ∧
      (Base64.encode bytes).length = 4 * ((bytes.length + 2) / 3) ∧
      Base64.decode (Base64.encode bytes) = some bytes) ∧
    (max < 4 * ((bytes.length + 2) / 3) ∨ 2 ^ w ≤ 4 * ((bytes.length + 2) / 3) →
      b64EncodeWrites w bytes max = ([], 0)) := by
  have hchars := b64EncodeLoop_eq bytes 0 0 rfl
  have hcount := Base64.length_encode bytes
  constructor
  · intro hfit
    have hwrites : b64WriteLoop w bytes 0 0 0 =
        ((List.range' 0 (b64EncodeLoop bytes 0 0).length).zip (b64EncodeLoop bytes 0 0),
          0 + (b64EncodeLoop bytes 0 0).length) :=
      b64WriteLoop_eq (by rw [hchars]; omega)
    rw [hchars, hcount, ← List.range_eq_range', Nat.zero_add] at hwrites
    rw [b64EncodeWrites, if_pos ((b64EncodedSize_guard hlen hmax).mpr hfit), hwrites]
    exact ⟨rfl, rfl, hcount, Base64.decode_encode bytes⟩
  · intro hno
    rw [b64EncodeWrites, if_neg]
    rw [b64EncodedSize_guard hlen hmax]
    omega

/-- Four bytes with a `size_t` of 64 bits. -/
theorem Sample.b64Encode_four :
    (b64EncodeWrites 64 [1, 2, 3, 4] 8).2 = 8 ∧ b64EncodeWrites 64 [1, 2, 3, 4] 7 = ([], 0) := by
  have h₈ := b64Encode_correct (w := 64) (show [1, 2, 3, 4].length < 2 ^ 64 by decide)
    (show 8 < 2 ^ 64 by decide)
  have h₇ := b64Encode_correct (w := 64) (show [1, 2, 3, 4].length < 2 ^ 64 by decide)
    (show 7 < 2 ^ 64 by decide)
  exact ⟨(h₈.1 (by decide)).2.1, h₇.2 (.inl (by decide))⟩

end Wic
