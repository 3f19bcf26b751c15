import Mathlib.Tactic

/-!
# Sixteen-bit ones' complement sums

Addition with end-around carry, and the checksum of the internet protocols. `Folds x n` says that
the sixteen-bit `x` is what is left of `n` when all carries have been added back: it is congruent to
`n` modulo 65535, and zero only if `n` is. This determines `x`, so the order of the words does not
matter.

A message is read in network order; `swappedSum` reads it in the other order.
-/
namespace ExscapeOS.Lib

/-- The largest word; also the modulus. -/
def maxWord : Nat := 65535

/-- `add` followed by `inc` if there was a carry. -/
def onesAdd (x y : Nat) : Nat := if x + y ≤ maxWord then x + y else x + y - maxWord

structure Folds (x n : Nat) : Prop where
  le : x ≤ maxWord
  modEq : x ≡ n [MOD maxWord]
  zero : x = 0 ↔ n = 0

namespace Folds

variable {x y n m : Nat}

lemma of_le (le : x ≤ maxWord) : Folds x x := ⟨le, rfl, Iff.rfl⟩

lemma add (hx : Folds x n) (hy : Folds y m) : Folds (onesAdd x y) (n + m) := by
  have sum := hx.modEq.add hy.modEq
  have le := hx.le
  have le' := hy.le
  have zero := hx.zero
  have zero' := hy.zero
  unfold onesAdd
  split_ifs with small
  · exact ⟨small, sum, by omega⟩
  · refine ⟨by omega, ?_, by omega⟩
    have back : x + y - maxWord + maxWord = x + y := Nat.sub_add_cancel (by omega)
    calc x + y - maxWord ≡ x + y - maxWord + maxWord [MOD maxWord] := by simp [Nat.ModEq]
      _ = x + y := back
      _ ≡ n + m [MOD maxWord] := sum

lemma unique (hx : Folds x n) (hy : Folds y n) : x = y := by
  have same : x % maxWord = y % maxWord := hx.modEq.trans hy.modEq.symm
  have zero := hx.zero.trans hy.zero.symm
  have le := hx.le
  have le' := hy.le
  unfold maxWord at *
  omega

theorem eq_max_iff (hx : Folds x n) : x = maxWord ↔ maxWord ∣ n ∧ n ≠ 0 := by
  have le := hx.le
  have zero := hx.zero
  have modEq : x % maxWord = n % maxWord := hx.modEq
  rw [Nat.dvd_iff_mod_eq_zero]
  unfold maxWord at *
  omega

end Folds

/-! ## Messages -/

mutual

/-- The sum of the words in network order; a last odd byte is followed by zero. -/
def wordSum : List UInt8 → Nat
  | [] => 0
  | b :: bytes => 256 * b.toNat + swappedSum bytes

/-- The sum of the words with their bytes exchanged. -/
def swappedSum : List UInt8 → Nat
  | [] => 0
  | b :: bytes => b.toNat + wordSum bytes

end

/-- The ones' complement sum of a message. -/
def onesSum : List UInt8 → Nat
  | [] => 0
  | [b] => 256 * b.toNat
  | b :: c :: bytes => onesAdd (256 * b.toNat + c.toNat) (onesSum bytes)

lemma onesSum_folds (bytes : List UInt8) : Folds (onesSum bytes) (wordSum bytes) := by
  fun_induction onesSum bytes with
  | case1 => exact .of_le (Nat.zero_le _)
  | case2 b =>
    have := b.toNat_lt
    exact .of_le (by unfold maxWord; omega)
  | case3 b c bytes ih =>
    have word : Folds (256 * b.toNat + c.toNat) (256 * b.toNat + c.toNat) := by
      have := b.toNat_lt
      have := c.toNat_lt
      exact .of_le (by unfold maxWord; omega)
    have sum : wordSum (b :: c :: bytes) = 256 * b.toNat + c.toNat + wordSum bytes := by
      rw [wordSum, swappedSum, Nat.add_assoc]
    exact sum ▸ word.add ih

/-- A receiver accepts the message. -/
def Verifies (bytes : List UInt8) : Prop := onesSum bytes = maxWord

instance (bytes : List UInt8) : Decidable (Verifies bytes) := inferInstanceAs (Decidable (_ = _))

lemma verifies_iff (bytes : List UInt8) :
    Verifies bytes ↔ maxWord ∣ wordSum bytes ∧ wordSum bytes ≠ 0 :=
  (onesSum_folds bytes).eq_max_iff

/-- Exchanging the bytes of all words multiplies the sum by 256. -/
theorem sums_modEq (bytes : List UInt8) : swappedSum bytes ≡ 256 * wordSum bytes [MOD maxWord] ∧
    wordSum bytes ≡ 256 * swappedSum bytes [MOD maxWord] := by
  induction bytes with
  | nil => exact ⟨rfl, rfl⟩
  | cons b bytes ih =>
    obtain ⟨swapped, plain⟩ := ih
    simp only [wordSum, swappedSum, Nat.ModEq, maxWord] at *
    omega

lemma sums_zero (bytes : List UInt8) : swappedSum bytes = 0 ↔ wordSum bytes = 0 := by
  induction bytes with
  | nil => rfl
  | cons b bytes ih =>
    simp only [wordSum, swappedSum]
    omega

def swapWord (x : Nat) : Nat := 256 * (x % 256) + x / 256

lemma Folds.swap {x : Nat} {bytes : List UInt8} (h : Folds x (wordSum bytes)) :
    Folds (swapWord x) (swappedSum bytes) := by
  have swapped := (sums_modEq bytes).1
  have zero := sums_zero bytes
  obtain ⟨le, modEq, nonzero⟩ := h
  unfold swapWord
  simp only [Nat.ModEq, maxWord] at *
  refine ⟨?_, ?_, ?_⟩
  · simp only [maxWord]
    omega
  · simp only [Nat.ModEq, maxWord]
    omega
  · omega

end ExscapeOS.Lib
