import Mathlib.Data.List.TakeWhile
import Mathlib.Order.Iterate
import Mathlib.Tactic

/-!
# String functions

`strstr` of `lib/string.c`, and `itoa` and `atoi` of `lib/stdlib.c`. Strings are lists without the
terminating zero.
-/
namespace ExscapeOS.Strings

open List Option

/-! ## Searching -/

section strstr

variable {α : Type*} [DecidableEq α] {haystack needle p q : List α} {i k s : Nat}

/-- The inner loop of `strstr`: how many characters are the same. -/
def matched : List α → List α → Nat
  | _, [] => 0
  | [], _ :: _ => 0
  | c :: p1, d :: p2 => if c = d then matched p1 p2 + 1 else 0

/-- The outer loop, at `p1`, `off` characters into the haystack. It goes on where the mismatch was.
-/
def strstrFrom (needle : List α) (off : Nat) : List α → Option Nat
  | [] => none
  | c :: p1 =>
    if needle.head? = some c then
      if matched p1 needle.tail = needle.tail.length then some off
      else strstrFrom needle (off + 1 + matched p1 needle.tail) (p1.drop (matched p1 needle.tail))
    else strstrFrom needle (off + 1) p1
termination_by p1 => p1.length

/-- `strstr`: how far into the haystack the result points. -/
def strstr (haystack needle : List α) : Option Nat :=
  if needle = [] then some 0 else strstrFrom needle 0 haystack

def Occurs (haystack needle : List α) (i : Nat) : Prop :=
  i ≤ haystack.length ∧ needle <+: haystack.drop i

instance : DecidablePred (Occurs haystack needle) := fun _ => inferInstanceAs (Decidable (_ ∧ _))

/-- The first place, or none if there is no place. -/
def FindsFirst (haystack needle : List α) : Option Nat → Prop
  | some i => IsLeast {i | Occurs haystack needle i} i
  | none => ∀ i, ¬ Occurs haystack needle i

/-- The attempt after the one at `s`: behind the characters that were the same. -/
def nextAttempt (haystack needle : List α) (s : Nat) : Nat :=
  s + max 1 (matched (haystack.drop s) needle)

/-- The places at which a match is attempted. -/
def attempt (haystack needle : List α) (k : Nat) : Nat := (nextAttempt haystack needle)^[k] 0

lemma matched_eq_length_iff : matched p q = q.length ↔ q <+: p := by
  fun_induction matched p q <;> grind

lemma attempt_succ (haystack needle : List α) (k : Nat) :
    attempt haystack needle (k + 1) = nextAttempt haystack needle (attempt haystack needle k) :=
  Function.iterate_succ_apply' ..

lemma attempt_strictMono (haystack needle : List α) : StrictMono (attempt haystack needle) :=
  strictMono_nat_of_lt_succ fun k => by
    rw [attempt_succ, nextAttempt]
    omega

lemma strstrFrom_drop (ne : needle ≠ []) (lt : s < haystack.length) :
    strstrFrom needle s (haystack.drop s) =
      if matched (haystack.drop s) needle = needle.length then some s
      else strstrFrom needle (nextAttempt haystack needle s)
        (haystack.drop (nextAttempt haystack needle s)) := by
  obtain ⟨d, needle, rfl⟩ := exists_cons_of_ne_nil ne
  rw [nextAttempt, ← drop_drop, drop_eq_getElem_cons lt, strstrFrom, matched]
  by_cases same : haystack[s] = d
  · simp [same, Nat.add_assoc, Nat.add_comm 1]
  · simp [same, Ne.symm same]

/-- The first of the attempts from number `k` on that succeeds. -/
def FirstAttempt (haystack needle : List α) (k : Nat) : Option Nat → Prop
  | some i => ∃ j, i = attempt haystack needle j ∧ Occurs haystack needle i ∧
      ∀ l, k ≤ l → l < j → ¬ Occurs haystack needle (attempt haystack needle l)
  | none => ∀ l, k ≤ l → ¬ Occurs haystack needle (attempt haystack needle l)

lemma FirstAttempt.of_succ {r : Option Nat} (h : FirstAttempt haystack needle (k + 1) r)
    (fails : ¬ Occurs haystack needle (attempt haystack needle k)) :
    FirstAttempt haystack needle k r := by
  have here {l : Nat} (ge : k ≤ l) : l = k ∨ k + 1 ≤ l := by omega
  cases r with
  | none =>
    intro l ge
    rcases here ge with rfl | ge
    · exact fails
    · exact h l ge
  | some i =>
    obtain ⟨j, eq, occurs, first⟩ := h
    refine ⟨j, eq, occurs, fun l ge lt => ?_⟩
    rcases here ge with rfl | ge
    · exact fails
    · exact first l ge lt

lemma strstrFrom_attempt (ne : needle ≠ []) (k : Nat) : FirstAttempt haystack needle k
    (strstrFrom needle (attempt haystack needle k)
      (haystack.drop (attempt haystack needle k))) := by
  induction left : haystack.length - attempt haystack needle k using Nat.strong_induction_on
    generalizing k with
  | _ n ih =>
    by_cases lt : attempt haystack needle k < haystack.length
    · rw [strstrFrom_drop ne lt, ← attempt_succ]
      split_ifs with full
      · exact ⟨k, rfl, ⟨lt.le, matched_eq_length_iff.mp full⟩, fun l ge lt => absurd ge lt.not_ge⟩
      · have further := attempt_strictMono haystack needle (Nat.lt_add_one k)
        refine (ih _ ?_ (k + 1) rfl).of_succ fun occurs => ?_
        · omega
        · exact full (matched_eq_length_iff.mpr occurs.2)
    · -- the haystack has come to its end
      rw [drop_eq_nil_of_le (Nat.le_of_not_lt lt), strstrFrom]
      rintro l ge ⟨le, occurs⟩
      have further := (attempt_strictMono haystack needle).monotone ge
      rw [drop_eq_nil_of_le (by omega)] at occurs
      exact ne (prefix_nil.mp occurs)

/-- Every place is between two attempts. -/
lemma exists_attempt (haystack needle : List α) (i : Nat) : ∃ k, attempt haystack needle k ≤ i ∧
    i < attempt haystack needle (k + 1) := by
  have mono := attempt_strictMono haystack needle
  induction i with
  | zero => exact ⟨0, le_rfl, mono (Nat.lt_add_one 0)⟩
  | succ i ih =>
    obtain ⟨k, le, lt⟩ := ih
    rcases (Nat.succ_le_of_lt lt).eq_or_lt with eq | lt
    · exact ⟨k + 1, eq.ge, eq.trans_lt (mono (Nat.lt_add_one _))⟩
    · exact ⟨k, le.trans (Nat.le_succ i), lt⟩

/-- The search is right exactly if no attempt passes over the first place of the needle. -/
theorem strstr_iff (haystack needle : List α) : FindsFirst haystack needle
    (strstr haystack needle) ↔ ∀ i, IsLeast {i | Occurs haystack needle i} i → ∀ k,
      attempt haystack needle k < i → attempt haystack needle (k + 1) ≤ i := by
  have mono := attempt_strictMono haystack needle
  by_cases empty : needle = []
  · subst empty
    have zero : Occurs haystack [] 0 := ⟨Nat.zero_le _, nil_prefix⟩
    refine iff_of_true ⟨zero, fun _ _ => Nat.zero_le _⟩ fun i least k lt => ?_
    exact absurd lt (Nat.le_zero.mp (least.2 zero) ▸ Nat.not_lt_zero _)
  have found : FirstAttempt haystack needle 0 _ := strstrFrom_attempt empty 0
  rw [attempt, Function.iterate_zero, id, drop_zero] at found
  rw [strstr, if_neg empty]
  constructor
  · intro right i least k lt
    cases result : strstrFrom needle 0 haystack with
    | none => exact absurd least.1 ((result ▸ right) i)
    | some i' =>
      rw [result] at right found
      obtain ⟨j, eq, -⟩ := found
      obtain rfl := least.unique right
      rw [eq] at lt ⊢
      exact mono.monotone (mono.lt_iff_lt.mp lt)
  · intro reached
    -- the first place is one of the attempts
    have isAttempt (i : Nat) (least : IsLeast {i | Occurs haystack needle i} i) :
        ∃ k, i = attempt haystack needle k := by
      obtain ⟨k, le, lt⟩ := exists_attempt haystack needle i
      refine ⟨k, le.eq_or_lt.elim Eq.symm fun below => ?_⟩
      exact absurd (reached i least k below) lt.not_ge
    cases result : strstrFrom needle 0 haystack with
    | none =>
      rw [result] at found
      intro i occurs
      have least := Nat.isLeast_find ⟨i, occurs⟩
      obtain ⟨k, eq⟩ := isAttempt _ least
      exact found k (Nat.zero_le k) (eq ▸ least.1)
    | some i' =>
      rw [result] at found
      obtain ⟨j, eq', occurs', first⟩ := found
      refine ⟨occurs', fun i occurs => ?_⟩
      have least := Nat.isLeast_find ⟨i, occurs⟩
      obtain ⟨k, eq⟩ := isAttempt _ least
      by_contra below
      have lt : attempt haystack needle k < attempt haystack needle j :=
        eq ▸ eq' ▸ (least.2 occurs).trans_lt (Nat.lt_of_not_le below)
      exact first k (Nat.zero_le k) (mono.lt_iff_lt.mp lt) (eq ▸ least.1)

/-- The needle occurs at 1, but the first attempt fails at 2, where the next one is made. -/
theorem strstr_aaab : strstr ['a', 'a', 'a', 'b'] ['a', 'a', 'b'] = none ∧
    Occurs ['a', 'a', 'a', 'b'] ['a', 'a', 'b'] 1 := by
  refine ⟨?_, by decide⟩
  simp [strstr, strstrFrom, matched]

end strstr

/-! ## Numbers -/

/-- The result of 32-bit arithmetic. -/
def wrap (x : Int) : Int := x.bmod (2 ^ 32)

/-- The loop of `reverse`, which exchanges the ends and goes inwards. -/
def swapEnds (s : List Nat) (i j : Nat) : List Nat :=
  if i < j then swapEnds ((s.set j (s.getD i 0)).set i (s.getD j 0)) (i + 1) (j - 1) else s
termination_by j

def reverse (s : List Nat) : List Nat := swapEnds s 0 (s.length - 1)

/-- The digits that `itoa` writes, the last one first. -/
def itoaDigits (n : Nat) : List Nat := if n = 0 then [] else (n % 10 + 0x30) :: itoaDigits (n / 10)

/-- `itoa`; `-` is 45. -/
def itoa (n : Int) : List Nat :=
  if n = 0 then [0x30]
  else reverse (itoaDigits (if n < 0 then wrap (-n) else n).toNat ++ if n < 0 then [45] else [])

def isdigit (c : Nat) : Bool := 0x30 ≤ c && c ≤ 0x39

/-- `ipow`, for exponents that are not negative. -/
def ipow (base : Int) : Nat → Int
  | 0 => if base = 0 then 0 else 1
  | exp + 1 => wrap (ipow base exp * base)

/-- The loop of `atoi`. -/
def atoiSum (num : Int) : List Nat → Int
  | [] => num
  | c :: p => atoiSum (wrap (num + wrap ((c - 0x30) * ipow 10 p.length))) p

def atoi (str : List Nat) : Int :=
  match str.dropWhile fun c => !isdigit c && c != 45 with
  | 45 :: str => wrap (atoiSum 0 (str.takeWhile isdigit) * -1)
  | str => wrap (atoiSum 0 (str.takeWhile isdigit) * 1)

/-- The digits of a number, without leading zeros. -/
def digits (n : Nat) : List Nat := ((Nat.digits 10 n).map (· + 0x30)).reverse

def decimal (n : Int) : List Nat :=
  (if n < 0 then [45] else []) ++ if n = 0 then [0x30] else digits n.natAbs

lemma getElem?_swapEnds (s : List Nat) (i j k : Nat) (lt : j < s.length) :
    (swapEnds s i j)[k]? = if i ≤ k ∧ k ≤ j then s[i + j - k]? else s[k]? := by
  fun_induction swapEnds s i j <;> grind

lemma reverse_eq (s : List Nat) : reverse s = s.reverse := by
  by_cases empty : s = []
  · subst empty
    rw [reverse, swapEnds]
    rfl
  · have pos := length_pos_of_ne_nil empty
    refine ext_getElem? fun k => ?_
    rw [reverse, getElem?_swapEnds _ _ _ _ (by omega)]
    grind

lemma itoaDigits_eq (n : Nat) : itoaDigits n = (Nat.digits 10 n).map (· + 0x30) := by
  fun_induction itoaDigits n with
  | case1 => rfl
  | case2 n ne ih =>
    rw [Nat.digits_def' (by decide) (Nat.pos_of_ne_zero ne), ih]
    rfl

def value : List Nat → Int
  | [] => 0
  | c :: p => (c - 0x30) * 10 ^ p.length + value p

lemma value_append (p : List Nat) (c : Nat) : value (p ++ [c]) = value p * 10 + (c - 0x30) := by
  induction p with
  | nil => simp [value]
  | cons d p ih =>
    simp only [cons_append, value, ih, length_append, length_singleton]
    ring

lemma value_digits (n : Nat) : value (digits n) = n := by
  have general (ds : List Nat) : value (ds.map (· + 0x30)).reverse =
    (Nat.ofDigits 10 ds : Nat) := by
    induction ds with
    | nil => rfl
    | cons d ds ih =>
      rw [map_cons, reverse_cons, value_append, ih, Nat.ofDigits_cons]
      push_cast
      ring
  rw [digits, general, Nat.ofDigits_digits]

lemma wrap_modEq (x : Int) : wrap x ≡ x [ZMOD 2 ^ 32] := Int.bmod_emod

lemma ipow_modEq (n : Nat) : ipow 10 n ≡ 10 ^ n [ZMOD 2 ^ 32] := by
  induction n with
  | zero => rfl
  | succ n ih => exact (wrap_modEq _).trans (ih.mul_right 10)

/-- The sum is the number, as long as that is looked at modulo `2 ^ 32`. -/
lemma atoiSum_modEq (num : Int) (p : List Nat) : atoiSum num p ≡ num + value p [ZMOD 2 ^ 32] := by
  induction p generalizing num with
  | nil => simp [atoiSum, value]
  | cons c p ih =>
    rw [value, ← add_assoc]
    refine (ih _).trans (Int.ModEq.add_right _ ((wrap_modEq _).trans ?_))
    exact ((wrap_modEq _).trans ((ipow_modEq _).mul_left _)).add_left num

lemma wrap_eq {x n : Int} (low : -2 ^ 31 ≤ n) (high : n < 2 ^ 31) (same : x ≡ n [ZMOD 2 ^ 32]) :
    wrap x = n := by
  unfold Int.ModEq at same
  rw [wrap, Int.bmod_def]
  norm_num at *
  split_ifs <;> omega

lemma isdigit_of_mem {n c : Nat} (mem : c ∈ digits n) : isdigit c = true := by
  obtain ⟨d, hd, rfl⟩ := mem_map.mp (mem_reverse.mp mem)
  have lt : d < 10 := Nat.digits_lt_base (by decide) hd
  simp only [isdigit, Bool.and_eq_true, decide_eq_true_eq]
  omega

lemma takeWhile_digits (n : Nat) : (digits n).takeWhile isdigit = digits n :=
  takeWhile_eq_self_iff.mpr fun _ => isdigit_of_mem

lemma digits_eq_cons {n : Nat} (ne : n ≠ 0) : ∃ c p, digits n = c :: p ∧ isdigit c = true := by
  obtain ⟨c, p, eq⟩ := exists_cons_of_ne_nil (l := digits n)
    (by simpa [digits, Nat.digits_eq_nil_iff_eq_zero] using ne)
  exact ⟨c, p, eq, isdigit_of_mem (eq ▸ mem_cons_self)⟩

lemma atoi_decimal {n : Int} (low : -2 ^ 31 ≤ n) (high : n < 2 ^ 31) : atoi (decimal n) = n := by
  rcases eq_or_ne n 0 with rfl | ne
  · decide
  have sum : atoiSum 0 (digits n.natAbs) ≡ n.natAbs [ZMOD 2 ^ 32] := by
    simpa [value_digits] using atoiSum_modEq 0 (digits n.natAbs)
  have all := takeWhile_digits n.natAbs
  by_cases negative : n < 0
  · have str : decimal n = 45 :: digits n.natAbs := by simp [decimal, negative, ne]
    have sum := sum.mul_right (-1)
    rw [show (n.natAbs : Int) * -1 = n by omega] at sum
    simpa [atoi, str, isdigit, all] using wrap_eq low high sum
  · have str : decimal n = digits n.natAbs := by simp [decimal, negative, ne]
    rw [show (n.natAbs : Int) = n by omega] at sum
    obtain ⟨c, p, eq, digit⟩ := digits_eq_cons (Int.natAbs_ne_zero.mpr ne)
    rw [eq] at str sum all
    have ne : c ≠ 45 := by
      rintro rfl
      cases digit
    simpa [atoi, str, digit, all, ne] using wrap_eq low high sum

lemma itoa_least : itoa (-2 ^ 31) = [45] := by
  have none : (if (-2 ^ 31 : Int) < 0 then wrap (- -2 ^ 31) else -2 ^ 31).toNat = 0 := by decide
  rw [itoa, if_neg (by decide), none, itoaDigits_eq, reverse_eq]
  rfl

/-- `itoa` is right, and undone by `atoi`, except for the least number. -/
theorem itoa_iff {n : Int} (low : -2 ^ 31 ≤ n) (high : n < 2 ^ 31) :
    itoa n = decimal n ∧ atoi (itoa n) = n ↔ n ≠ -2 ^ 31 := by
  constructor
  · rintro ⟨-, same⟩ rfl
    rw [itoa_least] at same
    exact absurd same (by decide)
  · intro ne
    have right : itoa n = decimal n := by
      rcases eq_or_ne n 0 with rfl | nonzero
      · decide
      have abs : (if n < 0 then wrap (-n) else n).toNat = n.natAbs := by
        split_ifs
        · rw [wrap_eq (n := -n) (by omega) (by omega) rfl]
          omega
        · omega
      rw [itoa, if_neg nonzero, abs, reverse_eq, itoaDigits_eq, reverse_append, decimal,
        if_neg nonzero]
      congr 1
      split_ifs <;> rfl
    exact ⟨right, right ▸ atoi_decimal low high⟩

theorem itoa_roundTrip : itoa (-2147483647) = decimal (-2147483647) ∧
    atoi (itoa (-2147483647)) = -2147483647 :=
  (itoa_iff (by decide) (by decide)).mpr (by decide)

theorem itoa_not_roundTrip : itoa (-2 ^ 31) = [45] ∧ atoi (itoa (-2 ^ 31)) = 0 :=
  ⟨itoa_least, by rw [itoa_least]; decide⟩

end ExscapeOS.Strings
