import Mathlib.Algebra.Group.Nat.Even
import Mathlib.Tactic

/-!
# Searching for a run of free cells by restarts

A search for `n` free cells in a row looks at the cells after its starting point, and restarts just
after the first of them that is in use. It passes over no run. But it does not look at the cell
where it restarts: after a block of cells in use of an even length it stands on the last cell of the
block, and takes that cell for a free one.
-/
namespace ExscapeOS.Lib

variable {used : Nat → Bool} {n s u r a b : Nat}

/-- The `n` cells from `s` on are free. -/
def Vacant (used : Nat → Bool) (n s : Nat) : Prop := ∀ i < n, used (s + i) = false

/-- `u` is the first cell in use after `s`, among those that a search from `s` looks at. -/
structure Obstructs (used : Nat → Bool) (n s u : Nat) : Prop where
  after : s < u
  within : u < s + n
  inUse : used u = true
  first : ∀ v, s < v → v < u → used v = false

/-- A block of cells in use, after a free cell. -/
structure Block (used : Nat → Bool) (a b : Nat) : Prop where
  pos : 0 < a
  nonempty : a < b
  before : used (a - 1) = false
  inUse : ∀ v, a ≤ v → v < b → used v = true

/-- A restart does not pass over a run. -/
theorem Obstructs.lt_of_vacant (h : Obstructs used n s u) (run : Vacant used n r) (le : s ≤ r) :
    u < r := by
  by_contra inside
  have within := h.within
  have free := run (u - r) (by omega)
  rw [Nat.add_sub_cancel' (by omega), h.inUse] at free
  cases free

/-! ## Where the search restarts -/

/-- The cells before `s` are a block of an odd length. -/
def AfterOdd (used : Nat → Bool) (s : Nat) : Prop := ∃ a, Block used a s ∧ Odd (s - a)

lemma Block.extend (block : Block used a s) (inUse : used s = true) : Block used a (s + 1) where
  pos := block.pos
  nonempty := block.nonempty.trans (Nat.lt_succ_self s)
  before := block.before
  inUse v ge lt := by
    rcases (Nat.lt_succ_iff.mp lt).eq_or_lt with rfl | below
    · exact inUse
    · exact block.inUse v ge below

lemma Obstructs.afterOdd (h : Obstructs used n s u) (origin : used s = false ∨ AfterOdd used s) :
    AfterOdd used (u + 1) := by
  have after := h.after
  by_cases free : used (u - 1) = false
  · refine ⟨u, ⟨by omega, by omega, free, fun v ge lt => ?_⟩, by simp⟩
    rw [show v = u by omega]
    exact h.inUse
  · -- the search stands on a cell in use, and the next cell is in use too
    have next : u = s + 1 := by
      by_contra ne
      exact free (h.first (u - 1) (by omega) (by omega))
    subst next
    rw [Nat.add_sub_cancel] at free
    obtain ⟨a, block, odd⟩ := origin.resolve_left free
    have nonempty := block.nonempty
    refine ⟨a, (block.extend (Bool.not_eq_false _ ▸ free)).extend h.inUse, ?_⟩
    rw [show s + 1 + 1 - a = s - a + 2 by omega]
    exact odd.add_even even_two

/-- With the cell in use on which the search stands, the block has an even length. -/
theorem AfterOdd.even (h : AfterOdd used s) (inUse : used s = true) :
    ∃ a, Block used a (s + 1) ∧ Even (s + 1 - a) := by
  obtain ⟨a, block, odd⟩ := h
  have nonempty := block.nonempty
  refine ⟨a, block.extend inUse, ?_⟩
  rw [show s + 1 - a = s - a + 1 by omega]
  exact odd.add_one

/-- Before a block, or on its second, fourth, … cell. -/
def Trapped (a b s : Nat) : Prop := s < a ∨ a < s ∧ s < b ∧ Odd (s - a)

/-- The search does not get past an even block before `n - 1` free cells. -/
theorem Obstructs.trapped (h : Obstructs used n s u) (block : Block used a b) (even : Even (b - a))
    (room : Vacant used (n - 1) b) (inside : Trapped a b s) : Trapped a b (u + 1) := by
  have after := h.after
  have within := h.within
  have nonempty := block.nonempty
  obtain ⟨k, even⟩ := even
  rcases inside with before | ⟨above, below, j, odd⟩
  · have le : u ≤ a := by
      by_contra beyond
      have free := h.first a before (by omega)
      rw [block.inUse a le_rfl nonempty] at free
      cases free
    rcases le.eq_or_lt with rfl | lt
    · exact .inr ⟨by omega, by omega, ⟨0, by omega⟩⟩
    · -- the cell before the block is free
      have ne : u ≠ a - 1 := by
        rintro rfl
        cases h.inUse.symm.trans block.before
      exact .inl (by omega)
  · have last : s + 1 ≠ b := by
      rintro rfl
      have free := room (u - (s + 1)) (by omega)
      rw [Nat.add_sub_cancel' (by omega), h.inUse] at free
      cases free
    have next : u = s + 1 := by
      by_contra ne
      have free := h.first (s + 1) (by omega) (by omega)
      rw [block.inUse (s + 1) (by omega) (by omega)] at free
      cases free
    exact .inr ⟨by omega, by omega, ⟨j + 1, by omega⟩⟩

end ExscapeOS.Lib
