import Mathlib.Logic.Function.Basic
import Mathlib.Tactic.SplitIfs

/-!
# Circular buffers

A buffer of `size` cells that is read from a moving start. Indices wrap by a comparison and a
subtraction. `window` is the buffer as seen from the start, which hides the end of the buffer.
-/
namespace ExscapeOS.Lib

variable {α : Type} {buffer : Nat → α} {size start i j n : Nat}

-- The operations are irreducible, so that comparing two states never evaluates an index.

/-- An index less than twice around. -/
@[irreducible] def wrap (size i : Nat) : Nat := if size ≤ i then i - size else i

/-- The buffer as seen from `start`. -/
def window (buffer : Nat → α) (size start i : Nat) : α := buffer (wrap size (start + i))

lemma wrap_inj (hi : i < size) (hj : j < size) :
    wrap size (start + i) = wrap size (start + j) ↔ i = j := by
  unfold wrap
  split_ifs <;> omega

lemma window_update (hi : i < size) (hj : j < size) (v : α) :
    window (Function.update buffer (wrap size (start + j)) v) size start i =
      if i = j then v else window buffer size start i := by
  simp only [window, Function.update_apply, wrap_inj hi hj]

/-- Moving the start shifts what is seen. -/
theorem window_wrap (hs : start < size) (hi : n + i < size) :
    window buffer size (wrap size (start + n)) i = window buffer size start (n + i) := by
  unfold window wrap
  congr 1
  split_ifs <;> omega

/-- Set `n` cells from `a` on. -/
@[irreducible] def fill (buffer : Nat → α) (a n : Nat) (v : α) (i : Nat) : α :=
  if a ≤ i ∧ i < a + n then v else buffer i

/-- A filled piece that does not reach over the end of the buffer. -/
theorem window_fill (hi : i < size) (hj : j + n ≤ size)
    (fits : wrap size (start + j) + n ≤ size) (v : α) :
    window (fill buffer (wrap size (start + j)) n v) size start i =
      if j ≤ i ∧ i < j + n then v else window buffer size start i := by
  unfold window fill
  refine if_congr ?_ rfl rfl
  unfold wrap at *
  split_ifs at * <;> omega

/-- Copy `n` cells from `s` in `source` to `d`. -/
@[irreducible] def copy (buffer : Nat → α) (d : Nat) (source : Nat → α) (s n : Nat) (i : Nat) : α :=
  if d ≤ i ∧ i < d + n then source (s + (i - d)) else buffer i

/-- The part from `a` on, in two pieces if it reaches the end. -/
@[irreducible] def copyWrapped (target buffer : Nat → α) (size a n : Nat) : Nat → α :=
  if size ≤ a + n then
    copy (copy target 0 buffer a (size - a)) (size - a) buffer 0 (n - (size - a))
  else copy target 0 buffer a n

lemma copyWrapped_eq {target : Nat → α} (hs : start < size) (hj : j + n ≤ size) (hi : i < n) :
    copyWrapped target buffer size (wrap size (start + j)) n i =
      window buffer size start (j + i) := by
  have index : wrap size (start + (j + i)) = if size ≤ wrap size (start + j) + i then
      wrap size (start + j) + i - size else wrap size (start + j) + i := by
    unfold wrap
    split_ifs <;> omega
  have inside : wrap size (start + j) < size := by
    unfold wrap
    split_ifs <;> omega
  rw [window, index]
  generalize wrap size (start + j) = a at inside
  unfold copyWrapped
  split_ifs with wraps second
  · simp only [copy, if_pos (show size - a ≤ i ∧ i < size - a + (n - (size - a)) by omega)]
    congr 1
    omega
  · simp only [copy, if_neg (show ¬ (size - a ≤ i ∧ i < size - a + (n - (size - a))) by omega),
      if_pos (show 0 ≤ i ∧ i < 0 + (size - a) by omega)]
    rfl
  · omega
  · simp only [copy, if_pos (show 0 ≤ i ∧ i < 0 + n by omega)]
    rfl

end ExscapeOS.Lib
