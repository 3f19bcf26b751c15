import ExscapeOS.Kernel.Path.Basic

/-!
# The last component of a path and its parent

`path_basename` and `path_dirname` cut a path at its last slash, after they have removed one slash
from its end. If there is no other slash, `path_basename` uses the null pointer of `strrchr`. It
also keeps no more than 255 characters.
-/
namespace ExscapeOS.Path

open Lib List Option

variable {p a b : Str}

/-- `path_basename`. There is no result if it reads from address 1. -/
def pathBasename (path : Str) : Option Str :=
  if path.getLast? = some slash ∧ path.length = 1 then some path
  else
    let path := if path.getLast? = some slash then path.dropLast else path
    match strrchr path with
    | none => none
    | some p => some (strlcpy (path.drop (p + 1)) 256)

/-- The last component, or the path itself for the root. -/
def lastComponent (path : Str) : Str := (components slash path).getLast?.getD [slash]

/-- The functions yield the last component and the parent, which together name the same components.
-/
def Splits (path : Str) : Prop :=
  pathBasename path = some (lastComponent path) ∧
  components slash (pathDirname path) = (components slash path).dropLast ∧
  ((pathDirname path).head? = some slash ↔ path.head? = some slash) ∧
  (components slash path ≠ [] →
    components slash (pathDirname path ++ slash :: lastComponent path) = components slash path)

/-- The path without a slash at its end. -/
def trimmed (path : Str) : Str := if path.getLast? = some slash then path.dropLast else path

lemma trimmed_cases (p : Str) : p = trimmed p ++ [slash] ∨ p = trimmed p ∧ p.getLast? ≠
    some slash := by
  unfold trimmed
  split_ifs with last
  · exact .inl (dropLast_append_getLast? slash last).symm
  · exact .inr ⟨rfl, last⟩

lemma components_trimmed (p : Str) : components slash (trimmed p) = components slash p := by
  obtain eq | ⟨eq, -⟩ := trimmed_cases p
  · nth_rewrite 2 [eq]
    rw [components_append_sep, components_nil, append_nil]
  · rw [← eq]

lemma pathBasename_eq (more : p ≠ [slash]) : pathBasename p =
    match strrchr (trimmed p) with
    | none => none
    | some i => some (strlcpy ((trimmed p).drop (i + 1)) 256) := by
  have root : ¬ (p.getLast? = some slash ∧ p.length = 1) := by
    rintro ⟨last, len⟩
    obtain ⟨c, rfl⟩ := length_eq_one_iff.mp len
    exact more (by simpa using last)
  rw [pathBasename, if_neg root]
  rfl

lemma pathDirname_eq (p : Str) : pathDirname p =
    (let path := match strrchr (trimmed p) with
      | some i => (trimmed p).take i
      | none => trimmed p
     if path = [] then [slash] else path) := rfl

lemma head_trimmed (some_left : trimmed p ≠ []) : p.head? = (trimmed p).head? := by
  obtain eq | ⟨eq, -⟩ := trimmed_cases p
  · nth_rewrite 1 [eq]
    exact head?_append_of_ne_nil _ some_left
  · rw [← eq]

lemma not_double_slash (open_end : (trimmed p).getLast? ≠ some slash) : ¬ [slash, slash] <:+ p := by
  rintro ⟨x, eq⟩
  obtain eq' | ⟨-, last⟩ := trimmed_cases p
  · have trim : trimmed p = x ++ [slash] := by
      have same : trimmed p ++ [slash] = x ++ [slash] ++ [slash] := by
        rw [← eq', ← eq, append_assoc]
        rfl
      exact append_cancel_right same
    exact open_end (by simp [trim])
  · exact last (by simp [← eq])

lemma exists_last_slash {s : Str} (mem : slash ∈ s) : ∃ a b, s = a ++ slash :: b ∧ slash ∉ b := by
  obtain ⟨b, a, eq, free⟩ := eq_append_cons_of_mem (mem_reverse.mpr mem)
  refine ⟨a.reverse, b.reverse, ?_, fun mem => free (mem_reverse.mp mem)⟩
  have whole := congrArg List.reverse eq
  simpa using whole

/-- The functions do what they should for the root, and for paths with a component that do not end
with two slashes, have a slash before their last component, and no more than 255 characters in it.
-/
theorem splits_iff (nonempty : p ≠ []) :
    Splits p ↔ p = [slash] ∨ (components slash p ≠ [] ∧ ¬ [slash, slash] <:+ p ∧
      (p.head? = some slash ∨ 2 ≤ (components slash p).length) ∧
        (lastComponent p).length ≤ 255) := by
  by_cases root : p = [slash]
  · subst root
    exact iff_of_true ⟨by decide, by decide, by decide, by decide⟩ (.inl rfl)
  simp only [root, false_or]
  have base := pathBasename_eq root
  have comps := components_trimmed p
  have some_left : trimmed p ≠ [] := by
    intro empty
    obtain eq | ⟨eq, -⟩ := trimmed_cases p
    · exact root (by rw [eq, empty, nil_append])
    · exact nonempty (by rw [eq, empty])
  by_cases mem : slash ∈ trimmed p
  · obtain ⟨a, b, cut, free⟩ := exists_last_slash mem
    have found : strrchr (trimmed p) = some a.length := by rw [cut, strrchr_append free]
    have base : pathBasename p = some (b.take 255) := by
      have rest : (a ++ slash :: b).drop (a.length + 1) = b := by simp [drop_append]
      rw [base, found, cut]
      simp only [rest, strlcpy]
    have dir : pathDirname p = if a = [] then [slash] else a := by
      rw [pathDirname_eq, found, cut]
      simp
    have whole : components slash p = components slash a ++ components slash b := by
      rw [← comps, cut, components_append_sep]
    by_cases empty : b = []
    · -- there are two slashes at the end
      have double : [slash, slash] <:+ p := by
        obtain eq | ⟨eq, open_end⟩ := trimmed_cases p
        · exact ⟨a, by rw [eq, cut, empty, append_assoc]; rfl⟩
        · rw [eq, cut, empty] at open_end
          exact absurd (by simp) open_end
      refine iff_of_false (fun splits => ?_) fun h => h.2.1 double
      have wrong := splits.1
      rw [base, empty, take_nil] at wrong
      have last := (some.inj wrong).symm
      unfold lastComponent at last
      cases found : (components slash p).getLast? with
      | none => simp [found] at last
      | some c =>
        rw [found, getD_some] at last
        exact (isComponent_of_mem (mem_of_getLast? found)).1 last
    · have one : components slash b = [b] := components_of_not_mem free empty
      rw [one] at whole
      have last : lastComponent p = b := by simp [lastComponent, whole]
      have single : ¬ [slash, slash] <:+ p := by
        refine not_double_slash fun ends => free ?_
        rw [cut, getLast?_append_cons, getLast?_cons] at ends
        obtain ⟨c, found⟩ := isSome_iff_exists.mp (getLast?_isSome.mpr empty)
        rw [found, getD_some] at ends
        exact some.inj ends ▸ mem_of_getLast? found
      have start := head_trimmed some_left
      rw [cut] at start
      have place : p.head? = some slash ∨ 2 ≤ (components slash p).length := by
        cases a with
        | nil => exact .inl start
        | cons c a =>
          by_cases isSlash : c = slash
          · exact .inl (isSlash ▸ start)
          · have before := length_pos_iff.mpr (components_ne_nil (s := a) isSlash)
            rw [whole, length_append, length_singleton]
            exact .inr (by omega)
      have head : (pathDirname p).head? = some slash ↔ p.head? = some slash := by
        rw [dir, start]
        cases a with
        | nil => rfl
        | cons c a => rfl
      have parent : components slash (pathDirname p) = components slash a := by
        rw [dir]
        split_ifs with at_root
        · rw [at_root, components_cons_sep]
        · rfl
      constructor
      · intro splits
        refine ⟨by simp [whole], single, place, ?_⟩
        have same := some.inj (base.symm.trans splits.1)
        rw [last] at same ⊢
        exact take_eq_self_iff b |>.mp same
      · rintro ⟨-, -, -, small⟩
        rw [last] at small
        refine ⟨by rw [base, last, take_of_length_le small], ?_, head, fun _ => ?_⟩
        · rw [parent, whole, dropLast_concat]
        · rw [components_append_sep, parent, last, one, whole]
  · -- the pointer is `NULL`
    have lost : pathBasename p = none := by rw [base, strrchr_of_not_mem mem]
    refine iff_of_false (fun splits => ?_) ?_
    · rw [Splits, lost] at splits
      cases splits.1
    · rintro ⟨-, -, absolute | two, -⟩
      · rw [head_trimmed some_left] at absolute
        exact mem (mem_of_head? absolute)
      · rw [← comps, components_of_not_mem mem some_left] at two
        simp at two

/-- `/ab/c/` -/
theorem splits_nested : Splits [0x2f, 0x61, 0x62, 0x2f, 0x63, 0x2f] :=
  (splits_iff (by decide)).mpr
    (.inr ⟨by decide, by decide, by decide, by decide⟩)

/-- `path_basename` of `init` uses `NULL`, `path_dirname` does not change it, and in `/a//` nothing
is found. -/
theorem basename_without_slash :
    pathBasename [0x69, 0x6e, 0x69, 0x74] = none ∧
    pathDirname [0x69, 0x6e, 0x69, 0x74] = [0x69, 0x6e, 0x69, 0x74] ∧
    pathBasename [0x2f, 0x61, 0x2f, 0x2f] = some [] := by
  decide

end ExscapeOS.Path
