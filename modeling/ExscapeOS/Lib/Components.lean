import Mathlib.Data.List.TakeWhile
import Mathlib.Tactic

/-!
# Strings with separators

The components of a string are its nonempty parts between separators. A tokenizer takes them from
the string one by one. `joined` puts them together again, with one separator before each.
-/
namespace ExscapeOS.Lib

open List Option

variable {α : Type*} {sep : α} {s t : List α} {cs : List (List α)}

def joined (sep : α) (cs : List (List α)) : List α := cs.flatMap (sep :: ·)

/-- A component: not empty, and without separators. -/
def IsComponent (sep : α) (c : List α) : Prop := c ≠ [] ∧ sep ∉ c

lemma joined_cons (sep : α) (c : List α) (cs : List (List α)) :
    joined sep (c :: cs) = sep :: (c ++ joined sep cs) := rfl

lemma joined_append (sep : α) (cs cs' : List (List α)) :
    joined sep (cs ++ cs') = joined sep cs ++ joined sep cs' := flatMap_append

lemma joined_concat (sep : α) (cs : List (List α)) (c : List α) :
    joined sep (cs ++ [c]) = joined sep cs ++ sep :: c := by
  simp [joined]

lemma joined_map {f : α → α} (sep_eq : f sep = sep) (cs : List (List α)) :
    (joined sep cs).map f = joined sep (cs.map (List.map f)) := by
  induction cs with
  | nil => rfl
  | cons c cs ih => rw [joined_cons, map_cons, sep_eq, map_append, ih, map_cons, joined_cons]

lemma joined_eq_nil : joined sep cs = [] ↔ cs = [] := by
  cases cs with
  | nil => simp [joined]
  | cons c cs => simp [joined_cons]

variable [DecidableEq α]

def components (sep : α) (s : List α) : List (List α) := (s.splitOn sep).filter (· ≠ [])

/-- Induction over the separators of a string. -/
theorem sep_induction {motive : List α → Prop} (sep : α) (last : ∀ t, sep ∉ t → motive t)
    (cons : ∀ t b, sep ∉ t → motive b → motive (t ++ sep :: b)) (s : List α) : motive s := by
  induction n : s.length using Nat.strong_induction_on generalizing s with
  | _ n ih =>
    by_cases mem : sep ∈ s
    · obtain ⟨t, b, rfl, first⟩ := eq_append_cons_of_mem mem
      refine cons t b first (ih b.length ?_ b rfl)
      rw [← n, length_append, length_cons]
      omega
    · exact last s mem

@[simp] lemma components_nil (sep : α) : components sep [] = [] := by simp [components]

lemma components_append_sep (sep : α) (a b : List α) :
    components sep (a ++ sep :: b) = components sep a ++ components sep b := by
  rw [components, splitOn_append_cons_self, filter_append]
  rfl

@[simp] lemma components_cons_sep (sep : α) (s : List α) :
    components sep (sep :: s) = components sep s := components_append_sep sep [] s

lemma components_of_not_mem (h : sep ∉ t) (ne : t ≠ []) : components sep t = [t] := by
  simp [components, splitOn_eq_singleton h, ne]

lemma IsComponent.components (h : IsComponent sep t) : components sep t = [t] :=
  components_of_not_mem h.2 h.1

lemma isComponent_of_mem (h : t ∈ components sep s) : IsComponent sep t := by
  induction s using sep_induction sep with
  | last s free =>
    by_cases empty : s = []
    · simp [empty] at h
    · rw [components_of_not_mem free empty, mem_singleton] at h
      exact h ▸ ⟨empty, free⟩
  | cons s b free ih =>
    rw [components_append_sep] at h
    obtain h | h := mem_append.mp h
    · by_cases empty : s = []
      · simp [empty] at h
      · rw [components_of_not_mem free empty, mem_singleton] at h
        exact h ▸ ⟨empty, free⟩
    · exact ih h

lemma components_joined (h : ∀ c ∈ cs, IsComponent sep c) :
    components sep (joined sep cs) = cs := by
  induction cs with
  | nil => simp [joined]
  | cons c cs ih =>
    obtain ⟨first, rest⟩ := forall_mem_cons.mp h
    rw [joined_cons, components_cons_sep]
    cases cs with
    | nil =>
      rw [joined, flatMap_nil, append_nil, first.components]
    | cons c' cs =>
      have rest := ih rest
      rw [joined_cons, components_cons_sep] at rest
      rw [joined_cons, components_append_sep, first.components, rest]
      rfl

/-- The components, each after a separator, are not longer than the string. -/
theorem length_joined_components (sep : α) (s : List α) :
    (joined sep (components sep s)).length ≤ s.length + 1 := by
  have one (t : List α) (free : sep ∉ t) : (joined sep (components sep t)).length ≤
    t.length + 1 := by
    by_cases empty : t = []
    · simp [empty, joined]
    · simp [components_of_not_mem free empty, joined]
  induction s using sep_induction sep with
  | last t free => exact one t free
  | cons t b free ih =>
    have first := one t free
    rw [components_append_sep, joined_append, length_append, length_append,
      length_cons]
    omega

/-- Translations of the characters that keep the separator apart. -/
theorem components_map {f : α → α} (sep_iff : ∀ c, f c = sep ↔ c = sep) (s : List α) :
    components sep (s.map f) = (components sep s).map (List.map f) := by
  have one (t : List α) (free : sep ∉ t) :
      components sep (t.map f) = (components sep t).map (List.map f) := by
    by_cases empty : t = []
    · simp [empty]
    · have free' : sep ∉ t.map f := by
        rintro mem
        obtain ⟨c, mem, eq⟩ := mem_map.mp mem
        exact free ((sep_iff c).mp eq ▸ mem)
      rw [components_of_not_mem free empty, components_of_not_mem free' (by simpa using empty)]
      rfl
  induction s using sep_induction sep with
  | last t free => exact one t free
  | cons t b free ih =>
    rw [map_append, map_cons, (sep_iff sep).mpr rfl, components_append_sep,
      components_append_sep, map_append, one t free, ih]

/-! ## Tokens -/

/-- `strtok_r` with one delimiter: the token, and the string after it. -/
def strtok (sep : α) (s : List α) : Option (List α × List α) :=
  let sbegin := s.dropWhile (· = sep)
  if sbegin = [] then none
  else some (sbegin.takeWhile (· ≠ sep), (sbegin.dropWhile (· ≠ sep)).tail)

/-- The tokens of repeated calls, up to `n` of them. -/
def tokens (sep : α) : Nat → List α → List (List α)
  | 0, _ => []
  | n + 1, s =>
    match strtok sep s with
    | none => []
    | some (token, rest) => token :: tokens sep n rest

lemma components_dropWhile (sep : α) (s : List α) :
    components sep (s.dropWhile (· = sep)) = components sep s := by
  induction s with
  | nil => rfl
  | cons c s ih =>
    by_cases eq : c = sep
    · subst eq
      rw [dropWhile_cons_of_pos (by simp), ih, components_cons_sep]
    · rw [dropWhile_cons_of_neg (by simpa using eq)]

lemma strtok_eq_none (h : strtok sep s = none) : components sep s = [] := by
  simp only [strtok, ite_eq_left_iff, reduceCtorEq, imp_false, not_not] at h
  rw [← components_dropWhile, h, components_nil]

lemma strtok_eq_some {rest : List α} (h : strtok sep s = some (t, rest)) :
    components sep s = t :: components sep rest ∧ rest.length < s.length := by
  simp only [strtok] at h
  split_ifs at h with empty
  obtain ⟨rfl, rfl⟩ := h
  obtain ⟨c, u, start⟩ := exists_cons_of_ne_nil empty
  have shorter : (s.dropWhile (· = sep)).length ≤ s.length := (dropWhile_suffix _).length_le
  have not_sep : c ≠ sep := by
    have head := head_dropWhile_not (fun c => decide (c = sep)) empty
    simpa [start] using head
  have free : sep ∉ (c :: u).takeWhile (· ≠ sep) := fun mem => by
    simpa using mem_takeWhile_imp mem
  have nonempty : (c :: u).takeWhile (· ≠ sep) ≠ [] := by
    rw [takeWhile_cons_of_pos (by simpa using not_sep)]
    simp
  rw [← components_dropWhile, start] at *
  have split := takeWhile_append_dropWhile (p := fun c => decide (c ≠ sep)) (l := c :: u)
  cases after : (c :: u).dropWhile (· ≠ sep) with
  | nil =>
    rw [after, append_nil] at split
    rw [split] at free nonempty ⊢
    refine ⟨by rw [components_of_not_mem free nonempty, tail_nil, components_nil], ?_⟩
    simp only [tail_nil, length_nil, length_cons] at shorter ⊢
    omega
  | cons d v =>
    have isSep : d = sep := by
      have head := head_dropWhile_not (fun c => decide (c ≠ sep))
        (fun none_left => cons_ne_nil _ _ (after.symm.trans none_left))
      simp only [after, head_cons, decide_eq_false_iff_not, ne_eq, not_not] at head
      exact head
    rw [after, isSep] at split
    refine ⟨?_, ?_⟩
    · nth_rewrite 1 [← split]
      rw [components_append_sep, components_of_not_mem free nonempty]
      rfl
    · have len := congrArg List.length split
      simp only [length_append, length_cons, tail_cons] at len shorter ⊢
      omega

lemma components_ne_nil {c : α} (h : c ≠ sep) : components sep (c :: s) ≠ [] := by
  have token : (strtok sep (c :: s)).isSome := by
    simp [strtok, dropWhile_cons_of_neg (p := fun c => decide (c = sep)) (by simpa using h)]
  obtain ⟨⟨t, rest⟩, next⟩ := isSome_iff_exists.mp token
  rw [(strtok_eq_some next).1]
  exact cons_ne_nil _ _

/-- A tokenizer finds the components. -/
theorem tokens_eq {n : Nat} (enough : s.length ≤ n) : tokens sep n s = components sep s := by
  induction n generalizing s with
  | zero =>
    rw [length_eq_zero_iff.mp (Nat.le_zero.mp enough), components_nil]
    rfl
  | succ n ih =>
    cases next : strtok sep s with
    | none => rw [tokens, next, strtok_eq_none next]
    | some r =>
      obtain ⟨eq, shorter⟩ := strtok_eq_some next
      rw [tokens, next, eq]
      exact congrArg _ (ih (by omega))

end ExscapeOS.Lib
