import Mathlib.Data.List.DropRight
import ExscapeOS.Lib.Components

/-!
# Paths

The functions of `lib/path.c`, which change a path in a buffer of `PATH_MAX + 1` bytes, as functions
on strings. `path_join` appends the components of a path to another one by one, and
`path_collapse_dots` does so with its own components, starting from the root.

The canonical form of a path is given by a stack of components. As long as everything fits,
`__path_join` keeps the buffer in step with the stack (`pathJoinOne_render`).
-/
namespace ExscapeOS.Path

open Lib List Option

/-- A string, without the zero at its end. -/
abbrev Str : Type := List UInt8

def slash : UInt8 := 0x2f
def dot : Str := [0x2e]
def dotdot : Str := [0x2e, 0x2e]

def pathMax : Nat := 1023

def strlcpy (src : Str) (size : Nat) : Str := src.take (size - 1)

def strlcat (dst src : Str) (size : Nat) : Str :=
  if dst.length < size - 1 then dst ++ src.take (size - dst.length - 1) else dst

/-- `strrchr(s, '/')`, as an index. -/
def strrchr (s : Str) : Option Nat :=
  if slash ∈ s then some ((s.rdropWhile (· ≠ slash)).length - 1) else none

def pathDirname (path : Str) : Str :=
  let path := if path.getLast? = some slash then path.dropLast else path
  let path := match strrchr path with
    | some p => path.take p
    | none => path
  if path = [] then [slash] else path

/-- `__path_join`: whether it has succeeded, and the path. -/
def pathJoinOne (path right : Str) : Bool × Str :=
  if 255 < right.length then (false, path)
  else if slash ∈ right then (false, path)
  else if right = dot then (true, path)
  else if right = dotdot then (true, pathDirname path)
  else
    let path :=
      if path.getLast? ≠ some slash ∧ right.head? ≠ some slash then path ++ [slash] else path
    let trunc := pathMax < path.length + right.length
    (!trunc, strlcat path right pathMax)

/-- The loop of `path_join`. -/
def joinTokens (path : Str) : List Str → Bool × Str
  | [] => (true, path)
  | token :: rest =>
    match pathJoinOne path token with
    | (false, path) => (false, path)
    | (true, path) => joinTokens path rest

def pathJoin (path right : Str) : Bool × Str :=
  let buf := strlcpy right (pathMax + 1)
  joinTokens path (tokens slash buf.length buf)

def pathCollapseDots (path : Str) : Bool × Str :=
  if path.head? ≠ some slash then (false, path)
  else
    -- the result of `path_join` is ignored
    (true, (tokens slash path.length path).foldl (fun buf token => (pathJoin buf token).2) [slash])

/-! ## The canonical form -/

/-- A component of a path, for the stack of those before it. -/
def push (st : List Str) (c : Str) : List Str :=
  if c = dot then st else if c = dotdot then st.dropLast else st ++ [c]

def stack (cs : List Str) : List Str := cs.foldl push []

def render (st : List Str) : Str := if st = [] then [slash] else joined slash st

def canonical (path : Str) : Str := render (stack (components slash path))

variable {st : List Str} {c : Str} {cs : List Str}

/-- A stack for an absolute path. -/
abbrev Valid (st : List Str) : Prop := ∀ c ∈ st, IsComponent slash c

lemma valid_nil : Valid [] := nofun

lemma Valid.push (valid : Valid st) (comp : IsComponent slash c) : Valid (push st c) := by
  unfold Path.push
  split_ifs
  · exact valid
  · exact fun d mem => valid d (mem_of_mem_dropLast mem)
  · intro d mem
    obtain mem | rfl := by simpa using mem
    · exact valid d mem
    · exact comp

lemma Valid.foldl_push (valid : Valid st) (comps : ∀ c ∈ cs, IsComponent slash c) :
    Valid (cs.foldl Path.push st) := by
  induction cs generalizing st with
  | nil => exact valid
  | cons c cs ih =>
    obtain ⟨first, rest⟩ := forall_mem_cons.mp comps
    exact ih (valid.push first) rest

lemma valid_stack (path : Str) : Valid (stack (components slash path)) :=
  valid_nil.foldl_push fun _ mem => isComponent_of_mem mem

lemma render_eq_cons (st : List Str) : ∃ rest, render st = slash :: rest := by
  unfold render
  split_ifs with empty
  · exact ⟨[], rfl⟩
  · obtain ⟨c, cs, rfl⟩ := exists_cons_of_ne_nil empty
    exact ⟨_, joined_cons slash c cs⟩

lemma components_render (valid : Valid st) : components slash (render st) = st := by
  unfold render
  split_ifs with empty
  · rw [empty, components_cons_sep, components_nil]
  · exact components_joined valid

lemma render_injective {st' : List Str} (valid : Valid st) (valid' : Valid st')
    (h : render st = render st') : st = st' := by
  rw [← components_render valid, h, components_render valid']

lemma mem_of_mem_foldl_push (h : c ∈ cs.foldl push st) : c ∈ st ∨ c ∈ cs := by
  induction cs generalizing st with
  | nil => exact .inl h
  | cons d cs ih =>
    obtain h | h := ih h
    · unfold push at h
      split_ifs at h
      · exact .inl h
      · exact .inl (mem_of_mem_dropLast h)
      · obtain h | rfl := by simpa using h
        · exact .inl h
        · exact .inr (by simp)
    · exact .inr (mem_cons_of_mem _ h)

lemma dots_not_mem_foldl_push (clean : dot ∉ st ∧ dotdot ∉ st) :
    dot ∉ cs.foldl push st ∧ dotdot ∉ cs.foldl push st := by
  induction cs generalizing st with
  | nil => exact clean
  | cons c cs ih =>
    refine ih ?_
    unfold push
    split_ifs with isDot isDotdot
    · exact clean
    · exact ⟨fun mem => clean.1 (mem_of_mem_dropLast mem),
        fun mem => clean.2 (mem_of_mem_dropLast mem)⟩
    · simp only [mem_append, mem_singleton, not_or]
      exact ⟨⟨clean.1, Ne.symm isDot⟩, clean.2, Ne.symm isDotdot⟩

lemma foldl_push_of_not_mem (clean : dot ∉ cs ∧ dotdot ∉ cs) : cs.foldl push st = st ++ cs := by
  induction cs generalizing st with
  | nil => simp
  | cons c cs ih =>
    simp only [mem_cons, not_or] at clean
    obtain ⟨⟨isDot, dots⟩, isDotdot, dotdots⟩ := clean
    rw [foldl_cons, ih ⟨dots, dotdots⟩, push, if_neg (Ne.symm isDot), if_neg (Ne.symm isDotdot),
      append_assoc, singleton_append]

lemma canonical_canonical (path : Str) : canonical (canonical path) = canonical path := by
  have clean : dot ∉ stack (components slash path) ∧ dotdot ∉ stack (components slash path) :=
    dots_not_mem_foldl_push ⟨by simp, by simp⟩
  unfold canonical
  rw [components_render (valid_stack path)]
  exact congrArg render (foldl_push_of_not_mem clean)

/-! ## Lengths -/

lemma length_joined_dropLast (st : List Str) :
    (joined slash st.dropLast).length ≤ (joined slash st).length := by
  obtain rfl | ⟨st', d, rfl⟩ := st.eq_nil_or_concat
  · simp
  · rw [concat_eq_append, dropLast_concat, joined_concat, length_append]
    omega

lemma length_joined_push (st : List Str) (c : Str) :
    (joined slash (push st c)).length ≤ (joined slash st).length + (c.length + 1) := by
  unfold push
  split_ifs
  · omega
  · have shorter := length_joined_dropLast st
    omega
  · rw [joined_concat, length_append, length_cons]

lemma length_joined_cons (c : Str) (cs : List Str) :
    (joined slash (c :: cs)).length = c.length + 1 + (joined slash cs).length := by
  rw [joined_cons, length_cons, length_append]
  omega

lemma length_joined_foldl_push (st cs : List Str) :
    (joined slash (cs.foldl push st)).length ≤
      (joined slash st).length + (joined slash cs).length := by
  induction cs generalizing st with
  | nil => simp [joined]
  | cons c cs ih =>
    have first := length_joined_push st c
    have rest := ih (push st c)
    rw [foldl_cons, length_joined_cons]
    omega

lemma length_render (st : List Str) : (render st).length = max 1 (joined slash st).length := by
  unfold render
  split_ifs with empty
  · simp [empty, joined]
  · obtain ⟨c, cs, rfl⟩ := exists_cons_of_ne_nil empty
    rw [length_joined_cons]
    omega

lemma length_joined_absolute {path : Str} (absolute : path.head? = some slash) :
    (joined slash (components slash path)).length ≤ path.length := by
  obtain ⟨rest, rfl⟩ : ∃ rest, path = slash :: rest := by
    cases path with
    | nil => cases absolute
    | cons c rest => exact ⟨rest, by rw [some.inj absolute]⟩
  rw [components_cons_sep, length_cons]
  exact length_joined_components slash rest

lemma length_canonical {path : Str} (absolute : path.head? = some slash) :
    (canonical path).length ≤ path.length := by
  have joined_le := length_joined_absolute absolute
  have stack_le := length_joined_foldl_push [] (components slash path)
  have pos : 0 < path.length := by
    cases path with
    | nil => cases absolute
    | cons c rest => simp
  rw [canonical, length_render, stack]
  simp only [joined, flatMap_nil, length_nil] at *
  omega

/-! ## The functions and the stack -/

lemma strrchr_append {a b : Str} (last : slash ∉ b) : strrchr (a ++ slash :: b) =
    some a.length := by
  have cut : (a ++ slash :: b).rdropWhile (· ≠ slash) = a ++ [slash] := by
    have split : a ++ slash :: b = a ++ [slash] ++ b := by simp
    rw [split, List.rdropWhile, reverse_append, dropWhile_append_of_pos]
    · simp
    · intro c mem
      have ne : c ≠ slash := fun eq => last (eq ▸ mem_reverse.mp mem)
      simpa using ne
  rw [strrchr, if_pos (by simp), cut]
  simp

lemma strrchr_of_not_mem {s : Str} (h : slash ∉ s) : strrchr s = none := if_neg h

lemma getLast?_joined (valid : Valid st) : (joined slash st).getLast? ≠ some slash := by
  obtain rfl | ⟨st', c, rfl⟩ := st.eq_nil_or_concat
  · simp [joined]
  · rw [concat_eq_append] at valid ⊢
    obtain ⟨ne, free⟩ := valid c (by simp)
    obtain ⟨d, last⟩ := isSome_iff_exists.mp (getLast?_isSome.mpr ne)
    rw [joined_concat, getLast?_append_cons, getLast?_cons, last]
    intro eq
    exact free (some.inj eq ▸ mem_of_getLast? last)

lemma pathDirname_render (valid : Valid st) : pathDirname (render st) = render st.dropLast := by
  obtain rfl | ⟨st', c, rfl⟩ := st.eq_nil_or_concat
  · rfl
  · rw [concat_eq_append] at valid ⊢
    have comp := valid c (by simp)
    have open_end := getLast?_joined valid
    have path : render (st' ++ [c]) = joined slash st' ++ slash :: c := by
      rw [render, if_neg (by simp), joined_concat]
    rw [joined_concat] at open_end
    rw [path, pathDirname, if_neg open_end]
    simp only [strrchr_append comp.2, take_left, dropLast_concat, joined_eq_nil]
    rfl

lemma slash_after_render (valid : Valid st) (free : slash ∉ c) :
    (if (render st).getLast? ≠ some slash ∧ c.head? ≠ some slash then render st ++ [slash]
      else render st) = joined slash st ++ [slash] := by
  by_cases empty : st = []
  · subst empty
    rw [if_neg fun h => h.1 rfl]
    rfl
  · have path : render st = joined slash st := if_neg empty
    rw [path, if_pos ⟨getLast?_joined valid, fun head => free (mem_of_head? head)⟩]

lemma pathJoinOne_append (valid : Valid st) (comp : IsComponent slash c) (short : c.length ≤ 255)
    (isDot : c ≠ dot) (isDotdot : c ≠ dotdot) :
    pathJoinOne (render st) c = (!decide (pathMax < (joined slash (st ++ [c])).length),
      strlcat (joined slash st ++ [slash]) c pathMax) := by
  rw [pathJoinOne, if_neg (by omega), if_neg comp.2, if_neg isDot, if_neg isDotdot]
  simp only [slash_after_render valid comp.2, joined_concat, length_append, length_cons,
    length_nil]
  congr 4
  omega

/-- What is left of a result: `strlcat` is called with `PATH_MAX`, not the size of the buffer. -/
def cut (path : Str) : Str := path.take (pathMax - 1)

lemma cut_of_lt {path : Str} (h : path.length < pathMax) : cut path = path :=
  take_of_length_le (Nat.le_sub_one_of_lt h)

lemma strlcat_eq {dst src : Str} {size : Nat} (h : dst.length ≤ size - 1) :
    strlcat dst src size = (dst ++ src).take (size - 1) := by
  unfold strlcat
  split_ifs with room
  · rw [take_append, take_of_length_le h, Nat.sub_right_comm]
  · rw [take_left' (by omega)]

lemma pathJoinOne_render (valid : Valid st) (comp : IsComponent slash c) (short : c.length ≤ 255)
    (start : (render st).length < pathMax)
    (room : (joined slash st).length + (c.length + 1) ≤ pathMax) :
    pathJoinOne (render st) c = (true, cut (render (push st c))) := by
  by_cases isDot : c = dot
  · subst isDot
    exact congrArg (Prod.mk true) (cut_of_lt start).symm
  · by_cases isDotdot : c = dotdot
    · subst isDotdot
      have shorter : (render st.dropLast).length < pathMax := by
        have := length_joined_dropLast st
        rw [length_render] at start ⊢
        omega
      have pushed : push st dotdot = st.dropLast := rfl
      rw [pushed, cut_of_lt shorter, ← pathDirname_render valid]
      rfl
    · have pos := length_pos_iff.mpr comp.1
      have pushed : push st c = st ++ [c] := by rw [push, if_neg isDot, if_neg isDotdot]
      have path : render (st ++ [c]) = joined slash st ++ [slash] ++ c := by
        rw [render, if_neg (by simp), joined_concat, append_assoc, singleton_append]
      rw [pathJoinOne_append valid comp short isDot isDotdot, pushed, path,
        strlcat_eq (by rw [length_append, length_singleton]; omega), cut]
      congr 1
      rw [joined_concat, length_append, length_cons]
      simpa using room

end ExscapeOS.Path
