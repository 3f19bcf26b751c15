import ExscapeOS.Kernel.Path.Basic

/-!
# Canonical paths

`path_collapse_dots` gives the canonical form of a path if its components are not too long and the
result is shorter than `PATH_MAX`. A component of more than 255 characters is left out, which
changes the result unless the components up to it lead back to the root. A result of exactly
`PATH_MAX` characters would fit, but its end is cut off.
-/
namespace ExscapeOS.Path

open Lib List Option

variable {st cs : List Str} {c p q r : Str}

/-- The components that `__path_join` accepts. -/
def short (c : Str) : Bool := c.length ≤ 255

/-! ## Joining -/

lemma pathJoin_eq (len : r.length ≤ pathMax) :
    pathJoin q r = joinTokens q (components slash r) := by
  rw [pathJoin, strlcpy, Nat.add_sub_cancel, take_of_length_le len, tokens_eq le_rfl]

lemma length_render_push
    (room : (joined slash st).length + (joined slash (c :: cs)).length ≤ pathMax)
    (more : cs ≠ []) : (render (push st c)).length < pathMax := by
  have first := length_joined_push st c
  obtain ⟨d, ds, rfl⟩ := exists_cons_of_ne_nil more
  rw [length_joined_cons, length_joined_cons] at room
  rw [length_render]
  omega

/-- The components are joined as on the stack, and the result is cut off. -/
lemma joinTokens_render (valid : Valid st) (comps : ∀ c ∈ cs, IsComponent slash c)
    (shorts : ∀ c ∈ cs, short c) (start : (render st).length < pathMax)
    (room : (joined slash st).length + (joined slash cs).length ≤ pathMax) :
    joinTokens (render st) cs = (true, cut (render (cs.foldl push st))) := by
  induction cs generalizing st with
  | nil => exact congrArg (Prod.mk true) (cut_of_lt start).symm
  | cons c cs ih =>
    obtain ⟨comp, comps⟩ := forall_mem_cons.mp comps
    obtain ⟨small, shorts⟩ := forall_mem_cons.mp shorts
    have later := length_render_push room
    have pushed := length_joined_push st c
    rw [length_joined_cons] at room
    rw [joinTokens, pathJoinOne_render valid comp (by simpa [short] using small) start (by omega)]
    by_cases last : cs = []
    · subst last
      rfl
    · simp only [cut_of_lt (later last)]
      exact ih (valid.push comp) comps shorts (later last) (by omega)

lemma joinTokens_long (comps : ∀ c ∈ cs, IsComponent slash c) (valid : Valid st)
    (start : (render st).length < pathMax)
    (room : (joined slash st).length + (joined slash cs).length ≤ pathMax)
    (long : ∃ c ∈ cs, ¬ short c) : (joinTokens (render st) cs).1 = false := by
  induction cs generalizing st with
  | nil => simp at long
  | cons c cs ih =>
    obtain ⟨comp, comps⟩ := forall_mem_cons.mp comps
    by_cases small : c.length ≤ 255
    · have later : ∃ c ∈ cs, ¬ short c := by
        obtain ⟨d, mem, large⟩ := long
        obtain rfl | mem := mem_cons.mp mem
        · exact absurd (by simpa [short] using small) large
        · exact ⟨d, mem, large⟩
      have more : cs ≠ [] := by
        rintro rfl
        simp at later
      have first := length_render_push room more
      have pushed := length_joined_push st c
      rw [length_joined_cons] at room
      rw [joinTokens, pathJoinOne_render valid comp small start (by omega), cut_of_lt first]
      exact ih comps (valid.push comp) first (by omega) later
    · rw [joinTokens, pathJoinOne, if_pos (not_le.mp small)]

/-! ## Collapsing -/

lemma pathJoin_component (comp : IsComponent slash c) (len : c.length ≤ pathMax) (path : Str) :
    pathJoin path c = pathJoinOne path c := by
  rw [pathJoin_eq len, comp.components, joinTokens]
  rcases pathJoinOne path c with ⟨_ | _, path'⟩ <;> rfl

lemma pathJoinOne_long (long : ¬ short c) (path : Str) : pathJoinOne path c = (false, path) := by
  rw [pathJoinOne, if_pos (by simpa [short] using long)]

/-- Components that are too long are left out, and the result is cut off. -/
lemma foldl_pathJoin (valid : Valid st) (comps : ∀ c ∈ cs, IsComponent slash c)
    (start : (render st).length < pathMax)
    (room : (joined slash st).length + (joined slash cs).length ≤ pathMax) :
    cs.foldl (fun buf token => (pathJoin buf token).2) (render st) =
      cut (render ((cs.filter short).foldl push st)) := by
  induction cs generalizing st with
  | nil => exact (cut_of_lt start).symm
  | cons c cs ih =>
    obtain ⟨comp, comps⟩ := forall_mem_cons.mp comps
    have later := length_render_push room
    have pushed := length_joined_push st c
    rw [length_joined_cons] at room
    rw [foldl_cons, pathJoin_component comp (by omega)]
    by_cases small : short c = true
    · rw [filter_cons_of_pos small,
        pathJoinOne_render valid comp (by simpa [short] using small) start (by omega)]
      by_cases last : cs = []
      · subst last
        rfl
      · simp only [cut_of_lt (later last)]
        exact ih (valid.push comp) comps (later last) (by omega)
    · rw [filter_cons_of_neg small, pathJoinOne_long small]
      exact ih valid comps start (by omega)

lemma length_render_nil : (render []).length < pathMax := by decide

lemma pathCollapseDots_eq (absolute : p.head? = some slash) (len : p.length ≤ pathMax) :
    pathCollapseDots p = (true, cut (render (stack ((components slash p).filter short)))) := by
  have room : (joined slash ([] : List Str)).length + (joined slash (components slash p)).length ≤
      pathMax := by
    have := length_joined_absolute absolute
    simp only [joined, flatMap_nil, length_nil] at *
    omega
  have loop := foldl_pathJoin valid_nil (fun _ mem => isComponent_of_mem mem) length_render_nil room
  rw [pathCollapseDots, if_neg (not_not.mpr absolute), tokens_eq le_rfl]
  exact congrArg (Prod.mk true) loop

/-- The canonical form, if it is shorter than `PATH_MAX` and no component is too long. -/
lemma pathCollapseDots_canonical (absolute : p.head? = some slash) (len : p.length ≤ pathMax)
    (shorts : ∀ c ∈ components slash p, c.length ≤ 255) (fits : (canonical p).length < pathMax) :
    pathCollapseDots p = (true, canonical p) := by
  have all : (components slash p).filter short = components slash p :=
    filter_eq_self.mpr fun c mem => by simpa [short] using shorts c mem
  rw [pathCollapseDots_eq absolute len, all]
  exact congrArg (Prod.mk true) (cut_of_lt fits)

lemma canonical_head (p : Str) : (canonical p).head? = some slash := by
  obtain ⟨rest, eq⟩ := render_eq_cons (stack (components slash p))
  rw [canonical, eq, head?_cons]

lemma absolute_append (fixed : canonical q = q) (r : Str) :
    (q ++ slash :: r).head? = some slash := by
  have head := canonical_head q
  rw [fixed] at head
  rw [head?_append, head]
  rfl

lemma canonical_append (fixed : canonical q = q) (r : Str) :
    q = render (stack (components slash q)) ∧
    canonical (q ++ slash :: r) =
      render ((components slash r).foldl push (stack (components slash q))) ∧
    (joined slash (stack (components slash q))).length +
      (joined slash (components slash r)).length ≤ (q ++ slash :: r).length := by
  refine ⟨fixed.symm, ?_, ?_⟩
  · rw [canonical, components_append_sep, stack, foldl_append]
    rfl
  · have own : (joined slash (stack (components slash q))).length ≤ q.length := by
      have len := congrArg List.length fixed
      rw [canonical, length_render] at len
      omega
    have others := length_joined_components slash r
    rw [length_append, length_cons]
    omega

lemma pathJoin_canonical (fixed : canonical q = q)
    (shorts : ∀ c ∈ components slash r, c.length ≤ 255) (len : (q ++ slash :: r).length ≤ pathMax) :
    pathJoin q r = (true, cut (canonical (q ++ slash :: r))) := by
  obtain ⟨path, result, room⟩ := canonical_append fixed r
  have lengths := len
  rw [length_append, length_cons] at lengths
  have start : (render (stack (components slash q))).length < pathMax := by
    rw [← path]
    omega
  rw [pathJoin_eq (by omega), result]
  nth_rewrite 1 [path]
  exact joinTokens_render (valid_stack q) (fun _ mem => isComponent_of_mem mem)
    (fun c mem => by simpa [short] using shorts c mem) start (room.trans len)

/-- The result of `path_collapse_dots` is the canonical form, which is not longer than the path and
stays as it is if it is collapsed again; and `path_join` of a canonical path has the same result as
collapsing both paths together. -/
theorem collapse_spec (absolute : p.head? = some slash) (len : p.length < pathMax)
    (shorts : ∀ c ∈ components slash p, c.length ≤ 255) :
    pathCollapseDots p = (true, canonical p) ∧ (canonical p).length ≤ p.length ∧
    pathCollapseDots (canonical p) = (true, canonical p) ∧
    ∀ q r : Str, canonical q = q → (∀ c ∈ components slash (q ++ slash :: r), c.length ≤ 255) →
      (q ++ slash :: r).length ≤ pathMax → (canonical (q ++ slash :: r)).length < pathMax →
      pathJoin q r = pathCollapseDots (q ++ slash :: r) := by
  have shorter := length_canonical absolute
  refine ⟨pathCollapseDots_canonical absolute len.le shorts (shorter.trans_lt len), shorter, ?_, ?_⟩
  · have again := pathCollapseDots_canonical (canonical_head p) (shorter.trans len.le) ?_
      (by rw [canonical_canonical]; exact shorter.trans_lt len)
    · rwa [canonical_canonical] at again
    · -- the components are some of those of the path
      intro c mem
      rw [canonical, components_render (valid_stack p)] at mem
      obtain none_before | mem := mem_of_mem_foldl_push mem
      · cases none_before
      · exact shorts c mem
  · intro q r fixed shorts len fits
    rw [pathCollapseDots_canonical (absolute_append fixed r) len shorts fits,
      pathJoin_canonical fixed _ len, cut_of_lt fits]
    intro c mem
    exact shorts c (by rw [components_append_sep]; exact mem_append_right _ mem)

/-- `/a/../b` -/
theorem collapse_dotdot :
    canonical [0x2f, 0x61, 0x2f, 0x2e, 0x2e, 0x2f, 0x62] = [0x2f, 0x62] ∧
    pathCollapseDots [0x2f, 0x61, 0x2f, 0x2e, 0x2e, 0x2f, 0x62] =
      (true, canonical [0x2f, 0x61, 0x2f, 0x2e, 0x2e, 0x2f, 0x62]) :=
  ⟨by decide, (collapse_spec (by decide) (by decide) (by decide)).1⟩

/-! ## Components that are too long -/

lemma length_push (st : List Str) (c : Str) :
    (push st c).length = if c = dot then st.length
      else if c = dotdot then st.length - 1 else st.length + 1 := by
  unfold push
  split_ifs <;> simp

lemma dots_short : short dot = true ∧ short dotdot = true := ⟨by decide, by decide⟩

lemma length_push_long (long : ¬ short c) (st : List Str) : (push st c).length = st.length + 1 := by
  have isDot : c ≠ dot := fun eq => long (eq ▸ dots_short.1)
  have isDotdot : c ≠ dotdot := fun eq => long (eq ▸ dots_short.2)
  rw [length_push, if_neg isDot, if_neg isDotdot]

lemma stack_concat (cs : List Str) (c : Str) : stack (cs ++ [c]) = push (stack cs) c := by
  rw [stack, foldl_append]
  rfl

lemma stack_filter_concat (cs : List Str) (c : Str) :
    stack ((cs ++ [c]).filter short) =
      if short c then push (stack (cs.filter short)) c else stack (cs.filter short) := by
  rw [filter_append]
  split_ifs with small
  · rw [filter_cons_of_pos small, filter_nil, stack_concat]
  · rw [filter_cons_of_neg small, filter_nil, append_nil]

/-- Without the components that are too long, the stack is not higher. -/
lemma length_stack_filter_le (cs : List Str) :
    (stack (cs.filter short)).length ≤ (stack cs).length := by
  induction cs using List.reverseRecOn with
  | nil => rfl
  | append_singleton cs c ih =>
    rw [stack_concat, stack_filter_concat]
    split_ifs with small
    · rw [length_push, length_push]
      split_ifs <;> omega
    · rw [length_push_long small]
      omega

/-- It is lower if there is one since the stack was last empty. -/
lemma length_stack_filter_lt
    (long : ∀ a b, cs = a ++ b → stack a = [] → ∃ c ∈ b, ¬ short c) :
    (stack (cs.filter short)).length < (stack cs).length := by
  induction cs using List.reverseRecOn with
  | nil =>
    obtain ⟨c, mem, -⟩ := long [] [] rfl rfl
    cases mem
  | append_singleton cs c ih =>
    by_cases small : short c = true
    · have before : (stack (cs.filter short)).length < (stack cs).length := by
        refine ih fun a b eq empty => ?_
        obtain ⟨d, mem, large⟩ := long a (b ++ [c]) (by rw [eq, append_assoc]) empty
        obtain mem | mem := mem_append.mp mem
        · exact ⟨d, mem, large⟩
        · exact absurd ((mem_singleton.mp mem) ▸ small) large
      have left : (push (stack cs) c).length ≠ 0 := by
        intro none_left
        have empty := length_eq_zero_iff.mp none_left
        obtain ⟨d, mem, -⟩ := long (cs ++ [c]) [] (by simp) (by rw [stack_concat, empty])
        cases mem
      rw [stack_concat, stack_filter_concat, if_pos small]
      rw [length_push] at left ⊢
      rw [length_push]
      split_ifs at left ⊢ <;> omega
    · have le := length_stack_filter_le cs
      rw [stack_concat, stack_filter_concat, if_neg small, length_push_long small]
      omega

lemma stack_filter_iff : stack (cs.filter short) = stack cs ↔
    ∃ a b, cs = a ++ b ∧ stack a = [] ∧ ∀ c ∈ b, short c := by
  constructor
  · intro same
    by_contra none_split
    push Not at none_split
    have lower := length_stack_filter_lt fun a b eq empty => by
      obtain ⟨c, mem, large⟩ := none_split a b eq empty
      exact ⟨c, mem, large⟩
    rw [same] at lower
    omega
  · rintro ⟨a, b, rfl, empty, shorts⟩
    have none_left : stack (a.filter short) = [] := by
      have le := length_stack_filter_le a
      rw [empty] at le
      exact length_eq_zero_iff.mp (Nat.le_zero.mp le)
    rw [filter_append, filter_eq_self.mpr shorts]
    unfold stack at *
    rw [foldl_append, foldl_append, none_left, empty]

/-! ## Failures that are not reported -/

/-- `path_collapse_dots` fails, or it has produced the canonical form. -/
def Collapses (p : Str) : Prop :=
  (pathCollapseDots p).1 = false ∨ (pathCollapseDots p).2 = canonical p

/-- `path_join` fails, or produces the canonical form of both paths together. -/
def Joins (q r : Str) : Prop :=
  (pathJoin q r).1 = false ∨ (pathJoin q r).2 = canonical (q ++ slash :: r)

/-- With `PATH_MAX` characters nothing is left out. -/
lemma filter_short_of_full (absolute : p.head? = some slash) (len : p.length ≤ pathMax)
    (full : pathMax ≤ (render (stack ((components slash p).filter short))).length) :
    (components slash p).filter short = components slash p := by
  have comps : ∀ c ∈ components slash p, IsComponent slash c := fun _ mem => isComponent_of_mem mem
  have room := length_joined_absolute absolute
  have le := length_joined_foldl_push [] ((components slash p).filter short)
  have sub : List.Sublist (joined slash ((components slash p).filter short))
      (joined slash (components slash p)) := filter_sublist.flatMap _
  have same := sub.eq_of_length (by
    have := sub.length_le
    rw [length_render, stack] at full
    simp only [joined, flatMap_nil, length_nil] at *
    unfold pathMax at *
    omega)
  rw [← components_joined fun c mem => comps c (mem_of_mem_filter mem), same,
    components_joined comps]

lemma length_cut_lt (path : Str) : (cut path).length < pathMax :=
  (length_take_le _ _).trans_lt (by decide)

lemma collapses_iff (absolute : p.head? = some slash) (len : p.length ≤ pathMax) :
    Collapses p ↔ (∃ a b, components slash p = a ++ b ∧ stack a = [] ∧ ∀ c ∈ b, c.length ≤ 255) ∧
      (canonical p).length ≠ pathMax := by
  have valid : Valid (stack ((components slash p).filter short)) :=
    valid_nil.foldl_push fun c mem => isComponent_of_mem (mem_of_mem_filter mem)
  have split : (∃ a b, components slash p = a ++ b ∧ stack a = [] ∧ ∀ c ∈ b, c.length ≤ 255) ↔
      stack ((components slash p).filter short) = stack (components slash p) := by
    rw [stack_filter_iff]
    simp [short]
  rw [split, Collapses, pathCollapseDots_eq absolute len]
  simp only [Bool.true_eq_false, false_or]
  constructor
  · intro same
    have short_result : (canonical p).length < pathMax := same ▸ length_cut_lt _
    refine ⟨?_, short_result.ne⟩
    by_cases fits : (render (stack ((components slash p).filter short))).length < pathMax
    · rw [cut_of_lt fits] at same
      exact render_injective valid (valid_stack p) same
    · rw [filter_short_of_full absolute len (not_lt.mp fits)]
  · rintro ⟨same, not_full⟩
    have fits := (length_canonical absolute).trans len
    rw [same]
    exact cut_of_lt (lt_of_le_of_ne fits not_full)

lemma joins_iff (fixed : canonical q = q) (len : (q ++ slash :: r).length ≤ pathMax) :
    Joins q r ↔ (∃ c ∈ components slash r, 255 < c.length) ∨
      (canonical (q ++ slash :: r)).length ≠ pathMax := by
  obtain ⟨path, -, room⟩ := canonical_append fixed r
  by_cases long : ∃ c ∈ components slash r, 255 < c.length
  · refine iff_of_true (.inl ?_) (.inl long)
    obtain ⟨c, mem, large⟩ := long
    have lengths := len
    rw [length_append, length_cons] at lengths
    have start : (render (stack (components slash q))).length < pathMax := by
      rw [← path]
      omega
    rw [pathJoin_eq (by omega)]
    nth_rewrite 1 [path]
    exact joinTokens_long (fun _ mem => isComponent_of_mem mem) (valid_stack q) start
      (room.trans len) ⟨c, mem, by simpa [short] using large⟩
  · have shorts : ∀ c ∈ components slash r, c.length ≤ 255 := by
      push Not at long
      exact long
    rw [Joins, pathJoin_canonical fixed shorts len]
    simp only [long, false_or, Bool.true_eq_false]
    constructor
    · intro same
      exact (same ▸ length_cut_lt _ : (canonical (q ++ slash :: r)).length < pathMax).ne
    · intro not_full
      have fits := (length_canonical (absolute_append fixed r)).trans len
      exact cut_of_lt (lt_of_le_of_ne fits not_full)

/-- A failure of `path_collapse_dots` is not noticed if a component that is too long is left out,
and there was no way back to the root after it, or if the result has `PATH_MAX` characters.
`path_join` reports a component that is too long. -/
theorem failures_reported_iff (absolute : p.head? = some slash) (len : p.length ≤ pathMax)
    (fixed : canonical q = q) (len' : (q ++ slash :: r).length ≤ pathMax) :
    (Collapses p ↔
      (∃ a b, components slash p = a ++ b ∧ stack a = [] ∧ ∀ c ∈ b, c.length ≤ 255) ∧
        (canonical p).length ≠ pathMax) ∧
    (Joins q r ↔ (∃ c ∈ components slash r, 255 < c.length) ∨
      (canonical (q ++ slash :: r)).length ≠ pathMax) :=
  ⟨collapses_iff absolute len, joins_iff fixed len'⟩

/-- `/a`, and `b` in it. -/
theorem failures_reported_short : Collapses [0x2f, 0x61] ∧ Joins [0x2f, 0x61] [0x62] := by
  have both := failures_reported_iff (p := [0x2f, 0x61]) (q := [0x2f, 0x61])
    (r := [0x62]) (by decide) (by decide) (by decide) (by decide)
  exact ⟨both.1.mpr ⟨⟨[], [[0x61]], by decide, rfl, by decide⟩, by decide⟩,
    both.2.mpr (.inr (by decide))⟩

/-- `/a/b…b/..` with a component of 256 characters. -/
def longComponent : Str :=
  [slash, 0x61, slash] ++ List.replicate 256 0x62 ++ [slash, 0x2e, 0x2e]

/-- A path of `PATH_MAX` characters, with four components. -/
def fullPath : Str :=
  joined slash [List.replicate 255 0x61, List.replicate 255 0x61, List.replicate 255 0x61,
    List.replicate 254 0x61]

/-- The two dots go back from `/a`, as if the component after it were not there. The last character
of a path of `PATH_MAX` characters is lost, also if its last component is joined. -/
theorem failures_silent :
    pathCollapseDots longComponent = (true, [slash]) ∧ canonical longComponent = [slash, 0x61] ∧
    pathCollapseDots fullPath = (true, fullPath.dropLast) ∧ canonical fullPath = fullPath ∧
    pathJoin (fullPath.take 768) (fullPath.drop 769) = (true, fullPath.dropLast) := by
  refine ⟨?_, ?_, ?_, ?_, ?_⟩ <;> decide +kernel

end ExscapeOS.Path
