import ExscapeOS.Kernel.Fat.Dir
import ExscapeOS.Kernel.Mount.Fs
import ExscapeOS.Kernel.Path.Collapse

/-!
# `find_relpath`

`find_relpath` gives the mountpoint of a path, and the path that is left for the file system. The
path is brought to its canonical form first, so that the mountpoint is the one with the longest
matching path. The canonical form is wrong if components are lost: those that begin after the first
`PATH_MAX` characters, and those that are too long.
-/
namespace ExscapeOS.Vfs

open Lib ExscapeOS.Path List Option
open Mount (Mountpoint)
open Fat (tolower)

/-- `strnicmp(s1, s2, n) == 0`. -/
def strnicmp (s1 s2 : Str) (n : Nat) : Bool := (s1.take n).map tolower = (s2.take n).map tolower

/-- The conditions in the loop of `find_mountpoint_for_path`. -/
def covers (path : Str) (mp : Mountpoint) : Bool :=
  let len := mp.path.length
  if path.length < len then false
  else if strnicmp mp.path path len then
    !(1 < len ∧ path[len]? ≠ none ∧ path[len]? ≠ some slash)
  else false

/-- One round of the loop, with the best match and its length. -/
def better (path : Str) (best : Option Mountpoint × Nat) (mp : Mountpoint) :
    Option Mountpoint × Nat :=
  if covers path mp ∧ best.2 < mp.path.length then (some mp, mp.path.length) else best

def findMountpointForPath (mountpoints : List Mountpoint) (path : Str) : Option Mountpoint :=
  (mountpoints.foldl (better path) (none, 0)).1

/-- `find_relpath`: the mountpoint and the relative path, unless the kernel panics. -/
def findRelpath (mountpoints : List Mountpoint) (resolveActualPath : Str → Option Str)
    (pwd : Option Str) (inPath : Str) : Option (Mountpoint × Str) := do
  let path ← (if inPath.head? ≠ some slash then do
      let dir ← resolveActualPath ((pwd.map fun dir => strlcpy dir (pathMax + 1)).getD [slash])
      return (pathJoin dir inPath).2
    else some (strlcpy inPath (pathMax + 1)))
  let (collapsed, path) := pathCollapseDots path
  kassert collapsed
  let mp ← findMountpointForPath mountpoints path
  kassert (strnicmp path mp.path mp.path.length)
  if mp.path = [slash] then return (mp, strlcpy path (pathMax + 1))
  else
    let relpath := strlcpy (path.drop mp.path.length) (pathMax + 1)
    return (mp, if relpath = [] then [slash] else relpath)

/-! ## Components without case -/

def lower (s : Str) : Str := s.map tolower

lemma tolower_eq_slash (c : UInt8) : tolower c = slash ↔ c = slash := by
  obtain ⟨⟨i⟩⟩ := c
  revert i
  decide +kernel

/-- The components of the first path lead along the second. -/
def Within (p q : Str) : Prop :=
  (components slash p).map lower <+: (components slash q).map lower

lemma components_lower (s : Str) : components slash (lower s) = (components slash s).map lower :=
  components_map tolower_eq_slash s

lemma lower_joined (cs : List Str) : lower (joined slash cs) = joined slash (cs.map lower) :=
  joined_map ((tolower_eq_slash slash).mpr rfl) cs

lemma head?_joined (cs : List Str) : (joined slash cs).head? = none ∨
    (joined slash cs).head? = some slash := by
  cases cs with
  | nil => exact .inl rfl
  | cons c cs => exact .inr rfl

section

variable {sm st : List Str}

lemma take_of_isPrefix (h : sm.map lower <+: st.map lower) :
    (st.take sm.length).map lower = sm.map lower := by
  rw [map_take, prefix_iff_eq_take.mp h]
  simp

lemma length_joined_take (h : sm.map lower <+: st.map lower) :
    (joined slash (st.take sm.length)).length = (joined slash sm).length := by
  have same : lower (joined slash (st.take sm.length)) = lower (joined slash sm) := by
    rw [lower_joined, lower_joined, take_of_isPrefix h]
  simpa [lower] using congrArg List.length same

lemma joined_take_drop (st : List Str) (n : Nat) :
    joined slash st = joined slash (st.take n) ++ joined slash (st.drop n) := by
  rw [← joined_append, take_append_drop]

lemma covers_eq_true (path : Str) (mp : Mountpoint) : covers path mp ↔
    mp.path.length ≤ path.length ∧ lower mp.path = lower (path.take mp.path.length) ∧
      (mp.path.length ≤ 1 ∨ path[mp.path.length]? = none ∨
        path[mp.path.length]? = some slash) := by
  simp only [covers, strnicmp, take_length, lower]
  split_ifs with longer same
  · simp [longer]
  · simp only [decide_eq_true_eq] at same
    have le := not_lt.mp longer
    by_cases one : mp.path.length ≤ 1
    · simp [le, same, one, not_lt.mpr one]
    · simp [le, same, one, not_le.mp one, or_iff_not_imp_left]
  · simp only [decide_eq_true_eq] at same
    exact iff_of_false (by simp) fun h => same h.2.1

lemma covers_root {mp : Mountpoint} (root : mp.path = [slash]) (rest : Str) :
    covers (slash :: rest) mp := by
  rw [covers_eq_true, root]
  exact ⟨by simp, rfl, .inl le_rfl⟩

lemma one_lt_length_joined (nonempty : sm ≠ []) (valid : Valid sm) :
    1 < (joined slash sm).length := by
  obtain ⟨c, cs, rfl⟩ := exists_cons_of_ne_nil nonempty
  have pos := length_pos_iff.mpr (valid c mem_cons_self).1
  rw [length_joined_cons]
  omega

/-- A mountpoint but the root covers a path exactly if it leads along it. -/
lemma covers_joined {mp : Mountpoint} (own : mp.path = joined slash sm) (nonempty : sm ≠ [])
    (valid : Valid sm) (valid' : Valid st) :
    covers (joined slash st) mp ↔ sm.map lower <+: st.map lower := by
  rw [covers_eq_true, own]
  constructor
  · rintro ⟨le, same, ends⟩
    have comps : (components slash ((joined slash st).take (joined slash sm).length)).map lower =
        sm.map lower := by
      rw [← components_lower, ← same, components_lower, components_joined valid]
    have large := one_lt_length_joined nonempty valid
    obtain small | at_end | at_slash := ends
    · omega
    · have whole := take_of_length_le (getElem?_eq_none_iff.mp at_end)
      rw [whole, components_joined valid'] at comps
      exact comps ▸ prefix_rfl
    · obtain ⟨lt, eq⟩ := List.getElem?_eq_some_iff.mp at_slash
      have split : joined slash st = (joined slash st).take (joined slash sm).length ++
          slash :: (joined slash st).drop ((joined slash sm).length + 1) := by
        have tail := drop_eq_getElem_cons lt
        rw [eq] at tail
        rw [← tail, take_append_drop]
      rw [← components_joined valid', split, components_append_sep, map_append, comps]
      exact prefix_append _ _
  · intro within
    have len := length_joined_take within
    have split := joined_take_drop st sm.length
    refine ⟨?_, ?_, .inr ?_⟩
    · rw [split, length_append, len]
      exact Nat.le_add_right _ _
    · rw [split, take_left' len, lower_joined, lower_joined, take_of_isPrefix within]
    · rw [split, ← len, getElem?_append_right le_rfl, Nat.sub_self, ← head?_eq_getElem?]
      exact head?_joined _

end

/-- The root, and other mountpoints with canonical paths. -/
structure Table (mps : List Mountpoint) : Prop where
  root : ∃ mp ∈ mps, mp.path = [slash]
  canonical : ∀ mp ∈ mps, canonical mp.path = mp.path

lemma components_canonical (p : Str) :
    components slash (canonical p) = stack (components slash p) :=
  components_render (valid_stack p)

lemma render_components {p : Str} (fixed : canonical p = p) :
    render (components slash p) = p ∧ Valid (components slash p) := by
  have comps := components_canonical p
  rw [fixed] at comps
  refine ⟨?_, fun _ mem => isComponent_of_mem mem⟩
  rw [comps]
  exact fixed

lemma covers_iff {mp : Mountpoint} (own : canonical mp.path = mp.path) (p : Str) :
    covers (canonical p) mp ↔ Within mp.path (canonical p) := by
  obtain ⟨own, valid⟩ := render_components own
  have valid' := valid_stack p
  unfold Within
  rw [components_canonical, canonical]
  generalize components slash mp.path = sm at *
  generalize stack (components slash p) = st at *
  by_cases root : sm = []
  · subst root
    obtain ⟨rest, starts⟩ := render_eq_cons st
    rw [starts]
    exact iff_of_true (covers_root own.symm rest) nil_prefix
  · have path : render sm = joined slash sm := if_neg root
    by_cases empty : st = []
    · subst empty
      have large := one_lt_length_joined root valid
      refine iff_of_false ?_ (by simpa using root)
      rw [covers_eq_true, ← own, path]
      rintro ⟨le, -⟩
      exact absurd le (not_le.mpr large)
    · rw [show render st = joined slash st from if_neg empty]
      exact covers_joined (own.symm.trans path) root valid valid'

lemma length_joined_take_lt {st : List Str} {m n : Nat} (lt : m < n) (le : n ≤ st.length) :
    (joined slash (st.take m)).length < (joined slash (st.take n)).length := by
  have split := joined_take_drop (st.take n) m
  have rest : joined slash ((st.take n).drop m) ≠ [] := by
    rw [Ne, joined_eq_nil, drop_eq_nil_iff, length_take]
    omega
  rw [split, take_take, Nat.min_eq_left lt.le, length_append]
  have pos := length_pos_iff.mpr rest
  omega

lemma length_components_le_of_covers {p : Str} {mp mp' : Mountpoint}
    (own : canonical mp.path = mp.path) (own' : canonical mp'.path = mp'.path)
    (within : Within mp.path p) (within' : Within mp'.path p)
    (le : mp'.path.length ≤ mp.path.length) :
    (components slash mp'.path).length ≤ (components slash mp.path).length := by
  obtain ⟨path, -⟩ := render_components own
  obtain ⟨path', valid'⟩ := render_components own'
  by_contra! more
  have bound : (components slash mp'.path).length ≤ (components slash p).length := by
    simpa using within'.length_le
  have lt := length_joined_take_lt more bound
  rw [length_joined_take within, length_joined_take within'] at lt
  have large := one_lt_length_joined (ne_nil_of_length_pos (Nat.zero_lt_of_lt more)) valid'
  rw [← path, ← path', length_render, length_render] at le
  omega

/-! ## The longest match -/

/-- The best match among the mountpoints so far. -/
structure Best (path : Str) (mps : List Mountpoint) (best : Option Mountpoint × Nat) : Prop where
  covers : ∀ mp, best.1 = some mp → mp ∈ mps ∧ covers path mp ∧ best.2 = mp.path.length
  longest : ∀ mp ∈ mps, Vfs.covers path mp → mp.path.length ≤ best.2
  none : best.1 = none → best.2 = 0

lemma best_foldl (path : Str) (mps : List Mountpoint) :
    Best path mps (mps.foldl (better path) (none, 0)) := by
  induction mps using List.reverseRecOn with
  | nil => exact ⟨nofun, nofun, fun _ => rfl⟩
  | append_singleton mps mp ih =>
    rw [foldl_append, foldl_cons, foldl_nil]
    unfold better
    split_ifs with longer
    · refine ⟨?_, ?_, nofun⟩
      · rintro mp' ⟨⟩
        exact ⟨by simp, longer.1, rfl⟩
      · intro mp' mem covers
        obtain mem | mem := mem_append.mp mem
        · exact (ih.longest mp' mem covers).trans longer.2.le
        · exact (mem_singleton.mp mem) ▸ le_rfl
    · refine ⟨?_, ?_, ih.none⟩
      · intro mp' found
        obtain ⟨mem, covers, len⟩ := ih.covers mp' found
        exact ⟨by simp [mem], covers, len⟩
      · intro mp' mem covers
        obtain mem | mem := mem_append.mp mem
        · exact ih.longest mp' mem covers
        · obtain rfl := mem_singleton.mp mem
          exact not_lt.mp fun lt => longer ⟨covers, lt⟩

lemma findMountpointForPath_spec {path : Str} {mps : List Mountpoint} {root : Mountpoint}
    (mem : root ∈ mps) (covered : covers path root) (nonempty : root.path ≠ []) :
    ∃ mp ∈ mps, findMountpointForPath mps path = some mp ∧ covers path mp ∧
      ∀ mp' ∈ mps, covers path mp' → mp'.path.length ≤ mp.path.length := by
  have best := best_foldl path mps
  unfold findMountpointForPath
  cases found : (mps.foldl (better path) (none, 0)).1 with
  | none =>
    have le := best.longest root mem covered
    rw [best.none found] at le
    exact absurd (length_eq_zero_iff.mp (Nat.le_zero.mp le)) nonempty
  | some mp =>
    obtain ⟨mem', covers, len⟩ := best.covers mp found
    exact ⟨mp, mem', rfl, covers, len ▸ best.longest⟩

/-! ## Relative paths -/

/-- What `find_relpath` should find for a canonical path. -/
structure Relative (mps : List Mountpoint) (path : Str) (mp : Mountpoint) (relpath : Str) :
    Prop where
  mem : mp ∈ mps
  within : Within mp.path path
  longest : ∀ mp' ∈ mps, Within mp'.path path →
    (components slash mp'.path).length ≤ (components slash mp.path).length
  absolute : relpath.head? = some slash
  /-- The components of the path after those of the mountpoint. -/
  rest : relpath = render ((components slash path).drop (components slash mp.path).length)
  /-- Appended to the path of the mountpoint, it gives the path back. -/
  back : (components slash (mp.path ++ relpath)).map lower = (components slash path).map lower

lemma relative_rest {mp : Mountpoint} (own : canonical mp.path = mp.path) {p : Str}
    (within : Within mp.path (canonical p)) :
    (if mp.path = [slash] then canonical p
      else if (canonical p).drop mp.path.length = [] then [slash]
      else (canonical p).drop mp.path.length) =
    render ((components slash (canonical p)).drop (components slash mp.path).length) := by
  obtain ⟨path, valid⟩ := render_components own
  unfold Within at within
  rw [components_canonical] at within ⊢
  by_cases root : components slash mp.path = []
  · rw [if_pos (path.symm.trans (by rw [root]; rfl)), root]
    rfl
  · have path : mp.path = joined slash (components slash mp.path) :=
      path.symm.trans (if_neg root)
    have large := one_lt_length_joined root valid
    have notRoot : mp.path ≠ [slash] := by
      intro eq
      rw [eq] at large
      exact absurd large (by decide)
    have some_left : stack (components slash p) ≠ [] := by
      intro empty
      rw [empty] at within
      exact root (by simpa using within)
    have whole : canonical p = joined slash (stack (components slash p)) := if_neg some_left
    have rest : (canonical p).drop mp.path.length =
        joined slash ((stack (components slash p)).drop (components slash mp.path).length) := by
      have len := length_joined_take within
      rw [← path] at len
      rw [whole, joined_take_drop _ (components slash mp.path).length, drop_left' len]
    rw [if_neg notRoot, rest, render]
    simp only [joined_eq_nil]

lemma back_of_within {p q : Str} (within : Within p q) :
    (components slash (p ++ render ((components slash q).drop (components slash p).length))).map
      lower = (components slash q).map lower := by
  have valid : Valid ((components slash q).drop (components slash p).length) :=
    fun _ mem => isComponent_of_mem (mem_of_mem_drop mem)
  have append (st : List Str) (valid : Valid st) :
      components slash (p ++ render st) = components slash p ++ st := by
    obtain ⟨rest, eq⟩ := render_eq_cons st
    have own := components_render valid
    rw [eq, components_cons_sep] at own
    rw [eq, components_append_sep, own]
  rw [append _ valid, map_append, ← take_of_isPrefix within, ← map_append,
    take_append_drop]

section

variable {mps : List Mountpoint} {resolve : Str → Option Str} {pwd : Option Str} {inPath p : Str}

lemma findRelpath_eq (absolute : inPath.head? = some slash)
    (collapsed : pathCollapseDots (inPath.take pathMax) = (true, p)) (fits : p.length < pathMax)
    {mp : Mountpoint} (found : findMountpointForPath mps p = some mp) (covered : covers p mp) :
    findRelpath mps resolve pwd inPath = some (mp, if mp.path = [slash] then p
      else if p.drop mp.path.length = [] then [slash] else p.drop mp.path.length) := by
  have whole : strlcpy p (pathMax + 1) = p := take_of_length_le fits.le
  have rest : strlcpy (p.drop mp.path.length) (pathMax + 1) = p.drop mp.path.length :=
    take_of_length_le ((drop_sublist _ _).length_le.trans fits.le)
  have same : strnicmp p mp.path mp.path.length = true := by
    have eq := ((covers_eq_true p mp).mp covered).2.1
    rw [strnicmp, take_length]
    exact decide_eq_true eq.symm
  have copied : strlcpy inPath (pathMax + 1) = inPath.take pathMax := rfl
  rw [findRelpath, if_neg (not_not.mpr absolute)]
  simp only [bind, pure, bind_some, copied, collapsed, kassert, found, same, whole, rest,
    if_true]
  split_ifs <;> rfl

lemma relative_of_collapsed (table : Table mps) (absolute : inPath.head? = some slash)
    (collapsed : pathCollapseDots (inPath.take pathMax) = (true, canonical p))
    (fits : (canonical p).length < pathMax) :
    ∃ mp relpath, findRelpath mps resolve pwd inPath = some (mp, relpath) ∧
      Relative mps (canonical p) mp relpath := by
  obtain ⟨root, mem, path⟩ := table.root
  have root_within : Within root.path (canonical p) := by
    rw [path]
    exact nil_prefix
  obtain ⟨mp, mem, found, covered, longest⟩ := findMountpointForPath_spec mem
    ((covers_iff (table.canonical root mem) p).mpr root_within) (by simp [path])
  have own := table.canonical mp mem
  have within := (covers_iff own p).mp covered
  refine ⟨mp, _, findRelpath_eq absolute collapsed fits found covered, ?_⟩
  rw [relative_rest own within]
  refine ⟨mem, within, fun mp' mem' within' => ?_, ?_, rfl, back_of_within within⟩
  · have own' := table.canonical mp' mem'
    exact length_components_le_of_covers own own' within within'
      (longest mp' mem' ((covers_iff own' p).mpr within'))
  · obtain ⟨rest, eq⟩ := render_eq_cons
      ((components slash (canonical p)).drop (components slash mp.path).length)
    rw [eq, head?_cons]

/-- The mountpoint and the relative path of an absolute path are right for all mountpoints exactly
if the canonical form is, without the components that are lost. -/
theorem relative_iff (absolute : inPath.head? = some slash) :
    (∀ mps resolve pwd, Table mps → ∃ mp relpath,
      findRelpath mps resolve pwd inPath = some (mp, relpath) ∧
        Relative mps (canonical inPath) mp relpath) ↔
      cut (render (stack ((components slash (inPath.take pathMax)).filter short))) =
        canonical inPath := by
  have absolute' : (inPath.take pathMax).head? = some slash := by
    rw [head?_take, if_neg (by decide)]
    exact absolute
  have collapse := pathCollapseDots_eq absolute' (length_take_le _ _)
  constructor
  · intro right
    let root : Mountpoint := ⟨.initrd, [slash], 0⟩
    have table : Table [root] := ⟨⟨root, mem_singleton_self _, rfl⟩, by simp [root]; decide⟩
    obtain ⟨mp, relpath, found, relative⟩ := right [root] some none table
    obtain rfl := mem_singleton.mp relative.mem
    -- the relative path is the whole collapsed path
    obtain ⟨rest, starts⟩ :
        ∃ rest, cut (render (stack ((components slash (inPath.take pathMax)).filter short))) =
          slash :: rest := by
      obtain ⟨rest, eq⟩ :=
        render_eq_cons (stack ((components slash (inPath.take pathMax)).filter short))
      exact ⟨rest.take (pathMax - 2), by rw [eq]; rfl⟩
    have fits :=
      length_cut_lt (render (stack ((components slash (inPath.take pathMax)).filter short)))
    rw [starts] at collapse fits ⊢
    have covered : covers (slash :: rest) root := covers_root rfl rest
    have chosen : findMountpointForPath [root] (slash :: rest) = some root := by
      simp [findMountpointForPath, better, covered, root]
    rw [findRelpath_eq absolute collapse fits chosen covered, if_pos rfl] at found
    cases found
    have same := relative.rest
    rw [show components slash root.path = [] from rfl, length_nil, drop_zero,
      (render_components (canonical_canonical inPath)).1] at same
    exact same
  · intro same mps resolve pwd table
    have fits : (canonical inPath).length < pathMax := same ▸ length_cut_lt _
    rw [same] at collapse
    exact relative_of_collapsed table absolute collapse fits

end

/-- Mountpoints `/` and `/a`. -/
def rootAndA : List Mountpoint := [⟨.initrd, [slash], 0⟩, ⟨.ext2, [slash, 0x61], 1⟩]

/-- `/A/b` is `/b` on the file system at `/a`. -/
theorem relative_A_b : ∃ mp relpath,
    findRelpath rootAndA some none [slash, 0x41, slash, 0x62] = some (mp, relpath) ∧
      Relative rootAndA (canonical [slash, 0x41, slash, 0x62]) mp relpath :=
  (relative_iff (by decide)).mpr (by decide +kernel) rootAndA some none
    ⟨⟨_, mem_cons_self, rfl⟩, by decide⟩

/-- `/a/b…b/..` is `/a`, but with a component of 256 characters it is taken for `/`. -/
theorem wrong_mountpoint : canonical longComponent = [slash, 0x61] ∧
    findRelpath rootAndA some none longComponent = some (⟨.initrd, [slash], 0⟩, [slash]) ∧
    findRelpath rootAndA some none [slash, 0x61] =
      some (⟨.ext2, [slash, 0x61], 1⟩, [slash]) := by
  refine ⟨?_, ?_, ?_⟩ <;> decide +kernel

end ExscapeOS.Vfs
