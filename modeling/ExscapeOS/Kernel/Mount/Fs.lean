import ExscapeOS.Kernel.Mount.Table

/-!
# `fs_mount`

For each line of the table `fs_mount` goes through the list of mountpoints to the first one that the
line is for, which gets the path. All mountpoints up to this one get the depth of the path, and the
lines for FAT and ext2 partitions go to the first partition of either type. So the order of the
lines has to suit the order of the mountpoints, and the lines have to be read as they are written.
-/
namespace ExscapeOS.Mount

open Lib ExscapeOS.Path List Option

/-- The parts of a path after its first character, as counted with `strchr`. -/
def segments : Nat → Str → Nat
  | 0, _ => 0
  | n + 1, s => if s = [] then 0 else segments n (s.dropWhile (· ≠ slash)).tail + 1

def Line.depth (l : Line) : Nat := segments l.path.length (l.path.drop 1)

/-- What is in `devtable` for a mountpoint: `0xffffffff`, or a partition. -/
inductive FsType where
  | initrd | fat | ext2
  deriving DecidableEq

/-- The type's name in the table. -/
def FsType.word : FsType → Str
  | .initrd => [0x69, 0x6e, 0x69, 0x74, 0x72, 0x64]
  | .fat => [0x66, 0x61, 0x74]
  | .ext2 => [0x65, 0x78, 0x74, 0x32]

structure Mountpoint where
  type : FsType
  path : Str
  depth : Nat
  deriving DecidableEq

/-- The line is for this type. The types of partitions are not told apart. -/
def Line.takes (l : Line) (type : FsType) : Bool :=
  if l.mount = FsType.fat.word then type ≠ .initrd
  else if l.mount = FsType.ext2.word then type ≠ .initrd
  else if l.mount = FsType.initrd.word then type = .initrd
  else false

/-- The loop over the mountpoints, with the type that was mounted. -/
def Line.visit (l : Line) : List Mountpoint → List Mountpoint × Option FsType
  | [] => ([], none)
  | mp :: rest =>
    let mp := { mp with depth := l.depth }
    if l.takes mp.type then ({ mp with path := l.path } :: rest, some mp.type)
    else (mp :: (l.visit rest).1, (l.visit rest).2)

structure State where
  mountpoints : List Mountpoint
  rootMounted : Bool
  /-- `initrd_mp != NULL`. -/
  initrdMp : Bool

def State.mount (s : State) (l : Line) : State where
  mountpoints := (l.visit s.mountpoints).1
  rootMounted := s.rootMounted || ((l.visit s.mountpoints).2.isSome && l.path = [slash])
  initrdMp := s.initrdMp || ((l.visit s.mountpoints).2.isSome && l.mount = FsType.initrd.word)

/-- The loop over the lines. -/
def mountLines : Nat → Str → State → Option State
  | 0, _, _ => none
  | n + 1, p, s => do
    match ← readLine p with
    | none => return s
    | some (l, p) => if p.headD 0 = 0 then return s.mount l else mountLines n p (s.mount l)

/-- `fs_mount`, with the contents of `/etc/mounts`. -/
def fsMount (file : Str) (mountpoints : List Mountpoint) : Option (List Mountpoint) := do
  kassert (mountpoints ≠ [])
  let buf := file ++ [0]
  kassert (buf.headD 0 ≠ 0)
  let s ← mountLines buf.length buf ⟨mountpoints, false, false⟩
  kassert s.rootMounted
  kassert s.initrdMp
  return s.mountpoints

lemma mountLines_eq (n : Nat) (p : Str) (s : State) :
    mountLines n p s = (readLines n p).map fun ls => ls.foldl State.mount s := by
  induction n generalizing p s with
  | zero => rfl
  | succ n ih =>
    rw [mountLines, readLines]
    cases readLine p with
    | none => rfl
    | some r =>
      cases r with
      | none => rfl
      | some r =>
        simp only [bind, bind_some]
        split_ifs
        · rfl
        · rw [ih, Option.map_map]
          rfl

/-! ## What a mountpoint gets -/

/-- No mountpoint of these types takes the line. -/
def Line.reaches (l : Line) (before : List FsType) : Bool := !before.any l.takes

/-- A mountpoint after a line, if the mountpoints before it have these types. -/
def Mountpoint.next (before : List FsType) (mp : Mountpoint) (l : Line) : Mountpoint :=
  if l.reaches before then
    { mp with path := if l.takes mp.type then l.path else mp.path, depth := l.depth }
  else mp

/-- The types of the mountpoints, in the order of the list. -/
def types (mps : List Mountpoint) : List FsType := mps.map (·.type)

lemma visit_getElem? (l : Line) (mps : List Mountpoint) (i : Nat) :
    (l.visit mps).1[i]? = mps[i]?.map fun mp => mp.next ((types mps).take i) l := by
  induction mps generalizing i with
  | nil => rfl
  | cons mp rest ih =>
    rw [Line.visit]
    cases takes : l.takes mp.type with
    | true =>
      cases i with
      | zero => simp [takes, Mountpoint.next, Line.reaches]
      | succ i => simp [takes, types, Mountpoint.next, Line.reaches]
    | false =>
      cases i with
      | zero => simp [takes, Mountpoint.next, Line.reaches]
      | succ i => simp [takes, ih, types, Mountpoint.next, Line.reaches]

lemma types_visit (l : Line) (mps : List Mountpoint) : types (l.visit mps).1 = types mps := by
  induction mps with
  | nil => rfl
  | cons mp rest ih =>
    unfold types at ih
    rw [Line.visit]
    split_ifs
    · rfl
    · simp [types, ih]

lemma visit_isSome (l : Line) (mps : List Mountpoint) :
    (l.visit mps).2.isSome = (types mps).any l.takes := by
  induction mps with
  | nil => rfl
  | cons mp rest ih =>
    rw [Line.visit]
    cases takes : l.takes mp.type with
    | true => simp [takes, types]
    | false => simp [takes, types, ih]

lemma foldl_next (before : List FsType) (mp : Mountpoint) (ls : List Line) :
    ls.foldl (Mountpoint.next before) mp =
      { type := mp.type
        path :=
          (((ls.filter (·.reaches before)).filter (·.takes mp.type)).getLast?.map Line.path).getD
            mp.path
        depth := ((ls.filter (·.reaches before)).getLast?.map Line.depth).getD mp.depth } := by
  induction ls using List.reverseRecOn with
  | nil => rfl
  | append_singleton ls l ih =>
    rw [foldl_append, ih, foldl_cons, foldl_nil, Mountpoint.next]
    cases reaches : l.reaches before with
    | false => simp [reaches]
    | true =>
      cases takes : l.takes mp.type with
      | false => simp [reaches, takes]
      | true => simp [reaches, takes]

lemma foldl_mount_getElem? (ls : List Line) (s : State) (i : Nat) :
    (ls.foldl State.mount s).mountpoints[i]? = s.mountpoints[i]?.map fun mp =>
      ls.foldl (Mountpoint.next ((types s.mountpoints).take i)) mp := by
  induction ls generalizing s with
  | nil => simp
  | cons l ls ih =>
    have same : types (s.mount l).mountpoints = types s.mountpoints := types_visit l _
    have step : (s.mount l).mountpoints[i]? = _ := visit_getElem? l s.mountpoints i
    rw [foldl_cons, ih, same, step, Option.map_map]
    rfl

lemma foldl_mount_flags (ls : List Line) (s : State) :
    (ls.foldl State.mount s).rootMounted =
        (s.rootMounted || ls.any fun l => (types s.mountpoints).any l.takes && l.path = [slash]) ∧
      (ls.foldl State.mount s).initrdMp = (s.initrdMp || ls.any fun l =>
        (types s.mountpoints).any l.takes && l.mount = FsType.initrd.word) := by
  induction ls generalizing s with
  | nil => simp
  | cons l ls ih =>
    have same : types (s.mount l).mountpoints = types s.mountpoints := types_visit l _
    rw [foldl_cons, (ih _).1, (ih _).2, same, State.mount, visit_isSome]
    simp [Bool.or_assoc]

/-! ## What a file system should get -/

/-- `fs_mount` returns, and each file system with a line in the file has the path of this line, and
the number of its components as depth. -/
def Mounts (file : Str) (mps : List Mountpoint) : Prop :=
  ∃ mps', fsMount file mps = some mps' ∧ types mps' = types mps ∧
    ∀ mp ∈ mps', ∀ l ∈ lines file, l.mount = mp.type.word →
      mp.path = l.path ∧ mp.depth = (components slash l.path).length

/-- A root file system and the initrd are mounted. -/
def Bootable (ls : List Line) (types : List FsType) : Prop :=
  (∃ l ∈ ls, l.path = [slash] ∧ ∃ type ∈ types, l.takes type) ∧
    .initrd ∈ types ∧ ∃ l ∈ ls, l.mount = FsType.initrd.word

instance (ls : List Line) (types : List FsType) : Decidable (Bootable ls types) :=
  inferInstanceAs (Decidable (_ ∧ _))

/-- The lines serve a file system as its own line `l` asks, if those before it have the types
`before`. -/
structure Served (ls : List Line) (before : List FsType) (type : FsType) (l : Line) : Prop where
  /-- The last line that it takes has the path. -/
  path : ((ls.filter (·.reaches before)).filter (·.takes type)).getLast?.map Line.path = some l.path
  /-- The last line that no file system before it takes has the right depth. -/
  depth : (ls.filter (·.reaches before)).getLast?.map Line.depth =
    some (components slash l.path).length

lemma served_iff {ls : List Line} {before : List FsType} {mp : Mountpoint} {l : Line}
    (named : l.path ≠ []) (unset : mp.path = []) :
    ((ls.foldl (Mountpoint.next before) mp).path = l.path ∧
      (ls.foldl (Mountpoint.next before) mp).depth = (components slash l.path).length) ↔
        Served ls before mp.type l := by
  simp only [foldl_next, unset]
  cases taken : ((ls.filter (·.reaches before)).filter (·.takes mp.type)).getLast? with
  | none =>
    refine ⟨fun h => absurd h.1.symm named, fun h => ?_⟩
    have path := h.path
    rw [taken] at path
    cases path
  | some l' =>
    have reaches : ls.filter (·.reaches before) ≠ [] :=
      ne_nil_of_mem (mem_filter.mp (mem_of_getLast? taken)).1
    obtain ⟨last, is_last⟩ := ne_none_iff_exists'.mp (mt getLast?_eq_none_iff.mp reaches)
    simp only [is_last, map_some, getD_some]
    constructor
    · rintro ⟨path, depth⟩
      exact ⟨by rw [taken, map_some, path], by rw [is_last, map_some, depth]⟩
    · rintro ⟨path, depth⟩
      rw [taken] at path
      rw [is_last] at depth
      exact ⟨some.inj path, some.inj depth⟩

lemma takes_initrd_word {l : Line} (word : l.mount = FsType.initrd.word) (type : FsType) :
    l.takes type ↔ type = .initrd := by
  unfold Line.takes
  rw [word]
  cases type <;> decide

lemma bootable_iff (ls : List Line) (mps : List Mountpoint) : Bootable ls (types mps) ↔
    (ls.foldl State.mount ⟨mps, false, false⟩).rootMounted ∧
      (ls.foldl State.mount ⟨mps, false, false⟩).initrdMp := by
  rw [(foldl_mount_flags ls _).1, (foldl_mount_flags ls _).2]
  simp only [Bool.false_or, List.any_eq_true, Bool.and_eq_true, decide_eq_true_eq, Bootable]
  refine and_congr ?_ ?_
  · simp only [and_comm]
  · constructor
    · rintro ⟨mem, l, line, word⟩
      exact ⟨l, line, ⟨.initrd, mem, (takes_initrd_word word _).mpr rfl⟩, word⟩
    · rintro ⟨l, line, ⟨type, mem, takes⟩, word⟩
      exact ⟨(takes_initrd_word word type).mp takes ▸ mem, l, line, word⟩

lemma fsMount_eq_some {file : Str} {mps mps' : List Mountpoint} :
    fsMount file mps = some mps' ↔ ∃ ls, table file = some ls ∧ Bootable ls (types mps) ∧
      mps' = (ls.foldl State.mount ⟨mps, false, false⟩).mountpoints := by
  simp only [fsMount, table, bind, pure, kassert_eq_some, mountLines_eq, bootable_iff, exists_const,
    bind_eq_some_iff, map_eq_some_iff, some.injEq]
  constructor
  · rintro ⟨_, more, s, ⟨ls, read, rfl⟩, root, initrd, rfl⟩
    exact ⟨ls, ⟨more, read⟩, ⟨root, initrd⟩, rfl⟩
  · rintro ⟨ls, ⟨more, read⟩, boots, rfl⟩
    refine ⟨?_, more, _, ⟨ls, read, rfl⟩, boots.1, boots.2, rfl⟩
    rintro rfl
    exact not_mem_nil ((bootable_iff ls []).mpr boots).2.1

lemma types_foldl_mount (ls : List Line) (s : State) :
    types (ls.foldl State.mount s).mountpoints = types s.mountpoints := by
  induction ls generalizing s with
  | nil => rfl
  | cons l ls ih => exact (ih _).trans (types_visit l _)

/-- `ext2 /ext2` and `initrd /`. -/
def ext2First : Str :=
  [0x65, 0x78, 0x74, 0x32, 0x20, 0x2f, 0x65, 0x78, 0x74, 0x32, 0x0a,
    0x69, 0x6e, 0x69, 0x74, 0x72, 0x64, 0x20, 0x2f, 0x0a]

/-- `initrd /` and `ext2 /ext2`. -/
def initrdFirst : Str :=
  [0x69, 0x6e, 0x69, 0x74, 0x72, 0x64, 0x20, 0x2f, 0x0a,
    0x65, 0x78, 0x74, 0x32, 0x20, 0x2f, 0x65, 0x78, 0x74, 0x32, 0x0a]

def ext2FirstLines : List Line :=
  [⟨FsType.ext2.word, [0x2f, 0x65, 0x78, 0x74, 0x32]⟩, ⟨FsType.initrd.word, [0x2f]⟩]

end ExscapeOS.Mount
