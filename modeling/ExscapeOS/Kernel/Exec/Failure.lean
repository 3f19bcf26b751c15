import ExscapeOS.Kernel.Exec.Basic
import ExscapeOS.Kernel.Vmm.Frame
import ExscapeOS.Kernel.Vmm.Space

/-!
# A failed `execve`

If `execve` returns, the task has its address space, its working directory and its break as before.
So are its descriptors, unless the file has been opened and cannot be read: `elf_load_int` then
jumps over the `close`.
-/
namespace ExscapeOS.Exec

open Lib Vmm Vmm.Vm Files Function List Option

variable {fs : FileSystem} {reentSize : Nat} {t : Pid} {args : Args} {path : Str} {s s' : State}
  {files files' : Tables} {vm vm' vm₀ : Vm} {r : Int}

/-! ## Descriptors -/

lemma openFd_fsOpen (lookup : Tables.Lookup) (files : Tables) :
    (openFd t lookup files).map Prod.snd = files.fsOpen t lookup := by
  induction lookup generalizing files with
  | found f => simp [openFd, Tables.fsOpen, map_bind]
  | missing f => simp [openFd, Tables.fsOpen, map_bind]
  | link f target ih =>
    simp only [openFd, Tables.fsOpen, bind, map_bind, Function.comp_def, pure, ← ih,
      bind_map, map_some, bind_fun_some]

lemma openFd_slot {lookup : Tables.Lookup} {fd : Option Slot}
    (h : openFd t lookup files = some (fd, files')) :
    match fd with
    | none => finds lookup = false ∧ ∀ i, files'.fdtable t i = files.fdtable t i
    | some i => finds lookup = true ∧ files.fdtable t i = none ∧ files'.fdtable t i ≠ none := by
  induction lookup generalizing files files' with
  | found f =>
    simp only [openFd, bind, bind_eq_some_iff, pure, some.injEq, Prod.mk.injEq] at h
    obtain ⟨⟨i, files₁⟩, new, files₂, added, rfl, rfl⟩ := h
    obtain ⟨-, empty, rfl⟩ := newFilp_spec new
    obtain ⟨c, -, rfl⟩ := map_eq_some_iff.mp added
    exact ⟨rfl, empty, by simp [setSlot_fdtable]⟩
  | missing f =>
    simp only [openFd, bind, bind_eq_some_iff, pure, some.injEq, Prod.mk.injEq] at h
    obtain ⟨⟨i, files₁⟩, new, files₂, dropped, rfl, rfl⟩ := h
    obtain ⟨-, empty, rfl⟩ := newFilp_spec new
    obtain ⟨g, -, rfl⟩ := destroyFilp_spec dropped
    exact ⟨rfl, by grind⟩
  | link f target ih =>
    simp only [openFd, bind, bind_eq_some_iff, pure, some.injEq, Prod.mk.injEq] at h
    obtain ⟨⟨i, files₁⟩, new, ⟨fd', files₂⟩, opened, files₃, dropped, rfl, rfl⟩ := h
    obtain ⟨-, empty, rfl⟩ := newFilp_spec new
    obtain ⟨g, slot, rfl⟩ := destroyFilp_spec dropped
    have inner := ih opened
    cases fd' with
    | none => exact ⟨inner.1, by grind⟩
    | some j =>
      obtain ⟨found, empty', filled⟩ := inner
      exact ⟨found, by grind, by grind⟩

lemma openFd_none {lookup : Tables.Lookup} (h : openFd t lookup files = some (none, files')) :
    finds lookup = false ∧ files' = files := by
  obtain ⟨missing, same⟩ := openFd_slot h
  have opens : Opens files t files' := by
    refine fsOpen_opens lookup ?_
    rw [← openFd_fsOpen, h]
    rfl
  refine ⟨missing, ?_⟩
  cases opens with
  | nothing => rfl
  | @file j g empty free =>
    have changed := same j
    simp [setSlot_fdtable, empty] at changed

/-- Closing the slot that a lookup has filled leaves the tables as they were. -/
lemma openFd_close {lookup : Tables.Lookup} {i : Slot} {files'' : Tables}
    (h : openFd t lookup files = some (some i, files')) (closed : files'.close i t = some files'') :
    files'' = files := by
  obtain ⟨-, empty, filled⟩ := openFd_slot h
  have opens : Opens files t files' := by
    refine fsOpen_opens lookup ?_
    rw [← openFd_fsOpen, h]
    rfl
  cases opens with
  | nothing => exact absurd empty filled
  | @file j g empty' free =>
    obtain rfl : j = i := by
      by_contra ne
      exact filled (by simpa [setSlot_fdtable, Ne.symm ne] using empty)
    have slot : Tables.slotOf (j : Nat) = some j := by
      unfold Tables.slotOf
      rw [dif_neg (by omega)]
      simp
    simp only [Tables.close, slot, Tables.doClose, setCount_fdtable, setSlot_fdtable, and_self,
      if_true, setCount_count, bind, bind_some, Nat.lt_irrefl, if_false, Nat.sub_self, pure,
      map_some, some.injEq] at closed
    subst closed
    exact tables_ext rfl (by grind) (by grind)

/-! ## The loader -/

/-- The file can be opened, but not read. -/
def Unreadable (fs : FileSystem) (path : Str) : Prop :=
  finds (fs.lookup path) = true ∧ (fs.read path).1 ≠ signed32 (fs.stat path).2

/-- What a failed call of the loader leaves behind. -/
structure LoadFailed (fs : FileSystem) (t : Pid) (path : Str) (s s' : State) : Prop where
  mm : s'.mm = s.mm
  pwd : s'.pwd = s.pwd
  fdtable : s'.files.fdtable t = s.files.fdtable t ↔ ¬ Unreadable fs path
  own : ∀ vm₀ d, OwnDir vm₀ d s.vm → OwnDir vm₀ d s'.vm

lemma elfLoadErr_spec {data : Nat} {retval : Int} (h : elfLoadErr data retval s = some (r, s')) :
    r = retval ∧ ∃ vm, s.vm.kfree data = some vm ∧ s' = { s with vm := vm } := by
  simp only [elfLoadErr, bind, bind_eq_some_iff, kassert_eq_some, exists_const, pure,
    some.injEq, Prod.mk.injEq] at h
  obtain ⟨vm, freed, -, rfl, rfl⟩ := h
  exact ⟨rfl, vm, freed, rfl⟩

lemma elfLoadInt_failed {argv envp : List Str} (found : (fs.stat path).1 = 0)
    (h : elfLoadInt fs reentSize t path argv envp s = some (r, s')) (failed : r ≠ 0) :
    LoadFailed fs t path s s' := by
  simp only [elfLoadInt, found, ne_eq, not_true_eq_false, if_false, bind,
    bind_eq_some_iff] at h
  obtain ⟨⟨data, vm₁⟩, alloc, ⟨fd, files₁⟩, opened, h⟩ := h
  have own (vm₀ : Vm) (d : Nat) (before : OwnDir vm₀ d s.vm) : OwnDir vm₀ d vm₁ :=
    before.newBlock (kmalloc_newBlock alloc)
  cases fd with
  | none =>
    obtain ⟨-, vm₂, freed, rfl⟩ := elfLoadErr_spec h
    obtain ⟨missing, rfl⟩ := openFd_none opened
    refine ⟨rfl, rfl, ?_, fun vm₀ d before => (own vm₀ d before).kfree freed⟩
    simp [Unreadable, missing]
  | some fd =>
    obtain ⟨finds, empty, filled⟩ := openFd_slot opened
    split_ifs at h with unread elf
    · rw [bind_eq_some_iff] at h
      obtain ⟨files₂, closed, h⟩ := h
      rw [bind_eq_some_iff] at h
      obtain ⟨⟨mm, vm⟩, -, h⟩ := h
      exact absurd (elfLoadErr_spec h).1 failed
    · rw [bind_eq_some_iff] at h
      obtain ⟨files₂, closed, h⟩ := h
      obtain ⟨-, vm₂, freed, rfl⟩ := elfLoadErr_spec h
      refine ⟨rfl, rfl, ?_, fun vm₀ d before => (own vm₀ d before).kfree freed⟩
      have same := openFd_close opened closed
      exact iff_of_true (by rw [same]) fun unreadable => unreadable.2 unread
    · -- the file stays open
      obtain ⟨-, vm₂, freed, rfl⟩ := elfLoadErr_spec (kassert_bind_eq_some.mp h).2
      refine ⟨rfl, rfl, ?_, fun vm₀ d before => (own vm₀ d before).kfree freed⟩
      refine iff_of_false (fun same => filled ?_) (fun readable => readable ⟨finds, unread⟩)
      rw [← empty]
      exact congrFun same fd

/-! ## The call -/

/-- What holds of a user task that calls `execve`. -/
structure Caller (s : State) : Prop where
  layout : Layout s.vm s.mm
  old : s.mm.directory < s.vm.next
  kernel : KernelOnly s.vm

/-- The task `t` has in `s'` what it had in `s`. The break is a part of `mm`. -/
structure AsBefore (t : Pid) (s s' : State) : Prop where
  mm : s'.mm = s.mm
  entry : s'.vm.entry s.mm.directory = s.vm.entry s.mm.directory
  frames : ∀ p, (s.vm.entry s.mm.directory p).user = true →
    s'.vm.pmm.used (s.vm.entry s.mm.directory p).frame = true ∧
      s'.vm.mem (s.vm.entry s.mm.directory p).frame = s.vm.mem (s.vm.entry s.mm.directory p).frame
  fdtable : s'.files.fdtable t = s.files.fdtable t
  pwd : s'.pwd = s.pwd

lemma AsBefore.of_spares (caller : Caller s) (spares : Spares s.vm s'.vm) (mm : s'.mm = s.mm)
    (pwd : s'.pwd = s.pwd) :
    AsBefore t s s' ↔ s'.files.fdtable t = s.files.fdtable t := by
  refine ⟨AsBefore.fdtable, fun fdtable => ⟨mm, ?_, fun p user => ?_, fdtable, pwd⟩⟩
  · exact spares.entry caller.layout.ok.dir caller.old
  · have used := (Pmm.pooled_iff.mp (caller.layout.ok.pages.used p user)).1
    exact ⟨spares.used _ used, spares.mem _ used⟩

/-- The arguments pass all checks. -/
def Args.valid (fs : FileSystem) (args : Args) (path : Str) : Prop :=
  args.path = some path ∧ (fs.stat path).1 = 0 ∧ (args.argv.bind UserArray.strings).isSome ∧
    (args.envp.join.bind UserArray.strings).isSome

lemma kmallocs_spares {n : Nat} (spares : Spares vm₀ vm) (h : kmallocs n vm = some vm') :
    Spares vm₀ vm' ∧ vm'.dir = vm.dir ∧ vm'.kernelDirectory = vm.kernelDirectory := by
  induction n generalizing vm with
  | zero =>
    cases h
    exact ⟨spares, rfl, rfl⟩
  | succ n ih =>
    simp only [kmallocs, bind, bind_eq_some_iff] at h
    obtain ⟨⟨b, vm₁⟩, alloc, more⟩ := h
    have new := kmalloc_newBlock alloc
    obtain ⟨spares', dir, kernel⟩ := ih (spares.newBlock new) more
    exact ⟨spares', dir.trans new.dir, kernel.trans new.kernelDirectory⟩

/-- The new address space is gone, and the old one as it was. -/
lemma execve_returned {argv envp : List Str} {mm : TaskMm} {kpath : Nat}
    (found : (fs.stat path).1 = 0) (own : OwnDir vm₀ mm.directory vm)
    (space : ∀ a ∈ mm.areas, ∀ addr ∈ pagesFrom a.start a.stop, isUserSpace addr)
    (h : execve fs reentSize t path kpath argv envp s.mm { s with mm := mm, vm := vm } =
      some (.returned r s')) :
    Spares vm₀ s'.vm ∧ s'.mm = s.mm ∧ s'.pwd = s.pwd ∧
      (s'.files.fdtable t = s.files.fdtable t ↔ ¬ Unreadable fs path) := by
  simp only [execve, bind, bind_eq_some_iff] at h
  obtain ⟨⟨r', s₁⟩, loaded, vm₂, freed, h⟩ := h
  split_ifs at h with success
  · simp [bind_eq_some_iff] at h
  · rw [kassert_bind_eq_some] at h
    simp only [bind_eq_some_iff, pure, some.injEq, Outcome.returned.injEq] at h
    obtain ⟨-, vm₃, down, rfl, rfl⟩ := h
    have failed := elfLoadInt_failed found loaded success
    have own₂ := (failed.own vm₀ mm.directory own).kfree freed
    have mm_eq : s₁.mm = mm := failed.mm
    rw [mm_eq] at down
    exact ⟨(own₂.teardown space down).toSpares, rfl, failed.pwd, failed.fdtable⟩

/-- A call that returns has refused its arguments, or called `execve` in a new address space. -/
lemma sysExecve_cases (kernel : KernelOnly s.vm)
    (h : sysExecve fs reentSize t args s = some (.returned r s')) :
    s' = s ∧ (∀ path, ¬ args.valid fs path) ∨
      ∃ path argv envp kpath mm vm, args.valid fs path ∧ OwnDir s.vm mm.directory vm ∧
        (∀ a ∈ mm.areas, ∀ addr ∈ pagesFrom a.start a.stop, isUserSpace addr) ∧
        execve fs reentSize t path kpath argv envp s.mm { s with mm := mm, vm := vm } =
          some (.returned r s') := by
  unfold sysExecve at h
  have refused {r' : Int} (h : some (Outcome.returned r' s) = some (.returned r s'))
      (invalid : ∀ path, ¬ args.valid fs path) : s' = s ∧ ∀ path, ¬ args.valid fs path := by
    simp only [some.injEq, Outcome.returned.injEq] at h
    exact ⟨h.2.symm, invalid⟩
  split at h
  · case h_1 none => exact .inl (refused h fun path valid => by simp [Args.valid, none] at valid)
  case h_2 path some_path =>
  split_ifs at h with missing
  · refine .inl (refused h fun path' valid => ?_)
    obtain rfl : path = path' := by simpa [some_path] using valid.1
    exact missing valid.2.1
  split at h
  · case h_1 none => exact .inl (refused h fun path valid => by simp [Args.valid, none] at valid)
  · case h_2 none => exact .inl (refused h fun path valid => by simp [Args.valid, none] at valid)
  case h_3 argv envp some_argv some_envp =>
  split at h
  · case h_1 none =>
    exact .inl (refused h fun path valid => by simp [Args.valid, some_argv, none] at valid)
  case h_2 argv' strings =>
  simp only [bind, bind_eq_some_iff] at h
  obtain ⟨envp', rfl, h⟩ := h
  split at h
  · case h_1 none =>
    exact .inl (refused h fun path valid => by simp [Args.valid, some_envp, none] at valid)
  case h_2 envp' strings' =>
  simp only [bind_eq_some_iff] at h
  obtain ⟨vm₁, copied, vm₂, copied', ⟨kpath, vm₃⟩, alloc, ⟨mm, vm₄⟩, created, h⟩ := h
  obtain ⟨spares₁, dir₁, kernel₁⟩ := kmallocs_spares (.refl s.vm) copied
  obtain ⟨spares₂, dir₂, kernel₂⟩ := kmallocs_spares spares₁ copied'
  have new := kmalloc_newBlock alloc
  have kernel₃ : KernelOnly vm₃ := by
    intro i space
    rw [new.kernelDirectory, new.dir, kernel₂, kernel₁, dir₂, dir₁]
    exact kernel i space
  obtain ⟨own, space⟩ := vmmCreateUserMm_own (spares₂.newBlock new) kernel₃ created
  refine .inr ⟨path, argv', envp', kpath, mm, vm₄, ⟨some_path, not_not.mp missing, ?_, ?_⟩,
    own, space, h⟩
  · simp [some_argv, strings]
  · simp [some_envp, strings']

/-- If `execve` returns, the task has what it had before, unless the file found cannot be read. -/
theorem execve_as_before_iff (caller : Caller s)
    (h : sysExecve fs reentSize t args s = some (.returned r s')) :
    AsBefore t s s' ↔ ¬ ∃ path, args.valid fs path ∧ Unreadable fs path := by
  obtain ⟨rfl, refused⟩ | ⟨path, argv, envp, kpath, mm, vm, valid, own, space, called⟩ :=
    sysExecve_cases caller.kernel h
  · rw [AsBefore.of_spares caller (.refl _) rfl rfl]
    exact iff_of_true rfl fun ⟨path, valid, _⟩ => refused path valid
  · obtain ⟨spares, mm_eq, pwd, fdtable⟩ := execve_returned valid.2.1 own space called
    rw [AsBefore.of_spares caller spares mm_eq pwd, fdtable, not_iff_not]
    refine ⟨fun unreadable => ⟨path, valid, unreadable⟩, fun ⟨path', valid', unreadable⟩ => ?_⟩
    obtain rfl : path = path' := some.inj (valid.1.symm.trans valid'.1)
    exact unreadable

/-- A file system with one file of 4096 bytes; `read` returns `r`. -/
def oneFile (r : Int) : FileSystem where
  stat _ := (0, 4096)
  lookup _ := .found 7
  error _ := -2
  error_neg _ := by decide
  read _ := (r, fun _ => 0)

/-- `execve("/", {NULL}, {NULL})`. -/
def rootArgs : Args := { path := some [47], argv := some .null, envp := some (some .null) }

/-- A task without open files, with the address space of its creation. -/
def newTask (mm : TaskMm) (vm : Vm) : State where
  mm := mm
  pwd := [47]
  files := { boot with tasks := {1} }
  vm := vm

lemma newTask_caller {mm : TaskMm} (created : (bareMachine 64).vmmCreateUserMm = some (mm, vm)) :
    Caller (newTask mm vm) := by
  have numbers : ((bareMachine 64).vmmCreateUserMm.map fun s =>
      (decide (s.1.directory < s.2.next), s.2.kernelDirectory)) =
        some (true, 0) := by decide +kernel
  simp only [created, map_some, some.injEq, Prod.mk.injEq, decide_eq_true_eq] at numbers
  have own := (vmmCreateUserMm_own (.refl _) (fun _ _ => rfl) created).1
  refine ⟨vmmCreateUserMm_layout (bareMachine_kernelOk 64) created, numbers.1, fun i _ => ?_⟩
  change vm.dir vm.kernelDirectory i = none
  rw [numbers.2, own.dir 0 (by decide)]
  rfl

theorem execve_as_before_sample : ∃ mm vm s',
    sysExecve (oneFile 4096) 1024 1 rootArgs (newTask mm vm) = some (.returned (-enoexec) s') ∧
      AsBefore 1 (newTask mm vm) s' := by
  have done : ((bareMachine 64).vmmCreateUserMm.bind fun m =>
      (sysExecve (oneFile 4096) 1024 1 rootArgs (newTask m.1 m.2)).map fun
        | .returned r _ => r
        | .replaced _ => 0) = some (-enoexec) := by decide +kernel
  obtain ⟨⟨mm, vm⟩, created, ran⟩ := bind_eq_some_iff.mp done
  obtain ⟨outcome, ran, eq⟩ := map_eq_some_iff.mp ran
  cases outcome with
  | replaced s' => exact absurd eq (show (0 : Int) ≠ -enoexec by decide)
  | returned r s' =>
    obtain rfl : r = -enoexec := eq
    refine ⟨mm, vm, s', ran, (execve_as_before_iff (newTask_caller created) ran).mpr ?_⟩
    rintro ⟨path, -, -, unread⟩
    exact unread (show (4096 : Int) = signed32 4096 by decide)

/-- If `read` fails, as for a directory, a descriptor is left behind. -/
theorem descriptor_left_open : ∃ mm vm s', Caller (newTask mm vm) ∧
    sysExecve (oneFile (-21)) 1024 1 rootArgs (newTask mm vm) = some (.returned (-21) s') ∧
      (newTask mm vm).files.fdtable 1 0 = none ∧ s'.files.fdtable 1 0 = some 7 := by
  have done : ((bareMachine 64).vmmCreateUserMm.bind fun m =>
      (sysExecve (oneFile (-21)) 1024 1 rootArgs (newTask m.1 m.2)).map fun
        | .returned r s => (r, s.files.fdtable 1 0)
        | .replaced _ => (0, none)) = some (-21, some 7) := by decide +kernel
  obtain ⟨⟨mm, vm⟩, created, ran⟩ := bind_eq_some_iff.mp done
  obtain ⟨outcome, ran, eq⟩ := map_eq_some_iff.mp ran
  cases outcome with
  | replaced s' => exact absurd (congrArg Prod.fst eq) (show (0 : Int) ≠ -21 by decide)
  | returned r s' =>
    obtain ⟨rfl, slot⟩ := Prod.mk.inj eq
    exact ⟨mm, vm, s', newTask_caller created, ran, rfl, slot⟩

end ExscapeOS.Exec
