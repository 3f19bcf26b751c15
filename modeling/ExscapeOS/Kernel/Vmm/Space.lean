import ExscapeOS.Kernel.Vmm.Areas

/-!
# The address space of a user task

What a user task and the ELF loader can do to the memory of the task, as a transition system. From
its creation on, the list of areas and the page directory agree.
-/
namespace ExscapeOS.Vmm

open Lib Function Vm List Option

variable {vm vm' : Vm} {mm mm' : TaskMm} {d n p addr : Nat}

/-! ## The break and the stack -/

section

variable (layout : Layout vm mm)
include layout

lemma Layout.vmmSetGuard {guard : Bool} (small : addr < wordSize)
    (h : vm.vmmSetGuard addr mm.directory guard = some vm') : Layout vm' mm := by
  have sets := vmmSetGuard_sets layout.ok.dir (tableIndex_lt small) h
  have flags (p : Nat) : (vm'.entry mm.directory p).user = (vm.entry mm.directory p).user ∧
      (vm'.entry mm.directory p).rw = (vm.entry mm.directory p).rw := by
    rw [sets.entry]
    by_cases own : p = addr / pageSize <;> simp [own]
  refine ⟨⟨sets.ok, ?_⟩, layout.areas, layout.apart, fun p user => ?_, fun a mem p here => ?_⟩
  · rw [sets.entry]
    exact (layout.ok.pages.guard (addr / pageSize) guard).mono sets.used
  · exact layout.covered p ((flags p).1 ▸ user)
  · rw [(flags p).1, (flags p).2]
    exact layout.inside a mem p here

lemma Layout.congr (areas : mm'.areas = mm.areas) (directory : mm'.directory = mm.directory)
    (framesUsed : mm'.framesUsed = mm.framesUsed) : Layout vm mm' := by
  constructor
  · rw [directory, framesUsed]
    exact layout.ok
  · rw [areas]
    exact layout.areas
  · rw [areas]
    exact layout.apart
  · rw [areas, directory]
    exact layout.covered
  · rw [areas, directory]
    exact layout.inside

lemma Layout.sbrk {delta : Int} {ret : Nat} (h : vm.sbrk delta mm = some (ret, mm', vm')) :
    Layout vm' mm' ∧ mm'.userStackGuardPage = mm.userStackGuardPage := by
  simp only [Vm.sbrk, bind, bind_eq_some_iff, kassert_eq_some, exists_const] at h
  obtain ⟨-, h⟩ := h
  split_ifs at h
  · obtain ⟨-, rfl, rfl⟩ := h
    exact ⟨layout, rfl⟩
  · simp only [bind_eq_some_iff, kassert_eq_some, exists_const, pure, some.injEq,
      Prod.mk.injEq] at h
    obtain ⟨limit, ⟨mm₁, vm₁⟩, alloc, -, rfl, rfl⟩ := h
    obtain ⟨layout₁, same⟩ := layout.vmmAllocUser (limit.trans (by decide)) alloc
    exact ⟨layout₁.congr rfl rfl rfl, same.guard⟩
  · obtain ⟨-, rfl, rfl⟩ := h
    exact ⟨layout, rfl⟩
  · simp only [bind_eq_some_iff, kassert_eq_some, exists_const, pure, some.injEq,
      Prod.mk.injEq] at h
    obtain ⟨⟨-, aligned⟩, ⟨mm₁, vm₁⟩, resized, -, rfl, rfl⟩ := h
    obtain ⟨layout₁, same⟩ := layout.vmmResizeArea (sub32_lt _ _) aligned resized
    exact ⟨layout₁.congr rfl rfl rfl, same.guard⟩

lemma Layout.moveGuard {oldGuard newGuard : Nat} (oldSmall : oldGuard < wordSize)
    (newSmall : newGuard < wordSize) (h : vm.moveGuard oldGuard newGuard mm = some (mm', vm')) :
    Layout vm' mm' := by
  simp only [Vm.moveGuard, bind, bind_eq_some_iff, pure, some.injEq,
    Prod.mk.injEq] at h
  obtain ⟨⟨mm₁, vm₁⟩, alloc, vm₂, cleared, vm₃, set, rfl, rfl⟩ := h
  have grown := (layout.vmmAllocUser oldSmall alloc).1
  have moved := (grown.vmmSetGuard oldSmall cleared).vmmSetGuard newSmall set
  exact moved.congr rfl rfl rfl

lemma Layout.growStack (h : vm.growStack addr mm = some (some (mm', vm'))) : Layout vm' mm' := by
  simp only [Vm.growStack] at h
  split_ifs at h
  · cases h
  · obtain ⟨_, moved, eq⟩ := map_eq_some_iff.mp h
    cases eq
    exact layout.moveGuard (sub32_lt _ _) (sub32_lt _ _) moved
  · cases h

end

/-! ## Creation -/

/-- The kernel's page directory, in which no page is accessible to user mode. -/
structure KernelOk (vm : Vm) : Prop where
  dir : DirOk vm vm.kernelDirectory
  kernelPages : ∀ p, (vm.entry vm.kernelDirectory p).user = false

lemma KernelOk.newBlock {t : Nat} (kernel : KernelOk vm) (new : NewBlock vm t vm') :
    KernelOk vm' := by
  have keeps := new.keeps kernel.dir
  rw [← new.kernelDirectory] at keeps
  exact ⟨keeps.ok, fun p => by rw [keeps.entry, new.kernelDirectory]; exact kernel.kernelPages p⟩

lemma createUserPageDir_spec (kernel : KernelOk vm) (h : vm.createUserPageDir = some (d, vm')) :
    DirOk vm' d ∧ vm'.entry d = vm.entry vm.kernelDirectory := by
  simp only [createUserPageDir, bind, bind_eq_some_iff, pure, some.injEq,
    Prod.mk.injEq] at h
  obtain ⟨⟨d', vm₁⟩, alloc, ⟨node, vm₂⟩, alloc', rfl, rfl⟩ := h
  have new := kmalloc_newBlock alloc
  have first := new.keeps kernel.dir
  -- the new directory is a copy of the kernel's
  have copy : (vm₁.setDir d' (vm₁.dir vm₁.kernelDirectory)).dir d' =
    vm₁.dir vm.kernelDirectory := by
    rw [setDir_dir, new.kernelDirectory]
  have ok : DirOk (vm₁.setDir d' (vm₁.dir vm₁.kernelDirectory)) d' := by
    refine ⟨?_, ?_, ?_⟩ <;> rw [copy]
    · exact first.ok.bound
    · exact first.ok.inj
    · exact first.ok.old
  have entry : (vm₁.setDir d' (vm₁.dir vm₁.kernelDirectory)).entry d' =
      vm.entry vm.kernelDirectory := by
    rw [← first.entry]
    funext p
    unfold Vm.entry pte
    rw [copy]
    rfl
  have last := (kmalloc_newBlock alloc').keeps ok
  exact ⟨last.ok.congr rfl le_rfl, last.entry.trans entry⟩

/-- The address of the guard page of a new task. -/
def firstGuard : Nat := userStackStart - (userStackSize + pageSize)

/-- `vmm_create_user_mm` allocates the stack beside the pages of the kernel. -/
lemma vmmCreateUserMm_stack (kernel : KernelOk vm) (h : vm.vmmCreateUserMm = some (mm, vm')) :
    ∃ mm₀ vm₀ mm₁ vm₁, Layout vm₀ mm₀ ∧ mm₀.areas = [] ∧
      vm₀.entry mm₀.directory = vm.entry vm.kernelDirectory ∧
      vm₀.vmmAllocUser firstGuard (userStackStart + pageSize) mm₀ true = some (mm₁, vm₁) ∧
      vm₁.vmmSetGuard firstGuard mm₁.directory true = some vm' ∧
      mm = { mm₁ with userStackGuardPage := firstGuard } := by
  simp only [vmmCreateUserMm, bind, bind_eq_some_iff, pure, some.injEq,
    Prod.mk.injEq] at h
  obtain ⟨⟨block, vm₁⟩, alloc, ⟨list, vm₂⟩, alloc', ⟨d, vm₃⟩, created, ⟨mm₁, vm₄⟩,
    stack, vm₅, guarded, rfl, rfl⟩ := h
  have new := kmalloc_newBlock alloc
  have new' := kmalloc_newBlock alloc'
  have kernel₂ : KernelOk vm₂ := (kernel.newBlock new).newBlock new'
  obtain ⟨dir, copy⟩ := createUserPageDir_spec kernel₂ created
  have noUser (p : Nat) : (vm₃.entry d p).user = false := by
    rw [copy]
    exact kernel₂.kernelPages p
  have none (p : Nat) : ¬ (vm₃.entry d p).user = true := by simp [noUser]
  have start : Layout vm₃
      { areas := [], brkStart := 0, brk := 0, initialBrk := 0, directory := d
        userStackGuardPage := 0, framesUsed := 0, block := block, list := list } := by
    refine ⟨⟨dir, ?_⟩, by simp, by simp, fun p user => absurd user (none p), by simp⟩
    refine ⟨?_, ?_, ?_, ?_, by simp [userPages, noUser]⟩
    · exact fun p user => absurd user (none p)
    · exact fun p user => absurd user (none p)
    · exact fun p user => absurd user (none p)
    · exact fun p _ user => absurd user (none p)
  have directory : mm₁.directory = d := (start.vmmAllocUser (by decide) stack).2.directory
  rw [← directory] at guarded
  have same : vm₂.entry vm₂.kernelDirectory = vm.entry vm.kernelDirectory := by
    rw [new'.kernelDirectory, new.kernelDirectory,
      (new'.keeps ((new.keeps kernel.dir).ok)).entry, (new.keeps kernel.dir).entry]
  exact ⟨_, vm₃, mm₁, vm₄, start, rfl, copy.trans same, stack, guarded, rfl⟩

lemma vmmCreateUserMm_layout (kernel : KernelOk vm) (h : vm.vmmCreateUserMm = some (mm, vm')) :
    Layout vm' mm := by
  obtain ⟨mm₀, vm₀, mm₁, vm₁, start, -, -, stack, guarded, rfl⟩ :=
    vmmCreateUserMm_stack kernel h
  obtain ⟨filled, -⟩ := start.vmmAllocUser (by decide) stack
  exact (filled.vmmSetGuard (by decide) guarded).congr rfl rfl rfl

/-! ## Runs -/

/-- What changes the memory of a user task. -/
inductive Action where
  | allocUser (start stop : UInt32) (writable : Bool)
  | resizeArea (start newEnd : UInt32)
  | sbrk (delta : Int)
  | fault (addr : UInt32)
  /-- The ELF loader sets the break. -/
  | load (brkStart brk initialBrk : UInt32)

/-- One such call; `none` if the kernel stops in it. -/
def step : TaskMm × Vm → Action → Option (TaskMm × Vm)
  | (mm, vm), .allocUser start stop writable =>
    vm.vmmAllocUser start.toNat stop.toNat mm writable
  | (mm, vm), .resizeArea start newEnd => vm.vmmResizeArea start.toNat newEnd.toNat mm
  | (mm, vm), .sbrk delta => (vm.sbrk delta mm).map Prod.snd
  | (mm, vm), .fault addr => (vm.growStack addr.toNat mm).join
  | (mm, vm), .load brkStart brk initialBrk =>
    some ({ mm with
      brkStart := brkStart.toNat, brk := brk.toNat, initialBrk := initialBrk.toNat }, vm)

/-- An area is only resized to whole pages. -/
def aligned : Action → Prop
  | .resizeArea _ newEnd => isPageAligned newEnd.toNat
  | _ => True

instance (a : Action) : Decidable (aligned a) :=
  match a with
  | .resizeArea _ newEnd => inferInstanceAs (Decidable (isPageAligned newEnd.toNat))
  | .allocUser .. | .sbrk _ | .fault _ | .load .. => isTrue trivial

lemma Layout.step {s s' : TaskMm × Vm} {a : Action} (layout : Layout s.2 s.1) (ok : aligned a)
    (h : step s a = some s') : Layout s'.2 s'.1 := by
  cases a with
  | allocUser start stop writable => exact (layout.vmmAllocUser stop.toNat_lt h).1
  | resizeArea start newEnd => exact (layout.vmmResizeArea newEnd.toNat_lt ok h).1
  | sbrk delta =>
    obtain ⟨⟨ret, s₁⟩, moved, rfl⟩ := map_eq_some_iff.mp h
    exact (layout.sbrk moved).1
  | fault addr => exact layout.growStack (join_eq_some_iff.mp h)
  | load brkStart brk initialBrk =>
    cases h
    exact layout.congr rfl rfl rfl

abbrev SpaceRun : TaskMm × Vm → List Action → TaskMm × Vm → Prop :=
  Run fun s a s' => step s a = some s'

/-- Runs in which areas are only resized to whole pages. -/
abbrev AlignedRun : TaskMm × Vm → List Action → TaskMm × Vm → Prop :=
  Run (Guarded (fun _ a => aligned a) fun s a s' => Vmm.step s a = some s')

lemma Layout.run {vm₀ : Vm} {s₀ s : TaskMm × Vm} {acts : List Action} (kernel : KernelOk vm₀)
    (created : vm₀.vmmCreateUserMm = some s₀) (run : AlignedRun s₀ acts s) : Layout s.2 s.1 := by
  refine run.invariant (P := fun s => Layout s.2 s.1) (vmmCreateUserMm_layout kernel created) ?_
  rintro s a s' layout ⟨ok, moved⟩
  exact layout.step ok moved

/-- A page of user mode, mapped or a guard page. -/
def Pte.isUserPage (e : Pte) : Prop := e.user = true ∧ (e.present = true ∨ e.guard = true)

/-- In every such run from the creation of the address space, the areas consist of whole pages and
do not meet, they contain exactly the user pages of the directory, with the same access rights, and
`frames_used` is the number of frames of these pages. -/
theorem areas_match_pages {vm₀ : Vm} {s₀ s : TaskMm × Vm} {acts : List Action}
    (kernel : KernelOk vm₀) (created : vm₀.vmmCreateUserMm = some s₀) (run : AlignedRun s₀ acts s) :
    let entry := s.2.entry s.1.directory
    (∀ a ∈ s.1.areas, isPageAligned a.start ∧ isPageAligned a.stop ∧ a.start < a.stop) ∧
      s.1.areas.Pairwise Area.apart ∧
      (∀ p, (entry p).isUserPage ↔ ∃ a ∈ s.1.areas, a.hasPage p) ∧
      (∀ a ∈ s.1.areas, ∀ p, a.hasPage p → (entry p).rw = a.writable) ∧
      s.1.framesUsed = ((userPages entry).image fun p => (entry p).frame).card := by
  intro entry
  have layout := Layout.run kernel created run
  have pages := layout.ok.pages
  refine ⟨fun a mem => ?_, layout.apart, fun p => ⟨fun user => layout.covered p user.1, ?_⟩,
    fun a mem p here => (layout.inside a mem p here).2, ?_⟩
  · have ok := layout.areas a mem
    exact ⟨ok.start, ok.stop, ok.lt⟩
  · rintro ⟨a, mem, here⟩
    have user := (layout.inside a mem p here).1
    exact ⟨user, pages.mapped p user⟩
  · rw [Finset.card_image_of_injOn, pages.count]
    intro p hp q hq same
    exact pages.inj p q ((mem_userPages pages).mp hp) ((mem_userPages pages).mp hq) same

/-- A machine with `n` frames, all free but the first. -/
def bareMachine (n : Nat) : Vm where
  pmm := { nframes := n, used := fun f => f = 0, last := 0, packed := nofun }
  mem _ _ := 0
  growth := []
  live _ := false
  next := 1
  table _ _ := .zero
  dir _ _ := none
  kernelDirectory := 0
  pagedirs := []
  stale := false

lemma bareMachine_kernelOk (n : Nat) : KernelOk (bareMachine n) where
  dir := ⟨by simp [bareMachine], by simp [bareMachine], by simp [bareMachine]⟩
  kernelPages _ := rfl

/-- A program is loaded, the break moves up and down, and the stack grows. -/
def loadAndGrow : List Action :=
  [.allocUser 0x10000000 0x10001000 false, .load 0x10002000 0x10002000 0x10002000, .sbrk 9000,
    .sbrk (-4096), .resizeArea 0x10002000 0x10005000, .fault 0xbffeef00]

theorem areas_match_pages_sample : ∃ s₀ s, (bareMachine 64).vmmCreateUserMm = some s₀ ∧
    AlignedRun s₀ loadAndGrow s ∧
    ((userPages (s.2.entry s.1.directory)).image fun p => (s.2.entry s.1.directory p).frame).card =
      54 := by
  obtain ⟨s₀, created, s, ran, used⟩ : ∃ s₀ ∈ (bareMachine 64).vmmCreateUserMm,
      ∃ s ∈ exec (fun s a => if aligned a then step s a else none) s₀ loadAndGrow,
        s.1.framesUsed = 54 := by decide +kernel
  have run := Run.of_exec_guarded ran
  have frames := (areas_match_pages (bareMachine_kernelOk 64) created run).2.2.2.2
  exact ⟨s₀, s, created, run, frames.symm.trans used⟩

/-- Without the condition, an area can end in the middle of a page. -/
theorem area_ends_inside_page : ∃ s₀ s, (bareMachine 32).vmmCreateUserMm = some s₀ ∧
    SpaceRun s₀ [.resizeArea 0xbffee000 0xbfffe800] s ∧
    ∃ a ∈ s.1.areas, ¬ isPageAligned a.stop :=
  Run.exists_of_init (by decide +kernel)

end ExscapeOS.Vmm
