import ExscapeOS.Kernel.Vmm.Twin

/-!
# The address space after a fork

`vmm_clone_mm` copies the areas and the pages, but leaves the break, its start and its lower limit,
and the address of the guard page at zero. So the child calls `sbrk` and grows its stack like the
parent only if these make no difference.
-/
namespace ExscapeOS.Vmm

open Lib Function Vm

variable {vm vm' : Vm} {mm child : TaskMm} {d p : Nat}

/-! ## What a task observes -/

inductive Op where
  | sbrk (delta : Int)
  | fault (addr : UInt32)

inductive Outcome where
  | panic
  | value (brk : Nat)
  | refused
  | grown

/-- The result of a call or fault, and the state after it if the kernel goes on. -/
def Op.apply : Op → TaskMm × Vm → Outcome × Option (TaskMm × Vm)
  | .sbrk delta, (mm, vm) =>
    match vm.sbrk delta mm with
    | none => (.panic, none)
    | some (brk, s) => (.value brk, some s)
  | .fault addr, (mm, vm) =>
    match vm.growStack addr.toNat mm with
    | none => (.panic, none)
    | some none => (.refused, none)
    | some (some s) => (.grown, some s)

/-- The pages that a task has, and how it may use them. -/
def mapping (s : TaskMm × Vm) (p : Nat) : Pte := (s.2.entry s.1.directory p).flags

/-- The results of calls and faults, each with the pages that are mapped after it. -/
def results : List Op → TaskMm × Vm → List (Outcome × Option (Nat → Pte))
  | [], _ => []
  | op :: ops, s =>
    match op.apply s with
    | (outcome, none) => [(outcome, none)]
    | (outcome, some s') => (outcome, some (mapping s')) :: results ops s'

/-! ## The number of frames -/

section

variable (user : ∀ p, (vm.entry d p).user = true ↔ isUserSpace (p * pageSize) ∧
  (vm.entry d p).frame ≠ 0)
include user

lemma count_table (k : Nat) :
    framesIn vm d [k] = Nat.count (fun j => (vm.entry d (k * 1024 + j)).user = true) 1024 := by
  have index (j : Nat) (lt : j < 1024) : (k * 1024 + j) / 1024 = k ∧ (k * 1024 + j) % 1024 = j := by
    omega
  have space (j : Nat) (lt : j < 1024) :
      isUserSpace ((k * 1024 + j) * pageSize) ↔ isUserSpace (k * 1024 * pageSize) := by
    rw [user_page_iff, (index j lt).1]
  by_cases inside : isUserSpace (k * 1024 * pageSize)
  · cases table : vm.dir d k with
    | none =>
      have none : framesIn vm d [k] = 0 := by simp [framesIn, table]
      rw [none]
      refine ((Nat.count_iff_forall_not).mpr fun j lt used => ?_).symm
      rw [entry_of_none (by rw [(index j lt).1, table])] at used
      cases used
    | some t =>
      have some : framesIn vm d [k] = tableFrames vm t := by simp [framesIn, table, inside]
      rw [some, tableFrames, Nat.count]
      refine List.countP_congr fun j mem => ?_
      have lt := List.mem_range.mp mem
      have entry : vm.entry d (k * 1024 + j) = vm.table t j := by
        rw [entry_of_table (by rw [(index j lt).1, table]), (index j lt).2]
      rw [decide_eq_true_iff, decide_eq_true_iff, user, space j lt, entry]
      exact (and_iff_right inside).symm
  · have none : framesIn vm d [k] = 0 := by simp [framesIn, inside]
    rw [none]
    refine ((Nat.count_iff_forall_not).mpr fun j lt used => ?_).symm
    exact inside ((space j lt).mp ((user _).mp used).1)

lemma count_frames (k : Nat) :
    framesIn vm d (List.range k) = Nat.count (fun p => (vm.entry d p).user = true) (k * 1024) := by
  induction k with
  | zero => rfl
  | succ k ih =>
    rw [List.range_succ, Nat.succ_mul, Nat.count_add, ← ih, ← count_table user]
    simp [framesIn]

lemma framesIn_eq_card :
    framesIn vm d (List.range 1024) = (userPages (vm.entry d)).card := by
  rw [count_frames user, Nat.count_eq_card_filter_range]
  rfl

end

/-! ## The child begins as a twin -/

/-- The pages of user mode are those of user space that have a frame. -/
def UserMode (vm : Vm) (d : Nat) : Prop :=
  ∀ p, (vm.entry d p).user = true ↔ isUserSpace (p * pageSize) ∧ (vm.entry d p).frame ≠ 0

section Child

variable (user : UserDir vm mm.directory) (first : 0 ∉ vm.pmm.avail)
  (cloned : Cloned vm mm child vm')

include user cloned

lemma Cloned.parent_entry : vm'.entry mm.directory = vm.entry mm.directory :=
  (cloned.dir user).entry_old user.ok user.old

lemma Cloned.child_fresh : mm.directory ≠ child.directory :=
  (user.old.trans_le (cloned.dir user).new).ne

omit user in
lemma Cloned.kernelDirectory : vm'.kernelDirectory = vm.kernelDirectory := by
  obtain ⟨vm₁, vm₂, copying, block, eq⟩ := cloned.copying
  rw [eq, ← copying.kernelDirectory]
  exact block.kernelDirectory

include first

lemma Cloned.sameFlags (p : Nat) :
    SameFlags (vm'.entry child.directory p) (vm.entry mm.directory p) := by
  have dir := cloned.dir user
  by_cases space : isUserSpace (p * pageSize)
  · by_cases zero : vm.entry mm.directory p = .zero
    · rw [dir.empty space zero, zero]
      exact ⟨rfl, Iff.rfl⟩
    · obtain ⟨mapped, copied⟩ := dir.copied first user space zero
      refine ⟨?_, iff_of_false mapped zero⟩
      rw [copied.flags]
      rfl
  · rw [dir.entry_kernel user.ok space]
    exact ⟨rfl, Iff.rfl⟩

lemma Cloned.twin (own : mm.directory ≠ vm.kernelDirectory) (old : vm.kernelDirectory < vm.next) :
    Twin child.directory mm.directory vm' vm' := by
  have dir := cloned.dir user
  have same := cloned.kernelDirectory
  have parent : vm'.dir mm.directory = vm.dir mm.directory := dir.dir _ (cloned.child_fresh user)
  refine ⟨dir.ok, ?_, ?_, same ▸ own, fun p => ?_, fun i => ?_, rfl, rfl⟩
  · obtain ⟨vm₁, vm₂, copying, block, eq⟩ := cloned.copying
    refine user.ok.congr parent ?_
    rw [eq]
    exact copying.next.trans (block.next ▸ Nat.le_succ _)
  · rw [same]
    exact (old.trans_le dir.new).ne'
  · rw [cloned.parent_entry user]
    exact cloned.sameFlags user first p
  · rw [parent]
    by_cases space : isUserSpace (i * 1024 * pageSize)
    · exact dir.present i space
    · rw [dir.shared i space]

lemma Cloned.pages (mode : UserMode vm mm.directory)
    (pages : Pages (vm.entry mm.directory) vm.pmm.pooled mm.framesUsed) :
    Pages (vm'.entry child.directory) vm'.pmm.pooled child.framesUsed := by
  have dir := cloned.dir user
  have same := cloned.sameFlags user first
  have parent (p : Nat) (h : (vm'.entry child.directory p).user = true) :
      (vm.entry mm.directory p).user = true := (same p).user ▸ h
  have copied (p : Nat) (h : (vm'.entry child.directory p).user = true) :
      isUserSpace (p * pageSize) ∧ vm'.entry child.directory p ≠ .zero ∧
        Copied vm vm' (vm.entry mm.directory p) (vm'.entry child.directory p) := by
    have space := ((mode p).mp (parent p h)).1
    exact ⟨space, dir.copied first user space (ne_zero_of_user (parent p h))⟩
  constructor
  · exact fun p h => pages.bound p (parent p h)
  · intro p h
    rw [(same p).present, (same p).guard]
    exact pages.mapped p (parent p h)
  · intro p h
    obtain ⟨-, -, copy⟩ := copied p h
    exact Pmm.pooled_iff.mpr ⟨copy.used, dir.grows.pmm.nframes ▸ (Pmm.mem_avail.mp copy.free).1⟩
  · intro p q hp hq frame
    obtain ⟨space, mapped, -⟩ := copied p hp
    obtain ⟨space', mapped', -⟩ := copied q hq
    exact dir.inj p q space space' mapped mapped' frame
  · rw [cloned.framesUsed, framesIn_eq_card mode]
    simp only [userPages, (same _).user]

end Child

lemma exists_bounds {as bs : List Area} {a : Area} (same : as.map Area.bounds = bs.map Area.bounds)
    (mem : a ∈ as) : ∃ b ∈ bs, a.start = b.start ∧ a.stop = b.stop ∧ a.writable = b.writable := by
  have mem' := List.mem_map_of_mem (f := Area.bounds) mem
  rw [same] at mem'
  obtain ⟨b, there, eq⟩ := List.mem_map.mp mem'
  simp only [Area.bounds, Prod.mk.injEq] at eq
  exact ⟨b, there, eq.1.symm, eq.2.1.symm, eq.2.2.symm⟩

lemma apart_bounds {as bs : List Area} (same : as.map Area.bounds = bs.map Area.bounds)
    (apart : bs.Pairwise Area.apart) : as.Pairwise Area.apart := by
  have through (cs : List Area) : cs.Pairwise Area.apart ↔
      (cs.map Area.bounds).Pairwise fun a b => a.2.1 ≤ b.1 ∨ b.2.1 ≤ a.1 := by
    rw [List.pairwise_map]
    rfl
  rwa [through, same, ← through]

/-- Areas with the same bounds describe entries with the same flags. -/
lemma Layout.transfer (layout : Layout vm mm)
    (ok : PagesOk vm' child.directory child.framesUsed)
    (bounds : child.areas.map Area.bounds = mm.areas.map Area.bounds)
    (entries : ∀ p, SameFlags (vm'.entry child.directory p) (vm.entry mm.directory p)) :
    Layout vm' child := by
  refine ⟨ok, fun a mem => ?_, apart_bounds bounds layout.apart, fun p user => ?_,
    fun a mem p here => ?_⟩
  · obtain ⟨b, there, start, stop, -⟩ := exists_bounds bounds mem
    have ok := layout.areas b there
    exact ⟨start ▸ ok.start, stop ▸ ok.stop, start ▸ stop ▸ ok.lt, stop ▸ ok.bound⟩
  · obtain ⟨b, there, here⟩ := layout.covered p ((entries p).user ▸ user)
    obtain ⟨a, mem, start, stop, -⟩ := exists_bounds bounds.symm there
    exact ⟨a, mem, start ▸ here.1, stop ▸ here.2⟩
  · obtain ⟨b, there, start, stop, writable⟩ := exists_bounds bounds mem
    have inside := layout.inside b there p ⟨start ▸ here.1, stop ▸ here.2⟩
    rw [(entries p).user, (entries p).rw, writable]
    exact inside

/-! ## Runs of the twins -/

/-- The stack does not grow any more. -/
def FullStack (mm : TaskMm) : Prop :=
  isPageAligned mm.userStackGuardPage ∧ userStackSizeMax ≤ grownSize mm.userStackGuardPage

lemma aligned_sizes {guard : Nat} (aligned : isPageAligned guard) :
    isPageAligned (stackSize guard) ∧ isPageAligned (grownSize guard) := by
  unfold grownSize stackSize isPageAligned sub32 add32 userStackGrowSize userStackStart pageSize
    wordSize at *
  omega

lemma FullStack.refused (full : FullStack mm) (addr : Nat) (vm : Vm) :
    vm.growStack addr mm = some none := by
  obtain ⟨aligned, limit⟩ := full
  simp only [growStack, aligned_sizes aligned, limit, not_true_eq_false, and_self,
    if_true, if_false, ite_self]

/-- A task with a layout and a full stack. -/
structure Settled (s : TaskMm × Vm) : Prop where
  layout : Layout s.2 s.1
  full : FullStack s.1

lemma Settled.sbrk {s s' : TaskMm × Vm} {delta : Int} {ret : Nat} (h : Settled s)
    (moved : s.2.sbrk delta s.1 = some (ret, s')) : Settled s' where
  layout := (h.layout.sbrk moved).1
  full := by
    unfold FullStack
    rw [(h.layout.sbrk moved).2]
    exact h.full

lemma Twins.results {s t : TaskMm × Vm} (h : Twins s t) (hs : Settled s) (ht : Settled t)
    (ops : List Op) : results ops s = results ops t := by
  induction ops generalizing s t with
  | nil => rfl
  | cons op ops ih =>
    obtain ⟨mm₁, vm₁⟩ := s
    obtain ⟨mm₂, vm₂⟩ := t
    cases op with
    | sbrk delta =>
      have step := h.sbrk delta hs.layout ht.layout
      simp only [Vmm.results, Op.apply]
      generalize moved : vm₁.sbrk delta mm₁ = x, moved' : vm₂.sbrk delta mm₂ = y at step
      cases step with
      | stop => rfl
      | @both a b related =>
        obtain ⟨ret, s'⟩ := a
        obtain ⟨ret', t'⟩ := b
        obtain ⟨rfl, twins⟩ := related
        have same : mapping s' = mapping t' := funext fun p => (twins.twin.entries p).flags
        dsimp only
        rw [same, ih twins (hs.sbrk moved) (ht.sbrk moved')]
    | fault addr =>
      simp only [Vmm.results, Op.apply, hs.full.refused, ht.full.refused]

/-! ## Parent and child -/

/-- What the kernel maintains of the task that forks. -/
structure Forkable (vm : Vm) (mm : TaskMm) : Prop where
  layout : Layout vm mm
  user : UserDir vm mm.directory
  mode : UserMode vm mm.directory
  first : 0 ∉ vm.pmm.avail
  own : mm.directory ≠ vm.kernelDirectory
  old : vm.kernelDirectory < vm.next
  brk : mm.brkStart ≤ mm.brk ∧ mm.initialBrk ≤ mm.brk ∧ isPageAligned mm.brk
  guard : isPageAligned mm.userStackGuardPage ∧ mm.userStackGuardPage < wordSize

/-- The stack of the child is full: its guard page seems to be at zero. -/
lemma Cloned.fullStack (cloned : Cloned vm mm child vm') : FullStack child := by
  unfold FullStack
  rw [cloned.zero.2.2.2]
  decide

lemma Forkable.settled (h : Forkable vm mm) (cloned : Cloned vm mm child vm')
    (full : FullStack mm) :
    Settled (child, vm') ∧ Settled (mm, vm') := by
  have dir := cloned.dir h.user
  have twin := cloned.twin h.user h.first h.own h.old
  have parent (p : Nat) : SameFlags (vm'.entry mm.directory p) (vm.entry mm.directory p) := by
    rw [cloned.parent_entry h.user]
    exact ⟨rfl, Iff.rfl⟩
  constructor
  · refine ⟨h.layout.transfer ⟨dir.ok, ?_⟩ cloned.bounds ?_, cloned.fullStack⟩
    · exact cloned.pages h.user h.first h.mode h.layout.ok.pages
    · exact cloned.sameFlags h.user h.first
  · refine ⟨h.layout.transfer ⟨twin.ok₂, ?_⟩ rfl parent, full⟩
    rw [cloned.parent_entry h.user]
    exact h.layout.ok.pages.mono fun f => dir.grows.pmm.pooled

/-- A fault at the guard page grows the stack, or stops the kernel, unless the stack is full. -/
lemma guard_fault (vm : Vm) (aligned : isPageAligned mm.userStackGuardPage)
    (small : mm.userStackGuardPage < wordSize)
    (room : grownSize mm.userStackGuardPage < userStackSizeMax) :
    vm.growStack mm.userStackGuardPage mm ≠ some none := by
  have below : mm.userStackGuardPage ≤ add32 mm.userStackGuardPage pageSize := by
    unfold grownSize stackSize isPageAligned sub32 add32 userStackGrowSize userStackStart
      userStackSizeMax pageSize wordSize at *
    omega
  simp only [growStack, aligned_sizes aligned, below, le_refl, and_self,
    not_true_eq_false, if_false, if_neg (not_le.mpr room)]
  intro refused
  obtain ⟨s, -, eq⟩ := Option.map_eq_some_iff.mp refused
  exact Option.some_ne_none s eq

/-- After a fork, the child gets the same results as the parent from all calls of `sbrk` and all
faults, exactly if the parent has no break yet and its stack is as large as it may be. -/
theorem fork_same_results_iff (h : Forkable vm mm) (ran : vm.vmmCloneMm mm = some (child, vm')) :
    (∀ ops, results ops (child, vm') = results ops (mm, vm')) ↔
      mm.brk = 0 ∧ userStackSizeMax ≤ grownSize mm.userStackGuardPage := by
  have cloned : Cloned vm mm child vm' := ((vmmCloneMm_costs h.user).of_some ran).2
  obtain ⟨brkStart, brk, initialBrk, guard⟩ := cloned.zero
  obtain ⟨startLe, initialLe, aligned⟩ := h.brk
  constructor
  · intro same
    constructor
    · have first := same [.sbrk 0]
      have zero : isPageAligned 0 := rfl
      simp only [results, Op.apply, Vm.sbrk, brk, kassert, aligned, zero, if_true, bind, pure,
        Option.bind_some, List.cons.injEq, Prod.mk.injEq, Outcome.value.injEq] at first
      exact first.1.1.symm
    · by_contra room
      have refused := cloned.fullStack.refused mm.userStackGuardPage vm'
      have accepted := guard_fault vm' h.guard.1 h.guard.2 (not_le.mp room)
      have addr : (UInt32.ofNat mm.userStackGuardPage).toNat = mm.userStackGuardPage :=
        UInt32.toNat_ofNat_of_lt h.guard.2
      have first := same [.fault (UInt32.ofNat mm.userStackGuardPage)]
      simp only [results, Op.apply, addr, refused] at first
      cases grown : vm'.growStack mm.userStackGuardPage mm with
      | none => simp [grown] at first
      | some r =>
        cases r with
        | none => exact accepted grown
        | some s => simp [grown] at first
  · rintro ⟨zero, limit⟩
    obtain ⟨settled, settled'⟩ := h.settled cloned ⟨h.guard.1, limit⟩
    have twin := cloned.twin h.user h.first h.own h.old
    refine Twins.results ⟨twin, cloned.bounds, ?_, ?_, ?_⟩ settled settled'
    · change child.brkStart = mm.brkStart
      omega
    · exact brk.trans zero.symm
    · change child.initialBrk = mm.initialBrk
      omega

/-- The task with one page, here with the area of this page and a break. -/
def onePageTask (brk : Nat) : TaskMm :=
  { onePageMm with
    areas := [{ start := 0x19005000, stop := 0x19006000, writable := true, block := 0, node := 0 }]
    brk := brk }

lemma onePage_entry_eq (p : Nat) :
    onePage.entry 1 p = if p = 0x19005 then userPage 7 0x19005000 true else .zero := by
  cases table : onePage.dir 1 (p / 1024) with
  | none =>
    rw [entry_of_none table, if_neg]
    rintro rfl
    cases table
  | some t =>
    rw [entry_of_table table]
    simp only [onePage] at table ⊢
    grind

lemma onePage_user (p : Nat) : (onePage.entry 1 p).user = true ↔ p = 0x19005 := by
  rw [onePage_entry_eq]
  split_ifs with own
  · exact iff_of_true rfl own
  · exact iff_of_false nofun own

lemma onePage_pages : Pages (onePage.entry 1) onePage.pmm.pooled 1 := by
  have page : onePage.entry 1 0x19005 = userPage 7 0x19005000 true := onePage_entry_eq _
  refine ⟨fun p user => ?_, fun p user => ?_, fun p user => ?_, fun p q user user' _ => ?_, ?_⟩
  · obtain rfl := (onePage_user p).mp user
    decide
  · obtain rfl := (onePage_user p).mp user
    exact .inl (by rw [page]; rfl)
  · obtain rfl := (onePage_user p).mp user
    decide
  · exact ((onePage_user p).mp user).trans ((onePage_user q).mp user').symm
  · have single : userPages (onePage.entry 1) = {0x19005} := by
      ext p
      simp only [userPages, Finset.mem_filter, Finset.mem_range, onePage_user, Finset.mem_singleton]
      omega
    rw [single, Finset.card_singleton]

lemma onePageTask_layout (brk : Nat) : Layout onePage (onePageTask brk) := by
  refine ⟨⟨onePage_userDir.ok, onePage_pages⟩, ?_, List.pairwise_singleton .., fun p user => ?_, ?_⟩
  · intro a mem
    obtain rfl := List.mem_singleton.mp mem
    exact ⟨by decide, by decide, by decide, by decide⟩
  · obtain rfl := (onePage_user p).mp user
    exact ⟨_, List.mem_singleton_self _, by decide, by decide⟩
  · intro a mem p here
    obtain rfl := List.mem_singleton.mp mem
    obtain rfl : p = 0x19005 := by
      have range : 0x19005000 ≤ p * 0x1000 ∧ p * 0x1000 < 0x19006000 := here
      omega
    exact ⟨rfl, rfl⟩

lemma onePageTask_forkable (brk : Nat) (aligned : isPageAligned brk) :
    Forkable onePage (onePageTask brk) where
  layout := onePageTask_layout brk
  user := onePage_userDir
  mode p := by
    change (onePage.entry 1 p).user = true ↔ _ ∧ (onePage.entry 1 p).frame ≠ 0
    rw [onePage_user, onePage_entry_eq]
    split_ifs with own
    · rw [own]
      decide
    · exact iff_of_false own fun frame => frame.2 rfl
  first := by decide
  own := Nat.one_ne_zero
  old := by decide
  brk := ⟨brk.zero_le, brk.zero_le, aligned⟩
  guard := ⟨rfl, Nat.zero_lt_succ _⟩

lemma onePageTask_clones (brk : Nat) :
    ∃ child vm', onePage.vmmCloneMm (onePageTask brk) = some (child, vm') := by
  have needs : cloneNeeds onePage (onePageTask brk) = 1 := by
    have onlyPages : cloneNeeds onePage (onePageTask brk) =
      framesIn onePage 1 (List.range 1024) := by
      simp [cloneNeeds, onePage, bareMachine, onePageTask, onePageMm]
    rw [onlyPages]
    decide +kernel
  have user : UserDir onePage (onePageTask brk).directory := onePage_userDir
  obtain ⟨⟨child, vm'⟩, ran, -⟩ := (vmmCloneMm_costs user).of_enough (needs.le.trans (by decide))
  exact ⟨child, vm', ran⟩

theorem fork_same_results_sample : ∃ child vm', onePage.vmmCloneMm (onePageTask 0) =
    some (child, vm') ∧ ∀ ops, results ops (child, vm') = results ops (onePageTask 0, vm') := by
  obtain ⟨child, vm', ran⟩ := onePageTask_clones 0
  exact ⟨child, vm', ran, (fork_same_results_iff (onePageTask_forkable 0 rfl) ran).mpr (by decide)⟩

/-- The heap of the task begins behind its only page. `sbrk(0)` gives the parent its break, and the
child zero. -/
theorem fork_forgets_break : ∃ child vm',
    onePage.vmmCloneMm (onePageTask 0x19006000) = some (child, vm') ∧
    results [.sbrk 0] (child, vm') ≠ results [.sbrk 0] (onePageTask 0x19006000, vm') := by
  obtain ⟨child, vm', ran⟩ := onePageTask_clones 0x19006000
  refine ⟨child, vm', ran, fun same => ?_⟩
  have cloned : Cloned onePage _ child vm' := ((vmmCloneMm_costs onePage_userDir).of_some ran).2
  have forgotten : child.brk = 0 := cloned.zero.2.1
  have kept : (onePageTask 0x19006000).brk = 0x19006000 := rfl
  have zero : isPageAligned 0 := rfl
  have aligned : isPageAligned 0x19006000 := rfl
  simp [results, Op.apply, Vm.sbrk, forgotten, kept, kassert, aligned, zero] at same

end ExscapeOS.Vmm
