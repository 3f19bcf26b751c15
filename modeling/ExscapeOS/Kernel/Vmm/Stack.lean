import ExscapeOS.Kernel.Vmm.Space

/-!
# The stack of a user task

A new task has a stack of 16 pages and one more at the top, with a guard page below. A fault on the
guard page adds pages below it, makes it an ordinary page and moves the guard to the lowest of the
new pages, until the next step would pass the limit. `StackOk` is what the handler keeps, together
with the areas of the program and of the heap, which end below what the stack can reach.
-/
namespace ExscapeOS.Vmm

open Lib Function Vm List Option

variable {vm vm' : Vm} {mm mm' : TaskMm} {d g p addr start stop : Nat} {writable : Bool}
  {entry : Nat → Pte} {areas areas' : List Area}

/-! ## Guard pages -/

/-- Every user page is mapped. -/
def NoGuard (entry : Nat → Pte) : Prop :=
  ∀ p, (entry p).user = true → (entry p).guard = false ∧ (entry p).present = true

/-- The page `g` is a guard page, and every other user page is mapped. -/
structure OneGuard (entry : Nat → Pte) (g : Nat) : Prop where
  user : (entry g).user = true
  guard : (entry g).guard = true
  absent : (entry g).present = false
  others : ∀ p, p ≠ g → (entry p).user = true → (entry p).guard = false ∧ (entry p).present = true

lemma OneGuard.clear (one : OneGuard entry g) :
    NoGuard (update entry g { entry g with present := !false, guard := false }) := by
  intro p user
  by_cases own : p = g
  · subst own
    simp
  · rw [update_of_ne own] at user ⊢
    exact one.others p own user

lemma NoGuard.set (none : NoGuard entry) (user : (entry g).user = true) :
    OneGuard (update entry g { entry g with present := !true, guard := true }) g := by
  refine ⟨by simp [user], by simp, by simp, fun p other user => ?_⟩
  rw [update_of_ne other] at user ⊢
  exact none p user

lemma OneGuard.extend {entry' : Nat → Pte} (one : OneGuard entry g) (guard : entry' g = entry g)
    (pages : ∀ p, (∃ f addr w, entry' p = userPage f addr w) ∨ entry' p = entry p) :
    OneGuard entry' g := by
  refine ⟨guard ▸ one.user, guard ▸ one.guard, guard ▸ one.absent, fun p other user => ?_⟩
  rcases pages p with ⟨f, addr, w, eq⟩ | eq
  · rw [eq]
    exact ⟨rfl, rfl⟩
  · rw [eq] at user ⊢
    exact one.others p other user

/-! ## More pages -/

/-- `_vmm_store_area` puts the new addresses in front of an area, behind one, or in a new area. -/
lemma vmmStoreArea_cases (h : vmmStoreArea start stop writable areas vm = some (areas', vm')) :
    (∃ before a behind, areas = before ++ a :: behind ∧ a.start = stop ∧ a.writable = writable ∧
      areas' = before ++ { a with start := start } :: behind ∧ vm' = vm) ∨
    (∃ before a behind, areas = before ++ a :: behind ∧ a.stop = start ∧ a.writable = writable ∧
      areas' = before ++ { a with stop := stop } :: behind ∧ vm' = vm) ∨
    (∀ a ∈ areas, ¬ (a.start = stop ∧ a.writable = writable) ∧
      ¬ (a.stop = start ∧ a.writable = writable)) ∧
      ∃ a : Area, a.start = start ∧ a.stop = stop ∧ a.writable = writable ∧ areas' =
        areas ++ [a] := by
  induction areas generalizing areas' vm' with
  | nil =>
    simp only [vmmStoreArea, bind, bind_eq_some_iff, pure, some.injEq,
      Prod.mk.injEq] at h
    obtain ⟨⟨block, vm₁⟩, -, ⟨node, vm₂⟩, -, rfl, -⟩ := h
    exact .inr (.inr ⟨by simp, _, rfl, rfl, rfl, rfl⟩)
  | cons c as ih =>
    unfold vmmStoreArea at h
    split_ifs at h with before behind
    · cases h
      exact .inl ⟨[], c, as, rfl, before.1, before.2, rfl, rfl⟩
    · cases h
      exact .inr (.inl ⟨[], c, as, rfl, behind.1, behind.2, rfl, rfl⟩)
    · simp only [bind, bind_eq_some_iff, pure, some.injEq, Prod.mk.injEq] at h
      obtain ⟨⟨as', vm₁⟩, stored, rfl, rfl⟩ := h
      rcases ih stored with ⟨l, a, r, rfl, eq, rights, rfl, same⟩ |
        ⟨l, a, r, rfl, eq, rights, rfl, same⟩ | ⟨none, a, first, last, rights, rfl⟩
      · exact .inl ⟨c :: l, a, r, rfl, eq, rights, rfl, same⟩
      · exact .inr (.inl ⟨c :: l, a, r, rfl, eq, rights, rfl, same⟩)
      · refine .inr (.inr ⟨?_, a, first, last, rights, rfl⟩)
        exact forall_mem_cons.mpr ⟨⟨before, behind⟩, none⟩

/-! ## The invariant -/

/-- The lowest address that the stack can grow to. -/
def stackFloor : Nat := userStackStart - userStackSizeMax

structure StackOk (vm : Vm) (mm : TaskMm) : Prop where
  layout : Layout vm mm
  aligned : isPageAligned mm.userStackGuardPage
  floor : stackFloor ≤ mm.userStackGuardPage
  top : mm.userStackGuardPage + pageSize ≤ userStackStart
  one : OneGuard (vm.entry mm.directory) (mm.userStackGuardPage / pageSize)
  /-- The area of the stack, with the guard page. -/
  area : ∃ a ∈ mm.areas, a.start = mm.userStackGuardPage ∧ a.stop = userStackStart + pageSize ∧
    a.writable = true
  others : ∀ a ∈ mm.areas, a.start = mm.userStackGuardPage ∨ a.stop < stackFloor

lemma clear_of_around {before behind : List Area} {a b : Area}
    (apart : (before ++ a :: behind).Pairwise Area.apart) (away : b ∈ before ∨ b ∈ behind) :
    b.clear a.start a.stop := by
  rw [pairwise_append, pairwise_cons] at apart
  rcases away with away | away
  · exact apart.2.2 b away a mem_cons_self
  · exact (apart.2.1.1 b away).symm

lemma StackOk.sizes (ok : StackOk vm mm) :
    stackSize mm.userStackGuardPage = userStackStart - mm.userStackGuardPage - pageSize ∧
    grownSize mm.userStackGuardPage =
      userStackStart - mm.userStackGuardPage - pageSize + userStackGrowSize := by
  have floor := ok.floor
  have top := ok.top
  unfold stackSize grownSize stackSize add32 sub32 wordSize
  unfold stackFloor userStackSizeMax userStackGrowSize userStackStart pageSize at *
  omega

/-- The handler grows the stack after a fault on the guard page, or on the first byte behind it, if
it does not get too large. -/
lemma StackOk.growStack_eq (ok : StackOk vm mm) : vm.growStack addr mm =
    if (mm.userStackGuardPage ≤ addr ∧ addr ≤ mm.userStackGuardPage + pageSize) ∧
      userStackStart - mm.userStackGuardPage - pageSize + userStackGrowSize < userStackSizeMax
    then
      (vm.moveGuard mm.userStackGuardPage (mm.userStackGuardPage - userStackGrowSize) mm).map some
    else some none := by
  obtain ⟨size, grown⟩ := ok.sizes
  have floor := ok.floor
  have top := ok.top
  have aligned := ok.aligned
  have next : add32 mm.userStackGuardPage pageSize = mm.userStackGuardPage + pageSize := by
    refine add32_eq ?_
    unfold wordSize userStackStart at *
    omega
  have whole : isPageAligned (stackSize mm.userStackGuardPage) ∧
      isPageAligned (grownSize mm.userStackGuardPage) := by
    unfold isPageAligned userStackGrowSize userStackStart pageSize at *
    omega
  have old : sub32 userStackStart (stackSize mm.userStackGuardPage + pageSize) =
      mm.userStackGuardPage := by
    rw [size, sub32_eq (by decide) (by omega)]
    omega
  rw [Vm.growStack]
  simp only [next, whole, and_self, not_true_eq_false, if_false, old]
  by_cases here : mm.userStackGuardPage ≤ addr ∧ addr ≤ mm.userStackGuardPage + pageSize
  · rw [if_neg (not_not.mpr here)]
    by_cases full : userStackSizeMax ≤ grownSize mm.userStackGuardPage
    · rw [if_pos full, if_neg]
      omega
    · have new : sub32 userStackStart (grownSize mm.userStackGuardPage + pageSize) =
          mm.userStackGuardPage - userStackGrowSize := by
        unfold sub32 wordSize stackFloor userStackSizeMax userStackGrowSize
          userStackStart pageSize at *
        omega
      rw [if_neg full, if_pos, new]
      exact ⟨here, by omega⟩
  · rw [if_pos here, if_neg fun both => here both.1]

/-! ## Growing the stack -/

lemma StackOk.store (ok : StackOk vm mm) {vm₁ : Vm} (low : stackFloor ≤ start)
    (lt : start < mm.userStackGuardPage)
    (h : vmmStoreArea start mm.userStackGuardPage true mm.areas vm₁ = some (areas', vm')) :
    (∃ a ∈ areas', a.start = start ∧ a.stop = userStackStart + pageSize ∧ a.writable = true) ∧
      (∀ a ∈ areas', a.start = start ∨ a ∈ mm.areas ∧ a.stop < stackFloor) ∧
      ∀ a ∈ mm.areas, a.stop < stackFloor → a ∈ areas' := by
  have top := ok.top
  obtain ⟨s, mem, first, last, rights⟩ := ok.area
  rcases vmmStoreArea_cases h with ⟨before, a, behind, eq, here, -, rfl, -⟩ |
    ⟨before, a, behind, eq, here, -, rfl, -⟩ | ⟨none, -⟩
  · have apart := ok.layout.apart
    rw [eq] at apart
    have away (b : Area) (side : b ∈ before ∨ b ∈ behind) : b ∈ mm.areas ∧ b.stop < stackFloor := by
      have member : b ∈ mm.areas := by
        rw [eq]
        rcases side with side | side <;> simp [side]
      refine ⟨member, ?_⟩
      have nonempty := (ok.layout.areas b member).lt
      have clear := clear_of_around apart side
      have aOk := (ok.layout.areas a (by simp [eq])).lt
      rcases ok.others b member with same | low
      · unfold Area.clear at clear
        omega
      · exact low
    -- the area in front of which the pages are put is the area of the stack
    obtain rfl : s = a := by
      rw [eq] at mem
      simp only [mem_append, mem_cons] at mem
      rcases mem with side | same | side
      · exact absurd (away s (.inl side)).2 (by unfold stackFloor; omega)
      · exact same
      · exact absurd (away s (.inr side)).2 (by unfold stackFloor; omega)
    refine ⟨⟨_, mem_append_right _ mem_cons_self, rfl, last, rights⟩, fun b member => ?_,
      fun b member below => ?_⟩
    · simp only [mem_append, mem_cons] at member
      rcases member with side | rfl | side
      · exact .inr (away b (.inl side))
      · exact .inl rfl
      · exact .inr (away b (.inr side))
    · have ne : b ≠ s := by
        rintro rfl
        omega
      rw [eq] at member
      simp only [mem_append, mem_cons] at member ⊢
      tauto
  · -- no area ends where the new pages start
    have member : a ∈ mm.areas := by simp [eq]
    have nonempty := (ok.layout.areas a member).lt
    rcases ok.others a member with same | low <;> omega
  · exact absurd ⟨first, rights⟩ (none s mem).1

lemma StackOk.moveGuard (ok : StackOk vm mm)
    (room : userStackStart - mm.userStackGuardPage - pageSize + userStackGrowSize <
      userStackSizeMax)
    (h : vm.moveGuard mm.userStackGuardPage (mm.userStackGuardPage - userStackGrowSize) mm =
      some (mm', vm')) : StackOk vm' mm' := by
  have top := ok.top
  have aligned := ok.aligned
  have small : mm.userStackGuardPage < wordSize := by
    unfold wordSize userStackStart at *
    omega
  have layout := ok.layout.moveGuard small (by omega) h
  simp only [Vm.moveGuard, bind, bind_eq_some_iff, pure, some.injEq,
    Prod.mk.injEq] at h
  obtain ⟨⟨mm₁, vm₁⟩, alloc, vm₂, cleared, vm₃, set, rfl, rfl⟩ := h
  obtain ⟨layout₁, same⟩ := ok.layout.vmmAllocUser small alloc
  obtain ⟨-, -, new, old, ⟨vm₀, stored⟩, -⟩ := ok.layout.vmmAllocUser_pages small alloc
  rw [same.directory] at cleared set
  have dir₁ : DirOk vm₁ mm.directory := same.directory ▸ layout₁.ok.dir
  have first := vmmSetGuard_sets dir₁ (tableIndex_lt small) cleared
  have second := vmmSetGuard_sets first.ok (tableIndex_lt (by omega)) set
  have bounds : stackFloor ≤ mm.userStackGuardPage - userStackGrowSize ∧
      mm.userStackGuardPage - userStackGrowSize < mm.userStackGuardPage ∧
      isPageAligned (mm.userStackGuardPage - userStackGrowSize) := by
    unfold stackFloor isPageAligned userStackSizeMax userStackGrowSize userStackStart pageSize at *
    omega
  have place : mm.userStackGuardPage / pageSize * pageSize = mm.userStackGuardPage :=
    Nat.div_mul_cancel (Nat.dvd_of_mod_eq_zero aligned)
  have place' : (mm.userStackGuardPage - userStackGrowSize) / pageSize * pageSize =
      mm.userStackGuardPage - userStackGrowSize :=
    Nat.div_mul_cancel (Nat.dvd_of_mod_eq_zero bounds.2.2)
  have one₁ : OneGuard (vm₁.entry mm.directory) (mm.userStackGuardPage / pageSize) := by
    refine ok.one.extend (old _ (by omega)) fun p => ?_
    by_cases range : mm.userStackGuardPage - userStackGrowSize ≤ p * pageSize ∧
        p * pageSize < mm.userStackGuardPage
    · obtain ⟨f, addr, eq⟩ := new p range
      exact .inl ⟨f, addr, true, eq⟩
    · exact .inr (old p range)
  have none₂ : NoGuard (vm₂.entry mm.directory) := first.entry ▸ one₁.clear
  have user₂ : (vm₂.entry mm.directory
      ((mm.userStackGuardPage - userStackGrowSize) / pageSize)).user = true := by
    obtain ⟨f, addr, eq⟩ := new ((mm.userStackGuardPage - userStackGrowSize) / pageSize) (by omega)
    have ne : (mm.userStackGuardPage - userStackGrowSize) / pageSize ≠
        mm.userStackGuardPage / pageSize := by
      intro same
      rw [same] at place'
      omega
    rw [first.entry, update_of_ne ne, eq]
    rfl
  obtain ⟨area, others, -⟩ := ok.store bounds.1 bounds.2.1 stored
  refine ⟨layout, bounds.2.2, bounds.1, by dsimp only; omega, ?_, area,
    fun a mem => (others a mem).imp_right And.right⟩
  rw [same.directory, second.entry]
  exact none₂.set user₂

/-! ## A new task -/

lemma vmmCreateUserMm_area (kernel : KernelOk vm) (h : vm.vmmCreateUserMm = some (mm, vm')) :
    ∃ a, mm.areas = [a] ∧ a.start = mm.userStackGuardPage ∧ a.stop = userStackStart + pageSize ∧
      a.writable = true := by
  obtain ⟨mm₀, vm₀, mm₁, vm₁, start, empty, -, stack, -, rfl⟩ := vmmCreateUserMm_stack kernel h
  obtain ⟨-, -, -, -, ⟨vm₂, stored⟩, -⟩ := start.vmmAllocUser_pages (by decide) stack
  rw [empty] at stored
  obtain ⟨_, a, _, eq, -⟩ | ⟨_, a, _, eq, -⟩ | ⟨-, a, first, last, rights, areas⟩ :=
    vmmStoreArea_cases stored
  · simp at eq
  · simp at eq
  · exact ⟨a, areas, first, last, rights⟩

lemma StackOk.create (kernel : KernelOk vm) (h : vm.vmmCreateUserMm = some (mm, vm')) :
    StackOk vm' mm := by
  have layout := vmmCreateUserMm_layout kernel h
  obtain ⟨a, areas, first, last, rights⟩ := vmmCreateUserMm_area kernel h
  obtain ⟨mm₀, vm₀, mm₁, vm₁, start, -, copy, stack, guarded, rfl⟩ :=
    vmmCreateUserMm_stack kernel h
  have none (p : Nat) : (vm₀.entry mm₀.directory p).user = false := by
    rw [copy]
    exact kernel.kernelPages p
  obtain ⟨layout₁, same⟩ := start.vmmAllocUser (by decide) stack
  obtain ⟨-, -, new, old, -⟩ := start.vmmAllocUser_pages (by decide) stack
  rw [same.directory] at guarded
  have sets := vmmSetGuard_sets (same.directory ▸ layout₁.ok.dir) (by decide) guarded
  have none₁ : NoGuard (vm₁.entry mm₀.directory) := by
    intro p user
    by_cases range : firstGuard ≤ p * pageSize ∧ p * pageSize < userStackStart + pageSize
    · obtain ⟨f, addr, eq⟩ := new p range
      rw [eq]
      exact ⟨rfl, rfl⟩
    · rw [old p range, none] at user
      cases user
  have user₁ : (vm₁.entry mm₀.directory (firstGuard / pageSize)).user = true := by
    obtain ⟨f, addr, eq⟩ := new (firstGuard / pageSize) (by decide)
    rw [eq]
    rfl
  have bounds : isPageAligned firstGuard ∧ stackFloor ≤ firstGuard ∧
      firstGuard + pageSize ≤ userStackStart := by decide
  refine ⟨layout, bounds.1, bounds.2.1, bounds.2.2, ?_, ?_, ?_⟩
  · rw [same.directory, sets.entry]
    exact none₁.set user₁
  · exact ⟨a, by rw [areas]; exact mem_singleton_self a, first, last, rights⟩
  · intro b mem
    rw [areas, mem_singleton] at mem
    exact .inl (mem ▸ first)

/-! ## Other areas -/

lemma StackOk.vmmAllocUser (ok : StackOk vm mm) (below : stop < stackFloor)
    (h : vm.vmmAllocUser start stop mm writable = some (mm', vm')) : StackOk vm' mm' := by
  have small : stop < wordSize := below.trans (by decide)
  have floor := ok.floor
  have place : mm.userStackGuardPage / pageSize * pageSize = mm.userStackGuardPage :=
    Nat.div_mul_cancel (Nat.dvd_of_mod_eq_zero ok.aligned)
  obtain ⟨layout, same⟩ := ok.layout.vmmAllocUser small h
  obtain ⟨-, -, new, old, ⟨vm₁, stored⟩, -⟩ := ok.layout.vmmAllocUser_pages small h
  have one : OneGuard (vm'.entry mm.directory) (mm.userStackGuardPage / pageSize) := by
    refine ok.one.extend (old _ (by omega)) fun p => ?_
    by_cases range : start ≤ p * pageSize ∧ p * pageSize < stop
    · obtain ⟨f, addr, eq⟩ := new p range
      exact .inl ⟨f, addr, writable, eq⟩
    · exact .inr (old p range)
  have lt := (vmmAllocUser_same h).2.1
  obtain ⟨s, mem, first, last, rights⟩ := ok.area
  have ends : stackFloor < userStackStart + pageSize := by decide
  -- an area that changes is not the area of the stack
  have areas : s ∈ mm'.areas ∧
      ∀ a ∈ mm'.areas, a.start = mm.userStackGuardPage ∨ a.stop < stackFloor := by
    have others := ok.others
    rcases vmmStoreArea_cases stored with ⟨before, a, behind, eq, here, -, eq', -⟩ |
      ⟨before, a, behind, eq, here, -, eq', -⟩ | ⟨-, a, -, here, -, eq'⟩
    · have ne : s ≠ a := by
        rintro rfl
        omega
      rw [eq] at mem others
      simp only [eq', mem_append, mem_cons] at mem others ⊢
      have old := others a (.inr (.inl rfl))
      refine ⟨by tauto, ?_⟩
      rintro b (side | rfl | side)
      · exact others b (.inl side)
      · dsimp only
        omega
      · exact others b (.inr (.inr side))
    · have ne : s ≠ a := by
        rintro rfl
        omega
      rw [eq] at mem others
      simp only [eq', mem_append, mem_cons] at mem others ⊢
      refine ⟨by tauto, ?_⟩
      rintro b (side | rfl | side)
      · exact others b (.inl side)
      · exact .inr below
      · exact others b (.inr (.inr side))
    · simp only [eq', mem_append, mem_singleton]
      refine ⟨.inl mem, ?_⟩
      rintro b (old | rfl)
      · exact others b old
      · exact .inr (here ▸ below)
  have guard := same.guard
  refine ⟨layout, guard ▸ ok.aligned, guard ▸ floor, guard ▸ ok.top, ?_, ?_, ?_⟩
  · rw [same.directory, guard]
    exact one
  · exact ⟨s, areas.1, guard ▸ first, last, rights⟩
  · rw [guard]
    exact areas.2

/-! ## Sequences of faults -/

/-- `page_fault_handler` in a user task. The result is `false` if it jumps to `fail`, having changed
nothing. -/
def pageFaultHandler (addr : Nat) (s : TaskMm × Vm) : Option (Bool × TaskMm × Vm) :=
  (s.2.growStack addr s.1).map fun
    | none => (false, s)
    | some s' => (true, s')

/-- A page fault, or a part of the program that is loaded. -/
inductive StackAction where
  | fault (addr : UInt32)
  | segment (start stop : UInt32) (writable : Bool)

def stackStep (s : TaskMm × Vm) : StackAction → Option (TaskMm × Vm)
  | .fault addr => (pageFaultHandler addr.toNat s).map Prod.snd
  | .segment start stop writable =>
    if stop.toNat < stackFloor then s.2.vmmAllocUser start.toNat stop.toNat s.1 writable else none

abbrev StackRun : TaskMm × Vm → List StackAction → TaskMm × Vm → Prop :=
  Run fun s a s' => stackStep s a = some s'

/-- There is one guard page. All pages from there to the top are mapped and in the area of the
stack, which starts with the guard page, and they are not more than the limit. -/
structure StackShape (s : TaskMm × Vm) : Prop where
  aligned : isPageAligned s.1.userStackGuardPage
  one : OneGuard (s.2.entry s.1.directory) (s.1.userStackGuardPage / pageSize)
  mapped : ∀ p, s.1.userStackGuardPage < p * pageSize → p * pageSize ≤ userStackStart →
    (s.2.entry s.1.directory p).present = true ∧ (s.2.entry s.1.directory p).user = true ∧
      (s.2.entry s.1.directory p).rw = true
  area : ∃ a ∈ s.1.areas, a.start = s.1.userStackGuardPage ∧ a.stop = userStackStart + pageSize ∧
    a.writable = true
  top : s.1.userStackGuardPage + pageSize ≤ userStackStart
  limit : userStackStart + pageSize - (s.1.userStackGuardPage + pageSize) ≤ userStackSizeMax

lemma StackOk.shape {s : TaskMm × Vm} (ok : StackOk s.2 s.1) : StackShape s := by
  refine ⟨ok.aligned, ok.one, fun p above top => ?_, ok.area, ok.top, ?_⟩
  · obtain ⟨a, mem, first, last, rights⟩ := ok.area
    have here : a.hasPage p := by
      unfold Area.hasPage
      have pos : 0 < pageSize := by decide
      omega
    obtain ⟨user, rw⟩ := ok.layout.inside a mem p here
    have ne : p ≠ s.1.userStackGuardPage / pageSize := by
      rintro rfl
      have le := Nat.div_mul_le_self s.1.userStackGuardPage pageSize
      omega
    exact ⟨(ok.one.others p ne user).2, user, rw.trans rights⟩
  · have floor := ok.floor
    unfold stackFloor at floor
    omega

lemma StackOk.step {s s' : TaskMm × Vm} {a : StackAction} (ok : StackOk s.2 s.1)
    (h : stackStep s a = some s') : StackOk s'.2 s'.1 := by
  cases a with
  | fault addr =>
    simp only [stackStep, pageFaultHandler, Option.map_map, ok.growStack_eq] at h
    split_ifs at h with grows
    · simp only [Option.map_map, Option.map_eq_some_iff, comp_apply] at h
      obtain ⟨r, moved, rfl⟩ := h
      exact ok.moveGuard grows.2 moved
    · cases h
      exact ok
  | segment start stop writable =>
    rw [stackStep] at h
    split_ifs at h with below
    exact ok.vmmAllocUser below h

/-- In a task that `vmm_create_user_mm` has made, the stack has its shape after every sequence of
page faults. A fault on an address that is not mapped and not on the guard page, or that would make
the stack larger than the limit, changes nothing. -/
theorem stack_keeps_shape {vm₀ : Vm} {s₀ s : TaskMm × Vm} {acts : List StackAction}
    (kernel : KernelOk vm₀) (created : vm₀.vmmCreateUserMm = some s₀) (run : StackRun s₀ acts s) :
    StackShape s ∧ ∀ addr,
      (s.2.entry s.1.directory (addr / pageSize)).present = false ∧
          addr / pageSize ≠ s.1.userStackGuardPage / pageSize ∨
        userStackSizeMax < userStackStart - (s.1.userStackGuardPage - userStackGrowSize) →
      pageFaultHandler addr s = some (false, s) := by
  have ok : StackOk s.2 s.1 :=
    run.invariant (P := fun s => StackOk s.2 s.1) (.create kernel created) fun _ _ _ ok => ok.step
  refine ⟨ok.shape, fun addr refused => ?_⟩
  rw [pageFaultHandler, ok.growStack_eq, if_neg]
  · rfl
  · rintro ⟨here, room⟩
    have aligned := ok.aligned
    have top := ok.top
    rcases refused with ⟨absent, other⟩ | large
    · -- the first byte behind the guard page is mapped
      have present := (ok.shape.mapped (addr / pageSize) (by
        unfold isPageAligned pageSize at *
        omega) (by
        unfold isPageAligned pageSize userStackStart at *
        omega)).1
      rw [absent] at present
      cases present
    · unfold stackFloor isPageAligned userStackSizeMax userStackGrowSize
        userStackStart pageSize at *
      omega

/-- A program is loaded, and the stack grows. -/
def faultAndLoad : List StackAction :=
  [.segment 0x10000000 0x10002000 true, .fault 0xbffeef00, .fault 0x20000000]

theorem stack_keeps_shape_faultAndLoad : ∃ s₀ s, (bareMachine 64).vmmCreateUserMm = some s₀ ∧
    StackRun s₀ faultAndLoad s ∧ s.1.userStackGuardPage = 0xbffce000 ∧ StackShape s := by
  obtain ⟨s₀, s, created, run, guard⟩ : ∃ s₀ s, (bareMachine 64).vmmCreateUserMm = some s₀ ∧
      StackRun s₀ faultAndLoad s ∧ s.1.userStackGuardPage = 0xbffce000 :=
    Run.exists_of_init (by decide +kernel)
  exact ⟨s₀, s, created, run, guard, (stack_keeps_shape (bareMachine_kernelOk 64) created run).1⟩

end ExscapeOS.Vmm
