import ExscapeOS.Kernel.Vmm.Clone
import ExscapeOS.Kernel.Vmm.Space

/-!
# Parent and child after a clone

The child's directory has the parent's user pages, with the same flags and contents, on frames of
their own. So what is written to user space through the one is not seen through the other.
-/
namespace ExscapeOS.Vmm

open Lib Function Vm

variable {vm vm' : Vm} {mm child : TaskMm} {parent d d' p : Nat}

/-- The directories consist of tables in use, and no free frame is mapped. The first frame is never
free. -/
structure DirsOk (vm : Vm) : Prop where
  first : 0 ∉ vm.pmm.avail
  dirs : ∀ q ∈ vm.pagedirs, DirOk vm q.2 ∧ q.2 < vm.next
  taken : ∀ q ∈ vm.pagedirs, ∀ p, vm.entry q.2 p ≠ .zero → (vm.entry q.2 p).frame ∉ vm.pmm.avail

/-- In user space, `child` is a copy of `parent` as it was in `vm`. -/
structure IsCopy (vm vm' : Vm) (parent child : Nat) : Prop where
  flags : ∀ p, isUserSpace (p * pageSize) →
    ∃ f, vm'.entry child p = { vm.entry parent p with frame := f }
  mapped : ∀ p, isUserSpace (p * pageSize) →
    (vm'.entry child p = .zero ↔ vm.entry parent p = .zero)
  contents : ∀ p, isUserSpace (p * pageSize) → vm.entry parent p ≠ .zero →
    vm'.mem (vm'.entry child p).frame = vm.mem (vm.entry parent p).frame
  free : ∀ p, isUserSpace (p * pageSize) → vm.entry parent p ≠ .zero →
    (vm'.entry child p).frame ∈ vm.pmm.avail
  unshared : ∀ q ∈ vm'.pagedirs, ∀ p r, isUserSpace (p * pageSize) → vm'.entry child p ≠ .zero →
    vm'.entry q.2 r ≠ .zero → (vm'.entry q.2 r).frame = (vm'.entry child p).frame →
      q.2 = child ∧ r = p
  kernel : ∀ i, ¬ isUserSpace (i * 1024 * pageSize) → vm'.dir child i = vm'.dir parent i
  parent : vm'.entry parent = vm.entry parent ∧
    ∀ p, isUserSpace (p * pageSize) → vm.entry parent p ≠ .zero →
      vm'.mem (vm.entry parent p).frame = vm.mem (vm.entry parent p).frame

/-! ## The clone is a copy -/

/-- The child's directory at the end of the clone. -/
structure ClonedDir (vm : Vm) (parent child : Nat) (vm' : Vm) : Prop where
  ok : DirOk vm' child
  new : vm.next ≤ child
  dir : ∀ d ≠ child, vm'.dir d = vm.dir d
  table : ∀ t < vm.next, vm'.table t = vm.table t
  grows : Grows vm vm'
  shared : ∀ i, ¬ isUserSpace (i * 1024 * pageSize) → vm'.dir child i = vm.dir parent i
  present : ∀ i, isUserSpace (i * 1024 * pageSize) →
    (vm'.dir child i).isSome = (vm.dir parent i).isSome
  pages : ∀ p, isUserSpace (p * pageSize) →
    CopyOf vm vm' (vm.entry parent p) (vm'.entry child p)
  inj : ∀ p q, isUserSpace (p * pageSize) → isUserSpace (q * pageSize) →
    vm'.entry child p ≠ .zero → vm'.entry child q ≠ .zero →
    (vm'.entry child p).frame = (vm'.entry child q).frame → p = q

lemma Cloned.dir (user : UserDir vm mm.directory) (h : Cloned vm mm child vm') :
    ClonedDir vm mm.directory child.directory vm' := by
  obtain ⟨vm₁, vm₂, copying, block, eq⟩ := h.copying
  have dir : vm'.dir = vm₁.dir := by rw [eq, ← block.dir]
  have table : vm'.table = vm₁.table := by rw [eq, ← block.table]
  have grows : Grows vm₁ vm' := by
    rw [eq]
    exact ⟨block.pmm, block.mem⟩
  have entry : vm'.entry child.directory = vm₁.entry child.directory :=
    entry_congr (congrFun dir _) fun _ t _ => congrFun table t
  have index (i : Nat) (space : isUserSpace (i * 1024 * pageSize)) : i ∈ List.range 1024 := by
    rw [isUserSpace_table] at space
    exact List.mem_range.mpr (by omega)
  constructor
  · refine copying.ok.congr (congrFun dir _) ?_
    rw [eq]
    exact block.next ▸ Nat.le_succ _
  · rw [h.directory]
    exact Nat.le_add_right ..
  · intro d other
    rw [dir, copying.dir d other]
  · intro t old
    rw [table, copying.table t old]
  · exact copying.grows.trans grows
  · intro i kernel
    rw [dir]
    by_cases visited : i ∈ List.range 1024
    · exact copying.shared i visited kernel
    · -- there is no such table
      rw [copying.missing i visited]
      cases table : vm.dir mm.directory i with
      | none => rfl
      | some t => exact absurd (List.mem_range.mpr (user.ok.bound i t table)) visited
  · intro i space
    rw [dir]
    exact copying.present i (index i space) space
  · intro p space
    rw [entry]
    exact (copying.pages p space (index _ (user_page_iff.mp space))).later grows
  · rw [entry]
    exact copying.inj

namespace ClonedDir

variable {child : Nat} (h : ClonedDir vm parent child vm')

include h

lemma entry_old (ok : DirOk vm d) (old : d < vm.next) : vm'.entry d = vm.entry d :=
  entry_congr (h.dir d (old.trans_le h.new).ne) fun i t used => h.table t (ok.old i t used)

lemma entry_kernel (ok : DirOk vm parent) (kernel : ¬ isUserSpace (p * pageSize)) :
    vm'.entry child p = vm.entry parent p := by
  have same := h.shared (p / 1024) (by rwa [← user_page_iff])
  cases table : vm.dir parent (p / 1024) with
  | none => rw [entry_of_none table, entry_of_none (same.trans table)]
  | some t => rw [entry_of_table table, entry_of_table (same.trans table),
      h.table t (ok.old _ t table)]

lemma copied (first : 0 ∉ vm.pmm.avail) (user : UserDir vm parent)
    (space : isUserSpace (p * pageSize)) (mapped : vm.entry parent p ≠ .zero) :
    vm'.entry child p ≠ .zero ∧ Copied vm vm' (vm.entry parent p) (vm'.entry child p) := by
  have nonzero := ((user.pages p space).resolve_left mapped).1
  have copied := h.pages p space
  rw [CopyOf, if_neg nonzero] at copied
  refine ⟨fun zero => first ?_, copied⟩
  have free := copied.free
  rwa [zero] at free

lemma empty (space : isUserSpace (p * pageSize)) (zero : vm.entry parent p = .zero) :
    vm'.entry child p = .zero := by
  have copied := h.pages p space
  rwa [zero, CopyOf, if_pos (show Pte.zero.frame = 0 from rfl)] at copied

lemma isCopy (dirs : DirsOk vm) (listed : parent ∈ vm.pagedirs.map Prod.snd)
    (user : UserDir vm parent) (pagedirs : ∀ q ∈ vm'.pagedirs, q ∈ vm.pagedirs ∨ q.2 = child) :
    IsCopy vm vm' parent child := by
  have ne : parent ≠ child := (user.old.trans_le h.new).ne
  have taken (p : Nat) (mapped : vm.entry parent p ≠ .zero) :
    (vm.entry parent p).frame ∉ vm.pmm.avail := by
    obtain ⟨q, mem, rfl⟩ := List.mem_map.mp listed
    exact dirs.taken q mem p mapped
  have mapped (p : Nat) (space : isUserSpace (p * pageSize)) (used : vm'.entry child p ≠ .zero) :
      vm.entry parent p ≠ .zero := fun zero => used (h.empty space zero)
  constructor
  · intro p space
    by_cases zero : vm.entry parent p = .zero
    · exact ⟨0, by rw [h.empty space zero, zero]; rfl⟩
    · exact ⟨_, (h.copied dirs.first user space zero).2.flags⟩
  · intro p space
    refine ⟨fun zero => ?_, h.empty space⟩
    by_contra used
    exact (h.copied dirs.first user space used).1 zero
  · intro p space used
    exact (h.copied dirs.first user space used).2.mem
  · intro p space used
    exact (h.copied dirs.first user space used).2.free
  · intro q mem p r space used used' same
    have free := (h.copied dirs.first user space (mapped p space used)).2.free
    rw [← same] at free
    rcases pagedirs q mem with old | new
    · -- this frame was mapped before
      obtain ⟨ok, lt⟩ := dirs.dirs q old
      rw [h.entry_old ok lt] at used' free
      exact absurd free (dirs.taken q old r used')
    · rw [new] at used' same free
      refine ⟨new, ?_⟩
      by_cases space' : isUserSpace (r * pageSize)
      · exact h.inj r p space' space used' used same
      · rw [h.entry_kernel user.ok space'] at used' free
        exact absurd free (taken r used')
  · intro i kernel
    rw [h.shared i kernel, h.dir parent ne]
  · refine ⟨h.entry_old user.ok user.old, fun p space used => ?_⟩
    exact h.grows.mem _ ((user.pages p space).resolve_left used).2

end ClonedDir

/-! ## Reading and writing -/

/-- What is read at an address through a directory. -/
def Vm.load (d addr : Nat) (vm : Vm) : Option UInt8 :=
  if (vm.pte d addr).present then some (vm.mem (vm.pte d addr).frame (addr % pageSize)) else none

/-- A byte is written at an address through a directory. -/
def Vm.store (d addr : Nat) (b : UInt8) (vm : Vm) : Vm :=
  if (vm.pte d addr).present then
    { vm with
      mem := update vm.mem (vm.pte d addr).frame
        (update (vm.mem (vm.pte d addr).frame) (addr % pageSize) b) }
  else vm

/-- A write: the directory, the address and the byte. -/
structure Write where
  dir : Nat
  addr : Nat
  byte : UInt8

def Vm.storeAll (ws : List Write) (vm : Vm) : Vm :=
    ws.foldl (fun vm w => vm.store w.dir w.addr w.byte) vm

/-- The directories `d` and `d'` have no frame of user space in common. -/
def Separate (vm : Vm) (d d' : Nat) : Prop :=
  ∀ p q, isUserSpace (p * pageSize) → isUserSpace (q * pageSize) → vm.entry d p ≠ .zero →
    vm.entry d' q ≠ .zero → (vm.entry d p).frame ≠ (vm.entry d' q).frame

lemma store_entry (d addr : Nat) (b : UInt8) (vm : Vm) : (vm.store d addr b).entry = vm.entry := by
  unfold store
  split_ifs <;> rfl

/-- Two states that look the same through `d`. -/
structure Alike (d : Nat) (vm₁ vm₂ : Vm) : Prop where
  entry : vm₁.entry = vm₂.entry
  mem : ∀ p, isUserSpace (p * pageSize) → vm₁.entry d p ≠ .zero →
    vm₁.mem (vm₁.entry d p).frame = vm₂.mem (vm₁.entry d p).frame

lemma isUserSpace_div {addr : Nat} (space : isUserSpace addr) :
    isUserSpace (addr / pageSize * pageSize) := by
  unfold isUserSpace pageSize at *
  omega

lemma ne_zero_of_present {e : Pte} (present : e.present = true) : e ≠ .zero := by
  rintro rfl
  cases present

namespace Alike

variable {vm₁ vm₂ : Vm} {addr : Nat} (h : Alike d vm₁ vm₂) (space : isUserSpace addr)

include h space

lemma load : vm₁.load d addr = vm₂.load d addr := by
  unfold Vm.load
  rw [pte_eq, pte_eq, ← h.entry]
  split_ifs with present
  · rw [h.mem _ (isUserSpace_div space) (ne_zero_of_present present)]
  · rfl

lemma store (b : UInt8) : Alike d (vm₁.store d addr b) (vm₂.store d addr b) := by
  refine ⟨by rw [store_entry, store_entry, h.entry], fun p user mapped => ?_⟩
  rw [store_entry] at mapped ⊢
  unfold Vm.store
  rw [pte_eq, pte_eq, ← h.entry]
  split_ifs with present
  · have here := h.mem _ (isUserSpace_div space) (ne_zero_of_present present)
    simp only [update_apply, here]
    split_ifs
    · rfl
    · exact h.mem p user mapped
  · exact h.mem p user mapped

lemma store_other (separate : Separate vm₁ d d') (b : UInt8) :
    Alike d (vm₁.store d' addr b) vm₂ := by
  refine ⟨by rw [store_entry, h.entry], fun p user mapped => ?_⟩
  rw [store_entry] at mapped ⊢
  unfold Vm.store
  rw [pte_eq]
  split_ifs with present
  · have ne := separate p _ user (isUserSpace_div space) mapped (ne_zero_of_present present)
    rw [← h.mem p user mapped]
    exact update_of_ne ne ..
  · exact h.mem p user mapped

end Alike

lemma Alike.storeAll {vm₁ vm₂ : Vm} {ws : List Write} (h : Alike d vm₁ vm₂)
    (separate : Separate vm₁ d d')
    (writes : ∀ w ∈ ws, (w.dir = d ∨ w.dir = d') ∧ isUserSpace w.addr) :
    Alike d (vm₁.storeAll ws) (vm₂.storeAll (ws.filter fun w => w.dir = d)) := by
  induction ws generalizing vm₁ vm₂ with
  | nil => exact h
  | cons w ws ih =>
    obtain ⟨⟨dir, space⟩, rest⟩ := List.forall_mem_cons.mp writes
    have separate' : Separate (vm₁.store w.dir w.addr w.byte) d d' := by
      unfold Separate
      rw [store_entry]
      exact separate
    by_cases own : w.dir = d
    · rw [List.filter_cons_of_pos (by simpa using own)]
      refine ih ?_ separate' rest
      dsimp only
      rw [own]
      exact h.store space w.byte
    · rw [List.filter_cons_of_neg (by simpa using own)]
      refine ih ?_ separate' rest
      dsimp only
      rw [dir.resolve_left own]
      exact h.store_other space separate w.byte

lemma IsCopy.separate {child : Nat} (h : IsCopy vm vm' parent child) (ne : parent ≠ child)
    (listed : parent ∈ vm'.pagedirs.map Prod.snd) : Separate vm' child parent := by
  intro p q space _ mapped mapped' same
  obtain ⟨r, mem, eq⟩ := List.mem_map.mp listed
  rw [← eq] at mapped' same
  exact ne (eq.symm.trans (h.unshared r mem p q space mapped mapped' same.symm).1)

/-- The frames that a clone of `mm` needs, for the pages and for the kernel heap. -/
def cloneNeeds (vm : Vm) (mm : TaskMm) : Nat :=
  (vm.growth.take (4 + 2 * mm.areas.length + tablesIn vm mm.directory (List.range 1024))).sum +
    framesIn vm mm.directory (List.range 1024)

/-- With enough memory, `vmm_clone_mm` makes a copy of the parent. Then a mixture of writes to user
space, through the parent's and the child's directory, is seen through each of them as if there were
only its own writes. -/
theorem clone_is_separate_copy (dirs : DirsOk vm) (listed : mm.directory ∈ vm.pagedirs.map Prod.snd)
    (user : UserDir vm mm.directory) (enough : cloneNeeds vm mm ≤ vm.pmm.avail.card) :
    ∃ child vm', vm.vmmCloneMm mm = some (child, vm') ∧
      IsCopy vm vm' mm.directory child.directory ∧
      ∀ ws : List Write,
        (∀ w ∈ ws, (w.dir = child.directory ∨ w.dir = mm.directory) ∧ isUserSpace w.addr) →
        ∀ d, d = child.directory ∨ d = mm.directory → ∀ addr, isUserSpace addr →
          (vm'.storeAll ws).load d addr =
            (vm'.storeAll (ws.filter fun w => w.dir = d)).load d addr := by
  obtain ⟨⟨child, vm'⟩, ran, -, cloned⟩ := (vmmCloneMm_costs user).of_enough enough
  have dir : ClonedDir vm mm.directory child.directory vm' := cloned.dir user
  have ne : mm.directory ≠ child.directory := (user.old.trans_le dir.new).ne
  obtain ⟨vm₁, vm₂, -, -, eq⟩ := cloned.copying
  have pagedirs : vm'.pagedirs = vm.pagedirs ++ [(vm₁.next, child.directory)] :=
    congrArg Vm.pagedirs eq
  have copy : IsCopy vm vm' mm.directory child.directory := by
    refine dir.isCopy dirs listed user fun q mem => ?_
    rw [pagedirs, List.mem_append, List.mem_singleton] at mem
    exact mem.imp_right fun new => by rw [new]
  have listed' : mm.directory ∈ vm'.pagedirs.map Prod.snd := by
    rw [pagedirs, List.map_append]
    exact List.mem_append_left _ listed
  refine ⟨child, vm', ran, copy, fun ws writes d own addr space => ?_⟩
  have separate := copy.separate ne listed'
  have separate' : Separate vm' mm.directory child.directory := by
    intro p q space space' mapped mapped' same
    exact separate q p space' space mapped' mapped same.symm
  have start : Alike d vm' vm' := ⟨rfl, fun _ _ _ => rfl⟩
  rcases own with rfl | rfl
  · exact (start.storeAll separate writes).load space
  · refine (start.storeAll separate' fun w mem => ?_).load space
    exact ⟨(writes w mem).1.symm, (writes w mem).2⟩

/-- A machine with one task that has one page. -/
def onePage : Vm :=
  { bareMachine 32 with
    pmm := { nframes := 32, used := fun f => f = 0 ∨ f = 7, last := 0, packed := nofun }
    live := fun b => b < 4
    next := 4
    dir := fun d i => if d = 1 ∧ i = 100 then some 2 else none
    table := fun t j => if t = 2 ∧ j = 5 then userPage 7 0x19005000 true else .zero
    pagedirs := [(3, 1)] }

/-- The memory of this task. -/
def onePageMm : TaskMm where
  areas := []
  brkStart := 0
  brk := 0
  initialBrk := 0
  directory := 1
  userStackGuardPage := 0
  framesUsed := 1
  block := 0
  list := 0

lemma onePage_entry (p : Nat) : onePage.entry 1 p = .zero ∨
    onePage.entry 1 p = userPage 7 0x19005000 true := by
  cases table : onePage.dir 1 (p / 1024) with
  | none => exact .inl (entry_of_none table)
  | some t =>
    rw [entry_of_table table]
    simp only [onePage]
    split_ifs
    · exact .inr rfl
    · exact .inl rfl

lemma onePage_userDir : UserDir onePage 1 where
  ok := by
    constructor
    · intro i t
      simp +contextual [onePage]
    · intro i j t
      simp +contextual [onePage]
    · intro i t
      simp only [onePage]
      grind
  old := by decide
  pages p _ := (onePage_entry p).imp_right fun entry => by
    rw [entry]
    decide

lemma onePage_dirsOk : DirsOk onePage where
  first := by decide
  dirs := by simpa [onePage] using And.intro onePage_userDir.ok onePage_userDir.old
  taken := by
    intro q mem p mapped
    obtain rfl := List.mem_singleton.mp mem
    rw [(onePage_entry p).resolve_left mapped]
    decide

theorem clone_is_separate_copy_sample : ∃ child vm', onePage.vmmCloneMm onePageMm =
    some (child, vm') ∧ IsCopy onePage vm' onePageMm.directory child.directory := by
  have needs : cloneNeeds onePage onePageMm = 1 := by decide +kernel
  obtain ⟨child, vm', ran, copy, -⟩ := clone_is_separate_copy onePage_dirsOk (by decide)
    onePage_userDir (needs.le.trans (by decide))
  exact ⟨child, vm', ran, copy⟩

end ExscapeOS.Vmm
