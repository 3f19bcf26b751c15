import ExscapeOS.Kernel.Vmm.Isolation
import ExscapeOS.Kernel.Vmm.Stack
import ExscapeOS.Kernel.Vmm.Taking

/-!
# The contents of user memory

What the kernel writes through the page directory of a task can be read there afterwards, and
nothing else changes: two user pages never share a frame. New pages from `vmm_alloc_user` leave the
old ones alone.
-/
namespace ExscapeOS.Vmm

open Lib Function Vm List Option

variable {vm vm' : Vm} {mm mm' : TaskMm} {d n a b addr start stop : Nat} {writable : Bool}
  {bs : List UInt8}

/-- The kernel writes bytes through the directory `d`, also to read-only pages, as the bit `WP` of
`cr0` is not set. Without a page it stops. -/
def Vm.storeBytes (d : Nat) : Nat → List UInt8 → Vm → Option Vm
  | _, [], vm => some vm
  | addr, b :: bs, vm => do
    kassert (vm.pte d addr).present
    storeBytes d (add32 addr 1) bs (vm.store d addr b)

/-- There is a page of user mode at the address. -/
def Vm.mapped (vm : Vm) (d addr : Nat) : Prop :=
  (vm.pte d addr).user = true ∧ (vm.pte d addr).present = true

/-- The bytes `bs` are at the address. -/
def Vm.holds (vm : Vm) (d addr : Nat) (bs : List UInt8) : Prop :=
  ∀ i < bs.length, vm.load d (addr + i) = bs[i]?

/-! ## Writing -/

lemma store_pte (d addr : Nat) (b : UInt8) (vm : Vm) (e a : Nat) :
    (vm.store d addr b).pte e a = vm.pte e a := by
  unfold store
  split_ifs <;> rfl

lemma load_store (ok : PagesOk vm d n) (here : vm.mapped d a) (there : vm.mapped d b) (v : UInt8) :
    (vm.store d a v).load d b = if b = a then some v else vm.load d b := by
  unfold Vm.load
  rw [store_pte, if_pos there.2, if_pos there.2]
  simp only [Vm.store, if_pos here.2, update_apply]
  by_cases frame : (vm.pte d b).frame = (vm.pte d a).frame
  · have page : b / pageSize = a / pageSize := by
      simp only [pte_eq] at frame
      exact ok.pages.inj _ _ (pte_eq vm d b ▸ there.1) (pte_eq vm d a ▸ here.1) frame
    have same : b % pageSize = a % pageSize ↔ b = a := by
      refine ⟨fun offset => ?_, fun eq => by rw [eq]⟩
      rw [← Nat.div_add_mod b pageSize, ← Nat.div_add_mod a pageSize, page, offset]
    simp only [frame, if_true, update_apply, same]
    split_ifs <;> rfl
  · have ne : b ≠ a := fun eq => frame (by rw [eq])
    simp [frame, ne]

/-- The bytes `bs` have been written at `addr`. -/
structure Wrote (d addr : Nat) (bs : List UInt8) (vm vm' : Vm) : Prop where
  eq : vm' = { vm with mem := vm'.mem }
  inside : vm'.holds d addr bs
  outside : ∀ a, vm.mapped d a → a < addr ∨ addr + bs.length ≤ a → vm'.load d a = vm.load d a

lemma store_eq (d addr : Nat) (b : UInt8) (vm : Vm) :
    vm.store d addr b = { vm with mem := (vm.store d addr b).mem } := by
  unfold store
  split_ifs <;> rfl

lemma PagesOk.setMem (ok : PagesOk vm d n) (eq : vm' = { vm with mem := vm'.mem }) :
    PagesOk vm' d n := by
  rw [eq]
  exact ⟨⟨ok.dir.bound, ok.dir.inj, ok.dir.old⟩, ok.pages⟩

namespace Wrote

variable (wrote : Wrote d addr bs vm vm')

include wrote

lemma pte (e a : Nat) : vm'.pte e a = vm.pte e a := by
  rw [wrote.eq]
  rfl

lemma mapped : vm'.mapped d a ↔ vm.mapped d a := by rw [Vm.mapped, Vm.mapped, wrote.pte]

lemma pagesOk (ok : PagesOk vm d n) : PagesOk vm' d n := ok.setMem wrote.eq

lemma holds {there : List UInt8} (held : vm.holds d a there)
    (mapped : ∀ b, a ≤ b → b < a + there.length → vm.mapped d b)
    (apart : a + there.length ≤ addr ∨ addr + bs.length ≤ a) : vm'.holds d a there := by
  intro i lt
  rw [wrote.outside (a + i) (mapped _ (by omega) (by omega)) (by omega)]
  exact held i lt

end Wrote

lemma Wrote.zero {size : Nat} (wrote : Wrote d addr (List.replicate size 0) vm vm')
    (low : addr ≤ a) (high : a < addr + size) : vm'.load d a = some 0 := by
  have here := wrote.inside (a - addr) (by rw [length_replicate]; omega)
  rw [getElem?_replicate, if_pos (by omega), Nat.add_sub_cancel' low] at here
  exact here

lemma storeBytes_wrote (addr : Nat) (bs : List UInt8) (ok : PagesOk vm d n)
    (fits : addr + bs.length < wordSize)
    (mapped : ∀ a, addr ≤ a → a < addr + bs.length → vm.mapped d a) :
    ∃ vm', vm.storeBytes d addr bs = some vm' ∧ Wrote d addr bs vm vm' := by
  induction bs generalizing vm addr with
  | nil => exact ⟨vm, rfl, rfl, by simp [Vm.holds], fun _ _ _ => rfl⟩
  | cons b bs ih =>
    rw [length_cons] at fits mapped
    have here := mapped addr le_rfl (by omega)
    have eq := store_eq d addr b vm
    have mapped' (a : Nat) : (vm.store d addr b).mapped d a ↔ vm.mapped d a := by
      rw [Vm.mapped, Vm.mapped, store_pte]
    have next : add32 addr 1 = addr + 1 := add32_eq (by omega)
    obtain ⟨vm', ran, wrote⟩ := ih (addr + 1) (ok.setMem eq) (by omega)
      fun a low high => (mapped' a).mpr (mapped a (by omega) (by omega))
    refine ⟨vm', ?_, ?_, fun i lt => ?_, fun a there apart => ?_⟩
    · rw [Vm.storeBytes, next]
      simp [kassert, here.2, ran]
    · rw [wrote.eq, eq]
    · cases i with
      | zero =>
        rw [Nat.add_zero, wrote.outside addr ((mapped' addr).mpr here) (by omega),
          load_store ok here here, if_pos rfl, getElem?_cons_zero]
      | succ i =>
        rw [length_cons] at lt
        rw [getElem?_cons_succ, ← wrote.inside i (by omega)]
        congr 1
        omega
    · rw [length_cons] at apart
      rw [wrote.outside a ((mapped' a).mpr there) (by omega), load_store ok here there,
        if_neg (by omega)]

/-! ## New pages -/

lemma vmmGetPage_grows (h : vm.vmmGetPage addr d = some vm') : Grows vm vm' := by
  unfold vmmGetPage at h
  split at h
  · simp only [vmmCreatePageTable, bind, bind_eq_some_iff, kassert_eq_some, exists_const, pure,
      some.injEq] at h
    obtain ⟨-, ⟨t, vm₁⟩, alloc, -, rfl⟩ := h
    have grows := (kmalloc_newBlock alloc).grows
    exact ⟨grows.pmm, grows.mem⟩
  · cases h
    exact ⟨.refl _, fun _ _ => rfl⟩

lemma vmmMap_grows {f : Nat} {kernelmode : Bool}
    (h : vm.vmmMap addr f d kernelmode writable = some vm') : Grows vm vm' := by
  simp only [vmmMap, bind, bind_eq_some_iff, kassert_eq_some, exists_const, pure,
    some.injEq] at h
  obtain ⟨vm₁, got, -, rfl⟩ := h
  have grows := vmmGetPage_grows got
  refine ⟨?_, ?_⟩
  · rw [setPte_pmm]
    exact grows.pmm
  · rw [(setPte_same _ _ _ _).2.1]
    exact grows.mem

lemma allocPages_grows {addrs : List Nat} (h : allocPages d writable addrs vm = some vm') :
    Grows vm vm' := by
  induction addrs generalizing vm with
  | nil =>
    obtain rfl := some.inj h
    exact .refl vm
  | cons addr rest ih =>
    simp only [allocPages, bind, bind_eq_some_iff] at h
    obtain ⟨⟨f, vm₁⟩, alloc, vm₂, mapped, more⟩ := h
    exact (pmmAlloc_takes alloc).1.grows.trans ((vmmMap_grows mapped).trans (ih more))

lemma vmmStoreArea_grows {areas areas' : List Area}
    (h : vmmStoreArea start stop writable areas vm = some (areas', vm')) : Grows vm vm' := by
  induction areas generalizing areas' vm' with
  | nil =>
    simp only [vmmStoreArea, bind, bind_eq_some_iff, pure, some.injEq,
      Prod.mk.injEq] at h
    obtain ⟨⟨block, vm₁⟩, alloc, ⟨node, vm₂⟩, alloc', -, rfl⟩ := h
    exact (kmalloc_newBlock alloc).grows.trans (kmalloc_newBlock alloc').grows
  | cons a as ih =>
    unfold vmmStoreArea at h
    split_ifs at h
    · cases h
      exact .refl vm
    · cases h
      exact .refl vm
    · simp only [bind, bind_eq_some_iff, pure, some.injEq, Prod.mk.injEq] at h
      obtain ⟨⟨as', vm₁⟩, stored, -, rfl⟩ := h
      exact ih stored

lemma vmmAllocUser_grows (h : vm.vmmAllocUser start stop mm writable = some (mm', vm')) :
    Grows vm vm' := by
  simp only [Vm.vmmAllocUser, bind, bind_eq_some_iff, kassert_eq_some, exists_const, pure,
    some.injEq, Prod.mk.injEq] at h
  obtain ⟨-, vm₁, alloc, ⟨areas', vm₂⟩, store, -, rfl⟩ := h
  exact (allocPages_grows alloc).trans (vmmStoreArea_grows store)

/-- The pages that were there are as they were. -/
def Kept (d : Nat) (vm vm' : Vm) : Prop :=
  ∀ a, vm.mapped d a → vm'.pte d a = vm.pte d a ∧ vm'.load d a = vm.load d a

lemma Kept.mapped (kept : Kept d vm vm') (here : vm.mapped d a) : vm'.mapped d a := by
  rw [Vm.mapped, (kept a here).1]
  exact here

lemma Kept.trans {vm'' : Vm} (kept : Kept d vm vm') (kept' : Kept d vm' vm'') : Kept d vm vm'' := by
  intro a here
  obtain ⟨pte, load⟩ := kept' a (kept.mapped here)
  obtain ⟨pte', load'⟩ := kept a here
  exact ⟨pte.trans pte', load.trans load'⟩

/-- The pages from `start` to `stop` are new, the others as they were. -/
structure Added (d start stop : Nat) (writable : Bool) (vm vm' : Vm) : Prop where
  clear : ∀ a, vm.mapped d a → a < start ∨ stop ≤ a
  new : ∀ a, start ≤ a → a < stop → vm'.mapped d a ∧ (vm'.pte d a).rw = writable
  kept : Kept d vm vm'

lemma Added.write {vm'' : Vm} (added : Added d start stop writable vm vm')
    (eq : vm'' = { vm' with mem := vm''.mem })
    (outside : ∀ a, vm'.mapped d a → a < start ∨ stop ≤ a → vm''.load d a = vm'.load d a) :
    Added d start stop writable vm vm'' := by
  have pte (a : Nat) : vm''.pte d a = vm'.pte d a := by
    rw [eq]
    rfl
  refine ⟨added.clear, fun a low high => ?_, fun a here => ⟨?_, ?_⟩⟩
  · rw [Vm.mapped, pte]
    exact added.new a low high
  · exact (pte a).trans (added.kept a here).1
  · rw [outside a (added.kept.mapped here) (added.clear a here)]
    exact (added.kept a here).2

lemma Added.wrote {vm'' : Vm} (added : Added d start stop writable vm vm')
    (wrote : Wrote d addr bs vm' vm'') (inside : start ≤ addr ∧ addr + bs.length ≤ stop) :
    Added d start stop writable vm vm'' :=
  added.write wrote.eq fun a here apart => wrote.outside a here (by omega)

lemma Layout.vmmAllocUser_added (layout : Layout vm mm) (bound : stop < wordSize)
    (h : vm.vmmAllocUser start stop mm writable = some (mm', vm')) :
    Added mm.directory start stop writable vm vm' := by
  obtain ⟨-, -, startAligned, stopAligned⟩ := vmmAllocUser_same h
  obtain ⟨-, -, new, old, -⟩ := layout.vmmAllocUser_pages bound h
  have page {a : Nat} (range : start ≤ a ∧ a < stop) :
      start ≤ a / pageSize * pageSize ∧ a / pageSize * pageSize < stop := by
    unfold isPageAligned pageSize at *
    omega
  have clear (a : Nat) (here : vm.mapped mm.directory a) : a < start ∨ stop ≤ a := by
    by_contra range
    have zero := (layout.vmmAllocUser_pages bound h).empty _ (page (a := a) (by omega))
    rw [Vm.mapped, pte_eq, zero] at here
    cases here.1
  refine ⟨clear, fun a low high => ?_, fun a here => ?_⟩
  · obtain ⟨f, addr, entry⟩ := new _ (page ⟨low, high⟩)
    rw [Vm.mapped, pte_eq, entry]
    exact ⟨⟨rfl, rfl⟩, rfl⟩
  · have away : ¬ (start ≤ a / pageSize * pageSize ∧ a / pageSize * pageSize < stop) := by
      have apart := clear a here
      unfold isPageAligned pageSize at *
      omega
    have same : vm'.pte mm.directory a = vm.pte mm.directory a := by
      rw [pte_eq, pte_eq, old _ away]
    refine ⟨same, ?_⟩
    have used := layout.ok.pages.used _ (pte_eq vm mm.directory a ▸ here.1)
    rw [← pte_eq] at used
    unfold Vm.load
    rw [same, (vmmAllocUser_grows h).mem _ (Pmm.pooled_iff.mp used).1]

lemma Layout.setMem (layout : Layout vm mm) (eq : vm' = { vm with mem := vm'.mem }) :
    Layout vm' mm := by
  have ok := layout.ok.setMem eq
  rw [eq] at ok ⊢
  exact ⟨ok, layout.areas, layout.apart, layout.covered, layout.inside⟩

lemma Added.store (added : Added d start stop writable vm vm') (ok : PagesOk vm' d n)
    (bound : stop < wordSize) (addr : Nat) (bs : List UInt8)
    (inside : start ≤ addr ∧ addr + bs.length ≤ stop) :
    ∃ vm'', vm'.storeBytes d addr bs = some vm'' ∧ Wrote d addr bs vm' vm'' ∧
      Added d start stop writable vm vm'' := by
  obtain ⟨vm'', ran, wrote⟩ := storeBytes_wrote addr bs ok (by omega) fun a low high =>
    (added.new a (by omega) (by omega)).1
  exact ⟨vm'', ran, wrote, added.wrote wrote inside⟩

lemma Layout.vmmAllocUser_cleared (layout : Layout vm mm) (bound : stop < wordSize)
    (h : vm.vmmAllocUser start stop mm writable = some (mm', vm')) :
    ∃ vm'', vm'.storeBytes mm.directory start (List.replicate (stop - start) 0) = some vm'' ∧
      vm'' = { vm' with mem := vm''.mem } ∧ PagesOk vm'' mm.directory mm'.framesUsed ∧
      Added mm.directory start stop writable vm vm'' ∧
      ∀ a, start ≤ a → a < stop → vm''.load mm.directory a = some 0 := by
  obtain ⟨task, lt, -⟩ := vmmAllocUser_same h
  have ok := (layout.vmmAllocUser bound h).1.ok
  rw [task.directory] at ok
  obtain ⟨vm'', ran, wrote, added⟩ := (layout.vmmAllocUser_added bound h).store ok bound start
    (List.replicate (stop - start) 0) ⟨le_rfl, by rw [length_replicate]; omega⟩
  exact ⟨vm'', ran, wrote.eq, wrote.pagesOk ok, added, fun a low high => wrote.zero low (by omega)⟩

lemma pageCeil_spec (small : addr + pageSize ≤ wordSize) :
    addr ≤ pageCeil addr ∧ pageCeil addr < addr + pageSize ∧ isPageAligned (pageCeil addr) := by
  by_cases aligned : isPageAligned addr
  · rw [pageCeil, if_pos aligned]
    exact ⟨le_rfl, Nat.lt_add_of_pos_right (by decide), aligned⟩
  · have eq : pageCeil addr = addr - addr % pageSize + pageSize := by
      rw [pageCeil, if_neg aligned]
      exact add32_eq (by unfold isPageAligned pageSize wordSize at *; omega)
    rw [eq]
    unfold isPageAligned pageSize at *
    omega

/-! ## Enough memory -/

lemma vmmStoreArea_isSome {areas : List Area} (lt : start < stop)
    (ok : ∀ a ∈ areas, a.start < a.stop) (clear : ∀ a ∈ areas, a.clear start stop)
    (room : (vm.growth.take 2).sum ≤ vm.pmm.avail.card) :
    (vmmStoreArea start stop writable areas vm).isSome := by
  induction areas with
  | nil =>
    have costs : Costs vm 2 0 Prod.snd (fun _ => True) (vmmStoreArea start stop writable [] vm) :=
      Costs.bind (l := 1) (q := 0) (kmalloc_costs vm) (fun (block, vm₁) _ =>
        Costs.bind (l := 0) (q := 0) (kmalloc_costs vm₁) (fun _ _ => .pure _ rfl trivial)
          rfl rfl) rfl rfl
    obtain ⟨r, eq, -⟩ := costs.of_enough (by simpa using room)
    rw [eq, isSome_some]
  | cons a as ih =>
    have apart := clear a mem_cons_self
    have nonempty := ok a mem_cons_self
    unfold Area.clear at apart
    have more := ih (fun b mem => ok b (mem_cons_of_mem _ mem)) fun b mem =>
      clear b (mem_cons_of_mem _ mem)
    obtain ⟨r, eq⟩ := isSome_iff_exists.mp more
    rw [vmmStoreArea]
    split_ifs with before behind meets
    · rfl
    · rfl
    · omega
    · simp [eq]

/-- There are frames for the pages from `start` to `stop`, for missing page tables, and for the
area. -/
def Vm.roomFor (vm : Vm) (d start stop : Nat) : Prop :=
  (vm.growth.take ((missingTables vm d (pagesFrom start stop)).card + 2)).sum +
    (pagesFrom start stop).length ≤ vm.pmm.avail.card

instance (vm : Vm) (d start stop : Nat) : Decidable (vm.roomFor d start stop) :=
  inferInstanceAs (Decidable (_ ≤ _))

lemma Layout.vmmAllocUser_isSome (layout : Layout vm mm) (startAligned : isPageAligned start)
    (stopAligned : isPageAligned stop) (lt : start < stop)
    (space : 0x10000000 ≤ start ∧ stop ≤ 0xc0000000)
    (empty : ∀ a, start ≤ a → a < stop → vm.pte mm.directory a = .zero)
    (room : vm.roomFor mm.directory start stop) :
    (vm.vmmAllocUser start stop mm writable).isSome := by
  have range {addr : Nat} (mem : addr ∈ pagesFrom start stop) :=
    (mem_pagesFrom startAligned stopAligned).mp mem
  have zero (addr : Nat) (mem : addr ∈ pagesFrom start stop) :
      vm.entry mm.directory (addr / pageSize) = .zero := by
    rw [← pte_eq]
    exact empty addr (range mem).2.1 (range mem).2.2
  have user (addr : Nat) (mem : addr ∈ pagesFrom start stop) : isUserSpace addr := by
    have here := range mem
    unfold isUserSpace
    omega
  have costs : Costs vm _ _ id (Grows vm)
      (allocPages mm.directory writable (pagesFrom start stop) vm) :=
    allocPages_costs layout.ok.dir user (pagesFrom_nodup start stop) zero
  unfold Vm.roomFor at room
  rw [take_add, sum_append] at room
  obtain ⟨vm₁, alloc, ⟨growth, left⟩, -⟩ := costs.of_enough (by omega)
  simp only [id_eq] at growth left
  have stored : (vmmStoreArea start stop writable mm.areas vm₁).isSome := by
    refine vmmStoreArea_isSome lt (fun a mem => (layout.areas a mem).lt)
      (layout.clear startAligned stopAligned lt zero) ?_
    rw [growth]
    omega
  obtain ⟨r, eq⟩ := isSome_iff_exists.mp stored
  simp [Vm.vmmAllocUser, kassert, lt, startAligned, stopAligned, alloc, eq]

end ExscapeOS.Vmm
