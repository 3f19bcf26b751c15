import ExscapeOS.Kernel.Pmm

/-!
# Virtual memory

The page tables, the memory areas of user tasks and the functions of `vmm.c` that change them. A
page directory has 1024 entries for page tables, a page table has 1024 entries for pages; both are
blocks of the kernel heap, and so are the structures that describe the memory of a task. `live` says
which blocks are allocated. A freed block keeps its contents here, and `stale` is set when a page is
looked up through a directory or a table that has been freed.

The kernel heap takes frames when it grows: `growth` lists how much it grows in the next calls of
`kmalloc`, in pages. The mappings of these pages, which user mode cannot access, are left out. All
functions return `none` when the kernel stops in an assertion or a panic.
-/
namespace ExscapeOS.Vmm

open Lib Function

/-! ## Addresses -/

def pageSize : Nat := 0x1000

def isUserSpace (addr : Nat) : Prop := 0x10000000 ≤ addr ∧ addr < 0xc0000000

instance (addr : Nat) : Decidable (isUserSpace addr) :=
  inferInstanceAs (Decidable (0x10000000 ≤ addr ∧ addr < 0xc0000000))

def isPageAligned (addr : Nat) : Prop := addr % pageSize = 0

instance (addr : Nat) : Decidable (isPageAligned addr) :=
  inferInstanceAs (Decidable (addr % pageSize = 0))

def userStackStart : Nat := 0xbffff000

def userStackSize : Nat := 64 * 1024

def userStackSizeMax : Nat := 8 * 1024 * 1024

def userStackGrowSize : Nat := 128 * 1024

/-- The index into the page directory. -/
def tableIndex (addr : Nat) : Nat := addr / pageSize / 1024

/-- The index into the page table. -/
def pageIndex (addr : Nat) : Nat := addr / pageSize % 1024

/-- The addresses of a loop from `start` to `stop` with step `PAGE_SIZE`. -/
def pagesFrom (start stop : Nat) : List Nat :=
  (List.range ((stop - start + (pageSize - 1)) / pageSize)).map (start + pageSize * ·)

/-! ## The state -/

/-- `struct page`. -/
structure Pte where
  frame : Nat
  present : Bool
  rw : Bool
  user : Bool
  global : Bool
  guard : Bool
  /-- The bits that the kernel does not look at. -/
  rest : Nat
  deriving DecidableEq

def Pte.zero : Pte :=
  { frame := 0, present := false, rw := false, user := false, global := false, guard := false
    rest := 0 }

/-- `struct vm_area`, with the blocks of the structure and of its list node. -/
structure Area where
  start : Nat
  stop : Nat
  writable : Bool
  block : Nat
  node : Nat
  deriving DecidableEq

/-- `struct task_mm`, with the blocks of the structure and of its list. -/
structure TaskMm where
  areas : List Area
  brkStart : Nat
  brk : Nat
  initialBrk : Nat
  directory : Nat
  userStackGuardPage : Nat
  framesUsed : Nat
  block : Nat
  list : Nat

structure Vm where
  pmm : Pmm
  /-- The contents of the frames. -/
  mem : Nat → Nat → UInt8
  /-- The pages by which the next calls of `kmalloc` extend the kernel heap. -/
  growth : List Nat
  live : Nat → Bool
  /-- Blocks from here on have not been used yet. -/
  next : Nat
  table : Nat → Nat → Pte
  dir : Nat → Nat → Option Nat
  kernelDirectory : Nat
  /-- The list of page directories, with the blocks of its nodes. -/
  pagedirs : List (Nat × Nat)
  stale : Bool

namespace Vm

/-! ## Frames and blocks -/

/-- `pmm_alloc`, which also clears the frame. -/
def pmmAlloc (vm : Vm) : Option (Nat × Vm) :=
  vm.pmm.alloc.map fun (f, pmm) => (f, { vm with pmm := pmm, mem := update vm.mem f fun _ => 0 })

def pmmFree (f : Nat) (vm : Vm) : Option Vm := (vm.pmm.free f).map fun pmm => { vm with pmm := pmm }

/-- `heap_expand` takes `n` frames. -/
def heapExpand : Nat → Vm → Option Vm
  | 0, vm => some vm
  | n + 1, vm => do
    let (_, vm) ← vm.pmmAlloc
    heapExpand n vm

def kmalloc (vm : Vm) : Option (Nat × Vm) := do
  let vm ← heapExpand (vm.growth.headD 0) { vm with growth := vm.growth.tail }
  return (vm.next, { vm with next := vm.next + 1, live := update vm.live vm.next true })

def kfree (block : Nat) (vm : Vm) : Option Vm := do
  kassert (vm.live block)
  return { vm with live := update vm.live block false }

/-! ## Page tables -/

/-- The entry for the page at `addr`; it is zero where there is no table. -/
def pte (d addr : Nat) (vm : Vm) : Pte :=
  match vm.dir d (tableIndex addr) with
  | none => .zero
  | some t => vm.table t (pageIndex addr)

/-- Set the entry for the page at `addr`, which has a table. -/
def setPte (d addr : Nat) (e : Pte) (vm : Vm) : Vm :=
  match vm.dir d (tableIndex addr) with
  | none => vm
  | some t => { vm with table := update vm.table t (update (vm.table t) (pageIndex addr) e) }

def setDir (d : Nat) (tables : Nat → Option Nat) (vm : Vm) : Vm :=
  { vm with dir := update vm.dir d tables }

/-- Enter the block `t` into a directory, as an empty table. -/
def linkTable (d i t : Nat) (vm : Vm) : Vm :=
  { vm with
    table := update vm.table t fun _ => .zero
    dir := update vm.dir d (update (vm.dir d) i (some t)) }

def vmmCreatePageTable (i d : Nat) (vm : Vm) : Option Vm := do
  kassert (vm.dir d i = none)
  let (t, vm) ← vm.kmalloc
  -- for kernel space, with user tasks present, the source has a panic
  kassert (isUserSpace (i * 4096 * 1024) ∨
    d = vm.kernelDirectory ∧ ∀ p ∈ vm.pagedirs, p.2 = vm.kernelDirectory)
  return vm.linkTable d i t

/-- Note whether a block that is used has been freed. -/
def touch (block : Nat) (vm : Vm) : Vm := { vm with stale := vm.stale || !vm.live block }

/-- `_vmm_get_page`: afterwards there is a page table for the address. -/
def vmmGetPage (addr d : Nat) (vm : Vm) : Option Vm :=
  match vm.dir d (tableIndex addr) with
  | none => (vm.touch d).vmmCreatePageTable (tableIndex addr) d
  | some t => some ((vm.touch d).touch t)

def vmmMap (addr f d : Nat) (kernelmode writable : Bool) (vm : Vm) : Option Vm := do
  let vm ← vm.vmmGetPage addr d
  kassert (vm.pte d addr = .zero)
  return vm.setPte d addr
    { Pte.zero with
      frame := f, present := true, rw := writable, user := !kernelmode
      global := !decide (isUserSpace addr) }

def vmmUnmap (addr d : Nat) (vm : Vm) : Option Vm := do
  let vm ← vm.vmmGetPage addr d
  kassert ((vm.pte d addr).present ∨ (vm.pte d addr).guard)
  return vm.setPte d addr .zero

def vmmFree (addr d : Nat) (vm : Vm) : Option Vm := do
  let vm ← vm.vmmGetPage addr d
  let vm ← vm.pmmFree (vm.pte d addr).frame
  vm.vmmUnmap addr d

def vmmSetGuard (addr d : Nat) (guard : Bool) (vm : Vm) : Option Vm := do
  let vm ← vm.vmmGetPage addr d
  let e := vm.pte d addr
  kassert (e.present = guard ∧ e.guard = !guard)
  return vm.setPte d addr { e with present := !guard, guard := guard }

/-! ## Areas -/

/-- The loop of `vmm_alloc_user`. -/
def allocPages (d : Nat) (writable : Bool) : List Nat → Vm → Option Vm
  | [], vm => some vm
  | addr :: rest, vm => do
    let (f, vm) ← vm.pmmAlloc
    let vm ← vm.vmmMap addr f d false writable
    allocPages d writable rest vm

def vmmStoreArea (start stop : Nat) (writable : Bool) : List Area → Vm → Option (List Area × Vm)
  | [], vm => do
    let (block, vm) ← vm.kmalloc
    let (node, vm) ← vm.kmalloc
    return ([{ start := start, stop := stop, writable := writable, block := block, node := node }],
      vm)
  | a :: as, vm =>
    if a.start = stop ∧ a.writable = writable then some ({ a with start := start } :: as, vm)
    else if a.stop = start ∧ a.writable = writable then some ({ a with stop := stop } :: as, vm)
    else if (a.start ≤ start ∧ start < a.stop) ∨ (a.start < stop ∧ stop < a.stop) then none
    else do
      let (as, vm) ← vmmStoreArea start stop writable as vm
      return (a :: as, vm)

def vmmAllocUser (start stop : Nat) (mm : TaskMm) (writable : Bool) (vm : Vm) :
    Option (TaskMm × Vm) := do
  kassert (start < stop ∧ isPageAligned start ∧ isPageAligned stop)
  let vm ← allocPages mm.directory writable (pagesFrom start stop) vm
  let (areas, vm) ← vmmStoreArea start stop writable mm.areas vm
  return ({ mm with
    areas := areas, framesUsed := mm.framesUsed + (pagesFrom start stop).length }, vm)

def freePages (d : Nat) : List Nat → Vm → Option Vm
  | [], vm => some vm
  | addr :: rest, vm => do
    let vm ← vm.vmmFree addr d
    freePages d rest vm

/-- The place of the area that contains `addr`. -/
def areaOf (areas : List Area) (addr : Nat) : Nat :=
  areas.findIdx fun a => a.start ≤ addr ∧ addr < a.stop

def vmmResizeArea (start newEnd : Nat) (mm : TaskMm) (vm : Vm) : Option (TaskMm × Vm) := do
  kassert (add32 start pageSize ≤ newEnd)
  kassert ((mm.areas.take (areaOf mm.areas start + 1)).all fun a => a.stop ≠ newEnd)
  match mm.areas[areaOf mm.areas start]? with
  | none => return (mm, vm)
  | some area =>
    if area.stop < newEnd then vm.vmmAllocUser area.stop newEnd mm area.writable
    else
      let vm ← freePages mm.directory (pagesFrom newEnd area.stop) vm
      return ({ mm with
        areas := mm.areas.set (areaOf mm.areas start) { area with stop := newEnd }
        framesUsed := mm.framesUsed - (pagesFrom newEnd area.stop).length }, vm)

/-! ## The heap and the stack of a task -/

/-- An address rounded up to a page, as in `sbrk`. -/
def pageCeil (addr : Nat) : Nat :=
  if isPageAligned addr then addr else add32 (addr - addr % pageSize) pageSize

def sbrk (delta : Int) (mm : TaskMm) (vm : Vm) : Option (Nat × TaskMm × Vm) := do
  kassert (isPageAligned mm.brk)
  if delta = 0 then return (mm.brk, mm, vm)
  if 0 < delta then
    let newEnd := pageCeil (add32 mm.brk delta.toNat)
    kassert (newEnd < userStackStart - userStackSizeMax)
    let (mm', vm) ← vm.vmmAllocUser mm.brk newEnd mm true
    return (mm.brk, { mm' with brk := newEnd }, vm)
  else
    let decr := (-delta).toNat
    if decr < pageSize then return (mm.brk, mm, vm)
    let decr := decr - decr % pageSize
    let newEnd := sub32 mm.brk decr
    kassert (mm.initialBrk ≤ newEnd ∧ isPageAligned newEnd)
    let (mm', vm) ← vm.vmmResizeArea mm.brkStart newEnd mm
    return (mm.brk, { mm' with brk := newEnd }, vm)

/-- The size of the stack that has its guard page at `guard`. -/
def stackSize (guard : Nat) : Nat := sub32 (sub32 userStackStart guard) pageSize

/-- The size to which the stack would grow. -/
def grownSize (guard : Nat) : Nat := add32 (stackSize guard) userStackGrowSize

/-- The end of `page_fault_handler`: more pages, with the guard page below. -/
def moveGuard (oldGuard newGuard : Nat) (mm : TaskMm) (vm : Vm) : Option (TaskMm × Vm) := do
  let (mm, vm) ← vm.vmmAllocUser newGuard oldGuard mm true
  let vm ← vm.vmmSetGuard oldGuard mm.directory false
  let vm ← vm.vmmSetGuard newGuard mm.directory true
  return ({ mm with userStackGuardPage := newGuard }, vm)

/-- The part of `page_fault_handler` that grows the stack. The inner `none` jumps to `fail`. -/
def growStack (addr : Nat) (mm : TaskMm) (vm : Vm) : Option (Option (TaskMm × Vm)) :=
  let guard := mm.userStackGuardPage
  if ¬ (guard ≤ addr ∧ addr ≤ add32 guard pageSize) then some none
  else if ¬ (isPageAligned (stackSize guard) ∧ isPageAligned (grownSize guard)) then none
  else if userStackSizeMax ≤ grownSize guard then some none
  else
    (vm.moveGuard (sub32 userStackStart (stackSize guard + pageSize))
      (sub32 userStackStart (grownSize guard + pageSize)) mm).map some

/-! ## Creation -/

def createUserPageDir (vm : Vm) : Option (Nat × Vm) := do
  let (d, vm) ← vm.kmalloc
  let vm := vm.setDir d (vm.dir vm.kernelDirectory)
  let (node, vm) ← vm.kmalloc
  return (d, { vm with pagedirs := vm.pagedirs ++ [(node, d)] })

def vmmCreateUserMm (vm : Vm) : Option (TaskMm × Vm) := do
  let (block, vm) ← vm.kmalloc
  let (list, vm) ← vm.kmalloc
  let (d, vm) ← vm.createUserPageDir
  let mm : TaskMm :=
    { areas := [], brkStart := 0, brk := 0, initialBrk := 0, directory := d
      userStackGuardPage := 0, framesUsed := 0, block := block, list := list }
  let guard := userStackStart - (userStackSize + pageSize)
  let (mm, vm) ← vm.vmmAllocUser guard (userStackStart + pageSize) mm true
  let vm ← vm.vmmSetGuard guard d true
  return ({ mm with userStackGuardPage := guard }, vm)

/-! ## Cloning -/

/-- The inner loop of `clone_user_page_directory`, which counts the frames. -/
def copyPages (src dst : Nat) : List Nat → Nat → Vm → Option (Nat × Vm)
  | [], n, vm => some (n, vm)
  | j :: js, n, vm =>
    let page := vm.table src j
    if page.frame = 0 then copyPages src dst js n vm
    else do
      let (f, vm) ← vm.pmmAlloc
      copyPages src dst js (n + 1) { vm with
        mem := update vm.mem f (vm.mem page.frame)
        table := update vm.table dst (update (vm.table dst) j { page with frame := f }) }

/-- The outer loop. -/
def copyTables (parent child : Nat) : List Nat → Nat → Vm → Option (Nat × Vm)
  | [], n, vm => some (n, vm)
  | i :: is, n, vm =>
    if ¬ isUserSpace (i * 1024 * pageSize) then
      copyTables parent child is n
        (vm.setDir child (update (vm.dir child) i (vm.dir parent i)))
    else
      match vm.dir parent i with
      | none => copyTables parent child is n vm
      | some src => do
        let vm ← vm.vmmCreatePageTable i child
        let dst ← vm.dir child i
        let (n, vm) ← copyPages src dst (List.range 1024) n vm
        copyTables parent child is n vm

/-- `clone_user_page_directory`, with the number of frames used. -/
def cloneUserPageDirectory (parent : Nat) (vm : Vm) : Option (Nat × Nat × Vm) := do
  let (child, vm) ← vm.kmalloc
  let vm := vm.setDir child fun _ => none
  let (n, vm) ← copyTables parent child (List.range 1024) 0 vm
  let (node, vm) ← vm.kmalloc
  return (child, n, { vm with pagedirs := vm.pagedirs ++ [(node, child)] })

/-- The copies that `list_copy` makes with `copy_area`. -/
def copyAreas : List Area → Vm → Option (List Area × Vm)
  | [], vm => some ([], vm)
  | a :: as, vm => do
    let (node, vm) ← vm.kmalloc
    let (block, vm) ← vm.kmalloc
    let (as, vm) ← copyAreas as vm
    return ({ a with block := block, node := node } :: as, vm)

def vmmCloneMm (parent : TaskMm) (vm : Vm) : Option (TaskMm × Vm) := do
  let (block, vm) ← vm.kmalloc
  let (list, vm) ← vm.kmalloc
  let (areas, vm) ← copyAreas parent.areas vm
  let (d, n, vm) ← vm.cloneUserPageDirectory parent.directory
  return ({ areas := areas, brkStart := 0, brk := 0, initialBrk := 0, directory := d
            userStackGuardPage := 0, framesUsed := n, block := block, list := list }, vm)

/-! ## Destruction -/

/-- The loop of `destroy_user_page_dir`. -/
def freeTables (d : Nat) : List Nat → Vm → Option Vm
  | [], vm => some vm
  | i :: is, vm =>
    match vm.dir d i with
    | none => freeTables d is vm
    | some t =>
      if vm.dir vm.kernelDirectory i = some t then freeTables d is vm
      else do
        let vm ← vm.kfree t
        freeTables d is vm

/-- `list_remove_first(pagedirs, dir)`. -/
def removePagedir (d : Nat) (vm : Vm) : Option Vm :=
  match vm.pagedirs.find? fun p => p.2 = d with
  | none => some vm
  | some p => { vm with pagedirs := vm.pagedirs.erase p }.kfree p.1

def destroyUserPageDir (d : Nat) (vm : Vm) : Option Vm := do
  kassert (d ≠ vm.kernelDirectory)
  let vm ← freeTables d (List.range 1024) vm
  let vm ← vm.removePagedir d
  vm.kfree d

/-- The loop of `vmm_destroy_task_mm`. -/
def freeAreas (d : Nat) : List Area → Vm → Option Vm
  | [], vm => some vm
  | a :: as, vm => do
    let vm ← freePages d (pagesFrom a.start a.stop) vm
    let vm ← vm.kfree a.block
    freeAreas d as vm

def kfreeAll : List Nat → Vm → Option Vm
  | [], vm => some vm
  | b :: bs, vm => do
    let vm ← vm.kfree b
    kfreeAll bs vm

/-- `vmm_destroy_task_mm`, with `list_destroy`. -/
def vmmDestroyTaskMm (mm : TaskMm) (vm : Vm) : Option Vm := do
  let vm ← freeAreas mm.directory mm.areas vm
  let vm ← kfreeAll (mm.areas.map Area.node) vm
  let vm ← vm.kfree mm.list
  vm.kfree mm.block

/-- How `destroy_task` releases the memory of a user task. -/
def teardown (mm : TaskMm) (vm : Vm) : Option Vm := do
  let vm ← vm.destroyUserPageDir mm.directory
  vm.vmmDestroyTaskMm mm

end Vm

/-! ## Access checks -/

def checkAccessRead (addr len : Nat) : Prop := isUserSpace addr ∧ isUserSpace (add32 addr len)

def vmmCheckAccessWrite (areas : List Area) (addr len : Nat) : Prop :=
  ∃ a ∈ areas, a.writable = true ∧ (a.start ≤ addr ∧ addr < a.stop) ∧ add32 addr len < a.stop

def checkAccessWrite (areas : List Area) (addr len : Nat) : Prop :=
  checkAccessRead addr len ∧ vmmCheckAccessWrite areas addr len

instance (addr len : Nat) : Decidable (checkAccessRead addr len) :=
  inferInstanceAs (Decidable (_ ∧ _))

instance (areas : List Area) (addr len : Nat) : Decidable (checkAccessWrite areas addr len) :=
  inferInstanceAs (Decidable (_ ∧ ∃ a ∈ areas, _))

end ExscapeOS.Vmm
