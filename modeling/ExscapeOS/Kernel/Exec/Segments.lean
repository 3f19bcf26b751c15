import ExscapeOS.Kernel.Exec.Basic
import ExscapeOS.Kernel.Vmm.Contents

/-!
# The segments of a program

The loop of `elf_load_int` over the program headers, with the contents of the pages, and the page
behind the program for the C library. The addresses are rounded three times: the start for the
allocation and the `memset`, the end for both, and the end for the break.

The end of a segment is computed in 32 bits, and may wrap around unnoticed. A segment can then end
in its first page, and the loader is content with that page.
-/
namespace ExscapeOS.Exec

open Lib Vmm Vmm.Vm List Option

/-- A program header of the type `PT_LOAD`. -/
structure Segment where
  offset : Nat
  vaddr : Nat
  filesz : Nat
  memsz : Nat
  writable : Bool
  deriving DecidableEq

namespace Segment

/-- `start_addr_aligned`. -/
def startAligned (seg : Segment) : Nat := seg.vaddr - seg.vaddr % pageSize

def endAddr (seg : Segment) : Nat := pageCeil (add32 seg.vaddr seg.memsz)

def bytes (seg : Segment) (data : Memory) : List UInt8 :=
  (List.range seg.filesz).map fun k => data (seg.offset + k)

/-- Where the pages of the segment end. -/
def pagesEnd (seg : Segment) : Nat := (seg.vaddr + seg.memsz + (pageSize - 1)) / pageSize * pageSize

end Segment

def segmentAt (data : Memory) (i : Nat) : Option Segment :=
  let phdr := data.read32 28 + read16 data 42 * i
  if data.read32 phdr ≠ 1 then none
  else some
    { offset := data.read32 (phdr + 4), vaddr := data.read32 (phdr + 8)
      filesz := data.read32 (phdr + 16), memsz := data.read32 (phdr + 20)
      writable := data.read32 (phdr + 24) / 2 % 2 = 1 }

/-- One round of the loop, with the `memset` and the `memcpy`. -/
def fillSegment (data : Memory) (i : Nat) (mm : TaskMm) (vm : Vm) : Option (TaskMm × Vm) := do
  let (mm', vm) ← loadSegment data i mm vm
  match segmentAt data i with
  | none => return (mm', vm)
  | some seg =>
    let size := seg.endAddr - seg.startAligned
    let vm ← vm.storeBytes mm.directory seg.startAligned (List.replicate size 0)
    let vm ← vm.storeBytes mm.directory seg.vaddr (seg.bytes data)
    return (mm', vm)

def fillSegments (data : Memory) : List Nat → TaskMm → Vm → Option (TaskMm × Vm)
  | [], mm, vm => some (mm, vm)
  | i :: is, mm, vm => do
    let (mm, vm) ← fillSegment data i mm vm
    fillSegments data is mm vm

/-- The pages for `struct _reent`, which is initialised to `reent`. -/
def placeReent (reent : List UInt8) (mm : TaskMm) (vm : Vm) : Option (TaskMm × Vm) := do
  let size := pageCeil reent.length
  let (mm', vm) ← vm.vmmAllocUser mm.brk (add32 mm.brk size) mm true
  let vm ← vm.storeBytes mm.directory mm.brk reent
  let mm' := { mm' with brk := add32 mm.brk size, brkStart := add32 mm.brkStart size }
  kassert (isPageAligned mm'.brk ∧ mm'.brk = mm'.brkStart)
  return ({ mm' with initialBrk := mm'.brkStart }, vm)

/-- `elf_load_int`, from the loop over the program headers to the arguments. -/
def fillImage (reent : List UInt8) (data : Memory) (mm : TaskMm) (vm : Vm) :
    Option (TaskMm × Vm) := do
  let (mm, vm) ← fillSegments data (List.range (read16 data 44)) mm vm
  placeReent reent mm vm

/-! ## What is to be there -/

/-- The segment is in memory: the bytes of the file, zeros in the rest of its pages, and the access
rights, below the heap. -/
structure Segment.InMemory (seg : Segment) (data : Memory) (mm : TaskMm) (vm : Vm) : Prop where
  file : ∀ k < seg.filesz, vm.load mm.directory (seg.vaddr + k) = some (data (seg.offset + k))
  zero : ∀ a, seg.startAligned ≤ a → a < seg.pagesEnd →
    a < seg.vaddr ∨ seg.vaddr + seg.filesz ≤ a → vm.load mm.directory a = some 0
  rights : ∀ a, seg.startAligned ≤ a → a < seg.pagesEnd →
    vm.mapped mm.directory a ∧ (vm.pte mm.directory a).rw = seg.writable
  heap : seg.pagesEnd ≤ mm.brkStart

variable {vm vm' : Vm} {mm mm' : TaskMm} {data : Memory} {i : Nat} {seg : Segment}
  {reent : List UInt8}

/-! ## One segment -/

lemma Segment.bytes_length (seg : Segment) (data : Memory) :
    (seg.bytes data).length = seg.filesz := by simp [bytes]

/-- The rounded end, if nothing wraps. At the end of the address space it would be 0. -/
lemma Segment.endAddr_eq (seg : Segment) (fits : seg.vaddr + seg.memsz ≤ wordSize)
    (pos : 0 < seg.endAddr) : seg.endAddr = seg.pagesEnd := by
  unfold endAddr at pos ⊢
  unfold pagesEnd
  generalize sum : seg.vaddr + seg.memsz = e at fits
  rw [add32, sum] at pos ⊢
  by_cases inside : e + pageSize ≤ wordSize
  · have small : e < wordSize := lt_of_lt_of_le (Nat.lt_add_of_pos_right (by decide)) inside
    rw [Nat.mod_eq_of_lt small]
    have spec := pageCeil_spec inside
    unfold isPageAligned pageSize at *
    omega
  · refine absurd pos ?_
    rcases fits.lt_or_eq with small | rfl
    · have odd : ¬ isPageAligned e := by
        unfold isPageAligned pageSize wordSize at *
        omega
      rw [Nat.mod_eq_of_lt small, pageCeil, if_neg odd, add32]
      unfold pageSize wordSize at *
      omega
    · decide

/-- The break after a segment that ends at `stop`. -/
def raise (stop : Nat) (mm : TaskMm) : TaskMm :=
  if mm.brkStart < stop then { mm with brkStart := stop, brk := stop } else mm

lemma raise_spec (stop : Nat) (mm : TaskMm) (vm : Vm) : (raise stop mm).directory = mm.directory ∧
    mm.brkStart ≤ (raise stop mm).brkStart ∧ stop ≤ (raise stop mm).brkStart ∧
    (mm.brk = mm.brkStart → (raise stop mm).brk = (raise stop mm).brkStart) ∧
    (Layout vm mm → Layout vm (raise stop mm)) := by
  unfold raise
  split_ifs with more
  · exact ⟨rfl, more.le, le_rfl, fun _ => rfl, fun layout => layout.congr rfl rfl rfl⟩
  · exact ⟨rfl, le_rfl, not_lt.mp more, id, id⟩

lemma loadSegment_eq (data : Memory) (i : Nat) (mm : TaskMm) (vm : Vm) :
    loadSegment data i mm vm = match segmentAt data i with
      | none => some (mm, vm)
      | some seg =>
        kassert (if i = 0 then seg.vaddr = 0x10000000 else 0x10000000 < seg.vaddr) >>= fun _ =>
        vm.vmmAllocUser seg.startAligned seg.endAddr (raise seg.endAddr mm) seg.writable := by
  unfold loadSegment segmentAt
  by_cases other : data.read32 (data.read32 28 + read16 data 42 * i) ≠ 1
  · rw [if_pos other, if_pos other]
    rfl
  · rw [if_neg other, if_neg other]
    rfl

lemma Segment.startAligned_le (seg : Segment) :
    seg.startAligned ≤ seg.vaddr ∧ seg.vaddr + seg.memsz ≤ seg.pagesEnd := by
  unfold startAligned pagesEnd pageSize
  omega

lemma Segment.InMemory.keep (held : seg.InMemory data mm vm) (small : seg.filesz ≤ seg.memsz)
    (kept : Kept mm.directory vm vm') (directory : mm'.directory = mm.directory)
    (le : mm.brkStart ≤ mm'.brkStart) : seg.InMemory data mm' vm' := by
  have bounds := seg.startAligned_le
  refine ⟨fun k lt => ?_, fun a low high outside => ?_, fun a low high => ?_, held.heap.trans le⟩
  · have here := held.rights (seg.vaddr + k) (by omega) (by omega)
    rw [directory, (kept _ here.1).2]
    exact held.file k lt
  · rw [directory, (kept _ (held.rights a low high).1).2]
    exact held.zero a low high outside
  · have here := held.rights a low high
    rw [directory, (kept a here.1).1]
    exact ⟨kept.mapped here.1, here.2⟩

/-- What a round leaves alone, and what it has done to the address space. -/
structure Grown (mm : TaskMm) (vm : Vm) (mm' : TaskMm) (vm' : Vm) : Prop where
  layout : Layout vm' mm'
  directory : mm'.directory = mm.directory
  brk : mm'.brk = mm'.brkStart
  kept : Kept mm.directory vm vm'
  le : mm.brkStart ≤ mm'.brkStart

lemma pageCeil_lt {addr : Nat} (small : addr < wordSize) : pageCeil addr < wordSize := by
  unfold pageCeil
  split_ifs
  · exact small
  · exact add32_lt _ _

lemma fillSegment_writes {mm₁ : TaskMm} {vm₁ : Vm} (layout : Layout vm mm)
    (here : segmentAt data i = some seg) (loaded : loadSegment data i mm vm = some (mm₁, vm₁))
    (inside : seg.vaddr + seg.filesz ≤ seg.endAddr) :
    ∃ vm', fillSegment data i mm vm = some (mm₁, vm') ∧ vm' = { vm₁ with mem := vm'.mem } ∧
      SameTask (raise seg.endAddr mm) mm₁ ∧ Layout vm' mm₁ ∧
      Added mm.directory seg.startAligned seg.endAddr seg.writable vm vm' ∧
      vm'.holds mm.directory seg.vaddr (seg.bytes data) ∧
      ∀ a, seg.startAligned ≤ a → a < seg.endAddr → a < seg.vaddr ∨ seg.vaddr + seg.filesz ≤ a →
        vm'.load mm.directory a = some 0 := by
  have alloc := loaded
  simp only [loadSegment_eq, here, bind, bind_eq_some_iff, kassert_eq_some,
    exists_const] at alloc
  obtain ⟨directory, -, -, -, raised⟩ := raise_spec seg.endAddr mm vm
  obtain ⟨task, -⟩ := vmmAllocUser_same alloc.2
  have bound : seg.endAddr < wordSize := pageCeil_lt (add32_lt _ _)
  have bounds := seg.startAligned_le
  have length := seg.bytes_length data
  have cleared := (raised layout).vmmAllocUser_cleared bound alloc.2
  rw [directory] at cleared
  obtain ⟨vm₂, ran, eq, ok₂, added₂, zero⟩ := cleared
  obtain ⟨vm', copied, file, added⟩ := added₂.store ok₂ bound seg.vaddr (seg.bytes data) (by omega)
  have same : vm' = { vm₁ with mem := vm'.mem } := by rw [file.eq, eq]
  refine ⟨vm', by simp [fillSegment, loaded, here, ran, copied], same, task,
    ((raised layout).vmmAllocUser bound alloc.2).1.setMem same, added, file.inside,
    fun a low high outside => ?_⟩
  rw [file.outside a (added₂.new a low high).1 (by omega)]
  exact zero a low high

lemma fillSegment_filled (layout : Layout vm mm) (same : mm.brk = mm.brkStart)
    (here : segmentAt data i = some seg) (fits : seg.vaddr + seg.memsz ≤ wordSize)
    (small : seg.filesz ≤ seg.memsz) (h : fillSegment data i mm vm = some (mm', vm')) :
    Grown mm vm mm' vm' ∧ seg.InMemory data mm' vm' := by
  have ran := h
  simp only [fillSegment, bind, bind_eq_some_iff] at ran
  obtain ⟨⟨mm₁, vm₁⟩, loaded, -⟩ := ran
  have alloc := loaded
  simp only [loadSegment_eq, here, bind, bind_eq_some_iff, kassert_eq_some,
    exists_const] at alloc
  have ends := seg.endAddr_eq fits (Nat.zero_lt_of_lt (vmmAllocUser_same alloc.2).2.1)
  have bounds := seg.startAligned_le
  obtain ⟨vm'', done, -, task, layout', added, file, zeros⟩ :=
    fillSegment_writes layout here loaded (by omega)
  rw [h] at done
  cases done
  obtain ⟨directory, le, above, equal, -⟩ := raise_spec seg.endAddr mm vm
  have dir : mm'.directory = mm.directory := task.directory.trans directory
  refine ⟨⟨layout', dir, ?_, added.kept, task.brkStart ▸ le⟩,
    ⟨fun k lt => ?_, fun a low high outside => ?_, fun a low high => ?_, ?_⟩⟩
  · rw [task.brk, task.brkStart, equal same]
  · rw [dir, file k (by rw [seg.bytes_length]; exact lt)]
    simp [Segment.bytes, lt]
  · rw [dir]
    exact zeros a low (ends ▸ high) outside
  · rw [dir]
    exact added.new a low (ends ▸ high)
  · rw [task.brkStart, ← ends]
    exact above

/-! ## The loop -/

lemma fillSegment_grown (layout : Layout vm mm) (same : mm.brk = mm.brkStart)
    (fits : ∀ seg, segmentAt data i = some seg → seg.vaddr + seg.memsz ≤ wordSize ∧
      seg.filesz ≤ seg.memsz) (h : fillSegment data i mm vm = some (mm', vm')) :
    Grown mm vm mm' vm' ∧ ∀ seg, segmentAt data i = some seg → seg.InMemory data mm' vm' := by
  cases here : segmentAt data i with
  | none =>
    simp only [fillSegment, here, bind, bind_eq_some_iff, pure, some.injEq,
      Prod.mk.injEq] at h
    obtain ⟨⟨mm₁, vm₁⟩, loaded, rfl, rfl⟩ := h
    rw [loadSegment_eq, here] at loaded
    cases loaded
    exact ⟨⟨layout, rfl, same, fun _ _ => ⟨rfl, rfl⟩, le_rfl⟩, nofun⟩
  | some seg =>
    obtain ⟨inside, small⟩ := fits seg here
    obtain ⟨grown, held⟩ := fillSegment_filled layout same here inside small h
    refine ⟨grown, fun seg' eq => ?_⟩
    cases eq
    exact held

lemma Grown.trans {mm'' : TaskMm} {vm'' : Vm} (first : Grown mm vm mm' vm')
    (last : Grown mm' vm' mm'' vm'') : Grown mm vm mm'' vm'' where
  layout := last.layout
  directory := last.directory.trans first.directory
  brk := last.brk
  kept := first.kept.trans (first.directory ▸ last.kept)
  le := first.le.trans last.le

lemma fillSegments_grown {is : List Nat} (layout : Layout vm mm) (same : mm.brk = mm.brkStart)
    (fits : ∀ i ∈ is, ∀ seg, segmentAt data i = some seg → seg.vaddr + seg.memsz ≤ wordSize ∧
      seg.filesz ≤ seg.memsz) (h : fillSegments data is mm vm = some (mm', vm')) :
    Grown mm vm mm' vm' ∧
      ∀ i ∈ is, ∀ seg, segmentAt data i = some seg → seg.InMemory data mm' vm' := by
  induction is generalizing mm vm with
  | nil =>
    cases h
    exact ⟨⟨layout, rfl, same, fun _ _ => ⟨rfl, rfl⟩, le_rfl⟩, by simp⟩
  | cons i is ih =>
    simp only [fillSegments, bind, bind_eq_some_iff] at h
    obtain ⟨⟨mm₁, vm₁⟩, one, rest⟩ := h
    obtain ⟨first, held⟩ := fillSegment_grown layout same (fits i mem_cons_self) one
    obtain ⟨others, held'⟩ := ih first.layout first.brk
      (fun j mem => fits j (mem_cons_of_mem _ mem)) rest
    refine ⟨first.trans others, fun j mem seg here => ?_⟩
    rcases mem_cons.mp mem with rfl | mem
    · have small := (fits j mem_cons_self seg here).2
      exact (held seg here).keep small others.kept others.directory others.le
    · exact held' j mem seg here

lemma placeReent_grown (layout : Layout vm mm) (same : mm.brk = mm.brkStart)
    (small : reent.length + pageSize ≤ wordSize) (h : placeReent reent mm vm = some (mm', vm')) :
    Grown mm vm mm' vm' := by
  simp only [placeReent, bind, bind_eq_some_iff, kassert_eq_some, exists_const, pure,
    some.injEq, Prod.mk.injEq] at h
  obtain ⟨⟨mm₁, vm₁⟩, alloc, vm₂, stored, ⟨-, equal⟩, rfl, rfl⟩ := h
  obtain ⟨task, lt, -⟩ := vmmAllocUser_same alloc
  have size := pageCeil_spec small
  have fits : mm.brk + pageCeil reent.length < wordSize := by
    unfold add32 wordSize at *
    omega
  have stop := add32_eq fits
  rw [stop] at alloc
  obtain ⟨layout₁, -⟩ := layout.vmmAllocUser fits alloc
  obtain ⟨_, ran, wrote, added⟩ := (layout.vmmAllocUser_added fits alloc).store
    (task.directory ▸ layout₁.ok) fits mm.brk reent (by omega)
  obtain rfl := some.inj (stored.symm.trans ran)
  refine ⟨(layout₁.setMem wrote.eq).congr rfl rfl rfl, task.directory, equal, added.kept, ?_⟩
  dsimp only
  rw [← same, stop]
  omega

lemma placeReent_brkStart (h : placeReent reent mm vm = some (mm', vm')) :
    mm'.brkStart < wordSize := by
  simp only [placeReent, bind, bind_eq_some_iff, kassert_eq_some, exists_const, pure,
    some.injEq, Prod.mk.injEq] at h
  obtain ⟨_, -, _, -, -, rfl, -⟩ := h
  exact add32_lt _ _

/-! ## The image -/

/-- Every segment is in memory when the program is loaded, exactly if none reaches beyond the
address space. -/
theorem segments_in_memory_iff (layout : Layout vm mm) (same : mm.brk = mm.brkStart)
    (reentSmall : reent.length + pageSize ≤ wordSize)
    (small : ∀ i < read16 data 44, ∀ seg, segmentAt data i = some seg → seg.filesz ≤ seg.memsz)
    (h : fillImage reent data mm vm = some (mm', vm')) :
    (∀ i < read16 data 44, ∀ seg, segmentAt data i = some seg → seg.InMemory data mm' vm') ↔
      ∀ i < read16 data 44, ∀ seg, segmentAt data i = some seg →
        seg.vaddr + seg.memsz ≤ wordSize := by
  simp only [fillImage, bind, bind_eq_some_iff] at h
  obtain ⟨⟨mm₁, vm₁⟩, filled, placed⟩ := h
  constructor
  · intro held i lt seg here
    have heap := (held i lt seg here).heap
    have brk := placeReent_brkStart placed
    have bounds := seg.startAligned_le
    omega
  · intro fits i lt seg here
    obtain ⟨grown, held⟩ := fillSegments_grown layout same (fun i mem seg here =>
      ⟨fits i (mem_range.mp mem) seg here, small i (mem_range.mp mem) seg here⟩) filled
    have last := placeReent_grown grown.layout grown.brk reentSmall placed
    exact (held i (mem_range.mpr lt) seg here).keep (small i lt seg here) last.kept
      last.directory last.le

/-- A program of one segment, the last byte of the page at `0x10000000` and what follows. -/
def lastByte (memsz : Nat) : Memory :=
  let ident := (Memory.write32 (fun _ => 0) 0 0x464C457F).write32 4 0x010101
  let entry := (ident.write32 16 0x030002).write32 24 0x10000FFF
  let header := ((entry.write32 28 52).write16 42 32).write16 44 2
  let segment := ((header.write32 84 1).write32 88 7).write32 92 0x10000FFF
  ((segment.write32 100 1).write32 104 memsz).write32 108 6

def lastByteSegment (memsz : Nat) : Segment := ⟨7, 0x10000FFF, 1, memsz, true⟩

lemma lastByte_loads {memsz : Nat} (h : memsz = 1 ∨ memsz = 0xFFFFFFFF) :
    (isElf (lastByte memsz) ∧ read16 (lastByte memsz) 44 = 2 ∧
      segmentAt (lastByte memsz) 0 = none ∧
      segmentAt (lastByte memsz) 1 = some (lastByteSegment memsz)) ∧
    ∃ mm vm, (bareMachine 64).vmmCreateUserMm = some (mm, vm) ∧ mm.brk = mm.brkStart ∧
      Layout vm mm ∧ ∃ mm' vm', fillImage [1] (lastByte memsz) mm vm = some (mm', vm') := by
  have file : isElf (lastByte memsz) ∧ read16 (lastByte memsz) 44 = 2 ∧
      segmentAt (lastByte memsz) 0 = none ∧
      segmentAt (lastByte memsz) 1 = some (lastByteSegment memsz) := by
    rcases h with rfl | rfl <;> decide +kernel
  have vaddr : (lastByteSegment memsz).vaddr = 0x10000FFF := rfl
  have filesz : (lastByteSegment memsz).filesz = 1 := rfl
  have start : (lastByteSegment memsz).startAligned = 0x10000000 := by
    rw [Segment.startAligned, vaddr, pageSize]
  have stop : (lastByteSegment memsz).endAddr = 0x10001000 := by
    rcases h with rfl | rfl <;> decide
  refine ⟨file, ?_⟩
  obtain ⟨-, count, first, second⟩ := file
  obtain ⟨⟨mm, vm⟩, created, brk, brkStart, ⟨mm₁, vm₁⟩, alloc, empty, room⟩ :
      ∃ m ∈ (bareMachine 64).vmmCreateUserMm, m.1.brk = 0 ∧ m.1.brkStart = 0 ∧
      ∃ m₁ ∈ m.2.vmmAllocUser 0x10000000 0x10001000 (raise 0x10001000 m.1) true,
        m₁.2.entry m.1.directory 0x10001 = .zero ∧
          m₁.2.roomFor m.1.directory 0x10001000 0x10002000 := by
    decide +kernel
  have layout := vmmCreateUserMm_layout (bareMachine_kernelOk 64) created
  refine ⟨mm, vm, created, brk.trans brkStart.symm, layout, ?_⟩
  have loaded : loadSegment (lastByte memsz) 1 mm vm = some (mm₁, vm₁) := by
    have high : 0x10000000 < (lastByteSegment memsz).vaddr := by rw [vaddr]; decide
    rw [loadSegment_eq, second]
    simp only [start, stop, kassert, high, if_neg Nat.one_ne_zero, if_true]
    exact alloc
  obtain ⟨vm₂, filled, same, task, layout₂, -⟩ := fillSegment_writes layout second loaded
    (by rw [stop, vaddr, filesz])
  have fills : fillSegments (lastByte memsz) (List.range 2) mm vm = some (mm₁, vm₂) := by
    have skip : fillSegment (lastByte memsz) 0 mm vm = some (mm, vm) := by
      simp only [fillSegment, loadSegment_eq, first, bind, pure, bind_some]
    have range : List.range 2 = [0, 1] := rfl
    simp only [range, fillSegments, skip, filled, bind, bind_some]
  have raised : raise 0x10001000 mm = { mm with brkStart := 0x10001000, brk := 0x10001000 } := by
    rw [raise, if_pos (by rw [brkStart]; decide)]
  rw [stop, raised] at task
  have brk : mm₁.brk = 0x10001000 := task.brk
  have brkStart₁ : mm₁.brkStart = 0x10001000 := task.brkStart
  have empty₂ (a : Nat) (low : mm₁.brk ≤ a) (high : a < 0x10002000) :
      vm₂.pte mm₁.directory a = .zero := by
    have page : a / pageSize = 0x10001 := by
      unfold pageSize
      omega
    rw [task.directory, pte_eq, page, same]
    exact empty
  have placed : (vm₂.vmmAllocUser mm₁.brk 0x10002000 mm₁ true).isSome :=
    layout₂.vmmAllocUser_isSome (by rw [brk]; decide) (by decide) (by rw [brk]; decide)
      (by rw [brk]; decide) empty₂ (by rw [task.directory, brk, same]; exact room)
  obtain ⟨⟨mm₃, vm₃⟩, alloc₃⟩ := isSome_iff_exists.mp placed
  obtain ⟨vm₄, wrote, -⟩ := (layout₂.vmmAllocUser_added (by decide) alloc₃).store
    ((vmmAllocUser_same alloc₃).1.directory ▸ (layout₂.vmmAllocUser (by decide) alloc₃).1.ok)
    (by decide) mm₁.brk [1] (by rw [brk]; decide)
  have stop₃ : add32 mm₁.brk (pageCeil 1) = 0x10002000 := by rw [brk]; decide
  have stop₄ : add32 mm₁.brkStart (pageCeil 1) = 0x10002000 := by rw [brkStart₁]; decide
  have aligned : isPageAligned 0x10002000 := by decide
  simp [fillImage, count, fills, placeReent, stop₃, stop₄, alloc₃, wrote, kassert, aligned]

theorem segments_in_memory_lastByte : ∃ mm vm, (bareMachine 64).vmmCreateUserMm = some (mm, vm) ∧
    ∃ mm' vm', fillImage [1] (lastByte 1) mm vm = some (mm', vm') ∧
      (lastByteSegment 1).InMemory (lastByte 1) mm' vm' := by
  obtain ⟨⟨-, count, none, some⟩, mm, vm, created, same, layout, mm', vm', h⟩ :=
    lastByte_loads (.inl rfl)
  have each (P : Segment → Prop) (h : P (lastByteSegment 1)) :
      ∀ i < read16 (lastByte 1) 44, ∀ seg, segmentAt (lastByte 1) i = .some seg → P seg := by
    intro i lt seg here
    rw [count] at lt
    interval_cases i
    · rw [none] at here
      cases here
    · rw [some] at here
      exact Option.some.inj here ▸ h
  have held := (segments_in_memory_iff layout same (by decide)
    (each (fun seg => seg.filesz ≤ seg.memsz) (by decide)) h).mpr
    (each (fun seg => seg.vaddr + seg.memsz ≤ wordSize) (by decide))
  exact ⟨mm, vm, created, mm', vm', h, held 1 (by rw [count]; decide) _ some⟩

/-- A segment that wraps around to the end of its first page. The heap starts behind that page. -/
theorem wrapped_segment_not_in_memory : ∃ mm vm,
    (bareMachine 64).vmmCreateUserMm = some (mm, vm) ∧
    isElf (lastByte 0xFFFFFFFF) ∧
    segmentAt (lastByte 0xFFFFFFFF) 1 = some (lastByteSegment 0xFFFFFFFF) ∧
    ∃ mm' vm', fillImage [1] (lastByte 0xFFFFFFFF) mm vm = some (mm', vm') ∧
      ¬ (lastByteSegment 0xFFFFFFFF).InMemory (lastByte 0xFFFFFFFF) mm' vm' := by
  obtain ⟨⟨elf, -, -, some⟩, mm, vm, created, -, -, mm', vm', h⟩ := lastByte_loads (.inr rfl)
  refine ⟨mm, vm, created, elf, some, mm', vm', h, fun held => ?_⟩
  have heap := held.heap
  simp only [fillImage, bind, bind_eq_some_iff] at h
  obtain ⟨_, -, placed⟩ := h
  have small := placeReent_brkStart placed
  have large : wordSize ≤ (lastByteSegment 0xFFFFFFFF).pagesEnd := by decide
  omega

end ExscapeOS.Exec
