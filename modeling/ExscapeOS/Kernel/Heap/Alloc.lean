import ExscapeOS.Kernel.Heap.Basic

/-!
# The kernel heap: allocation

`find_smallest_hole`, `heap_expand` and `heap_alloc` of `kernel/heap.c`. The body of `heap_alloc` is
cut at its comments: `takeArea` uses a hole, with the page alignment in `alignArea` and the rest in
`cutArea`; `growTail` handles the space gained by an expansion. Leak tracing is off.
-/
namespace ExscapeOS.KHeap

open Lib Lib.Memory

/-! ## Finding a hole -/

/-- The debugging checks of `find_smallest_hole` on every area. -/
def holeIntact (m : Memory) (header : Nat) : Bool :=
  magicOf m header == heapMagic && typeOf m header == areaFree &&
    footerMagic m (footerFromHeader m header) == heapMagic &&
    footerHeader m (footerFromHeader m header) == header

/-- Bytes lost in front of an area whose data is to be page aligned. -/
def alignOffset (header : Nat) : Nat :=
  if isPageAligned (add32 header headerSize) then 0
  else pageSize - add32 header headerSize % pageSize

/-- Whether a hole is large enough, counting what page alignment loses. -/
def holeFits (m : Memory) (size : Nat) (pageAlign : Bool) (header : Nat) : Bool :=
  decide (size ≤ sizeOf m header) &&
    (!pageAlign ||
      decide (signed32 size ≤ signed32 (sizeOf m header) - signed32 (alignOffset header)))

/-- `find_smallest_hole`: the first hole of the index that fits; `none` is a failed check. -/
def findSmallestHole (m : Memory) (size : Nat) (pageAlign : Bool) :
    List Nat → Option (Option Nat)
  | [] => some none
  | header :: rest =>
    if holeIntact m header then
      if holeFits m size pageAlign header then some (some header)
      else findSmallestHole m size pageAlign rest
    else none

/-! ## Using a hole -/

/-- Invalidate the footer of an area, add to its size, and write a new footer. -/
def extendArea (header footer extra : Nat) (m : Memory) : Memory :=
  let m := setFooterMagic m footer 0
  let m := setSize m header (add32 (sizeOf m header) extra)
  writeFooter m (footerFromHeader m header) header

/-- The waste in front of a page-aligned area is too small for an area: give it to the one on the
left. -/
def growLeft (area offset : Nat) (m : Memory) : Memory :=
  let testFooter := sub32 area footerSize
  if footerMagic m testFooter = heapMagic then
    let testHeader := footerHeader m testFooter
    if magicOf m testHeader = heapMagic then extendArea testHeader testFooter offset m
    else m
  else m

/-- Make a free area of the waste in front of a page-aligned area if possible. -/
def giveWaste (area offset : Nat) (h : Heap) : Option Heap :=
  if headerSize + footerSize < offset then addArea area offset areaFree h
  else some { h with mem := growLeft area offset h.mem }

/-- Cut the hole so that the data are page aligned; the result is the new area. -/
def alignArea (area size : Nat) (h : Heap) : Option (Nat × Heap) := do
  let offset := alignOffset area
  kassert (offset < sizeOf h.mem area)
  kassert (size ≤ sub32 (sizeOf h.mem area) offset)
  let cachedSize := sizeOf h.mem area
  let h ← giveWaste area offset h
  let area := add32 area offset
  let h := { h with mem := setSize h.mem area (sub32 cachedSize offset) }
  kassert (isPageAligned (add32 area headerSize))
  kassert (size ≤ sizeOf h.mem area)
  return (area, h)

/-- Round up to a multiple of four. -/
def dwordAlign (a : Nat) : Nat := if a % 4 = 0 then a else add32 (a - a % 4) 4

/-- Write a used area of `size` bytes, with a free area behind it if the rest of the hole is worth
one, and return the address of its data. -/
def cutArea (area size : Nat) (h : Heap) : Option (Nat × Heap) := do
  let rest := sub32 (sizeOf h.mem area) size
  let (size, h) ←
    if 16 + headerSize + footerSize ≤ rest then do
      let h ← addArea (add32 area size) rest areaFree h
      some (size, h)
    else some (add32 size rest, h)
  let h ← addArea area size areaUsed h
  return (dwordAlign (add32 area headerSize), h)

/-- Turn the hole `area` into a used area of `size` bytes. -/
def takeArea (area size : Nat) (pageAlign : Bool) (h : Heap) : Option (Nat × Heap) := do
  let h := h.removeFree area
  let (area, h) ←
    if pageAlign && !isPageAligned (add32 area headerSize) then alignArea area size h
    else some (area, h)
  cutArea area size h

/-! ## Growing the heap -/

/-- The size to look for: the requested bytes, the records, and alignment slack. -/
def roundedSize (size : Nat) (pageAlign : Bool) : Nat :=
  let size := add32 size (headerSize + footerSize)
  if pageAlign then size else add32 size 3

/-- `_vmm_create_page_table`, reached from `heap_expand` when the heap grows into a range without
page table: the table is a page-aligned block of this very heap. There has to be a hole for it,
because an expansion at this point either maps a page that the outer one has mapped already, which
is an assertion failure, or needs the same table first. -/
def createPageTable (h : Heap) : Option Heap := do
  let size := roundedSize pageSize true
  match ← findSmallestHole h.mem size true h.freeIndex.items with
  | none => none
  | some area => do
    let (table, h) ← takeArea area size true h
    return { h with mem := h.mem.zero table (table + pageSize), tables := table :: h.tables }

/-- Create the next `n` page tables. -/
def createPageTables : Nat → Heap → Option Heap
  | 0, h => some h
  | n + 1, h => (createPageTable h).bind (createPageTables n)

/-- `vmm_alloc_kernel`: map `[start, stop)` to fresh frames, which are zeroed, with page tables. -/
def vmmAllocKernel (start stop : Nat) (h : Heap) : Option Heap := do
  kassert (start < stop)
  kassert (isPageAligned start ∧ isPageAligned stop)
  let needed := (stop - 1) / tableSpan + 1
  let h ← createPageTables (needed - (firstMissingTable + h.tables.length)) h
  return { h with mem := h.mem.zero start stop }

/-- The number of bytes `heap_expand` first intends to add. -/
def growthWanted (sizeToAdd : Nat) : Nat :=
  let size := if sizeToAdd < kheapMinGrowth then kheapMinGrowth else sizeToAdd
  if size % pageSize = 0 then size else nextPage size

/-- `heap_expand`. The limit is compared with the start plus the growth. -/
def heapExpand (sizeToAdd : Nat) (h : Heap) : Option Heap := do
  let size := growthWanted sizeToAdd
  let size :=
    if h.maxAddress < add32 h.startAddress size then
      sub32 (sub32 h.maxAddress h.startAddress) (sub32 h.endAddress h.startAddress)
    else size
  kassert (add32 h.startAddress size ≤ h.maxAddress)
  kassert (h.startAddress < add32 h.startAddress size)
  let wantedEnd := add32 h.endAddress size
  -- an end that is not page aligned moves back to a page boundary
  let newEnd := if isPageAligned wantedEnd then wantedEnd else wantedEnd - wantedEnd % pageSize
  let size := if isPageAligned wantedEnd then size else sub32 size (sub32 wantedEnd newEnd)
  kassert (isPageAligned h.startAddress ∧ isPageAligned newEnd)
  kassert (add32 h.endAddress size = newEnd)
  kassert (h.endAddress < newEnd)
  let h ← vmmAllocKernel (add32 h.endAddress pageSize) (add32 newEnd pageSize) h
  return { h with endAddress := newEnd }

/-- Make free space of the `growth` bytes at the end: grow the rightmost area if it is free, else
create a new free area behind it. -/
def growTail (growth : Nat) (h : Heap) : Option Heap :=
  let rightmost := h.rightmostArea
  if rightmost ≠ 0 ∧ typeOf h.mem rightmost = areaFree then
    let footer := footerFromHeader h.mem rightmost
    some { h with mem := extendArea rightmost footer growth h.mem }
  else do
    kassert (rightmost ≠ 0)
    kassert (typeOf h.mem rightmost = areaUsed)
    addArea (add32 rightmost (sizeOf h.mem rightmost)) growth areaFree h

/-- `heap_alloc`. When no hole fits, the heap is expanded and the function calls itself with the
rounded size. Each call raises the end of the heap by a page or more, so `fuel` bounds the depth. -/
def heapAlloc : Nat → Nat → Bool → Heap → Option (Nat × Heap)
  | 0, _, _, _ => none
  | fuel + 1, size, pageAlign, h => do
    let size := roundedSize size pageAlign
    match ← findSmallestHole h.mem size pageAlign h.freeIndex.items with
    | some area => takeArea area size pageAlign h
    | none => do
      let oldHeapSize := sub32 h.endAddress h.startAddress
      let h ← heapExpand size h
      let newHeapSize := sub32 h.endAddress h.startAddress
      let h ← growTail (sub32 newHeapSize oldHeapSize) h
      heapAlloc fuel size pageAlign h

/-- Enough for every allocation: there are fewer pages than this. -/
def allocFuel : Nat := 2 ^ 20

end ExscapeOS.KHeap
