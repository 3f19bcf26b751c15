import ExscapeOS.Lib.Memory
import ExscapeOS.Kernel.OrderedArray

/-!
# The kernel heap: data model and area records

`include/kernel/heap.h`. The heap is a row of areas, each with a header in front and a footer
behind, written into the memory it manages. Two indexes hold the addresses of the free and of the
used headers. A header is whatever the bytes at an address say.
-/
namespace ExscapeOS.KHeap

open Lib Lib.Memory

def pageSize : Nat := 0x1000

/-- `sizeof(area_header_t)`: size at 0, type at 4 (padded), magic at 8. -/
def headerSize : Nat := 12

/-- `sizeof(area_footer_t)`: magic at 0, header pointer at 4. -/
def footerSize : Nat := 8

def heapMagic : Nat := 0xabcdef12

def areaUsed : UInt8 := 0
def areaFree : UInt8 := 1

def heapIndexSize : Nat := 0x10000
def kheapStart : Nat := 0xc0000000
def kheapMaxAddr : Nat := 0xcffff000
def kheapInitialSize : Nat := 0x90000
def kheapMinGrowth : Nat := 0x8000
def kheapMaxWaste : Nat := 0x120000

/-- Bytes mapped by one page table. -/
def tableSpan : Nat := 0x400000

/-- The first page table index that `init_paging` creates no table for. -/
def firstMissingTable : Nat := kheapMaxAddr / tableSpan + 1

/-- `heap_t`, with the memory and the page tables it depends on. Only one heap exists, so `heap ==
kheap` throughout. -/
structure Heap where
  startAddress : Nat
  endAddress : Nat
  maxAddress : Nat
  freeIndex : OrderedArray Nat
  usedIndex : OrderedArray Nat
  rightmostArea : Nat
  mem : Memory
  /-- Page tables created after boot, latest first: the `n`-th has index `firstMissingTable + n`.
  They are heap blocks themselves. -/
  tables : List Nat

def isPageAligned (a : Nat) : Bool := a % pageSize == 0

/-- Round down to a page, then up by one, as `&= 0xfffff000; += PAGE_SIZE` does. -/
def nextPage (a : Nat) : Nat := add32 (a - a % pageSize) pageSize

/-! ## Fields of the records in memory -/

def sizeOf (m : Memory) (header : Nat) : Nat := read32 m header
def typeOf (m : Memory) (header : Nat) : UInt8 := m (header + 4)
def magicOf (m : Memory) (header : Nat) : Nat := read32 m (header + 8)

def setSize (m : Memory) (header v : Nat) : Memory := write32 m header v
def setType (m : Memory) (header : Nat) (v : UInt8) : Memory := write8 m (header + 4) v
def setMagic (m : Memory) (header v : Nat) : Memory := write32 m (header + 8) v

def footerMagic (m : Memory) (footer : Nat) : Nat := read32 m footer
def footerHeader (m : Memory) (footer : Nat) : Nat := read32 m (footer + 4)

def setFooterMagic (m : Memory) (footer v : Nat) : Memory := write32 m footer v
def setFooterHeader (m : Memory) (footer v : Nat) : Memory := write32 m (footer + 4) v

/-- `FOOTER_FROM_HEADER`, with the address arithmetic of the machine. -/
def footerFromHeader (m : Memory) (header : Nat) : Nat :=
  sub32 (add32 header (sizeOf m header)) footerSize

/-- `area_header_t_less_than`. -/
def headerLessThan (m : Memory) (a b : Nat) : Bool := sizeOf m a < sizeOf m b

/-- Write the magic and the back pointer of a footer. -/
def writeFooter (m : Memory) (footer header : Nat) : Memory :=
  setFooterHeader (setFooterMagic m footer heapMagic) footer header

/-- Write all the fields of the header and the footer of an area. -/
def writeArea (m : Memory) (address size : Nat) (type : UInt8) : Memory :=
  writeFooter (setType (setMagic (setSize m address size) address heapMagic) address type)
    (sub32 (add32 address size) footerSize) address

namespace Heap

def insertFree (h : Heap) (header : Nat) : Option Heap :=
  (h.freeIndex.insert (headerLessThan h.mem) header).map fun index => { h with freeIndex := index }

def insertUsed (h : Heap) (header : Nat) : Option Heap :=
  (h.usedIndex.insert (headerLessThan h.mem) header).map fun index => { h with usedIndex := index }

def removeFree (h : Heap) (header : Nat) : Heap :=
  { h with freeIndex := h.freeIndex.removeItem header }

def removeUsed (h : Heap) (header : Nat) : Heap :=
  { h with usedIndex := h.usedIndex.removeItem header }

end Heap

/-! ## Creating areas -/

/-- The checks of `do_asserts_for_index` against one area of an index. -/
def assertsForArea (m : Memory) (header footer size found : Nat) : Bool :=
  let foundFooter := footerFromHeader m found
  found != header && foundFooter != footer && found != footer && foundFooter != header &&
    magicOf m found == heapMagic && footerMagic m foundFooter == heapMagic &&
    footerHeader m foundFooter == found &&
    (if header < found then decide (add32 header size ≤ found)
     else if found < header then decide (add32 found (sizeOf m found) ≤ header)
     else true)

def doAssertsForIndex (m : Memory) (index : List Nat) (header footer size : Nat) : Bool :=
  header != 0 && footer != 0 && decide (headerSize + footerSize < size) &&
    index.all (assertsForArea m header footer size)

/-- `create_area`: write an area and keep track of the rightmost one. -/
def createArea (address size : Nat) (type : UInt8) (h : Heap) : Option Heap := do
  kassert (type = areaUsed ∨ type = areaFree)
  kassert (headerSize + footerSize < size)
  kassert (h.startAddress ≤ address ∧ add32 address size ≤ h.endAddress)
  let footer := sub32 (add32 address size) footerSize
  kassert (doAssertsForIndex h.mem h.freeIndex.items address footer size)
  kassert (doAssertsForIndex h.mem h.usedIndex.items address footer size)
  return { h with
    mem := writeArea h.mem address size type
    rightmostArea := if h.rightmostArea < address then address else h.rightmostArea }

/-- `create_area`, and the insertion into an index that follows every call. -/
def addArea (address size : Nat) (type : UInt8) (h : Heap) : Option Heap := do
  let h ← createArea address size type h
  if type = areaFree then h.insertFree address else h.insertUsed address

/-! ## Creating the heap -/

/-- `heap_create`, for the kernel heap: map the pages (fresh frames are zeroed), put the two indexes
first and span the rest with one free area. -/
def heapCreate (startAddress initialSize maxAddress : Nat) (m : Memory) : Option Heap := do
  kassert (isPageAligned startAddress)
  let m := m.zero kheapStart (kheapStart + kheapInitialSize + pageSize)
  let start := add32 startAddress (heapIndexSize * 4 * 2)
  let size := sub32 initialSize (heapIndexSize * 4 * 2)
  let start := if isPageAligned start then start else nextPage start
  let stop := add32 start size
  kassert (isPageAligned stop)
  let m := writeArea m start size areaFree
  let index ← (OrderedArray.place heapIndexSize).insert (headerLessThan m) start
  return {
    startAddress := start, endAddress := stop, maxAddress := maxAddress
    freeIndex := index, usedIndex := OrderedArray.place heapIndexSize
    rightmostArea := start, mem := m, tables := [] }

/-- The one call in the kernel, made by `init_paging`. -/
def kheapCreate (m : Memory) : Option Heap :=
  heapCreate kheapStart kheapInitialSize kheapMaxAddr m

end ExscapeOS.KHeap
