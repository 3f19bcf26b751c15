import ExscapeOS.Kernel.Heap.Basic

/-!
# The kernel heap: release

`find_area_and_validate`, `heap_contract` and `heap_free` of `kernel/heap.c`. A freed area is merged
with free neighbours, and a large free area at the end of the heap is given back.
-/
namespace ExscapeOS.KHeap

open Lib Lib.Memory

/-- The loop of `find_area_and_validate` that looks for a header at or below an address. Its counter
is never incremented, so it only ends at a header or without memory. -/
def scanHeader (m : Memory) : Nat → Option Nat
  | 0 => none
  | a + 1 => if magicOf m (a + 1) = heapMagic then some (a + 1) else scanHeader m a

/-- `find_area_and_validate`: the header and footer of the block at `p`, `some none` if `p` is
outside the heap, `none` if a check fails. -/
def findAreaAndValidate (p : Nat) (h : Heap) : Option (Option (Nat × Nat)) :=
  if h.maxAddress < p ∨ p < h.startAddress then some none
  else do
    let header ← scanHeader h.mem (sub32 p headerSize)
    let footer := footerFromHeader h.mem header
    kassert (typeOf h.mem header = areaUsed)
    kassert (footerMagic h.mem footer = heapMagic)
    kassert (footerHeader h.mem footer = header)
    return some (header, footer)

/-- What is passed between the stages of `heap_free`. -/
structure FreeState where
  header : Nat
  footer : Nat
  addToIndex : Bool
  heap : Heap

/-- Merge with the area on the left, if it is free. -/
def unifyLeft (s : FreeState) : Option FreeState :=
  let h := s.heap
  let leftFooter := sub32 s.header footerSize
  if h.startAddress ≤ leftFooter ∧ footerMagic h.mem leftFooter = heapMagic then
    let leftHeader := footerHeader h.mem leftFooter
    if magicOf h.mem leftHeader = heapMagic ∧ typeOf h.mem leftHeader = areaFree then do
      let m := setSize h.mem leftHeader (add32 (sizeOf h.mem leftHeader) (sizeOf h.mem s.header))
      kassert (footerFromHeader m leftHeader = s.footer)
      let m := setFooterHeader m s.footer leftHeader
      let m := setMagic m s.header 0
      let m := setFooterMagic m leftFooter 0
      return {
        header := leftHeader, footer := s.footer, addToIndex := false
        heap := { h with
          mem := m
          rightmostArea := if s.header = h.rightmostArea then leftHeader else h.rightmostArea } }
    else some s
  else some s

/-- The bytes at `right` are those of a free area with a matching footer. -/
def looksFree (m : Memory) (right : Nat) : Bool :=
  magicOf m right == heapMagic && typeOf m right == areaFree &&
    footerMagic m (footerFromHeader m right) == heapMagic &&
    footerHeader m (footerFromHeader m right) == right

/-- Merge with the area on the right, if the bytes there look like a free area. -/
def unifyRight (s : FreeState) : Option FreeState :=
  let h := s.heap
  let right := add32 s.footer footerSize
  if looksFree h.mem right then do
    let rightFooter := footerFromHeader h.mem right
    let h := h.removeFree right
    let m := setSize h.mem s.header (add32 (sizeOf h.mem s.header) (sizeOf h.mem right))
    let m := setFooterMagic m s.footer 0
    let m := setMagic m right 0
    kassert (rightFooter = footerFromHeader m s.header)
    let m := setFooterHeader m rightFooter s.header
    let m := setType m s.header areaFree
    return {
      header := s.header, footer := rightFooter, addToIndex := s.addToIndex
      heap := { h with
        mem := m
        rightmostArea := if h.rightmostArea = right then s.header else h.rightmostArea } }
  else some s

/-- Add the area to the free index, unless it is there already. -/
def enterIndex (s : FreeState) : Option Heap :=
  if s.addToIndex then s.heap.insertFree s.header else some s.heap

/-- `heap_contract`: give back whole pages at the end. The page at the new end stays mapped, with
its contents. -/
def heapContract (bytesToShrink : Nat) (h : Heap) : Option Heap :=
  if bytesToShrink < 512 * 1024 then some h
  else do
    let oldSize := sub32 h.endAddress h.startAddress
    let newSize := sub32 oldSize bytesToShrink
    let newSize := if newSize < kheapInitialSize then kheapInitialSize else newSize
    let newEnd := add32 h.startAddress newSize
    let newEnd := if isPageAligned newEnd then newEnd else nextPage newEnd
    kassert (h.usedIndex.items.all fun header => add32 header (sizeOf h.mem header) ≤ newEnd)
    kassert (isPageAligned newEnd)
    return { h with endAddress := newEnd }

/-- Resize the rightmost area to what a contraction left of it, and write its new footer. -/
def resizeTail (rightmost bytesShrunk : Nat) (h : Heap) : Heap :=
  if 0 < bytesShrunk then
    let m := setSize h.mem rightmost (sub32 (sizeOf h.mem rightmost) bytesShrunk)
    { h with mem := writeFooter m (footerFromHeader m rightmost) rightmost }
  else h

/-- The last stage of `heap_free`: contract the heap if it ends in a large free area. -/
def contractTail (h : Heap) : Option Heap :=
  let rightmost := h.rightmostArea
  if typeOf h.mem rightmost = areaFree ∧ kheapMaxWaste ≤ sizeOf h.mem rightmost then do
    let footer := footerFromHeader h.mem rightmost
    kassert (magicOf h.mem rightmost = heapMagic)
    kassert (footerMagic h.mem footer = heapMagic)
    kassert (footerHeader h.mem footer = rightmost)
    let bytesToShrink := sub32 (sizeOf h.mem rightmost) 0x100000
    let oldHeapSize := sub32 h.endAddress h.startAddress
    let h ← heapContract bytesToShrink h
    let newHeapSize := sub32 h.endAddress h.startAddress
    return resizeTail rightmost (sub32 oldHeapSize newHeapSize) h
  else some h

def heapFree (p : Nat) (h : Heap) : Option Heap :=
  if p = 0 then some h
  else do
    match ← findAreaAndValidate p h with
    | none => return h
    | some (header, footer) => do
      let h := h.removeUsed header
      let h := { h with mem := setType h.mem header areaFree }
      let s ← unifyLeft { header := header, footer := footer, addToIndex := true, heap := h }
      let s ← unifyRight s
      let h ← enterIndex s
      contractTail h

end ExscapeOS.KHeap
