import ExscapeOS.Kernel.Heap.Alloc

/-!
# The search of `heap_alloc` for a hole

The expansions that `heap_alloc` makes before it finds a hole. After an expansion the function calls
itself. And an expansion into a range without page table allocates one on this very heap, so that
`heap_alloc` is called again before the first expansion is over.
-/
namespace ExscapeOS.KHeap

open Lib Option

/-- `heap_expand` and the free space that it gives, as `heap_alloc` uses them. -/
def expanded (size : Nat) (h : Heap) : Option Heap := do
  let oldHeapSize := sub32 h.endAddress h.startAddress
  let h ← heapExpand size h
  let newHeapSize := sub32 h.endAddress h.startAddress
  growTail (sub32 newHeapSize oldHeapSize) h

/-- The end that an expansion gives the heap, if no page tables are missing. -/
def expandedEnd (size : Nat) (h : Heap) : Option Nat :=
  (heapExpand size { h with tables := List.replicate 1024 0 }).map (·.endAddress)

/-- The heap when there is no hole for one of the next `n` page tables. -/
def tableWanted : Nat → Heap → Option Heap
  | 0, _ => none
  | n + 1, h =>
    match findSmallestHole h.mem (roundedSize pageSize true) true h.freeIndex.items with
    | some none => some h
    | _ => (createPageTable h).bind (tableWanted n)

/-- The heap when an expansion finds no hole for a page table. -/
def expandWants (size : Nat) (h : Heap) : Option Heap :=
  (expandedEnd size h).bind fun newEnd =>
    tableWanted ((add32 newEnd pageSize - 1) / tableSpan + 1 -
      (firstMissingTable + h.tables.length)) h

inductive Found where
  | hole (size area : Nat) (h : Heap)
  | panic

/-- The search, with the number of calls of `heap_expand`, nested at most `fuel` deep. -/
def search : Nat → Nat → Bool → Heap → Option (Nat × Found)
  | 0, _, _, _ => none
  | fuel + 1, size, pageAlign, h =>
    let size := roundedSize size pageAlign
    match findSmallestHole h.mem size pageAlign h.freeIndex.items with
    | none => some (0, .panic)
    | some (some area) => some (0, .hole size area h)
    | some none =>
      match expandWants size h with
      | none =>
        match expanded size h with
        | none => some (1, .panic)
        | some h => (search fuel size pageAlign h).map fun r => (r.1 + 1, r.2)
      | some h' =>
        -- the inner call has to expand the heap from the same end, and maps the same pages
        if (h.endAddress + pageSize) / tableSpan = firstMissingTable + h'.tables.length then
          (search fuel pageSize true h').map fun r => (r.1 + 1, .panic)
        else some (2, .panic)

variable {h h' h'' : Heap} {size n fuel : Nat} {pageAlign : Bool}

lemma expanded_eq_some (hc : expanded size h = some h'') : ∃ h', heapExpand size h = some h' ∧
    growTail (sub32 (sub32 h'.endAddress h'.startAddress) (sub32 h.endAddress h.startAddress)) h' =
      some h'' :=
  bind_eq_some_iff.mp hc

lemma createPageTables_of_wanted (wanted : tableWanted n h = some h') :
    createPageTables n h = none := by
  induction n generalizing h with
  | zero => cases wanted
  | succ n ih =>
    rw [tableWanted] at wanted
    rw [createPageTables]
    cases found : findSmallestHole h.mem (roundedSize pageSize true) true h.freeIndex.items with
    | none => simp [createPageTable, found]
    | some hole =>
      cases hole with
      | none => simp [createPageTable, found]
      | some area =>
        simp only [found, bind_eq_some_iff] at wanted
        obtain ⟨h₁, created, wanted⟩ := wanted
        rw [created, bind_some, ih wanted]

lemma heapExpand_of_wants (wants : expandWants size h = some h') : heapExpand size h = none := by
  obtain ⟨newEnd, stop, wanted⟩ := bind_eq_some_iff.mp wants
  obtain ⟨h₁, expand, rfl⟩ := map_eq_some_iff.mp stop
  by_contra some
  obtain ⟨h₂, expand'⟩ := ne_none_iff_exists'.mp some
  simp only [heapExpand, vmmAllocKernel, bind_eq_bind, bind_eq_some_iff,
    kassert_eq_some, exists_const, pure_def, Option.some.injEq] at expand expand'
  obtain ⟨-, -, -, -, -, _, -, rfl⟩ := expand
  obtain ⟨-, -, -, -, -, _, ⟨-, -, _, created, -⟩, -⟩ := expand'
  rw [createPageTables_of_wanted wanted] at created
  cases created

/-- The block is in the hole that is found. -/
lemma heapAlloc_eq_search : heapAlloc fuel n pageAlign h =
    (search fuel n pageAlign h).bind fun r =>
      match r.2 with
      | .hole size area h => takeArea area size pageAlign h
      | .panic => none := by
  induction fuel generalizing n h with
  | zero => rfl
  | succ fuel ih =>
    rw [heapAlloc, search]
    generalize roundedSize n pageAlign = size
    cases found : findSmallestHole h.mem size pageAlign h.freeIndex.items with
    | none => rfl
    | some hole =>
      cases hole with
      | some area => rfl
      | none =>
        have again : (heapExpand size h).bind (fun h' => (growTail (sub32
            (sub32 h'.endAddress h'.startAddress) (sub32 h.endAddress h.startAddress)) h').bind
              (heapAlloc fuel size pageAlign)) =
            (expanded size h).bind (heapAlloc fuel size pageAlign) := by
          rw [expanded, bind_eq_bind, bind_assoc]
        refine again.trans ?_
        cases wants : expandWants size h with
        | none =>
          cases grown : expanded size h with
          | none => rfl
          | some h₁ => simp [ih, bind_map]
        | some h' =>
          have fails : expanded size h = none := by
            rw [expanded, heapExpand_of_wants wants]
            rfl
          rw [fails]
          dsimp only
          split_ifs
          · cases search fuel pageSize true h' <;> rfl
          · rfl

/-- Without a hole for the first page table, the inner call is like the outer one. -/
lemma search_table_none {newEnd : Nat}
    (noHole : findSmallestHole h.mem (roundedSize pageSize true) true h.freeIndex.items = some none)
    (stop : expandedEnd (roundedSize pageSize true) h = some newEnd)
    (missing : firstMissingTable + h.tables.length < (add32 newEnd pageSize - 1) / tableSpan + 1)
    (first : (h.endAddress + pageSize) / tableSpan = firstMissingTable + h.tables.length) :
    search fuel pageSize true h = none := by
  have wants : expandWants (roundedSize pageSize true) h = some h := by
    obtain ⟨n, tables⟩ := Nat.exists_eq_add_of_lt missing
    rw [expandWants, stop, bind_some, tables, Nat.add_assoc, Nat.add_sub_cancel_left,
      tableWanted, noHole]
  induction fuel with
  | zero => rfl
  | succ fuel ih => simp [search, noHole, wants, first, ih]

end ExscapeOS.KHeap
