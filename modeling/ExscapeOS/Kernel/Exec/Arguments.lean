import ExscapeOS.Kernel.Exec.Basic
import ExscapeOS.Kernel.Vmm.Contents

/-!
# The arguments of a program

`copy_argv_env_to_task` puts an array of strings into the memory of the new program. The size is
computed first: a pointer and the bytes of each string, and one pointer more. The strings follow the
array, packed, so that the last one ends where this size ends.
-/
namespace ExscapeOS.Exec

open Lib Vmm Vmm.Vm List Option

variable {vm vm' : Vm} {mm mm' : TaskMm} {d n i p addr place table : Nat} {s : Str}
  {strs : List Str}

/-! ## The copy -/

/-- A pointer in memory. -/
def wordBytes (v : Nat) : List UInt8 := (List.range 4).map (Memory.byteOf v)

/-- The loop that copies the strings from number `i` on to `addr`; `table` is the new array. -/
def copyStrings (d table : Nat) : Nat → Nat → List Str → Vm → Option Vm
  | _, _, [], vm => some vm
  | i, addr, s :: rest, vm => do
    let vm ← vm.storeBytes d addr (s ++ [0])
    let vm ← vm.storeBytes d (add32 table (4 * i)) (wordBytes addr)
    copyStrings d table (i + 1) (add32 addr (s.length + 1)) rest vm

/-- `copy_argv_env_to_task`, with the new array as the first result. -/
def copyToTask (strs : List Str) (mm : TaskMm) (vm : Vm) : Option (Nat × TaskMm × Vm) := do
  let (mm', vm) ← copyArgvEnvToTask strs mm vm
  let vm ← vm.storeBytes mm.directory mm.brkStart (List.replicate (pageCeil (arraySize strs)) 0)
  let vm ←
    copyStrings mm.directory mm.brkStart 0 (add32 mm.brkStart (4 * (strs.length + 1))) strs vm
  return (mm.brkStart, mm', vm)

/-! ## What is to be there -/

/-- The array at `table`, of `size` bytes, of pointers to copies of the strings. -/
structure ArrayAt (strs : List Str) (d table size : Nat) (vm : Vm) (ptrs : List Nat) : Prop where
  length : ptrs.length = strs.length
  pointers : ∀ (i p : Nat), (ptrs ++ [0])[i]? = some p →
    p < wordSize ∧ vm.holds d (table + 4 * i) (wordBytes p)
  strings : ∀ (i p : Nat) (s : Str), ptrs[i]? = some p → strs[i]? = some s →
    vm.holds d p (s ++ [0]) ∧ table + 4 * (strs.length + 1) ≤ p ∧ p + (s.length + 1) ≤ table + size
  disjoint : ∀ (i j p q : Nat) (s : Str), i < j → ptrs[i]? = some p → ptrs[j]? = some q →
    strs[i]? = some s → p + (s.length + 1) ≤ q

/-- The array is in new pages up to the new break, and everything else is as it was. -/
structure Copied (strs : List Str) (mm : TaskMm) (vm : Vm) (table : Nat) (mm' : TaskMm) (vm' : Vm) :
    Prop where
  stop : isPageAligned table ∧ isPageAligned mm'.brkStart ∧ table < mm'.brkStart
  new : ∀ a, table ≤ a → a < mm'.brkStart → vm.pte mm.directory a = .zero ∧
    vm'.mapped mm.directory a ∧ (vm'.pte mm.directory a).rw = true
  array : ∃ ptrs, ArrayAt strs mm.directory table (mm'.brkStart - table) vm' ptrs
  brk : mm'.brk = mm'.brkStart
  kept : Kept mm.directory vm vm'
  layout : Layout vm' mm'

/-! ## The loop -/

/-- The place of each string. -/
def pointersFrom : Nat → List Str → List Nat
  | _, [] => []
  | addr, s :: rest => addr :: pointersFrom (addr + (s.length + 1)) rest

/-- The bytes of the strings, each with its final zero. -/
def stringsSize (strs : List Str) : Nat := (strs.map fun s => s.length + 1).sum

lemma arraySize_eq (strs : List Str) :
    arraySize strs = 4 * (strs.length + 1) + stringsSize strs := by
  unfold arraySize stringsSize
  induction strs with
  | nil => rfl
  | cons s rest ih =>
    simp only [map_cons, sum_cons, length_cons] at ih ⊢
    omega

/-- The pointers from `place` on point to the strings, which follow each other from `addr` on. -/
def Laid (d : Nat) (vm : Vm) : Nat → Nat → List Str → Prop
  | _, _, [] => True
  | place, addr, s :: rest => vm.holds d place (wordBytes addr) ∧ vm.holds d addr (s ++ [0]) ∧
    Laid d vm (place + 4) (addr + (s.length + 1)) rest

@[simp] lemma wordBytes_length (v : Nat) : (wordBytes v).length = 4 := by simp [wordBytes]

/-- The loop writes to the rest of the array and behind `addr`. -/
structure Loop (d place addr : Nat) (strs : List Str) (vm vm' : Vm) : Prop where
  eq : vm' = { vm with mem := vm'.mem }
  laid : Laid d vm' place addr strs
  outside : ∀ a, vm.mapped d a → a < place ∨ place + 4 * strs.length ≤ a →
    a < addr ∨ addr + stringsSize strs ≤ a → vm'.load d a = vm.load d a

lemma copyStrings_loop (table i addr : Nat) (strs : List Str) (ok : PagesOk vm d n)
    (fits : addr + stringsSize strs < wordSize) (apart : table + 4 * (i + strs.length) ≤ addr)
    (mapped : ∀ a, table ≤ a → a < addr + stringsSize strs → vm.mapped d a) :
    ∃ vm', copyStrings d table i addr strs vm = some vm' ∧
      Loop d (table + 4 * i) addr strs vm vm' := by
  induction strs generalizing i addr vm with
  | nil => exact ⟨vm, rfl, rfl, trivial, fun _ _ _ _ => rfl⟩
  | cons s rest ih =>
    have total : stringsSize (s :: rest) = (s.length + 1) + stringsSize rest := rfl
    rw [total] at fits mapped
    rw [length_cons] at apart
    have size : (s ++ [(0 : UInt8)]).length = s.length + 1 := by simp
    have next : add32 table (4 * i) = table + 4 * i := add32_eq (by omega)
    have next' : add32 addr (s.length + 1) = addr + (s.length + 1) := add32_eq (by omega)
    obtain ⟨vm₁, ran₁, wrote₁⟩ := storeBytes_wrote addr (s ++ [0]) ok (by omega)
      fun a low high => mapped a (by omega) (by omega)
    obtain ⟨vm₂, ran₂, wrote₂⟩ := storeBytes_wrote (table + 4 * i) (wordBytes addr)
      (wrote₁.pagesOk ok) (by rw [wordBytes_length]; omega) fun a low high =>
        wrote₁.mapped.mpr (mapped a (by omega) (by rw [wordBytes_length] at high; omega))
    obtain ⟨vm', ran', loop⟩ := ih (i + 1) (addr + (s.length + 1))
      (wrote₂.pagesOk (wrote₁.pagesOk ok)) (by omega) (by omega) fun a low high =>
        wrote₂.mapped.mpr (wrote₁.mapped.mpr (mapped a low (by omega)))
    have mapped₂ {a : Nat} (here : vm.mapped d a) : vm₂.mapped d a :=
      wrote₂.mapped.mpr (wrote₁.mapped.mpr here)
    refine ⟨vm', by simp [copyStrings, ran₁, next, ran₂, next', ran'], ?_, ⟨?_, ?_, ?_⟩, ?_⟩
    · rw [loop.eq, wrote₂.eq, wrote₁.eq]
    · intro j lt
      rw [wordBytes_length] at lt
      rw [loop.outside _ (mapped₂ (mapped _ (by omega) (by omega))) (by omega) (by omega)]
      exact wrote₂.inside j (by rw [wordBytes_length]; exact lt)
    · have held : vm₂.holds d addr (s ++ [0]) := by
        refine wrote₂.holds wrote₁.inside (fun b low high => ?_) (by rw [wordBytes_length]; omega)
        exact wrote₁.mapped.mpr (mapped b (by omega) (by omega))
      intro j lt
      rw [loop.outside _ (mapped₂ (mapped _ (by omega) (by omega))) (by omega) (by omega)]
      exact held j lt
    · exact loop.laid
    · intro a here array strings
      rw [length_cons] at array
      rw [total] at strings
      rw [loop.outside a (mapped₂ here) (by omega) (by omega),
        wrote₂.outside a (wrote₁.mapped.mpr here) (by rw [wordBytes_length]; omega),
        wrote₁.outside a here (by omega)]

/-! ## Where the strings are -/

lemma pointersFrom_length (addr : Nat) (strs : List Str) :
    (pointersFrom addr strs).length = strs.length := by
  induction strs generalizing addr with
  | nil => rfl
  | cons s rest ih => rw [pointersFrom, length_cons, length_cons, ih]

lemma pointersFrom_bounds (hp : (pointersFrom addr strs)[i]? = some p) (hs : strs[i]? = some s) :
    addr ≤ p ∧ p + (s.length + 1) ≤ addr + stringsSize strs := by
  induction strs generalizing addr i with
  | nil => simp at hs
  | cons t rest ih =>
    have total : stringsSize (t :: rest) = (t.length + 1) + stringsSize rest := rfl
    cases i with
    | zero =>
      simp only [pointersFrom, getElem?_cons_zero, some.injEq] at hp hs
      subst hp hs
      omega
    | succ i =>
      have bounds := ih hp hs
      omega

lemma pointersFrom_disjoint {j q : Nat} (lt : i < j) (hp : (pointersFrom addr strs)[i]? = some p)
    (hq : (pointersFrom addr strs)[j]? = some q) (hs : strs[i]? = some s) :
    p + (s.length + 1) ≤ q := by
  induction strs generalizing addr i j with
  | nil => simp at hs
  | cons t rest ih =>
    obtain ⟨j, rfl⟩ := Nat.exists_eq_succ_of_ne_zero (by omega : j ≠ 0)
    rw [pointersFrom, getElem?_cons_succ] at hq
    cases i with
    | zero =>
      simp only [pointersFrom, getElem?_cons_zero, some.injEq] at hp hs
      subst hp hs
      have inside : j < rest.length := by
        rw [← pointersFrom_length (addr + (t.length + 1)) rest]
        exact (List.getElem?_eq_some_iff.mp hq).1
      exact (pointersFrom_bounds hq (getElem?_eq_getElem inside)).1
    | succ i => exact ih (by omega) hp hq hs

lemma Laid.at (laid : Laid d vm place addr strs) (hp : (pointersFrom addr strs)[i]? = some p)
    (hs : strs[i]? = some s) :
    vm.holds d (place + 4 * i) (wordBytes p) ∧ vm.holds d p (s ++ [0]) := by
  induction strs generalizing place addr i with
  | nil => simp at hs
  | cons t rest ih =>
    cases i with
    | zero =>
      simp only [pointersFrom, getElem?_cons_zero, some.injEq] at hp hs
      subst hp hs
      exact ⟨laid.1, laid.2.1⟩
    | succ i =>
      have rest := ih laid.2.2 hp hs
      rwa [show place + 4 + 4 * i = place + 4 * (i + 1) by omega] at rest

lemma Laid.arrayAt {size : Nat} (laid : Laid d vm table (table + 4 * (strs.length + 1)) strs)
    (null : vm.holds d (table + 4 * strs.length) (wordBytes 0)) (room : arraySize strs ≤ size)
    (small : table + size < wordSize) :
    ArrayAt strs d table size vm (pointersFrom (table + 4 * (strs.length + 1)) strs) := by
  have exact := arraySize_eq strs
  have string {i p : Nat} (hp : (pointersFrom (table + 4 * (strs.length + 1)) strs)[i]? = some p) :
      ∃ s, strs[i]? = some s := by
    have lt := (List.getElem?_eq_some_iff.mp hp).1
    rw [pointersFrom_length] at lt
    exact ⟨_, getElem?_eq_getElem lt⟩
  refine ⟨pointersFrom_length _ _, fun i p hp => ?_, fun i p s hp hs => ?_,
    fun i j p q s lt hp hq hs => ?_⟩
  · rw [getElem?_append, pointersFrom_length] at hp
    split_ifs at hp with here
    · obtain ⟨s, hs⟩ := string hp
      have bounds := pointersFrom_bounds hp hs
      exact ⟨by omega, (laid.at hp hs).1⟩
    · have last : i - strs.length = 0 ∧ p = 0 := by
        cases k : i - strs.length <;> simp_all
      obtain rfl : i = strs.length := by omega
      rw [last.2]
      exact ⟨by decide, null⟩
  · have bounds := pointersFrom_bounds hp hs
    exact ⟨(laid.at hp hs).2, by omega, by omega⟩
  · exact pointersFrom_disjoint lt hp hq hs

/-! ## The whole copy -/

lemma copyArgvEnvToTask_spec (small : arraySize strs + pageSize ≤ wordSize)
    (h : copyArgvEnvToTask strs mm vm = some (mm', vm')) :
    ∃ mm₁, vm.vmmAllocUser mm.brkStart (mm.brkStart + pageCeil (arraySize strs)) mm true =
        some (mm₁, vm') ∧ mm.brkStart + pageCeil (arraySize strs) < wordSize ∧
      mm' = { mm₁ with
        brk := add32 mm.brk (pageCeil (arraySize strs))
        brkStart := mm.brkStart + pageCeil (arraySize strs) } := by
  simp only [copyArgvEnvToTask, bind, bind_eq_some_iff, kassert_eq_some, exists_const, pure,
    some.injEq, Prod.mk.injEq] at h
  obtain ⟨-, ⟨mm₁, vm₁⟩, alloc, rfl, rfl⟩ := h
  obtain ⟨-, lt, -⟩ := vmmAllocUser_same alloc
  have size := pageCeil_spec small
  -- the end does not wrap around, since it is above the start
  have fits : mm.brkStart + pageCeil (arraySize strs) < wordSize := by
    unfold add32 wordSize at *
    omega
  rw [add32_eq fits] at alloc ⊢
  exact ⟨mm₁, alloc, fits, rfl⟩

lemma Layout.copyToTask (layout : Layout vm mm) (same : mm.brk = mm.brkStart)
    (small : arraySize strs + pageSize ≤ wordSize) {vm₁ : Vm}
    (h : copyArgvEnvToTask strs mm vm = some (mm', vm₁)) :
    ∃ vm', Exec.copyToTask strs mm vm = some (mm.brkStart, mm', vm') ∧
      Copied strs mm vm mm.brkStart mm' vm' := by
  obtain ⟨mm₁, alloc, fits, rfl⟩ := copyArgvEnvToTask_spec small h
  obtain ⟨-, lt, startAligned, stopAligned⟩ := vmmAllocUser_same alloc
  have empty {a : Nat} (low : mm.brkStart ≤ a)
      (high : a < mm.brkStart + pageCeil (arraySize strs)) :
      vm.pte mm.directory a = .zero := by
    rw [pte_eq]
    refine (layout.vmmAllocUser_pages fits alloc).empty _ ?_
    unfold isPageAligned pageSize at *
    omega
  have size := pageCeil_spec small
  have exact := arraySize_eq strs
  obtain ⟨vm₂, ran₂, cleared, ok₂, added, zero⟩ := layout.vmmAllocUser_cleared fits alloc
  rw [Nat.add_sub_cancel_left] at ran₂
  obtain ⟨vm', ran', loop⟩ := copyStrings_loop mm.brkStart 0
    (mm.brkStart + 4 * (strs.length + 1)) strs ok₂ (by omega) (by omega)
    fun a low high => (added.new a low (by omega)).1
  have written : Added mm.directory mm.brkStart (mm.brkStart + pageCeil (arraySize strs))
    true vm vm' :=
    added.write loop.eq fun a here apart => loop.outside a here (by omega) (by omega)
  have null : vm'.holds mm.directory (mm.brkStart + 4 * strs.length) (wordBytes 0) := by
    intro j lt
    rw [wordBytes_length] at lt
    rw [loop.outside _ (added.new _ (by omega) (by omega)).1 (by omega) (by omega),
      zero _ (by omega) (by omega)]
    have zeros : wordBytes 0 = List.replicate 4 0 := by decide
    rw [zeros, getElem?_replicate, if_pos lt]
  refine ⟨vm', ?_, ⟨⟨startAligned, stopAligned, lt⟩, fun a low high => ?_,
    ⟨pointersFrom (mm.brkStart + 4 * (strs.length + 1)) strs, ?_⟩, ?_, written.kept, ?_⟩⟩
  · have next : add32 mm.brkStart (4 * (strs.length + 1)) = mm.brkStart + 4 * (strs.length + 1) :=
      add32_eq (by omega)
    simp [Exec.copyToTask, h, ran₂, next, ran']
  · exact ⟨empty low high, written.new a low high⟩
  · dsimp only
    rw [Nat.add_sub_cancel_left]
    exact Laid.arrayAt loop.laid null size.1 fits
  · dsimp only
    rw [same, add32_eq fits]
  · have kept : vm' = { vm₁ with mem := vm'.mem } := by rw [loop.eq, cleared]
    exact ((layout.vmmAllocUser fits alloc).1.setMem kept).congr rfl rfl rfl

/-- There is room above the break, and there are enough frames. -/
structure RoomToCopy (strs : List Str) (mm : TaskMm) (vm : Vm) : Prop where
  aligned : isPageAligned mm.brkStart
  space : 0x10000000 ≤ mm.brkStart ∧ mm.brkStart + pageCeil (arraySize strs) ≤ 0xc0000000
  empty : ∀ a, mm.brkStart ≤ a → a < mm.brkStart + pageCeil (arraySize strs) →
    vm.pte mm.directory a = .zero
  frames : vm.roomFor mm.directory mm.brkStart (mm.brkStart + pageCeil (arraySize strs))

/-- The strings come from the kernel heap, so their size is far below the size of a word. Whenever
`copy_argv_env_to_task` returns, the array and the strings are in the new pages; and it returns if
there is enough memory. -/
theorem copyToTask_copies (strs : List Str) (layout : Layout vm mm)
    (same : mm.brk = mm.brkStart) (small : arraySize strs + pageSize ≤ wordSize) :
    (∀ table mm' vm', copyToTask strs mm vm = some (table, mm', vm') →
      table = mm.brkStart ∧ Copied strs mm vm table mm' vm') ∧
    (RoomToCopy strs mm vm → (copyToTask strs mm vm).isSome) := by
  refine ⟨fun table mm' vm' h => ?_, fun room => ?_⟩
  · have ran := h
    simp only [copyToTask, bind, bind_eq_some_iff] at ran
    obtain ⟨⟨mm₁, vm₁⟩, alloc, -⟩ := ran
    obtain ⟨vm₂, done, copied⟩ := Layout.copyToTask layout same small alloc
    rw [h] at done
    simp only [some.injEq, Prod.mk.injEq] at done
    obtain ⟨rfl, rfl, rfl⟩ := done
    exact ⟨rfl, copied⟩
  · have size := pageCeil_spec small
    have pos : 0 < arraySize strs := by
      rw [arraySize_eq]
      omega
    have stopAligned : isPageAligned (mm.brkStart + pageCeil (arraySize strs)) := by
      have aligned := room.aligned
      unfold isPageAligned pageSize at *
      omega
    have fits : add32 mm.brkStart (pageCeil (arraySize strs)) =
        mm.brkStart + pageCeil (arraySize strs) :=
      add32_eq (room.space.2.trans_lt (by decide))
    have alloc : (vm.vmmAllocUser mm.brkStart (mm.brkStart + pageCeil (arraySize strs)) mm
        true).isSome :=
      layout.vmmAllocUser_isSome room.aligned stopAligned (by omega) room.space
        room.empty room.frames
    obtain ⟨⟨mm₁, vm₁⟩, eq⟩ := isSome_iff_exists.mp alloc
    have start : mm.brkStart ≠ 0 := by
      have low := room.space.1
      omega
    have allocated : copyArgvEnvToTask strs mm vm = some ({ mm₁ with
        brk := add32 mm.brk (pageCeil (arraySize strs))
        brkStart := mm.brkStart + pageCeil (arraySize strs) }, vm₁) := by
      simp only [copyArgvEnvToTask, kassert, start, ne_eq, not_false_eq_true, if_true,
        fits, eq, bind, bind_some, pure]
    obtain ⟨vm', done, -⟩ := Layout.copyToTask layout same small allocated
    rw [done, isSome_some]

/-- A new task whose break is at the second page of user space. -/
def withBreakAt (mm : TaskMm) : TaskMm := { mm with brkStart := 0x10001000, brk := 0x10001000 }

theorem copyToTask_ls : ∃ mm vm, (bareMachine 64).vmmCreateUserMm = some (mm, vm) ∧
    ∃ mm' vm', copyToTask [[108, 115], [45, 108]] (withBreakAt mm) vm =
      some (0x10001000, mm', vm') ∧ Copied [[108, 115], [45, 108]] (withBreakAt mm) vm
        0x10001000 mm' vm' := by
  obtain ⟨⟨mm, vm⟩, created, empty, frames⟩ : ∃ m ∈ (bareMachine 64).vmmCreateUserMm,
      m.2.entry m.1.directory 0x10001 = .zero ∧ m.2.roomFor m.1.directory 0x10001000
        0x10002000 := by
    decide +kernel
  have layout : Layout vm (withBreakAt mm) :=
    (vmmCreateUserMm_layout (bareMachine_kernelOk 64) created).congr rfl rfl rfl
  have size : pageCeil (arraySize [[108, 115], [45, 108]]) = 0x1000 := by decide
  obtain ⟨copies, returns⟩ := copyToTask_copies [[108, 115], [45, 108]] layout rfl
    (by decide)
  have room : RoomToCopy [[108, 115], [45, 108]] (withBreakAt mm) vm := by
    have brk : (withBreakAt mm).brkStart = 0x10001000 := rfl
    constructor <;> rw [brk]
    · decide
    · rw [size]
      decide
    · intro a low high
      rw [size] at high
      have page : a / pageSize = 0x10001 := by
        unfold pageSize
        omega
      rw [pte_eq, page]
      exact empty
    · rw [size]
      exact frames
  obtain ⟨⟨table, mm', vm'⟩, ran⟩ := isSome_iff_exists.mp (returns room)
  obtain ⟨rfl, copied⟩ := copies table mm' vm' ran
  exact ⟨mm, vm, created, mm', vm', ran, copied⟩

end ExscapeOS.Exec
