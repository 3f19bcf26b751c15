import ExscapeOS.Kernel.OrderedArray
import Mathlib.Data.List.TakeWhile

/-!
# The slots of an ordered array

`insert_ordered_array` and `remove_ordered_array_item` move items slot by slot. Both loops touch the
slot behind the last item: the insertion fills it, and the removal copies it into the last occupied
slot. `create_ordered_array` allocates one slot more than the capacity for that.
`place_ordered_array` does not.
-/
namespace ExscapeOS.OrderedArray

open List

variable {α : Type}

/-- Why a call does not return. -/
inductive Stop where
  | assertion
  /-- An access beyond the allocated slots. -/
  | access
  deriving DecidableEq

/-- `ordered_array_t`: the allocated slots; the first `size` are occupied. -/
structure Slots (α : Type) where
  array : List α
  size : Nat
  maxSize : Nat
  deriving DecidableEq

def load (array : List α) (i : Nat) : Except Stop α :=
  match array[i]? with
  | some item => .ok item
  | none => .error .access

def store (array : List α) (i : Nat) (item : α) : Except Stop (List α) :=
  if i < array.length then .ok (array.set i item) else .error .access

/-- The first of `n` slots from `i` on that is not passed over, or the slot behind them. -/
def seek (pass : α → Bool) (array : List α) : Nat → Nat → Except Stop Nat
  | 0, i => .ok i
  | n + 1, i => do
    let x ← load array i
    if pass x then seek pass array n (i + 1) else .ok i

/-- The loop of `insert_ordered_array` that moves the rest forwards, in `n` rounds. -/
def moveForwards : Nat → Nat → α → List α → Except Stop (List α)
  | 0, _, _, array => .ok array
  | n + 1, i, tmp, array => do
    let tmp2 ← load array (i + 1)
    let array ← store array (i + 1) tmp
    moveForwards n (i + 1) tmp2 array

/-- The loop of `remove_ordered_array`, in `n` rounds. -/
def moveBack : Nat → Nat → List α → Except Stop (List α)
  | 0, _, array => .ok array
  | n + 1, i, array => do
    let next ← load array (i + 1)
    let array ← store array i next
    moveBack n (i + 1) array

namespace Slots

/-- `create_ordered_array`; the last slot is not initialised. -/
def createOrderedArray [Zero α] (maxSize : Nat) (last : α) : Slots α :=
  ⟨List.replicate maxSize 0 ++ [last], 0, maxSize⟩

def placeOrderedArray [Zero α] (maxSize : Nat) : Slots α :=
  ⟨List.replicate maxSize 0, 0, maxSize⟩

def insertOrderedArray (lessThan : α → α → Bool) (item : α) (s : Slots α) :
    Except Stop (Slots α) := do
  if s.maxSize < s.size + 1 then .error .assertion
  let i ← seek (lessThan · item) s.array s.size 0
  if i = s.size then
    let array ← store s.array s.size item
    return { s with array := array, size := s.size + 1 }
  else
    let tmp ← load s.array i
    let array ← store s.array i item
    let array ← moveForwards (s.size - i) i tmp array
    return { s with array := array, size := s.size + 1 }

def removeOrderedArray (i : Nat) (s : Slots α) : Except Stop (Slots α) := do
  let array ← moveBack (s.size - i) i s.array
  return { s with array := array, size := s.size - 1 }

def removeOrderedArrayItem [DecidableEq α] (item : α) (s : Slots α) : Except Stop (Slots α) := do
  let i ← seek (· ≠ item) s.array s.size 0
  if i < s.size then s.removeOrderedArray i else return s

end Slots

/-! ## The loops -/

variable {i : Nat} {x y tmp : α} {front mid rest : List α} {pass : α → Bool}

@[simp] lemma load_append (len : front.length = i) : load (front ++ x :: rest) i = .ok x := by
  simp [load, ← len]

@[simp] lemma store_append (len : front.length = i) :
    store (front ++ x :: rest) i y = .ok (front ++ y :: rest) := by
  simp [store, ← len]

lemma seek_eq (len : front.length = i) :
    seek pass (front ++ mid ++ rest) mid.length i = .ok (i + (mid.takeWhile pass).length) := by
  induction mid generalizing front i with
  | nil => rfl
  | cons x mid ih =>
    have later := @ih (i + 1) (front ++ [x]) (by simp [len])
    simp only [append_assoc, cons_append, nil_append] at later
    simp only [length_cons, seek, append_assoc, cons_append, load_append len, later,
      takeWhile_cons, bind, Except.bind]
    split_ifs
    · rw [length_cons, Nat.add_assoc, Nat.add_comm 1]
    · rfl

lemma moveForwards_eq (len : front.length = i + 1) :
    moveForwards (mid.length + 1) i tmp (front ++ mid ++ x :: rest) =
      .ok (front ++ tmp :: mid ++ rest) := by
  induction mid generalizing front i tmp with
  | nil => simp [moveForwards, len, bind, Except.bind]
  | cons y mid ih =>
    have later := @ih (i + 1) y (front ++ [tmp]) (by simp [len])
    simp only [append_assoc, cons_append, nil_append] at later
    simp [moveForwards, len, bind, Except.bind, later]

/-- The last round reads the slot behind the items. -/
lemma moveBack_eq (len : front.length = i) :
    moveBack (mid.length + 1) i (front ++ x :: mid ++ rest) =
      match rest with
      | [] => .error .access
      | last :: rest => .ok (front ++ mid ++ last :: last :: rest) := by
  induction mid generalizing front i x with
  | nil => cases rest <;> simp [moveBack, load, store, ← len, bind, Except.bind]
  | cons y mid ih =>
    have later := @ih (i + 1) y (front ++ [y]) (by simp [len])
    have next := @load_append α (i + 1) y (front ++ [x]) (mid ++ rest) (by simp [len])
    simp only [append_assoc, cons_append, nil_append] at later next
    simp only [length_cons, moveBack, append_assoc, cons_append, next,
      store_append len, bind, Except.bind]
    exact later

/-! ## The whole calls -/

section Calls

variable {items : List α} {item : α} {maxSize : Nat} {lessThan : α → α → Bool}

lemma insertOrderedArray_eq (room : items.length < maxSize) :
    Slots.insertOrderedArray lessThan item ⟨items ++ x :: rest, items.length, maxSize⟩ =
      .ok ⟨insertItems lessThan item items ++ rest, (insertItems lessThan item items).length,
        maxSize⟩ := by
  rw [(insertItems_perm lessThan item items).length_eq]
  have found := @seek_eq α 0 [] items (x :: rest) (lessThan · item) rfl
  have split := items.takeWhile_append_dropWhile (p := (lessThan · item))
  rw [nil_append, Nat.zero_add] at found
  simp only [Slots.insertOrderedArray, found, if_neg (by omega : ¬ maxSize < items.length + 1),
    bind, Except.bind, pure, Except.pure]
  unfold insertItems
  generalize items.takeWhile (lessThan · item) = front at *
  cases back : items.dropWhile (lessThan · item) with
  | nil =>
    obtain rfl : front = items := by simpa [back] using split
    simp
  | cons y mid =>
    rw [back] at split
    have shift := @moveForwards_eq α front.length x y (front ++ [item]) mid rest (by simp)
    subst split
    simp only [append_assoc, cons_append, nil_append] at shift
    simp [shift]

lemma takeWhile_ne [DecidableEq α] (absent : item ∉ front) (l : List α) :
    (front ++ l).takeWhile (· ≠ item) = front ++ l.takeWhile (· ≠ item) :=
  takeWhile_append_of_pos fun y mem => decide_eq_true fun eq : y = item => absent (eq ▸ mem)

lemma removeOrderedArrayItem_absent [DecidableEq α] (absent : item ∉ items) :
    Slots.removeOrderedArrayItem item ⟨items ++ rest, items.length, maxSize⟩ =
      .ok ⟨items ++ rest, items.length, maxSize⟩ := by
  have found := @seek_eq α 0 [] items rest (· ≠ item) rfl
  have all := takeWhile_ne absent []
  simp only [append_nil, takeWhile_nil] at all
  rw [nil_append, Nat.zero_add, all] at found
  simp only [Slots.removeOrderedArrayItem, found, bind, Except.bind]
  exact if_neg (lt_irrefl _)

lemma removeOrderedArrayItem_eq [DecidableEq α] (absent : item ∉ front) :
    Slots.removeOrderedArrayItem item
        ⟨front ++ item :: mid ++ rest, (front ++ item :: mid).length, maxSize⟩ =
      match rest with
      | [] => .error .access
      | last :: rest => .ok ⟨front ++ mid ++ last :: last :: rest, (front ++ mid).length,
          maxSize⟩ := by
  have found := @seek_eq α 0 [] (front ++ item :: mid) rest (· ≠ item) rfl
  rw [nil_append, Nat.zero_add, takeWhile_ne absent, takeWhile_cons_of_neg (by simp),
    append_nil] at found
  have shift := @moveBack_eq α front.length item front mid rest rfl
  have rounds : (front ++ item :: mid).length - front.length = mid.length + 1 := by simp
  simp only [Slots.removeOrderedArrayItem, Slots.removeOrderedArray, found, rounds, shift, bind,
    Except.bind, pure, Except.pure]
  rw [if_pos (by simp)]
  cases rest <;> simp

end Calls

/-! ## Sorted arrays -/

/-- A predicate that orders the items of an array. -/
structure Order (α : Type) where
  lessThan : α → α → Bool
  asymm : ∀ a b, lessThan a b = true → lessThan b a = false
  cotrans : ∀ a b c, lessThan a c = true → lessThan a b = true ∨ lessThan b c = true

/-- `standard_lessthan_predicate`, on addresses. -/
def standardLessthanPredicate : Order Nat where
  lessThan a b := a < b
  asymm := by simp; omega
  cotrans := by simp; omega

variable {order : Order α} {items : List α} {item : α}

def Sorted (order : Order α) (items : List α) : Prop :=
  items.Pairwise fun a b => order.lessThan b a = false

/-- An ordered array that is sorted and has slots for its capacity. -/
structure SortedSlots (order : Order α) where
  items : List α
  /-- The slots behind the items. -/
  spare : List α
  maxSize : Nat
  size_le : items.length ≤ maxSize
  fits : maxSize ≤ items.length + spare.length
  sorted : Sorted order items

def SortedSlots.toSlots (s : SortedSlots order) : Slots α :=
  ⟨s.items ++ s.spare, s.items.length, s.maxSize⟩

lemma lessThan_of_mem_dropWhile (sorted : Sorted order items)
    (mem : y ∈ items.dropWhile (order.lessThan · item)) : order.lessThan y item = false := by
  induction items with
  | nil => simp at mem
  | cons x items ih =>
    obtain ⟨first, sorted⟩ := pairwise_cons.mp sorted
    rw [dropWhile_cons] at mem
    split_ifs at mem with less
    · exact ih sorted mem
    · rcases mem_cons.mp mem with rfl | later
      · simpa using less
      · by_contra below
        rcases order.cotrans y x item (by simpa using below) with h | h
        · simp [first y later] at h
        · exact less h

lemma insertItems_sorted (sorted : Sorted order items) :
    Sorted order (insertItems order.lessThan item items) := by
  have parts := sorted
  rw [← items.takeWhile_append_dropWhile (p := (order.lessThan · item))] at parts
  obtain ⟨front, back, cross⟩ := pairwise_append.mp parts
  refine pairwise_append.mpr ⟨front, pairwise_cons.mpr ⟨fun y mem => ?_, back⟩, ?_⟩
  · exact lessThan_of_mem_dropWhile sorted mem
  · rintro a before b (_ | ⟨_, mem⟩)
    · exact order.asymm a item (mem_takeWhile_imp (p := (order.lessThan · item)) before)
    · exact cross a before b mem

namespace SortedSlots

/-- Insertion and removal of `item` keep the array sorted and change nothing else, without an access
beyond the slots. Insertion into a full array fails the assertion. -/
structure Keeps [DecidableEq α] (s : SortedSlots order) (item : α) : Prop where
  insert : s.items.length < s.maxSize → ∃ s' : SortedSlots order,
    s.toSlots.insertOrderedArray order.lessThan item = .ok s'.toSlots ∧
    ∃ front back, s.items = front ++ back ∧ s'.items = front ++ item :: back
  full : s.items.length = s.maxSize →
    s.toSlots.insertOrderedArray order.lessThan item = .error .assertion
  remove : ∃ s' : SortedSlots order,
    s.toSlots.removeOrderedArrayItem item = .ok s'.toSlots ∧ s'.items = s.items.erase item

variable (s : SortedSlots order) (item : α)

lemma insert_keeps (room : s.items.length < s.maxSize) : ∃ s' : SortedSlots order,
    s.toSlots.insertOrderedArray order.lessThan item = .ok s'.toSlots ∧
    ∃ front back, s.items = front ++ back ∧ s'.items = front ++ item :: back := by
  obtain ⟨items, _ | ⟨x, rest⟩, maxSize, le, fits, sorted⟩ := s
  · exact absurd fits room.not_ge
  · have length := (insertItems_perm order.lessThan item items).length_eq
    refine ⟨⟨_, rest, maxSize, length.trans_le room, ?_, insertItems_sorted sorted⟩, ?_, _, _,
      takeWhile_append_dropWhile.symm, rfl⟩
    · simp only [length_cons] at length fits
      omega
    · exact insertOrderedArray_eq room

/-- Removing an item reads the slot behind the items. -/
lemma remove_keeps [DecidableEq α] : (∃ s' : SortedSlots order,
    s.toSlots.removeOrderedArrayItem item = .ok s'.toSlots ∧ s'.items = s.items.erase item) ↔
      (item ∈ s.items → s.spare ≠ []) := by
  by_cases mem : item ∈ s.items
  · obtain ⟨front, mid, absent, split, erased⟩ := exists_erase_eq mem
    have sorted : Sorted order (front ++ mid) := erased ▸ s.sorted.sublist erase_sublist
    have le := s.size_le
    have fits := s.fits
    rw [toSlots, split, removeOrderedArrayItem_eq absent, ← split, erased]
    rw [split, length_append, length_cons] at le fits
    cases spare : s.spare with
    | nil => simp [mem]
    | cons last rest =>
      rw [spare, length_cons] at fits
      refine iff_of_true ⟨⟨_, last :: last :: rest, s.maxSize, ?_, ?_, sorted⟩, rfl, rfl⟩ (by simp)
      all_goals
        simp only [length_append, length_cons]
        omega
  · exact iff_of_true ⟨s, removeOrderedArrayItem_absent mem, (erase_of_not_mem mem).symm⟩
      (absurd · mem)

/-- The calls do what they are for, except that removing an item reads behind the slots if all are
occupied. -/
theorem keeps_iff [DecidableEq α] : s.Keeps item ↔ (item ∈ s.items → s.spare ≠ []) := by
  refine ⟨fun keeps => (s.remove_keeps item).mp keeps.remove,
    fun spare => ⟨s.insert_keeps item, fun full => ?_, (s.remove_keeps item).mpr spare⟩⟩
  rw [Slots.insertOrderedArray, toSlots, if_pos (by simp [full])]
  rfl

end SortedSlots

/-- In an array with one slot, placed as the heap places its index, the removal of 5 reads a second
slot. -/
theorem remove_behind_slots :
    ((Slots.placeOrderedArray 1).insertOrderedArray standardLessthanPredicate.lessThan 5 >>=
      Slots.removeOrderedArrayItem 5) = .error .access := by
  decide

/-- An array that is created has that slot. -/
example : ((Slots.createOrderedArray 1 7).insertOrderedArray
    standardLessthanPredicate.lessThan 5 >>=
      Slots.removeOrderedArrayItem 5) = .ok ⟨[7, 7], 0, 1⟩ := by
  decide

end ExscapeOS.OrderedArray
