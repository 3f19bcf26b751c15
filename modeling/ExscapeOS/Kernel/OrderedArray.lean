import ExscapeOS.Lib.Word

/-!
# Ordered arrays

`kernel/ordered_array.c`: an array with a fixed capacity that an insertion keeps in the order of a
predicate. This is evaluated at insertion time only, so an array is sorted only as long as the order
of its elements does not change.
-/
namespace ExscapeOS

open Lib

/-- The occupied part of the array; it never outgrows the capacity. -/
structure OrderedArray (α : Type*) where
  items : List α
  maxSize : Nat
  size_le : items.length ≤ maxSize

namespace OrderedArray

variable {α : Type*}

/-- `place_ordered_array`: an empty array with the given capacity. -/
def place (maxSize : Nat) : OrderedArray α := ⟨[], maxSize, Nat.zero_le _⟩

/-- `item` is inserted before the first element not less than it. -/
def insertItems (lessThan : α → α → Bool) (item : α) (items : List α) : List α :=
  items.takeWhile (lessThan · item) ++ item :: items.dropWhile (lessThan · item)

lemma insertItems_perm (lessThan : α → α → Bool) (item : α) (items : List α) :
    (insertItems lessThan item items).Perm (item :: items) := by
  have h : (insertItems lessThan item items).Perm
      (item :: (items.takeWhile (lessThan · item) ++ items.dropWhile (lessThan · item))) :=
    List.perm_middle
  rwa [List.takeWhile_append_dropWhile] at h

/-- `insert_ordered_array`: a full array is an assertion failure. -/
def insert (lessThan : α → α → Bool) (item : α) (arr : OrderedArray α) :
    Option (OrderedArray α) :=
  if h : arr.items.length + 1 ≤ arr.maxSize then
    some ⟨insertItems lessThan item arr.items, arr.maxSize, by
      rw [(insertItems_perm lessThan item arr.items).length_eq]
      exact h⟩
  else none

/-- `remove_ordered_array_item` drops the first occurrence of `item`. -/
def removeItem [DecidableEq α] (item : α) (arr : OrderedArray α) : OrderedArray α :=
  ⟨arr.items.erase item, arr.maxSize, (List.length_erase_le).trans arr.size_le⟩

lemma items_insert {lessThan : α → α → Bool} {item : α} {arr arr' : OrderedArray α}
    (h : arr.insert lessThan item = some arr') : arr'.items.Perm (item :: arr.items) := by
  unfold insert at h
  split_ifs at h
  cases h
  exact insertItems_perm ..

@[simp] lemma items_removeItem [DecidableEq α] (item : α) (arr : OrderedArray α) :
    (arr.removeItem item).items = arr.items.erase item := rfl

end OrderedArray

end ExscapeOS
