import Mathlib.Tactic

/-!
# Forests with parent pointers and lists of children

The two directions of a parent-child relation agree. The operations are stated by the values that
the pointers and lists have afterwards.
-/
namespace ExscapeOS.Lib

variable {α : Type} {par par' : α → Option α} {kids kids' : α → List α} {p c r : α}

structure Forest (par : α → Option α) (kids : α → List α) : Prop where
  mem_iff : ∀ p c, c ∈ kids p ↔ par c = some p
  nodup : ∀ p, (kids p).Nodup
  irrefl : ∀ t, par t ≠ some t

namespace Forest

lemma congr (h : Forest par kids) (hp : ∀ t, par' t = par t) (hk : ∀ t, kids' t = kids t) :
    Forest par' kids' := by
  obtain rfl : par' = par := funext hp
  obtain rfl : kids' = kids := funext hk
  exact h

variable [DecidableEq α]

/-- A root becomes a child. -/
theorem add (h : Forest par kids) (root : par c = none) (ne : c ≠ p)
    (hp : ∀ t, par' t = if t = c then some p else par t)
    (hk : ∀ t, kids' t = if t = p then kids p ++ [c] else kids t) : Forest par' kids' where
  mem_iff q d := by
    have := h.mem_iff q d
    grind
  nodup q := by
    have new : c ∉ kids p := by
      rw [h.mem_iff, root]
      nofun
    rw [hk]
    split_ifs
    · exact (h.nodup p).append (List.nodup_singleton c) (by simpa using new)
    · exact h.nodup q
  irrefl t := by
    have := h.irrefl t
    grind

/-- A child becomes a root. -/
theorem remove (h : Forest par kids) (mem : c ∈ kids p)
    (hp : ∀ t, par' t = if t = c then none else par t)
    (hk : ∀ t, kids' t = if t = p then (kids p).erase c else kids t) : Forest par' kids' where
  mem_iff q d := by
    have child := (h.mem_iff p c).mp mem
    have := h.mem_iff q d
    rw [hk, hp]
    split_ifs with hq hd hd
    · subst hd
      simp [(h.nodup p).not_mem_erase]
    · subst hq
      rw [List.mem_erase_of_ne hd, this]
    · subst hd
      rw [this, child]
      simp [Ne.symm hq]
    · exact this
  nodup q := by
    rw [hk]
    split_ifs
    · exact (h.nodup p).erase c
    · exact h.nodup q
  irrefl t := by
    have := h.irrefl t
    grind

/-- The children of `p` get a new parent, which is a root, or become roots. -/
theorem adopt (h : Forest par kids) (keep : α → Bool) (root : par r = none) (ne : r ≠ p)
    (hp : ∀ t, par' t = if par t = some p then (if keep t then some r else none) else par t)
    (hk : ∀ t, kids' t = if t = p then [] else if t = r then kids r ++ (kids p).filter keep
      else kids t) : Forest par' kids' where
  mem_iff q d := by
    have old := h.mem_iff q d
    have child := h.mem_iff p d
    have adopted := h.mem_iff r d
    rw [hk, hp]
    grind
  nodup q := by
    rw [hk]
    split_ifs
    · exact List.nodup_nil
    · refine (h.nodup r).append ((h.nodup p).filter keep) ?_
      intro d mem mem'
      have := (h.mem_iff r d).mp mem
      rw [(h.mem_iff p d).mp (List.mem_of_mem_filter mem')] at this
      exact ne (Option.some.inj this).symm
    · exact h.nodup q
  irrefl t := by
    have := h.irrefl t
    rw [hp]
    grind

end Forest

end ExscapeOS.Lib
