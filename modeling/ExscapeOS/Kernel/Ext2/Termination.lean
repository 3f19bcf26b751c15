import ExscapeOS.Kernel.Ext2.Dir
import ExscapeOS.Kernel.Fat.Chain

/-!
# Walks through directories end

`ext2_getdents` asserts that a record is longer than its fixed fields, and so it ends for every
contents of the disk. The search of `_inode_for_path` has no such assertion, and stays for ever at a
record of length 0. `fat_parse_dir` stays for ever in a chain of clusters that leads back to itself.
-/
namespace ExscapeOS.Ext2

open Lib Relation List Option

namespace DirBuf

variable {d : DirBuf} {curEntry : Name} {i j n r : Nat}

lemma lt_extent (h : d.inode i = some n) : i < d.extent := by
  by_contra le
  simp [inode, d.unmapped i (not_lt.mp le)] at h

lemma recLen_lt (h : d.recLen i = some r) : r < 65536 := by
  simp only [recLen, bind_eq_bind, bind_eq_some_iff, pure, some.injEq] at h
  obtain ⟨b0, -, b1, -, rfl⟩ := h
  have := b0.toNat_lt
  have := b1.toNat_lt
  omega

lemma add32_blocksize (h : d.inode i = some n) : add32 i d.blocksize = i + d.blocksize :=
  add32_eq ((Nat.add_lt_add_right (lt_extent h) _).trans_le d.small.1)

lemma add32_recLen (h : d.inode i = some n) (len : d.recLen i = some r) : add32 i r = i + r :=
  add32_eq ((Nat.add_lt_add (lt_extent h) (recLen_lt len)).trans_le d.small.2)

/-! ## The search -/

/-- The search goes from a record to another. -/
inductive Passes (d : DirBuf) (curEntry : Name) : Nat → Nat → Prop where
  | block {i : Nat} : i < d.len → d.inode i = some 0 → i % d.blocksize = 0 →
      i + d.blocksize < d.len → Passes d curEntry i (i + d.blocksize)
  | record {i n r : Nat} : i < d.len → d.inode i = some n → n ≠ 0 →
      d.sameName curEntry i = some false → d.recLen i = some r → i + r < d.len →
      Passes d curEntry i (i + r)

lemma goOn_eq_inl : d.goOn i = .inl j ↔ i = j ∧ j < d.len := by
  unfold goOn
  split
  · rename_i more
    exact ⟨fun h => Sum.inl.inj h ▸ ⟨rfl, more⟩, fun h => h.1 ▸ rfl⟩
  · rename_i last
    exact ⟨nofun, fun h => absurd (h.1 ▸ h.2) last⟩

lemma lookupRound_eq_inl :
    d.lookupRound curEntry i = some (.inl j) ↔ Passes d curEntry i j := by
  constructor
  · intro h
    simp only [lookupRound, bind_eq_bind, bind_eq_some_iff, kassert_eq_some,
      exists_const] at h
    obtain ⟨inside, n, inode, h⟩ := h
    split at h
    · rename_i zero
      simp only [bind_eq_some_iff, kassert_eq_some, exists_const, pure, some.injEq,
        add32_blocksize inode, goOn_eq_inl] at h
      obtain ⟨aligned, rfl, more⟩ := h
      exact .block inside (zero ▸ inode) aligned more
    · rename_i live
      obtain ⟨same, name, h⟩ := bind_eq_some_iff.mp h
      cases same with
      | true => simp at h
      | false =>
        obtain ⟨r, len, h⟩ := bind_eq_some_iff.mp (by simpa using h)
        simp only [some.injEq, add32_recLen inode len, goOn_eq_inl] at h
        obtain ⟨rfl, more⟩ := h
        exact .record inside inode live name len more
  · rintro (⟨inside, zero, aligned, more⟩ | ⟨inside, inode, live, name, len, more⟩)
    · simp [lookupRound, kassert, inside, zero, aligned, add32_blocksize zero, goOn, more]
    · simp [lookupRound, kassert, inside, inode, live, name, len,
        add32_recLen inode len, goOn, more]

/-- The search comes from a record of length 0 to the same record. -/
def Stuck (d : DirBuf) (curEntry : Name) (i : Nat) : Prop :=
  i < d.len ∧ (∃ n ≠ 0, d.inode i = some n) ∧ d.sameName curEntry i = some false ∧
    d.recLen i = some 0

lemma Passes.stuck (h : Passes d curEntry i j) (same : j = i) : d.Stuck curEntry i := by
  have pos := d.pos
  cases h with
  | block => omega
  | @record n r inside inode live name len =>
    obtain rfl : r = 0 := by omega
    exact ⟨inside, ⟨n, live, inode⟩, name, len⟩

lemma passes_self : Passes d curEntry i i ↔ d.Stuck curEntry i := by
  constructor
  · exact fun h => h.stuck rfl
  · rintro ⟨inside, ⟨n, live, inode⟩, name, len⟩
    exact .record inside inode live name len inside

lemma Passes.le (h : Passes d curEntry i j) : i < d.extent ∧ i ≤ j := by
  cases h with
  | block _ inode => exact ⟨lt_extent inode, Nat.le_add_right _ _⟩
  | record _ inode => exact ⟨lt_extent inode, Nat.le_add_right _ _⟩

lemma lookup_halts_iff : (∃ fuel, (d.lookup fuel curEntry).isSome) ↔
    ∀ i, ReflTransGen (Passes d curEntry) 0 i → ¬ d.Stuck curEntry i := by
  have halts : Halts (attempt (d.lookupRound curEntry)) 0 ↔ _ :=
    halts_iff_of_progress (fun i => d.extent - i) fun i j round => by
      have := (lookupRound_eq_inl.mp (attempt_eq_inl.mp round)).le
      omega
  simp only [ne_eq, attempt_eq_inl, lookupRound_eq_inl, passes_self] at halts
  exact halts

/-! ## The list -/

lemma getdentsRound_lt {dev count : Nat} {s s' : Getdents}
    (h : d.getdentsRound dev count s = some (.inl s')) : s.pos < d.extent ∧ s.pos < s'.pos := by
  have pos := d.pos
  unfold getdentsRound at h
  split at h
  · cases h
  obtain ⟨n, inode, h⟩ := bind_eq_some_iff.mp h
  have inside := lt_extent inode
  split at h
  · obtain ⟨-, -, h⟩ := bind_eq_some_iff.mp h
    simp only [add32_blocksize inode] at h
    split at h
    · cases h
    · obtain rfl : _ = s' := by simpa using h
      exact ⟨inside, Nat.lt_add_of_pos_right pos⟩
  · simp only [bind_eq_bind, bind_eq_some_iff, kassert_eq_some, exists_const] at h
    obtain ⟨nameLen, -, -, r, len, long, -, h⟩ := h
    split at h
    · cases h
    · obtain ⟨dent, -, h⟩ := bind_eq_some_iff.mp h
      obtain rfl : _ = s' := by simpa using h
      rw [add32_recLen inode len]
      exact ⟨inside, Nat.lt_add_of_pos_right (by omega)⟩

lemma getdents_isSome {fuel dev pos : Nat} {count : Int} (enough : d.extent < fuel) :
    (d.ext2Getdents fuel dev count pos).isSome := by
  unfold ext2Getdents
  split_ifs
  · rfl
  · rfl
  · rfl
  · refine loop_of_measure (fun s => d.extent - s.pos) (fun _ => True) ?_ trivial (by simp; omega)
    intro s s' _ round
    have := getdentsRound_lt (attempt_eq_inl.mp round)
    exact ⟨trivial, by omega⟩

end DirBuf

/-! ## All walks -/

/-- The parse of a FAT directory ends for every callback exactly if its chain does. The search in an
ext2 directory ends exactly if it comes to no record of length 0. The list of an ext2 directory
always ends. -/
theorem walks_terminate_iff (part : Fat.Partition) (ino : Nat) (d : DirBuf) (curEntry : Name)
    (dev pos : Nat) (count : Int) :
    ((∀ (σ : Type) (callback : Fat.Callback σ) (s : Fat.Statics) (data : σ),
      ∃ fuel, (Fat.fatParseDir fuel part callback ino s data).isSome) ↔
      (2 ≤ ino ∧ part.readable ino →
        ∃ c, ReflTransGen (Fat.Follows part) ino c ∧ ∀ c', ¬ Fat.Follows part c c')) ∧
    ((∃ fuel, (d.lookup fuel curEntry).isSome) ↔
      ∀ i, ReflTransGen (d.Passes curEntry) 0 i → ¬ d.Stuck curEntry i) ∧
    ∀ fuel, d.extent < fuel → (d.ext2Getdents fuel dev count pos).isSome :=
  ⟨Fat.parseDir_halts_iff part ino, DirBuf.lookup_halts_iff, fun _ => DirBuf.getdents_isSome⟩

/-- A cluster with deleted entries that is followed by itself. -/
def cyclic : Fat.Partition where
  fat _ := 2
  data _ _ := 0xe5
  readable _ := true
  sectorsPerCluster := 1
  pos := Nat.one_pos

/-- A directory with one record, of inode 11 and length 0. -/
def zeroLength : DirBuf where
  mem i := if i < 1024 then some (if i = 0 then 11 else 0) else none
  extent := 1024
  unmapped i le := if_neg (not_lt.mpr le)
  len := 1024
  blocksize := 1024
  pos := by decide
  small := by decide

lemma cyclic_follows {c : Nat} (valid : 2 ≤ c) : Fat.Follows cyclic c 2 := by
  constructor
  · intro e mem
    obtain ⟨i, -, rfl⟩ := mem_map.mp mem
    simp [cyclic]
  · simp [Fat.fatReadNextCluster, Fat.fatNextCluster, not_lt.mpr valid, cyclic]

/-- A parse of the one does not end, nor does a search in the other. -/
theorem walks_for_ever :
    (∀ fuel, Fat.fatParseDir fuel cyclic Fat.visitAll 2 .boot () = none) ∧
    ∀ fuel, zeroLength.lookup fuel [0x61] = none := by
  constructor
  · intro fuel
    by_contra ran
    refine not_halts (fun s => s.1 = 2) ?_ rfl ⟨fuel, isSome_iff_ne_none.mpr ran⟩
    rintro ⟨c, p⟩ rfl
    obtain ⟨p', round⟩ := Fat.parseCluster_visitAll (cyclic_follows le_rfl)
    exact ⟨(2, p'), round, rfl⟩
  · intro fuel
    by_contra ran
    have stuck : zeroLength.Stuck [0x61] 0 := ⟨by decide, ⟨11, by decide, rfl⟩, rfl, rfl⟩
    exact DirBuf.lookup_halts_iff.mp ⟨fuel, isSome_iff_ne_none.mpr ran⟩ 0 .refl stuck

end ExscapeOS.Ext2
