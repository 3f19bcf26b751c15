import ExscapeOS.Kernel.Fat.ReadCorrect

/-!
# What `fat_lseek` returns

`fat_lseek` goes through the chain from the start of the file, so the new cluster does not depend on
the old one. A sum that does not fit in an `off_t` is negative, and is rejected like other negative
offsets. The file must have a cluster, and `fat_fstat` must find its entry: a long name that is left
behind can make it find another file.
-/
namespace ExscapeOS.Fat

open Lib Option

/-- The offset that a call of `lseek` asks for. -/
def Whence.target (size offset : Int) (c : Cursor) : Whence → Option Int
  | .set => some offset
  | .cur => some (c.offset + offset)
  | .end => some (size + offset)
  | .other => none

namespace Chained

variable (file : Chained) (fuel : Nat) (offset : Int) (whence : Whence) (h : Handle)

/-- The result of a seek: the offset if it is one, with its cluster, and otherwise `EINVAL` and the
old cursor. -/
def Sought (c : Cursor) (ret : Int) (c' : Cursor) : Option Int → Prop
  | none => ret = einval ∧ c' = c
  | some new =>
    (0 ≤ new ∧ new < 2 ^ 63 → ret = new ∧ c'.offset = new ∧ file.Holds c'.offset c'.curBlock) ∧
    (¬ (0 ≤ new ∧ new < 2 ^ 63) → ret = einval ∧ c' = c)

/-- What POSIX asks of a call that does not panic. -/
def Seeks : Prop :=
  ∃ ret h', fatLseek fuel file.toOpenFile offset whence h = some (ret, h') ∧
    file.Sought h.cursor ret h'.cursor (whence.target file.size offset h.cursor)

variable {file fuel offset whence h} {st : Stat} {s' : Statics}

lemma seekTo_sought (h : Handle) {new : Int} (ge : -2 ^ 63 ≤ new) (lt : new < 2 ^ 64)
    (size : st.fileSize = file.size)
    (own : 0 < file.size → st.stDev = file.dev ∧ st.stIno = file.ino) :
    ∃ ret h', fatLseek.seekTo file.toOpenFile st h (wrap64 new) = some (ret, h') ∧
      file.Sought h.cursor ret h'.cursor (some new) := by
  by_cases fits : 0 ≤ new ∧ new < 2 ^ 63
  · obtain ⟨cur, eq, holds⟩ := file.seekTo_eq h fits.1 size own
    rw [wrap64_eq ge fits.2]
    exact ⟨_, _, eq, fun _ => ⟨rfl, Int.toNat_of_nonneg fits.1, holds⟩, fun bad => absurd fits bad⟩
  · exact ⟨_, h, if_pos (wrap64_neg ge lt fits), fun good => absurd good fits, fun _ => ⟨rfl, rfl⟩⟩

lemma fatLseek_found (nonempty : file.chain ≠ [])
    (found : file.fatFstat fuel h.statics = some (⟨0, some st⟩, s')) :
    fatLseek fuel file.toOpenFile offset whence h =
      match whence with
      | .set => fatLseek.seekTo file.toOpenFile st { h with statics := s' } offset
      | .cur => fatLseek.seekTo file.toOpenFile st { h with statics := s' }
          (wrap64 (offset + h.cursor.offset))
      | .end => fatLseek.seekTo file.toOpenFile st { h with statics := s' }
          (wrap64 (st.fileSize + offset))
      | .other => some (einval, { h with statics := s' }) := by
  simp only [fatLseek, kassert, if_pos (two_le_ino nonempty), found, bind_eq_bind, bind_some, ne_eq,
    not_true_eq_false, if_false]
  rfl

/-- `fat_fstat` finds the size of the file, and its entry if it is not empty. -/
def Found (file : Chained) (fuel : Nat) (s : Statics) : Prop :=
  ∃ st s', file.fatFstat fuel s = some (⟨0, some st⟩, s') ∧ st.fileSize = file.size ∧
    (0 < file.size → st.stDev = file.dev ∧ st.stIno = file.ino)

lemma fatLseek_failed {r : StatReply} (stat : file.fatFstat fuel h.statics = some (r, s'))
    (failed : r.ret ≠ 0 ∨ r.buf = none) {ret : Int} {h' : Handle}
    (ran : fatLseek fuel file.toOpenFile offset whence h = some (ret, h')) : ret = einval := by
  simp only [fatLseek, stat, bind_eq_bind, bind_some, bind_eq_some_iff] at ran
  obtain ⟨_, -, ran⟩ := ran
  split_ifs at ran with failed'
  · exact (Prod.mk.inj (some.inj ran)).1.symm
  · rw [failed.resolve_left failed'] at ran
    cases ran

lemma exists_stat_of_fatLseek {ret : Int} {h' : Handle}
    (ran : fatLseek fuel file.toOpenFile offset whence h = some (ret, h')) (nonneg : 0 ≤ ret) :
    ∃ st s', file.fatFstat fuel h.statics = some (⟨0, some st⟩, s') := by
  cases stat : file.fatFstat fuel h.statics with
  | none => simp [fatLseek, stat] at ran
  | some x =>
    obtain ⟨⟨code, buf⟩, s'⟩ := x
    have succeeds : ¬ (code ≠ 0 ∨ buf = none) := by
      intro failed
      have := fatLseek_failed stat failed ran
      unfold einval at this
      omega
    obtain ⟨rfl, some_buf⟩ := by simpa using not_or.mp succeeds
    obtain ⟨st, rfl⟩ := Option.ne_none_iff_exists'.mp some_buf
    exact ⟨st, s', rfl⟩

/-- A seek to the end is right only if `fat_fstat` finds the size, and one to the start only if it
finds the entry. -/
lemma found_of_seeks (atEnd : file.Seeks fuel 0 .end h)
    (atStart : file.Seeks fuel 0 .set h) : file.chain ≠ [] ∧ file.Found fuel h.statics := by
  have small := file.size_lt
  obtain ⟨ret, h', ran, sought, -⟩ := atEnd
  obtain ⟨rfl, -⟩ := sought (by omega)
  have nonempty : file.chain ≠ [] := by
    intro empty
    simp [fatLseek, kassert, ino_eq_zero.mpr empty] at ran
  obtain ⟨st, s', stat⟩ := exists_stat_of_fatLseek ran (by omega)
  have size : st.fileSize = file.size := by
    have lt : st.fileSize < 2 ^ 32 := Nat.mod_lt _ (by decide)
    have nonneg : ¬ (st.fileSize + 0 : Int) < 0 := by omega
    have past : ¬ (st.fileSize + 0 : Int) < st.fileSize := by omega
    rw [fatLseek_found nonempty stat] at ran
    simp only [wrap64_eq (x := st.fileSize + 0) (by omega) (by omega), fatLseek.seekTo,
      if_neg nonneg, if_neg past] at ran
    have := (Prod.mk.inj (some.inj ran)).1
    omega
  refine ⟨nonempty, st, s', stat, size, fun pos => ?_⟩
  obtain ⟨ret, h', ran, -⟩ := atStart
  rw [fatLseek_found nonempty stat] at ran
  simp only [fatLseek.seekTo, size, lt_irrefl, if_false, Nat.cast_pos, if_pos pos, kassert,
    bind_eq_bind, bind_eq_some_iff] at ran
  obtain ⟨_, dev, _, ino, -⟩ := ran
  exact ⟨by simpa using dev, by simpa using ino⟩

/-- All calls do what POSIX asks if, and only if, the file has a cluster and `fat_fstat` finds it.
-/
theorem seeks_iff (position : h.cursor.offset < 2 ^ 63) :
    (∀ offset whence, -2 ^ 63 ≤ offset → offset < 2 ^ 63 → file.Seeks fuel offset whence h) ↔
      file.chain ≠ [] ∧ file.Found fuel h.statics := by
  have small := file.size_lt
  constructor
  · intro seeks
    exact found_of_seeks (seeks 0 .end (by decide) (by decide))
      (seeks 0 .set (by decide) (by decide))
  · rintro ⟨nonempty, st, s', found, size, own⟩ offset whence ge lt
    rw [Seeks, fatLseek_found nonempty found]
    cases whence with
    | set =>
      have own := seekTo_sought { h with statics := s' } ge (show offset < 2 ^ 64 by omega) size own
      rwa [wrap64_eq ge lt] at own
    | cur =>
      rw [Int.add_comm]
      exact seekTo_sought { h with statics := s' } (by omega) (by omega) size own
    | «end» =>
      rw [size]
      exact seekTo_sought { h with statics := s' } (by omega) (by omega) size own
    | other => exact ⟨_, _, rfl, rfl, rfl⟩

/-- 512 bytes back from the end of a file of three clusters. -/
theorem seeks_third : threeClusters.Seeks 1025 (-512) .end (threeClusters.opened .boot) := by
  obtain ⟨st, s', found, size, dev, ino, -⟩ := known_boot
  have known : threeClusters.Found 1025 (threeClusters.opened .boot).statics :=
    ⟨st, s', found, by rw [Stat.fileSize, size]; decide, fun _ => ⟨dev, ino⟩⟩
  exact (seeks_iff (by decide)).mpr ⟨by decide, known⟩ (-512) .end (by decide) (by decide)

end Chained

/-- A file without contents, and so without a cluster. -/
def noClusters : Chained where
  part := shortOnly
  root := 2
  dev := 0
  ino := 0
  path := [0x2f, 0x41]
  mountpoints := [⟨.fat, [0x2f], 0⟩]
  size := 0
  size_lt := by decide
  chain := []
  first := rfl
  valid := by simp
  linked := by simp
  ended := by simp
  enough := by decide

/-- A seek to the start of the file fails an assertion, whatever the fuel is. -/
theorem fatLseek_noClusters :
    (fatLseek · noClusters.toOpenFile 0 .set (noClusters.opened .boot)) = fun _ => none :=
  rfl

end ExscapeOS.Fat
