import ExscapeOS.Kernel.Pmm.Bitmap
import ExscapeOS.Lib.Loop
import ExscapeOS.Lib.Restart

/-!
# Continuous frames

`pmm_alloc_continuous` takes the first free frame, and restarts after a frame in use without a look
at the frame where it restarts. If that is in use and enough free frames follow, the search ends
there, and `_pmm_set_frame` stops the kernel. What the function does return is a run of free frames,
because `_pmm_set_frame` checks them all.
-/
namespace ExscapeOS.Bitmap

open Lib Function List Option

open Vmm (pageSize isPageAligned)

variable {m m' : Bitmap} {addr f i n s start : Nat}

/-! ## One attempt -/

/-- One round of the `while` loop of `pmm_alloc_continuous`. -/
def searchRound (numFrames : Nat) (m : Bitmap) (start : Nat) : Option (Nat ⊕ Nat) := do
  kassert (add32 start ((numFrames - 1) * pageSize) ≤ m.memEndPage)
  match ← m.firstUsed start (List.range' 1 (numFrames - 1)) with
  | none => return .inr start
  | some i => return .inl (add32 start ((i + 1) * pageSize))

lemma searchContinuous_eq (fuel : Nat) : m.searchContinuous n fuel start =
    (loop (attempt (m.searchRound n)) fuel start).join := by
  induction fuel generalizing start with
  | zero => rfl
  | succ fuel ih =>
    unfold searchContinuous loop attempt searchRound
    cases kassert (add32 start ((n - 1) * pageSize) ≤ m.memEndPage) with
    | none => rfl
    | some _ =>
      cases m.firstUsed start (List.range' 1 (n - 1)) with
      | none => rfl
      | some found =>
        cases found with
        | none => rfl
        | some i => exact ih

lemma add32_frame (start i : Nat) :
    add32 start (i * pageSize) / pageSize = (start / pageSize + i) % 2 ^ 20 := by
  unfold add32 wordSize pageSize
  omega

lemma add32_low (low : s + i < 2 ^ 20) : add32 (s * pageSize) (i * pageSize) =
    (s + i) * pageSize := by
  unfold add32 wordSize pageSize
  omega

lemma nframes_lt (m : Bitmap) : m.nframes < 2 ^ 20 := by
  have small := m.small
  unfold nframes pageSize wordSize at *
  omega

lemma testFrame_eq_some {taken : Bool} : m.testFrame addr = some taken ↔
    addr / pageSize / 32 ≤ m.nframes / 32 ∧ m.used (addr / pageSize) = taken := by
  have bit : (m.usedFrames (addr / pageSize / 32) &&& mask (addr / pageSize) != 0) =
      m.used (addr / pageSize) := by
    rw [Bool.eq_iff_iff, bne_iff_ne, ne_eq, and_mask_eq_zero, Bool.not_eq_false, used]
  simp only [testFrame, bit, bind, bind_eq_some_iff, kassert_eq_some, exists_const, pure,
    some.injEq]

lemma firstUsed_eq_some {a k : Nat} {found : Option Nat}
    (ran : m.firstUsed start (List.range' a k) = some found) :
    (∀ i, a ≤ i → i < found.getD (a + k) → m.testFrame (add32 start (i * pageSize)) = some false) ∧
    ∀ i, found = some i → a ≤ i ∧ i < a + k ∧ m.testFrame (add32 start (i * pageSize)) =
      some true := by
  induction k generalizing a with
  | zero =>
    cases ran
    exact ⟨fun i ge lt => absurd lt ge.not_gt, nofun⟩
  | succ k ih =>
    obtain ⟨taken, test, rest⟩ := bind_eq_some_iff.mp ran
    split_ifs at rest with inUse
    · subst inUse
      cases rest
      refine ⟨fun i ge lt => absurd lt ge.not_gt, fun i eq => ?_⟩
      cases eq
      exact ⟨le_rfl, by omega, test⟩
    · rw [Bool.not_eq_true] at inUse
      subst inUse
      obtain ⟨free, last⟩ := ih rest
      rw [Nat.add_right_comm, Nat.add_assoc] at free last
      refine ⟨fun i ge lt => ?_, fun i eq => ?_⟩
      · rcases ge.eq_or_lt with rfl | above
        · exact test
        · exact free i above lt
      · obtain ⟨ge, lt, test⟩ := last i eq
        exact ⟨by omega, lt, test⟩

lemma firstUsed_isSome {is : List Nat}
    (bound : ∀ i ∈ is, add32 start (i * pageSize) / pageSize / 32 ≤ m.nframes / 32) :
    (m.firstUsed start is).isSome := by
  induction is with
  | nil => rfl
  | cons i is ih =>
    obtain ⟨head, rest⟩ := forall_mem_cons.mp bound
    have test := testFrame_eq_some.mpr ⟨head, rfl⟩
    simp only [firstUsed, test, bind, bind_some, pure]
    split_ifs
    · rfl
    · exact ih rest

lemma searchRound_low (two : 2 ≤ n) (low : s + n ≤ m.nframes) :
    (∃ u, Obstructs m.used n s u ∧
      m.searchRound n (s * pageSize) = some (.inl ((u + 1) * pageSize))) ∨
    Vacant m.used (n - 1) (s + 1) ∧ m.searchRound n (s * pageSize) =
      some (.inr (s * pageSize)) := by
  have bounded := m.nframes_lt
  have frame (i : Nat) (lt : i < n) : add32 (s * pageSize) (i * pageSize) / pageSize = s + i := by
    rw [add32_low (by omega), Nat.mul_div_cancel _ (by decide)]
  have inside : add32 (s * pageSize) ((n - 1) * pageSize) ≤ m.memEndPage := by
    rw [add32_low (by omega)]
    unfold nframes pageSize at *
    omega
  have ends : (m.firstUsed (s * pageSize) (List.range' 1 (n - 1))).isSome := by
    refine firstUsed_isSome fun i mem => ?_
    rw [mem_range'_1] at mem
    rw [frame i (by omega)]
    omega
  obtain ⟨found, ran⟩ := isSome_iff_exists.mp ends
  obtain ⟨free, last⟩ := firstUsed_eq_some ran
  cases found with
  | none =>
    refine .inr ⟨fun i lt => ?_, ?_⟩
    · have test := (testFrame_eq_some.mp (free (i + 1) (by omega) (by simp; omega))).2
      rwa [frame _ (by omega), ← Nat.add_assoc, Nat.add_right_comm] at test
    · simp [searchRound, kassert, inside, ran]
  | some i =>
    obtain ⟨ge, lt, test⟩ := last i rfl
    refine .inl ⟨s + i, ⟨by omega, by omega, ?_, fun v above below => ?_⟩, ?_⟩
    · have used := (testFrame_eq_some.mp test).2
      rwa [frame i (by omega)] at used
    · have test := (testFrame_eq_some.mp (free (v - s) (by omega) (by simp; omega))).2
      rwa [frame _ (by omega), Nat.add_sub_cancel' (by omega)] at test
    · simp [searchRound, kassert, inside, ran, add32_low (show s + (i + 1) < 2 ^ 20 by omega),
        Nat.add_assoc]

/-! ## Reserving the frames -/

lemma setFrame_eq_some (ran : m.setFrame addr = some m') :
    addr / pageSize / 32 ≤ m.nframes / 32 ∧ m.used (addr / pageSize) = false ∧
    m'.memEndPage = m.memEndPage ∧ m'.used = update m.used (addr / pageSize) true := by
  simp only [setFrame, bind, bind_eq_some_iff, kassert_eq_some, exists_const, pure,
    some.injEq] at ran
  obtain ⟨bound, clear, rfl⟩ := ran
  exact ⟨bound, (and_mask_eq_zero _ _).mp clear, rfl, used_of_or rfl⟩

lemma setFrames_eq_some {addrs : List Nat} (ran : setFrames addrs m = some m') :
    (∀ a ∈ addrs, a / pageSize / 32 ≤ m.nframes / 32 ∧ m.used (a / pageSize) = false) ∧
    ∀ f, m'.used f = true ↔ m.used f = true ∨ ∃ a ∈ addrs, a / pageSize = f := by
  induction addrs generalizing m with
  | nil =>
    cases ran
    simp
  | cons addr rest ih =>
    obtain ⟨m₁, set, more⟩ := bind_eq_some_iff.mp ran
    obtain ⟨bound, free, memEnd, used⟩ := setFrame_eq_some set
    obtain ⟨before, after⟩ := ih more
    have nframes : m₁.nframes = m.nframes := congrArg (· / pageSize) memEnd
    refine ⟨forall_mem_cons.mpr ⟨⟨bound, free⟩, fun a mem => ?_⟩, fun f => ?_⟩
    · obtain ⟨bound', free'⟩ := before a mem
      rw [used, update_apply] at free'
      split_ifs at free'
      exact ⟨nframes ▸ bound', free'⟩
    · rw [after, used, update_apply, exists_mem_cons_iff]
      split_ifs with own
      · simp [own]
      · simp [Ne.symm own]

lemma setFrames_isSome {addrs : List Nat} (nodup : (addrs.map (· / pageSize)).Nodup)
    (free : ∀ a ∈ addrs, a / pageSize / 32 ≤ m.nframes / 32 ∧ m.used (a / pageSize) = false) :
    (setFrames addrs m).isSome := by
  induction addrs generalizing m with
  | nil => rfl
  | cons addr rest ih =>
    obtain ⟨head, others⟩ := forall_mem_cons.mp free
    obtain ⟨fresh, nodup⟩ := nodup_cons.mp nodup
    obtain ⟨words, set, used⟩ := setFrame_of_free head.1 head.2
    simp only [setFrames, set, bind, bind_some]
    refine ih nodup fun a mem => ⟨(others a mem).1, ?_⟩
    rw [used, update_of_ne, (others a mem).2]
    rintro same
    exact fresh (mem_map.mpr ⟨a, mem, same⟩)

/-! ## The whole search -/

lemma searchRound_eq_inl (ran : m.searchRound n start = some (.inl addr)) : ∃ i,
    m.firstUsed start (List.range' 1 (n - 1)) = some (some i) ∧
    addr = add32 start ((i + 1) * pageSize) := by
  simp only [searchRound, bind, bind_eq_some_iff, kassert_eq_some, exists_const] at ran
  obtain ⟨-, found, scanned, ran⟩ := ran
  cases found with
  | none => cases ran
  | some i => exact ⟨i, scanned, (Sum.inl.inj (some.inj ran)).symm⟩

lemma searchRound_eq_inr (ran : m.searchRound n start = some (.inr addr)) :
    addr = start ∧ add32 start ((n - 1) * pageSize) ≤ m.memEndPage := by
  simp only [searchRound, bind, bind_eq_some_iff, kassert_eq_some, exists_const] at ran
  obtain ⟨inside, found, scanned, ran⟩ := ran
  cases found with
  | none => exact ⟨(Sum.inr.inj (some.inj ran)).symm, inside⟩
  | some i => cases ran

def runFrom (start n : Nat) : List Nat := (List.range n).map fun i => add32 start (i * pageSize)

lemma returns_iff {fuel : Nat} (two : 2 ≤ n) :
    m.pmmAllocContinuous n fuel = some (start, m') ↔
      loop (attempt (m.searchRound n)) fuel (m.firstFreeFrame 0) = some (some start) ∧
      setFrames (runFrom start n) m = some m' := by
  rw [pmmAllocContinuous, if_neg (by omega), searchContinuous_eq]
  simp only [bind, bind_eq_some_iff, pure, some.injEq, Prod.mk.injEq,
    join_eq_some_iff, runFrom]
  constructor
  · rintro ⟨_, found, _, set, rfl, rfl⟩
    exact ⟨found, set⟩
  · rintro ⟨found, set⟩
    exact ⟨_, found, _, set, rfl, rfl⟩

lemma search_mod {fuel s₀ : Nat} (small : s₀ < wordSize)
    (ran : loop (attempt (m.searchRound n)) fuel s₀ = some (some start)) :
    start % pageSize = s₀ % pageSize ∧ start < wordSize ∧
      add32 start ((n - 1) * pageSize) ≤ m.memEndPage := by
  have keeps (t t' : Nat) (same : t % pageSize = s₀ % pageSize ∧ t < wordSize)
      (round : attempt (m.searchRound n) t = .inl t') :
      t' % pageSize = s₀ % pageSize ∧ t' < wordSize := by
    obtain ⟨i, -, rfl⟩ := searchRound_eq_inl (attempt_eq_inl.mp round)
    refine ⟨?_, add32_lt _ _⟩
    rw [← same.1]
    unfold add32 wordSize pageSize
    omega
  obtain ⟨t, ⟨same, bound⟩, done⟩ := loop_invariant _ keeps ⟨rfl, small⟩ ran
  obtain ⟨rfl, inside⟩ := searchRound_eq_inr (attempt_eq_inr.mp done)
  exact ⟨same, bound, inside⟩

lemma firstFreeFrame_zero : (∃ s, m.firstFreeFrame 0 = s * pageSize ∧ m.used s = false ∧
      s / 32 < m.nframes / 32 ∧ ∀ g < s, m.used g = true) ∨
    m.firstFreeFrame 0 = noFrame ∧ ∀ g, g / 32 < m.nframes / 32 → m.used g = true := by
  rw [firstFreeFrame_eq]
  cases found : Pmm.firstFreeFrame m.nframes m.used (0 / pageSize) with
  | none => exact .inr ⟨rfl, fun g high => Pmm.firstFreeFrame_eq_none found (by simp) high⟩
  | some s =>
    obtain ⟨low, free, first⟩ := Pmm.firstFreeFrame_eq_some found
    exact .inl ⟨s, rfl, free, low, fun g below => first g below (by simp)⟩

/-! ## Correctness -/

/-- The frames from `start` on, in 32-bit addresses, were free, and they are marked. If the bits
past the last frame are set, they are below `mem_end_page`. -/
structure Allocated (n start : Nat) (m m' : Bitmap) : Prop where
  aligned : isPageAligned start
  free : ∀ i < n, m.used (add32 start (i * pageSize) / pageSize) = false
  marked : ∀ f, m'.used f = true ↔
    m.used f = true ∨ ∃ i < n, add32 start (i * pageSize) / pageSize = f
  below : (∀ f, m.nframes ≤ f → f < 2 ^ 20 → m.used f = true) →
    start + n * pageSize ≤ m.memEndPage

/-- There is a run of `n` free frames below `mem_end_page`, and none before `r`. -/
structure FirstRun (n : Nat) (m : Bitmap) (r : Nat) : Prop where
  below : r + n ≤ m.nframes
  vacant : Vacant m.used n r
  first : ∀ r' < r, ¬ Vacant m.used n r'

/-- `pmm_alloc_continuous` returns a run, and it returns if there is one. -/
structure AllocatesRuns (n : Nat) (m : Bitmap) : Prop where
  sound : ∀ fuel start m', m.pmmAllocContinuous n fuel = some (start, m') → Allocated n start m m'
  complete : ∀ r, r + n ≤ m.nframes → Vacant m.used n r →
    ∃ fuel, (m.pmmAllocContinuous n fuel).isSome

lemma mem_runFrom : addr ∈ runFrom start n ↔ ∃ i < n, add32 start (i * pageSize) = addr := by
  simp [runFrom]

lemma runFrom_free (set : setFrames (runFrom start n) m = some m') (lt : i < n) :
    (start / pageSize + i) % 2 ^ 20 / 32 ≤ m.nframes / 32 ∧
      m.used ((start / pageSize + i) % 2 ^ 20) = false := by
  rw [← add32_frame]
  exact (setFrames_eq_some set).1 _ (mem_runFrom.mpr ⟨i, lt, rfl⟩)

lemma Allocated.of_setFrames (set : setFrames (runFrom start n) m = some m')
    (aligned : isPageAligned start) (small : start < wordSize) (pos : 0 < n) :
    Allocated n start m m' := by
  refine ⟨aligned, fun i lt => ?_, fun f => ?_, fun padded => ?_⟩
  · rw [add32_frame]
    exact (runFrom_free set lt).2
  · rw [(setFrames_eq_some set).2]
    simp only [mem_runFrom]
    grind
  · -- otherwise the run has a frame past the end
    have whole : m.nframes * pageSize ≤ m.memEndPage := Nat.div_mul_le_self _ _
    have frames := m.nframes_lt
    unfold isPageAligned pageSize at *
    unfold wordSize at small
    by_contra beyond
    obtain ⟨i, lt, past, inside⟩ : ∃ i < n, m.nframes ≤ start / 0x1000 + i ∧
        start / 0x1000 + i < 2 ^ 20 := by
      by_cases start_past : m.nframes ≤ start / 0x1000
      · exact ⟨0, pos, by omega, by omega⟩
      · exact ⟨m.nframes - start / 0x1000, by omega, by omega, by omega⟩
    have free := (runFrom_free set lt).2
    unfold pageSize at free
    rw [Nat.mod_eq_of_lt inside, padded _ past inside] at free
    cases free

/-- Where no frame is found to start with, a result means that there is a run, but is not the
address of a frame. -/
lemma noFrame_start {fuel : Nat} (two : 2 ≤ n) (aligned : isPageAligned m.memEndPage)
    (none : m.firstFreeFrame 0 = noFrame) (full : ∀ g, g / 32 < m.nframes / 32 → m.used g = true)
    (ran : m.pmmAllocContinuous n fuel = some (start, m')) :
    ¬ isPageAligned start ∧ ∃ r, r + n ≤ m.nframes ∧ Vacant m.used n r := by
  obtain ⟨found, set⟩ := (returns_iff two).mp ran
  obtain ⟨place, small, inside⟩ := search_mod (none ▸ by decide) found
  rw [none] at place
  have last : start % pageSize = 0xfff := place
  have frames (i : Nat) (lt : i < n) := runFrom_free set lt
  -- a run over the end of the address space contains frame 0
  have ends : start / pageSize + n ≤ 2 ^ 20 := by
    by_contra wraps
    have high := (frames (2 ^ 20 - 1 - start / pageSize) (by omega)).1
    have zero := (frames (2 ^ 20 - start / pageSize) (by unfold pageSize wordSize at *; omega)).2
    rw [Nat.add_sub_cancel' (by unfold pageSize wordSize at *; omega), Nat.mod_self,
      full 0 (by unfold pageSize wordSize at *; omega)] at zero
    cases zero
  refine ⟨by rw [isPageAligned, last]; decide, start / pageSize, ?_, fun i lt => ?_⟩
  · unfold isPageAligned nframes add32 wordSize pageSize at *
    omega
  · rw [← (frames i lt).2, Nat.mod_eq_of_lt (by omega)]

/-- The addresses from which the search comes to the first run. -/
def Approaches (m : Bitmap) (r t : Nat) : Prop :=
  ∃ s, t = s * pageSize ∧ s ≤ r ∧ (m.used s = false ∨ AfterOdd m.used s)

lemma frame_div (s : Nat) : s * pageSize / pageSize = s := Nat.mul_div_cancel s (by decide)

lemma Approaches.round {r t t' : Nat} (two : 2 ≤ n) (first : FirstRun n m r)
    (h : Approaches m r t) (again : attempt (m.searchRound n) t = .inl t') :
    Approaches m r t' ∧ r - t' / pageSize < r - t / pageSize := by
  obtain ⟨s, rfl, le, origin⟩ := h
  have low : s + n ≤ m.nframes := (Nat.add_le_add_right le n).trans first.below
  rw [attempt_eq_inl] at again
  obtain ⟨u, obstructs, next⟩ | ⟨-, done⟩ := searchRound_low two low
  · obtain rfl := Sum.inl.inj (some.inj (next.symm.trans again))
    have lt := obstructs.lt_of_vacant first.vacant le
    have after := obstructs.after
    refine ⟨⟨u + 1, rfl, lt, .inr (obstructs.afterOdd origin)⟩, ?_⟩
    rw [frame_div, frame_div]
    omega
  · cases done.symm.trans again

lemma setFrames_run (low : s + n ≤ m.nframes) (vacant : Vacant m.used n s) :
    (setFrames (runFrom (s * pageSize) n) m).isSome := by
  have bounded := m.nframes_lt
  have frame (i : Nat) (lt : i < n) : add32 (s * pageSize) (i * pageSize) / pageSize = s + i := by
    rw [add32_low (by omega), frame_div]
  refine setFrames_isSome ?_ fun a mem => ?_
  · rw [runFrom, List.map_map]
    refine List.Nodup.map_on (fun i hi j hj same => ?_) nodup_range
    simp only [comp_apply, frame i (mem_range.mp hi), frame j (mem_range.mp hj)] at same
    omega
  · obtain ⟨i, lt, rfl⟩ := mem_runFrom.mp mem
    rw [frame i lt]
    exact ⟨by omega, vacant i lt⟩

lemma vacant_of_next (free : m.used s = false) (rest : Vacant m.used (n - 1) (s + 1)) :
    Vacant m.used n s := by
  intro i lt
  cases i with
  | zero => exact free
  | succ i =>
    rw [← Nat.add_assoc, Nat.add_right_comm]
    exact rest i (by omega)

/-- A block in use of an even length, with room for all but one frame of a run after it. -/
def InTheWay (n : Nat) (m : Bitmap) (a b : Nat) : Prop :=
  Block m.used a b ∧ Even (b - a) ∧ Vacant m.used (n - 1) b

/-- Every run is found unless a block is in the way. -/
lemma FirstRun.found {r s₀ : Nat} (two : 2 ≤ n) (first : FirstRun n m r)
    (start : m.firstFreeFrame 0 = s₀ * pageSize) (free : m.used s₀ = false)
    (minimal : ∀ g < s₀, m.used g = true) (way : ∀ a b, InTheWay n m a b → r < b) :
    ∃ fuel, (m.pmmAllocContinuous n fuel).isSome := by
  have freeRun : m.used r = false := first.vacant 0 (by omega)
  have le : s₀ ≤ r := by
    by_contra later
    cases (minimal r (by omega)).symm.trans freeRun
  have init : Approaches m r (m.firstFreeFrame 0) := ⟨s₀, start, le, .inl free⟩
  obtain ⟨result, ran⟩ := isSome_iff_exists.mp
    (loop_of_measure (fun t => r - t / pageSize) (Approaches m r)
      (fun _ _ => Approaches.round two first) init (Nat.lt_succ_self _))
  obtain ⟨t, ⟨s, rfl, le, origin⟩, done⟩ :=
    loop_invariant _ (fun _ _ h again => (Approaches.round two first h again).1) init ran
  have low : s + n ≤ m.nframes := (Nat.add_le_add_right le n).trans first.below
  obtain ⟨u, -, next⟩ | ⟨rest, found⟩ := searchRound_low two low
  · cases (attempt_eq_inl.mpr next).symm.trans done
  · -- the search stands on a free frame, or a block is in the way
    have standing : m.used s = false := by
      by_contra taken
      rw [Bool.not_eq_false] at taken
      obtain ⟨a, block, even⟩ := (origin.resolve_left (by simp [taken])).even taken
      have beyond := way a (s + 1) ⟨block, even, rest⟩
      obtain rfl : s = r := by omega
      cases taken.symm.trans freeRun
    obtain ⟨m', set⟩ := isSome_iff_exists.mp
      (setFrames_run low (vacant_of_next standing rest))
    have eq := Sum.inr.inj ((attempt_eq_inr.mpr found).symm.trans done)
    exact ⟨_, isSome_iff_exists.mpr
      ⟨_, (returns_iff two).mpr ⟨ran.trans (congrArg some eq.symm), set⟩⟩⟩

lemma FirstRun.not_found {r s₀ a b : Nat} {fuel : Nat} (two : 2 ≤ n) (first : FirstRun n m r)
    (start : m.firstFreeFrame 0 = s₀ * pageSize) (minimal : ∀ g < s₀, m.used g = true)
    (way : InTheWay n m a b) (le : b ≤ r) : m.pmmAllocContinuous n fuel = none := by
  obtain ⟨block, even, room⟩ := way
  have low {s : Nat} (trapped : Trapped a b s) : s < b := by
    have nonempty := block.nonempty
    rcases trapped with before | ⟨-, inside, -⟩ <;> omega
  have keeps (t t' : Nat) (h : ∃ s, t = s * pageSize ∧ Trapped a b s)
      (again : attempt (m.searchRound n) t = .inl t') : ∃ s, t' = s * pageSize ∧ Trapped a b s := by
    obtain ⟨s, rfl, trapped⟩ := h
    have below := low trapped
    have inside := first.below
    rw [attempt_eq_inl] at again
    obtain ⟨u, obstructs, next⟩ | ⟨-, done⟩ := searchRound_low (m := m) (s := s) two (by omega)
    · obtain rfl := Sum.inl.inj (some.inj (next.symm.trans again))
      exact ⟨u + 1, rfl, obstructs.trapped block even room trapped⟩
    · cases done.symm.trans again
  have init : ∃ s, m.firstFreeFrame 0 = s * pageSize ∧ Trapped a b s := by
    refine ⟨s₀, start, .inl ?_⟩
    by_contra later
    have pos := block.pos
    cases (minimal (a - 1) (by omega)).symm.trans block.before
  by_contra returns
  obtain ⟨⟨result, m'⟩, ran⟩ := ne_none_iff_exists'.mp returns
  obtain ⟨found, set⟩ := (returns_iff two).mp ran
  obtain ⟨t, ⟨s, rfl, trapped⟩, done⟩ := loop_invariant _ keeps init found
  have below := low trapped
  have inside := first.below
  have bounded := m.nframes_lt
  obtain ⟨rfl, -⟩ := searchRound_eq_inr (attempt_eq_inr.mp done)
  obtain ⟨u, -, next⟩ | ⟨rest, -⟩ := searchRound_low (m := m) (s := s) two (by omega)
  · cases (attempt_eq_inl.mpr next).symm.trans done
  · have standing := (runFrom_free set (i := 0) (by omega)).2
    rw [frame_div, Nat.add_zero, Nat.mod_eq_of_lt (by omega)] at standing
    exact first.first s (by omega) (vacant_of_next standing rest)

/-- The frame after a starting point. -/
def nextFrame (t : Nat) : Nat := (t / pageSize + 1) % 2 ^ 20

/-- The search only goes up, if the last frame of the address space is missing. -/
lemma nextFrame_round {t t' : Nat} (short : m.nframes / 32 < 2 ^ 15 - 1)
    (again : attempt (m.searchRound n) t = .inl t') :
    nextFrame t < nextFrame t' ∧ nextFrame t' ≤ m.nframes + 33 := by
  obtain ⟨i, scanned, rfl⟩ := searchRound_eq_inl (attempt_eq_inl.mp again)
  obtain ⟨before, last⟩ := firstUsed_eq_some scanned
  obtain ⟨pos, -, test⟩ := last i rfl
  have bound (j : Nat) (ge : 1 ≤ j) (le : j ≤ i) :
      (t / pageSize + j) % 2 ^ 20 / 32 ≤ m.nframes / 32 := by
    rw [← add32_frame]
    rcases le.eq_or_lt with rfl | lt
    · exact (testFrame_eq_some.mp test).1
    · exact (testFrame_eq_some.mp (before j ge lt)).1
  rw [nextFrame, nextFrame, add32_frame]
  -- the frames in between are in the bitmap, so the last frame is not among them
  have near : i < 2 ^ 20 - (t / pageSize + 1) % 2 ^ 20 := by
    by_contra long
    have high := bound (2 ^ 20 - (t / pageSize + 1) % 2 ^ 20) (by omega) (by omega)
    omega
  have high := bound i pos le_rfl
  omega

lemma search_halts (short : m.nframes / 32 < 2 ^ 15 - 1) :
    Halts (attempt (m.searchRound n)) start := by
  have round (t t' : Nat) (_ : True) (again : attempt (m.searchRound n) t = .inl t') :
      True ∧ m.nframes + 34 - nextFrame t' < m.nframes + 34 - nextFrame t := by
    obtain ⟨less, le⟩ := nextFrame_round short again
    exact ⟨trivial, by omega⟩
  exact ⟨_, loop_of_measure (fun t => m.nframes + 34 - nextFrame t) _ round trivial
    (Nat.lt_succ_self _)⟩

lemma exists_firstRun {r : Nat} (below : r + n ≤ m.nframes) (vacant : Vacant m.used n r) :
    ∃ r, FirstRun n m r := by
  classical
  have runs : ∃ r, Vacant m.used n r := ⟨r, vacant⟩
  have least := Nat.find_min' runs vacant
  exact ⟨Nat.find runs, by omega, Nat.find_spec runs, fun r' less => Nat.find_min runs less⟩

lemma firstFreeFrame_small : m.firstFreeFrame 0 < wordSize := by
  rcases firstFreeFrame_zero with ⟨s, eq, -, low, -⟩ | ⟨eq, -⟩
  · rw [eq]
    exact (m.frame_small low).trans (by decide)
  · rw [eq]
    decide

/-- `pmm_alloc_continuous` does what it should exactly if the first run, where there is one, has no
block of an even length before it that looks like the start of a run, and some free frame is in a
full word of the bitmap. It always ends if the bitmap stops before the end of the address space. -/
theorem allocatesRuns_iff (two : 2 ≤ n) (aligned : isPageAligned m.memEndPage) :
    (AllocatesRuns n m ↔ ∀ r, FirstRun n m r →
      (∃ f, f / 32 < m.nframes / 32 ∧ m.used f = false) ∧ ∀ a b, InTheWay n m a b → r < b) ∧
    (m.nframes / 32 < 2 ^ 15 - 1 → Halts (attempt (m.searchRound n)) (m.firstFreeFrame 0)) := by
  refine ⟨⟨fun ok r first => ?_, fun ok => ⟨fun fuel start m' ran => ?_, fun r below vacant => ?_⟩⟩,
    search_halts⟩
  · obtain ⟨fuel, returns⟩ := ok.complete r first.below first.vacant
    obtain ⟨⟨start, m'⟩, ran⟩ := isSome_iff_exists.mp returns
    rcases firstFreeFrame_zero with ⟨s, eq, free, low, minimal⟩ | ⟨eq, full⟩
    · refine ⟨⟨s, low, free⟩, fun a b way => ?_⟩
      by_contra le
      rw [first.not_found two eq minimal way (by omega)] at ran
      cases ran
    · exact absurd (ok.sound fuel start m' ran).aligned (noFrame_start two aligned eq full ran).1
  · obtain ⟨found, set⟩ := (returns_iff two).mp ran
    rcases firstFreeFrame_zero with ⟨s, eq, free, low, minimal⟩ | ⟨eq, full⟩
    · obtain ⟨place, small, -⟩ := search_mod firstFreeFrame_small found
      rw [eq, Nat.mul_mod_left] at place
      exact .of_setFrames set place small (by omega)
    · obtain ⟨r, below, vacant⟩ := (noFrame_start two aligned eq full ran).2
      obtain ⟨r, first⟩ := exists_firstRun below vacant
      obtain ⟨f, low, free⟩ := (ok r first).1
      cases (full f low).symm.trans free
  · obtain ⟨r, first⟩ := exists_firstRun below vacant
    obtain ⟨⟨f, low, free⟩, way⟩ := ok r first
    rcases firstFreeFrame_zero with ⟨s, eq, free, -, minimal⟩ | ⟨eq, full⟩
    · exact first.found two eq free minimal way
    · cases (full f low).symm.trans free

lemma emptyBitmap_used {f : Nat} (h : emptyBitmap.used f = true) : f = 0 := by
  unfold used emptyBitmap at h
  dsimp only at h
  split_ifs at h with first
  · have bit : f % 32 = 0 := by
      by_contra other
      simp [BitVec.getLsbD_one, other] at h
    omega
  · simp at h

theorem allocatesRuns_empty : isPageAligned emptyBitmap.memEndPage ∧
    AllocatesRuns 3 emptyBitmap := by
  refine ⟨by decide, (allocatesRuns_iff (by decide) (by decide)).1.mpr fun r _ => ?_⟩
  refine ⟨⟨1, by decide, by decide⟩, fun a b way => ?_⟩
  have zero := emptyBitmap_used (way.1.inUse a le_rfl way.1.nonempty)
  exact absurd way.1.pos (by omega)

/-- 64 frames, of which the first, the third and the fourth are in use. -/
def gapBitmap : Bitmap where
  memEndPage := 0x40000
  small := emptyBitmap.small
  usedFrames i := if i = 0 then 13#32 else 0#32
  lastAllocatedFrame := noFrame

/-- The search for two frames restarts at frame 3, which is in use, and takes it together with frame
4, where 60 free frames begin. -/
theorem run_missed : 4 + 60 ≤ gapBitmap.nframes ∧ Vacant gapBitmap.used 60 4 ∧
    gapBitmap.searchContinuous 2 2 (gapBitmap.firstFreeFrame 0) = some 0x3000 ∧
    gapBitmap.used 3 = true ∧ ∀ fuel, gapBitmap.pmmAllocContinuous 2 fuel = none := by
  have first : FirstRun 2 gapBitmap 4 := by
    refine ⟨by decide, by unfold Vacant; decide, fun r below vacant => ?_⟩
    have taken := vacant 0 (by decide)
    have next := vacant 1 (by decide)
    interval_cases r <;> revert taken next <;> decide
  have way : InTheWay 2 gapBitmap 2 4 := by
    refine ⟨⟨by decide, by decide, by decide, fun v ge lt => ?_⟩, by decide,
      by unfold Vacant; decide⟩
    interval_cases v <;> decide
  refine ⟨by decide, by unfold Vacant; decide +kernel, by decide +kernel, by decide, fun fuel => ?_⟩
  have start : gapBitmap.firstFreeFrame 0 = 1 * pageSize := by decide +kernel
  exact first.not_found (by decide) start (by decide) way le_rfl

end ExscapeOS.Bitmap
