import ExscapeOS.Kernel.Pmm.Continuous

/-!
# The memory map

`pmm_init` marks all frames as used and then clears those of the available regions. The start of a
region is rounded up to a page, and the length is added to the rounded start. So the end of a region
may be too high by up to a page, and a frame that is only partly in the region may be cleared. A
region that starts in the first page loses its end instead.
-/
namespace ExscapeOS

open Lib Function

open Vmm (pageSize isPageAligned)

/-- `memory_map_t`. -/
structure MemoryMap where
  baseAddrLow : Nat
  baseAddrHigh : Nat
  lengthLow : Nat
  lengthHigh : Nat
  type : Nat
  small : baseAddrLow < wordSize ∧ lengthLow < wordSize

namespace MemoryMap

/-- `addr_lo`, which is the same in both passes. -/
def addrLo (e : MemoryMap) : Nat :=
  let lo := if e.baseAddrLow < pageSize then pageSize else e.baseAddrLow
  if lo % pageSize ≠ 0 then add32 (lo / pageSize * pageSize) pageSize else lo

/-- `if (addr & 0xfff) addr &= 0xfffff000;` -/
def pageDown (addr : Nat) : Nat :=
  if addr % pageSize ≠ 0 then addr / pageSize * pageSize else addr

/-- The first pass for one region: `mem_end_page` is raised to its end. -/
def raise (e : MemoryMap) (memEndPage : Nat) : Nat :=
  if e.type ≠ 1 then memEndPage
  else if e.baseAddrHigh ≠ 0 then memEndPage
  else
    let addrHi := pageDown (add32 e.addrLo e.lengthLow)
    if addrHi > memEndPage then addrHi else memEndPage

/-- `addr_hi` in the second pass. -/
def addrHi (e : MemoryMap) : Nat :=
  let hi := add32 e.addrLo e.lengthLow
  pageDown (if e.baseAddrLow < pageSize then sub32 hi pageSize else hi)

end MemoryMap

namespace Bitmap

variable {map : List MemoryMap} {e e' : MemoryMap} {m m' : Bitmap} {f upperMem : Nat}

/-- `mem_end_page` after the first pass. -/
def lastPage (map : List MemoryMap) (upperMem : Nat) : Nat :=
  map.foldl (fun memEndPage e => e.raise memEndPage)
    (add32 0x100000 (upperMem * 1024) / pageSize * pageSize)

lemma pageDown_eq (addr : Nat) : MemoryMap.pageDown addr = addr / pageSize * pageSize := by
  unfold MemoryMap.pageDown pageSize
  split_ifs <;> omega

lemma page_lt {addr : Nat} (h : addr < wordSize) : addr / pageSize * pageSize < wordSize :=
  (Nat.div_mul_le_self _ _).trans_lt h

lemma raise_lt {page : Nat} (h : page < wordSize) : e.raise page < wordSize := by
  unfold MemoryMap.raise
  dsimp only
  rw [pageDown_eq]
  split_ifs
  · exact h
  · exact h
  · exact page_lt (add32_lt _ _)
  · exact h

lemma lastPage_lt (map : List MemoryMap) (upperMem : Nat) : lastPage map upperMem < wordSize := by
  have raised (page : Nat) (h : page < wordSize) :
      map.foldl (fun memEndPage e => e.raise memEndPage) page < wordSize := by
    induction map generalizing page with
    | nil => exact h
    | cons e map ih => exact ih _ (raise_lt h)
  exact raised _ (page_lt (add32_lt _ _))

/-- The addresses of a loop from `lo` to `hi` in steps of a page. -/
def pages (lo hi : Nat) : List Nat :=
  (List.range ((hi - lo + (pageSize - 1)) / pageSize)).map fun i => lo + i * pageSize

/-- A loop that clears frames, with an assertion about each address. -/
def clearFrames (check : Nat → Prop) [DecidablePred check] : List Nat → Bitmap → Option Bitmap
  | [], m => some m
  | addr :: rest, m => do
    kassert (check addr)
    let m ← m.clearFrame addr
    clearFrames check rest m

/-- The second pass for one region. -/
def clearRegion (e : MemoryMap) (m : Bitmap) : Option Bitmap :=
  if e.type ≠ 1 then some m
  else if e.baseAddrHigh ≠ 0 then some m
  else if e.addrLo ≥ e.addrHi then some m
  else do
    kassert (isPageAligned e.addrLo)
    kassert (isPageAligned e.addrHi)
    kassert (e.addrLo ≥ e.baseAddrLow)
    clearFrames (fun addr => addr < add32 e.baseAddrLow e.lengthLow) (pages e.addrLo e.addrHi) m

def clearRegions : List MemoryMap → Bitmap → Option Bitmap
  | [], m => some m
  | e :: rest, m => do
    let m ← clearRegion e m
    clearRegions rest m

/-- `pmm_init`; the map is empty if there is none. -/
def pmmInit (map : List MemoryMap) (upperMem : Nat) : Option Bitmap :=
  let m : Bitmap :=
    { memEndPage := lastPage map upperMem
      small := lastPage_lt map upperMem
      usedFrames := fun _ => 0xffffffff#32
      lastAllocatedFrame := noFrame }
  if map = [] then clearFrames (fun _ => True) (pages 0x100000 m.memEndPage) m
  else clearRegions map m

/-! ## The frames that are cleared -/

lemma clearFrame_eq_some {addr : Nat} (ran : m.clearFrame addr = some m') :
    m'.used = update m.used (addr / pageSize) false := by
  simp only [clearFrame, bind, Option.bind_eq_some_iff, kassert_eq_some, exists_const, pure,
    Option.some.injEq] at ran
  obtain ⟨-, -, rfl⟩ := ran
  exact used_of_and rfl

lemma clearFrames_eq_some {check : Nat → Prop} [DecidablePred check] {addrs : List Nat}
    (ran : clearFrames check addrs m = some m') :
    m'.used f = false ↔ m.used f = false ∨ ∃ a ∈ addrs, a / pageSize = f := by
  induction addrs generalizing m with
  | nil =>
    cases ran
    simp
  | cons addr rest ih =>
    simp only [clearFrames, bind, Option.bind_eq_some_iff, kassert_eq_some, exists_const] at ran
    obtain ⟨-, m₁, cleared, more⟩ := ran
    rw [ih more, clearFrame_eq_some cleared, update_apply, List.exists_mem_cons_iff]
    split_ifs with own
    · simp [own]
    · simp [Ne.symm own]

lemma mem_pages {lo hi : Nat} (aligned : isPageAligned lo) :
    (∃ a ∈ pages lo hi, a / pageSize = f) ↔ lo ≤ f * pageSize ∧ f * pageSize < hi := by
  simp only [pages, List.mem_map, List.mem_range, exists_exists_and_eq_and]
  unfold isPageAligned pageSize at *
  constructor
  · rintro ⟨i, lt, rfl⟩
    omega
  · intro inside
    exact ⟨f - lo / 0x1000, by omega, by omega⟩

end Bitmap

namespace MemoryMap

variable {e e' : MemoryMap} {f : Nat}

/-- The frames that the second pass clears for a region. -/
def Clears (e : MemoryMap) (f : Nat) : Prop :=
  e.type = 1 ∧ e.baseAddrHigh = 0 ∧ e.addrLo ≤ f * pageSize ∧ f * pageSize < e.addrHi

def base (e : MemoryMap) : Nat := e.baseAddrHigh * wordSize + e.baseAddrLow

def length (e : MemoryMap) : Nat := e.lengthHigh * wordSize + e.lengthLow

/-- A frame that lies wholly inside a region. -/
def Contains (e : MemoryMap) (f : Nat) : Prop :=
  e.base ≤ f * pageSize ∧ (f + 1) * pageSize ≤ e.base + e.length

/-- The first page boundary that is not before the start of a region. -/
def firstPage (e : MemoryMap) : Nat := (e.base + (pageSize - 1)) / pageSize * pageSize

/-- Rounding does not change which frames are cleared. A region in the first page must have a length
that reaches the last page boundary by itself, or have no boundary but the first; another one must
not lose or gain a boundary when it is moved up to its first page. -/
def RoundsWell (e : MemoryMap) : Prop :=
  if e.base < pageSize then
    e.base + e.length < 2 * pageSize ∨ e.base + e.length % pageSize < pageSize ∧ e.length < wordSize
  else if wordSize ≤ e.firstPage + e.length then
    (e.base + e.length) / pageSize ≤ e.firstPage / pageSize
  else
    e.base % pageSize = 0 ∨ (e.base + e.length) % pageSize < e.base % pageSize ∨
      e.base + e.length < e.firstPage

lemma clears_iff (avail : e.type = 1) (below : e.base + e.length ≤ wordSize) : e.Clears f ↔
    e.base < pageSize ∧ e.length < wordSize ∧ f ≠ 0 ∧ (f + 1) * pageSize ≤ e.length ∨
    pageSize ≤ e.base ∧ e.firstPage + e.length < wordSize ∧ e.firstPage ≤ f * pageSize ∧
      (f + 1) * pageSize ≤ e.firstPage + e.length := by
  have small := e.small
  rw [Clears, addrHi, Bitmap.pageDown_eq]
  simp only [avail, true_and]
  unfold addrLo firstPage base length add32 sub32 pageSize wordSize at *
  by_cases high : e.baseAddrHigh = 0
  · simp only [high, true_and]
    split_ifs <;> omega
  · omega

lemma Clears.start (h : e.Clears f) (below : e.base + e.length ≤ wordSize) :
    e.base ≤ f * pageSize ∧ f * pageSize < e.base + e.length := by
  have closed := (clears_iff h.1 below).mp h
  unfold firstPage pageSize at *
  omega

lemma roundsWell_iff (avail : e.type = 1) (below : e.base + e.length ≤ wordSize) :
    e.RoundsWell ↔ ∀ f, e.Clears f ↔ f ≠ 0 ∧ e.Contains f := by
  simp only [clears_iff avail below, Contains]
  unfold RoundsWell firstPage pageSize wordSize at *
  generalize e.base = b at *
  generalize e.length = l at *
  constructor
  · intro h f
    split_ifs at h <;> omega
  · intro h
    have last := h ((b + l) / 0x1000 - 1)
    have next := h ((b + l) / 0x1000)
    have first := h ((b + 0xfff) / 0x1000)
    have one := h 1
    split_ifs <;> omega

def Apart (e e' : MemoryMap) : Prop :=
  ∀ a, e.base ≤ a ∧ a < e.base + e.length → ¬ (e'.base ≤ a ∧ a < e'.base + e'.length)

instance : Std.Symm Apart := ⟨fun _ _ apart a inside inside' => apart a inside' inside⟩

lemma Contains.start (h : e.Contains f) :
    e.base ≤ f * pageSize ∧ f * pageSize < e.base + e.length := by
  unfold Contains pageSize at *
  omega

lemma Clears.ne_zero (h : e.Clears f) (below : e.base + e.length ≤ wordSize) : f ≠ 0 := by
  have closed := (clears_iff h.1 below).mp h
  unfold firstPage pageSize at closed
  omega

end MemoryMap

namespace Bitmap

variable {map : List MemoryMap} {e e' : MemoryMap} {m m' : Bitmap} {f upperMem : Nat}

lemma clearRegion_eq_some (ran : clearRegion e m = some m') :
    m'.used f = false ↔ m.used f = false ∨ e.Clears f := by
  unfold clearRegion at ran
  unfold MemoryMap.Clears
  split_ifs at ran with reserved high used
  · cases ran
    simp [reserved]
  · cases ran
    simp [high]
  · cases ran
    simp only [iff_self_or]
    omega
  · simp only [bind, Option.bind_eq_some_iff, kassert_eq_some, exists_const] at ran
    obtain ⟨aligned, -, -, cleared⟩ := ran
    rw [clearFrames_eq_some cleared, mem_pages aligned]
    simp [not_not.mp reserved, not_not.mp high]

lemma clearRegions_eq_some (ran : clearRegions map m = some m') :
    m'.used f = false ↔ m.used f = false ∨ ∃ e ∈ map, e.Clears f := by
  induction map generalizing m with
  | nil =>
    cases ran
    simp
  | cons e rest ih =>
    obtain ⟨m₁, first, more⟩ := Option.bind_eq_some_iff.mp ran
    rw [ih more, clearRegion_eq_some first, List.exists_mem_cons_iff, or_assoc]

lemma all_used (f : Nat) : (0xffffffff#32).getLsbD (f % 32) = true := by
  have lt : f % 32 < 32 := Nat.mod_lt _ (by decide)
  interval_cases f % 32 <;> rfl

lemma pmmInit_free (given : map ≠ []) (ran : pmmInit map upperMem = some m) :
    m.used f = false ↔ ∃ e ∈ map, e.Clears f := by
  rw [pmmInit, if_neg given] at ran
  rw [clearRegions_eq_some ran, or_iff_right]
  simp [used, all_used]

lemma pmmInit_free_nil (ran : pmmInit [] upperMem = some m) : m.used f = false ↔
    0x100000 ≤ f * pageSize ∧ f * pageSize < add32 0x100000 (upperMem * 1024) / pageSize *
      pageSize := by
  rw [pmmInit, if_pos rfl] at ran
  rw [clearFrames_eq_some ran, mem_pages (by decide), or_iff_right]
  · rfl
  · simp [used, all_used]

/-- The free frames are those of the available regions, but for the first. -/
structure MarksAvailable (map : List MemoryMap) (m : Bitmap) : Prop where
  sound : ∀ f, m.used f = false → ∃ e ∈ map, e.type = 1 ∧ e.Contains f
  complete : ∀ e ∈ map, e.type = 1 → ∀ f, f ≠ 0 → e.Contains f → m.used f = false

/-- `pmm_init` marks the right frames exactly if every available region rounds well; without a map,
it must not find any memory after the first megabyte. -/
theorem marksAvailable_iff (below : ∀ e ∈ map, e.base + e.length ≤ wordSize)
    (apart : map.Pairwise MemoryMap.Apart) (ran : pmmInit map upperMem = some m) :
    MarksAvailable map m ↔ (map = [] → add32 0x100000 (upperMem * 1024) < 0x101000) ∧
      ∀ e ∈ map, e.type = 1 → e.RoundsWell := by
  by_cases given : map = []
  · subst given
    simp only [forall_const, List.not_mem_nil, false_implies, implies_true, and_true]
    constructor
    · intro ok
      by_contra more
      obtain ⟨e, mem, -⟩ := ok.sound 0x100 ((pmmInit_free_nil ran).mpr (by unfold pageSize; omega))
      cases mem
    · intro less
      refine ⟨fun f free => ?_, nofun⟩
      have inside := (pmmInit_free_nil ran).mp free
      unfold pageSize at inside
      omega
  have shared {e e' : MemoryMap} (mem : e ∈ map) (mem' : e' ∈ map) {a : Nat}
      (inside : e.base ≤ a ∧ a < e.base + e.length)
      (inside' : e'.base ≤ a ∧ a < e'.base + e'.length) : e = e' := by
    by_contra ne
    exact apart.forall mem mem' ne a inside inside'
  simp only [given, false_implies, true_and]
  constructor
  · intro ok e mem avail
    rw [MemoryMap.roundsWell_iff avail (below e mem)]
    intro f
    constructor
    · intro clears
      obtain ⟨e', mem', avail', contains⟩ := ok.sound f
        ((pmmInit_free given ran).mpr ⟨e, mem, clears⟩)
      obtain rfl := shared mem mem' (clears.start (below e mem)) contains.start
      exact ⟨clears.ne_zero (below e mem), contains⟩
    · rintro ⟨pos, contains⟩
      obtain ⟨e', mem', clears⟩ := (pmmInit_free given ran).mp
        (ok.complete e mem avail f pos contains)
      obtain rfl := shared mem mem' contains.start (clears.start (below e' mem'))
      exact clears
  · intro rounds
    refine ⟨fun f free => ?_, fun e mem avail f pos contains => ?_⟩
    · obtain ⟨e, mem, clears⟩ := (pmmInit_free given ran).mp free
      have same := (MemoryMap.roundsWell_iff clears.1 (below e mem)).mp (rounds e mem clears.1) f
      exact ⟨e, mem, clears.1, (same.mp clears).2⟩
    · have same := (MemoryMap.roundsWell_iff avail (below e mem)).mp (rounds e mem avail) f
      exact (pmmInit_free given ran).mpr ⟨e, mem, same.mpr ⟨pos, contains⟩⟩

/-- Two available regions and a reserved one. -/
def threeRegions : List MemoryMap :=
  [⟨0, 0, 0x3800, 0, 1, by decide⟩, ⟨0x5000, 0, 0x3400, 0, 1, by decide⟩,
    ⟨0xf0000, 0, 0x10000, 0, 2, by decide⟩]

theorem marksAvailable_threeRegions : ∃ m, pmmInit threeRegions 0 = some m ∧
    MarksAvailable threeRegions m := by
  have ends : (pmmInit threeRegions 0).isSome := by decide +kernel
  obtain ⟨m, ran⟩ := Option.isSome_iff_exists.mp ends
  refine ⟨m, ran, (marksAvailable_iff ?_ ?_ ran).mpr ⟨nofun, ?_⟩⟩
  · decide
  · simp only [threeRegions, List.pairwise_cons, List.mem_cons, forall_eq_or_imp, MemoryMap.Apart,
      MemoryMap.base, MemoryMap.length]
    grind
  · intro e mem _
    simp only [threeRegions, List.mem_cons, List.not_mem_nil, or_false] at mem
    unfold MemoryMap.RoundsWell
    rcases mem with rfl | rfl | rfl <;> decide

/-- A region of a page that starts in the middle of a page: the frame after its start is cleared,
but only half of it is in the region. -/
theorem frame_past_region : ∃ m, pmmInit [⟨0x1800, 0, 0x1000, 0, 1, by decide⟩] 0 = some m ∧
    m.used 2 = false ∧ 0x1800 + 0x1000 < 3 * pageSize := by
  obtain ⟨m, eq, free⟩ : ∃ m ∈ pmmInit [⟨0x1800, 0, 0x1000, 0, 1, by decide⟩] 0,
    m.used 2 = false := by
    decide +kernel
  exact ⟨m, eq, free, by decide⟩

end Bitmap

end ExscapeOS
