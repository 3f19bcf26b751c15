import ExscapeOS.Kernel.Vmm.Basic
import ExscapeOS.Lib.Lockstep
import ExscapeOS.Lib.Transition

/-!
# The bitmap of the frame allocator

The functions of `pmm.c` on the words of the bitmap and on physical addresses, with 32-bit
arithmetic. They run in lockstep with `Pmm`, where the bitmap is a set of frames. So its invariant
holds here too, in any run of `pmm_alloc`, `pmm_alloc_continuous`, `pmm_free` and reservations by
`_pmm_set_frame`.
-/
namespace ExscapeOS

open Lib Function List Option

open Vmm (pageSize isPageAligned)

/-- The variables of `pmm.c`; `mem_end_page` and `nframes` are constant after `pmm_init`. -/
structure Bitmap where
  memEndPage : Nat
  small : memEndPage < wordSize
  usedFrames : Nat → BitVec 32
  lastAllocatedFrame : Nat

namespace Bitmap

variable {m m' : Bitmap} {p : Pmm} {addr f start : Nat}

/-! ## The functions of the source -/

def nframes (m : Bitmap) : Nat := m.memEndPage / pageSize

/-- The address that stands for "no frame". -/
def noFrame : Nat := 0xffffffff

/-- The word with the bit `OFFSET_INTO_DWORD` of a frame. -/
def mask (frame : Nat) : BitVec 32 := 1#32 <<< (frame % 32)

/-- `_pmm_set_frame`. -/
def setFrame (addr : Nat) (m : Bitmap) : Option Bitmap := do
  let frame := addr / pageSize
  kassert (frame / 32 ≤ m.nframes / 32)
  kassert (m.usedFrames (frame / 32) &&& mask frame = 0)
  let word := m.usedFrames (frame / 32) ||| mask frame
  return { m with usedFrames := update m.usedFrames (frame / 32) word }

/-- `_pmm_clear_frame`. -/
def clearFrame (addr : Nat) (m : Bitmap) : Option Bitmap := do
  let frame := addr / pageSize
  kassert (frame / 32 ≤ m.nframes / 32)
  kassert (m.usedFrames (frame / 32) &&& mask frame ≠ 0)
  let word := m.usedFrames (frame / 32) &&& ~~~ mask frame
  return { m with usedFrames := update m.usedFrames (frame / 32) word }

/-- `_pmm_test_frame`. -/
def testFrame (addr : Nat) (m : Bitmap) : Option Bool := do
  let frame := addr / pageSize
  kassert (frame / 32 ≤ m.nframes / 32)
  return m.usedFrames (frame / 32) &&& mask frame != 0

/-- The inner loop of `_pmm_first_free_frame`. -/
def freeOffset (m : Bitmap) (index : Nat) : Option Nat :=
  (List.range' 0 32).findSome? fun offset =>
    if m.usedFrames index &&& mask offset = 0 then
      some ((index * 32 + offset) * pageSize % wordSize)
    else none

/-- `_pmm_first_free_frame`. -/
def firstFreeFrame (start : Nat) (m : Bitmap) : Nat :=
  let index := start / pageSize / 32
  let index := if index ≠ 0 then index - 1 else index
  ((List.range' index (m.nframes / 32 - index)).findSome? fun index =>
    if m.usedFrames index = 0xffffffff#32 then none else m.freeOffset index).getD noFrame

def pmmAlloc (m : Bitmap) : Option (Nat × Bitmap) := do
  let last := if m.lastAllocatedFrame = noFrame then 0 else m.lastAllocatedFrame
  let addr := m.firstFreeFrame last
  kassert (addr ≠ noFrame)
  let m ← { m with lastAllocatedFrame := addr }.setFrame addr
  return (addr, m)

/-- The `for` loop of `pmm_alloc_continuous`: the first `i` whose frame is not free. -/
def firstUsed (start : Nat) (m : Bitmap) : List Nat → Option (Option Nat)
  | [] => some none
  | i :: is => do
    let used ← m.testFrame (add32 start (i * pageSize))
    if used then return some i else m.firstUsed start is

/-- The `while` loop of `pmm_alloc_continuous`, which runs at most `fuel` times. -/
def searchContinuous (numFrames : Nat) (m : Bitmap) : Nat → Nat → Option Nat
  | 0, _ => none
  | fuel + 1, start => do
    kassert (add32 start ((numFrames - 1) * pageSize) ≤ m.memEndPage)
    match ← m.firstUsed start (List.range' 1 (numFrames - 1)) with
    | none => return start
    | some i => m.searchContinuous numFrames fuel (add32 start ((i + 1) * pageSize))

/-- Reserve the frames at some addresses. -/
def setFrames : List Nat → Bitmap → Option Bitmap
  | [], m => some m
  | addr :: rest, m => do
    let m ← m.setFrame addr
    setFrames rest m

def pmmAllocContinuous (numFrames fuel : Nat) (m : Bitmap) : Option (Nat × Bitmap) :=
  if numFrames < 2 then m.pmmAlloc
  else do
    let start ← m.searchContinuous numFrames fuel (m.firstFreeFrame 0)
    let m ← m.setFrames ((List.range numFrames).map fun i => add32 start (i * pageSize))
    return (start, m)

def pmmFree (addr : Nat) (m : Bitmap) : Option Bitmap := do
  let m ← m.clearFrame addr
  return { m with lastAllocatedFrame := noFrame }

/-! ## Bits and frames -/

/-- The frames whose bit is set. -/
def used (m : Bitmap) (f : Nat) : Bool := (m.usedFrames (f / 32)).getLsbD (f % 32)

lemma mask_getLsbD (f i : Nat) : (mask f).getLsbD i = decide (i = f % 32) := by
  have lt : f % 32 < 32 := Nat.mod_lt _ (by decide)
  rw [mask, ← BitVec.twoPow_eq, BitVec.getLsbD_twoPow]
  by_cases same : f % 32 = i
  · simp [same, same ▸ lt]
  · simp [same, Ne.symm same]

lemma and_mask_eq_zero (w : BitVec 32) (f : Nat) :
    w &&& mask f = 0 ↔ w.getLsbD (f % 32) = false := by
  have lt : f % 32 < 32 := Nat.mod_lt _ (by decide)
  constructor
  · intro zero
    have bit := congrArg (·.getLsbD (f % 32)) zero
    simpa [mask_getLsbD] using bit
  · intro clear
    ext i hi
    rw [← BitVec.getLsbD_eq_getElem, BitVec.getLsbD_and, mask_getLsbD]
    by_cases own : i = f % 32
    · simp [own, clear]
    · simp [own]

lemma frame_eq_iff {g : Nat} : g = f ↔ g / 32 = f / 32 ∧ g % 32 = f % 32 := by omega

lemma used_of_update {word : BitVec 32} {value : Bool}
    (words : m'.usedFrames = update m.usedFrames (f / 32) word)
    (bits : ∀ i < 32, word.getLsbD i =
      if i = f % 32 then value else (m.usedFrames (f / 32)).getLsbD i) :
    m'.used = update m.used f value := by
  funext g
  have lt : g % 32 < 32 := Nat.mod_lt _ (by decide)
  simp only [used, words, update_apply, frame_eq_iff (f := f)]
  by_cases index : g / 32 = f / 32
  · simp [index, bits _ lt]
  · simp [index]

lemma used_of_or
    (words : m'.usedFrames = update m.usedFrames (f / 32) (m.usedFrames (f / 32) ||| mask f)) :
    m'.used = update m.used f true := by
  refine used_of_update words fun i _ => ?_
  rw [BitVec.getLsbD_or, mask_getLsbD]
  by_cases own : i = f % 32 <;> simp [own]

lemma used_of_and
    (words : m'.usedFrames = update m.usedFrames (f / 32) (m.usedFrames (f / 32) &&& ~~~ mask f)) :
    m'.used = update m.used f false := by
  refine used_of_update words fun i lt => ?_
  rw [BitVec.getLsbD_and, BitVec.getLsbD_not, mask_getLsbD]
  by_cases own : i = f % 32 <;> simp [own, lt]

lemma setFrame_of_free (bound : addr / pageSize / 32 ≤ m.nframes / 32)
    (free : m.used (addr / pageSize) = false) :
    ∃ words, m.setFrame addr = some { m with usedFrames := words } ∧
      ({ m with usedFrames := words } : Bitmap).used = update m.used (addr / pageSize) true := by
  have clear := (and_mask_eq_zero _ _).mpr free
  refine ⟨update m.usedFrames (addr / pageSize / 32) (m.usedFrames _ ||| mask (addr / pageSize)),
    ?_, used_of_or rfl⟩
  simp only [setFrame, kassert, if_pos bound, if_pos clear, bind, bind_some, pure]

/-! ## In lockstep with sets of frames -/

/-- The bitmap has the used frames of `p`, and the same last frame. -/
structure Represents (m : Bitmap) (p : Pmm) : Prop where
  nframes : p.nframes = m.nframes
  used : p.used = m.used
  last : m.lastAllocatedFrame = noFrame ∧ p.last = 0 ∨ m.lastAllocatedFrame = p.last * pageSize

lemma Represents.setFrame (h : Represents m p) :
    Lockstep Represents (m.setFrame addr) (p.reserve (addr / pageSize)) := by
  by_cases bound : addr / pageSize / 32 ≤ m.nframes / 32
  · by_cases free : m.used (addr / pageSize) = false
    · obtain ⟨words, set, used⟩ := setFrame_of_free bound free
      rw [set, Pmm.reserve, if_pos ⟨h.nframes ▸ bound, h.used ▸ free⟩]
      refine .both ⟨h.nframes, ?_, h.last⟩
      rw [used, ← h.used]
    · have set := mt (and_mask_eq_zero _ _).mp free
      rw [Pmm.reserve, if_neg fun both => free (h.used ▸ both.2)]
      simp only [Bitmap.setFrame, kassert, if_pos bound, if_neg set, bind, bind_some, bind_none]
      exact .stop
  · rw [Pmm.reserve, if_neg fun both => bound (h.nframes ▸ both.1)]
    simp only [Bitmap.setFrame, kassert, if_neg bound, bind, bind_none]
    exact .stop

lemma Represents.pmmFree (h : Represents m p) :
    Lockstep Represents (m.pmmFree addr) (p.free (addr / pageSize)) := by
  unfold Bitmap.pmmFree Bitmap.clearFrame Pmm.free
  by_cases bound : addr / pageSize / 32 ≤ m.nframes / 32
  · by_cases taken : m.used (addr / pageSize) = true
    · have set : ¬ m.usedFrames (addr / pageSize / 32) &&& mask (addr / pageSize) = 0 := by
        rw [and_mask_eq_zero]
        exact Bool.not_eq_false _ ▸ taken
      rw [if_pos ⟨h.nframes ▸ bound, h.used ▸ taken⟩]
      simp only [kassert, if_pos bound, ne_eq, set, not_false_eq_true, if_true, bind, bind_some]
      have same : update p.used (addr / pageSize) false =
        update m.used (addr / pageSize) false := by
        rw [h.used]
      exact .both ⟨h.nframes, same.trans (used_of_and rfl).symm, .inl ⟨rfl, rfl⟩⟩
    · have clear := (and_mask_eq_zero _ _).mpr (Bool.eq_false_iff.mpr taken)
      rw [if_neg fun both => taken (h.used ▸ both.2)]
      simp only [kassert, if_pos bound, ne_eq, clear, not_true_eq_false, if_false, bind, bind_some,
        bind_none]
      exact .stop
  · rw [if_neg fun both => bound (h.nframes ▸ both.1)]
    simp only [kassert, if_neg bound, bind, bind_none]
    exact .stop

lemma frame_small (m : Bitmap) (bound : f / 32 < m.nframes / 32) : f * pageSize < noFrame := by
  have small := m.small
  unfold nframes pageSize wordSize noFrame at *
  omega

lemma usedFrames_eq_iff (index : Nat) :
    m.usedFrames index = 0xffffffff#32 ↔ Pmm.freeInWord m.used index = none := by
  have bit (offset : Nat) (lt : offset < 32) :
      m.used (index * 32 + offset) = (m.usedFrames index).getLsbD offset := by
    rw [used, show (index * 32 + offset) / 32 = index by omega,
      show (index * 32 + offset) % 32 = offset by omega]
  rw [Pmm.freeInWord, findSome?_range'_eq_none]
  constructor
  · intro full offset _ lt
    rw [bit offset (by omega), full, if_pos]
    interval_cases offset <;> rfl
  · intro full
    refine BitVec.eq_of_getLsbD_eq fun i lt => ?_
    have set := full i (Nat.zero_le i) (by omega)
    rw [bit i lt] at set
    split_ifs at set with one
    rw [one]
    interval_cases i <;> rfl

lemma freeOffset_eq {index : Nat} (bound : index < m.nframes / 32) :
    m.freeOffset index = (Pmm.freeInWord m.used index).map (· * pageSize) := by
  rw [freeOffset, Pmm.freeInWord, map_findSome?]
  refine findSome?_congr fun offset mem => ?_
  have lt : offset < 32 := by simpa using mem
  have address : (index * 32 + offset) * pageSize % wordSize =
    (index * 32 + offset) * pageSize := by
    have small := m.frame_small (f := index * 32 + offset) (by omega)
    exact Nat.mod_eq_of_lt (small.trans (by decide))
  have bit : m.used (index * 32 + offset) = (m.usedFrames index).getLsbD (offset % 32) := by
    rw [used, show (index * 32 + offset) / 32 = index by omega,
      show (index * 32 + offset) % 32 = offset % 32 by omega]
  rw [address, comp_apply, bit]
  cases clear : (m.usedFrames index).getLsbD (offset % 32) with
  | false =>
    rw [if_pos ((and_mask_eq_zero _ _).mpr clear)]
    rfl
  | true =>
    have set : ¬ m.usedFrames index &&& mask offset = 0 := by
      rw [and_mask_eq_zero, clear]
      decide
    rw [if_neg set]
    rfl

lemma firstFreeFrame_eq (start : Nat) : m.firstFreeFrame start =
    (Pmm.firstFreeFrame m.nframes m.used (start / pageSize)).elim noFrame (· * pageSize) := by
  have index :
      (if start / pageSize / 32 ≠ 0 then start / pageSize / 32 - 1 else start / pageSize / 32) =
        start / pageSize / 32 - 1 := by
    split_ifs <;> omega
  rw [firstFreeFrame, Pmm.firstFreeFrame, index]
  have words : ∀ i ∈ List.range' (start / pageSize / 32 - 1) (m.nframes / 32 -
      (start / pageSize / 32 - 1)), (if m.usedFrames i = 0xffffffff#32 then none
        else m.freeOffset i) = (Pmm.freeInWord m.used i).map (· * pageSize) := by
    intro i mem
    rw [mem_range'_1] at mem
    split_ifs with full
    · rw [(usedFrames_eq_iff i).mp full]
      rfl
    · exact freeOffset_eq (by omega)
  rw [findSome?_congr words]
  change (List.findSome? (Option.map (· * pageSize) ∘ Pmm.freeInWord m.used) _).getD noFrame = _
  rw [← map_findSome?]
  cases List.findSome? (Pmm.freeInWord m.used) _ <;> rfl

lemma Represents.pmmAlloc (h : Represents m p) :
    Lockstep (fun r s => r.1 = s.1 * pageSize ∧ Represents r.2 s.2) m.pmmAlloc p.alloc := by
  have last :
      (if m.lastAllocatedFrame = noFrame then 0 else m.lastAllocatedFrame) / pageSize = p.last := by
    have ne : p.last * pageSize ≠ noFrame := by
      unfold noFrame pageSize
      omega
    obtain ⟨none, zero⟩ | eq := h.last
    · rw [if_pos none, zero]
      rfl
    · rw [eq, if_neg ne]
      exact Nat.mul_div_cancel _ (by decide)
  have search := m.firstFreeFrame_eq
    (if m.lastAllocatedFrame = noFrame then 0 else m.lastAllocatedFrame)
  rw [last, ← h.nframes, ← h.used] at search
  unfold Bitmap.pmmAlloc
  dsimp only
  generalize m.firstFreeFrame _ = addr at search ⊢
  cases found : Pmm.firstFreeFrame p.nframes p.used p.last with
  | none =>
    obtain rfl : addr = noFrame := by rw [search, found, elim_none]
    rw [Pmm.alloc_eq_none found]
    exact .stop
  | some f =>
    obtain ⟨p', alloc, nframes, used, lastFrame⟩ := Pmm.alloc_eq_some found
    obtain ⟨bound, free, -⟩ := Pmm.firstFreeFrame_eq_some found
    have frame : f * pageSize / pageSize = f := Nat.mul_div_cancel _ (by decide)
    rw [h.nframes] at bound
    rw [h.used] at free used
    obtain ⟨words, set, taken⟩ := setFrame_of_free
      (m := { m with lastAllocatedFrame := f * pageSize })
      (show f * pageSize / pageSize / 32 ≤ m.nframes / 32 from frame.symm ▸ bound.le)
      (show m.used (f * pageSize / pageSize) = false from frame.symm ▸ free)
    obtain rfl : addr = f * pageSize := by rw [search, found, elim_some]
    rw [alloc]
    simp only [kassert, if_pos (m.frame_small bound).ne, set, bind, bind_some, pure]
    refine .both ⟨rfl, nframes.trans h.nframes, ?_, .inr ?_⟩
    · rw [used, taken, frame]
      rfl
    · rw [lastFrame]

/-! ## Runs -/

inductive Action where
  | alloc
  | allocContinuous (numFrames fuel : Nat)
  | free (addr : Nat)
  | reserve (addr : Nat)

/-- One call. `pmm_alloc_continuous` returns if it does so for some `fuel`. -/
def step (m : Bitmap) : Action → Option Bitmap
  | .alloc => m.pmmAlloc.map Prod.snd
  | .allocContinuous numFrames fuel => (m.pmmAllocContinuous numFrames fuel).map Prod.snd
  | .free addr => m.pmmFree addr
  | .reserve addr => m.setFrame addr

lemma Represents.setFrames {addrs : List Nat} (h : Represents m p)
    (ran : setFrames addrs m = some m') :
    ∃ p', Represents m' p' := by
  induction addrs generalizing m p with
  | nil =>
    cases ran
    exact ⟨p, h⟩
  | cons addr rest ih =>
    obtain ⟨m₁, set, more⟩ := bind_eq_some_iff.mp ran
    have reserved : Lockstep Represents (m.setFrame addr) (p.reserve (addr / pageSize)) :=
      h.setFrame
    obtain ⟨p₁, -, h₁⟩ := reserved.of_some set
    exact ih h₁ more

lemma Represents.step {a : Action} (h : Represents m p) (ran : m.step a = some m') :
    ∃ p', Represents m' p' := by
  have alloc {r : Nat × Bitmap} (ran : m.pmmAlloc = some r) : ∃ p', Represents r.2 p' := by
    obtain ⟨s, -, -, h'⟩ := h.pmmAlloc.of_some ran
    exact ⟨s.2, h'⟩
  cases a with
  | alloc =>
    obtain ⟨r, called, rfl⟩ := map_eq_some_iff.mp ran
    exact alloc called
  | allocContinuous numFrames fuel =>
    obtain ⟨r, called, rfl⟩ := map_eq_some_iff.mp ran
    unfold pmmAllocContinuous at called
    split_ifs at called
    · exact alloc called
    · simp only [bind, bind_eq_some_iff, pure, some.injEq] at called
      obtain ⟨start, -, m₁, set, rfl⟩ := called
      exact h.setFrames set
  | free addr =>
    obtain ⟨p', -, h'⟩ := h.pmmFree.of_some ran
    exact ⟨p', h'⟩
  | reserve addr =>
    obtain ⟨p', -, h'⟩ := h.setFrame.of_some ran
    exact ⟨p', h'⟩

lemma exists_represents {as : List Action} {m₀ : Bitmap} (init : m₀.lastAllocatedFrame = noFrame)
    (run : Run (fun m a m' => step m a = some m') m₀ as m) : ∃ p, Represents m p := by
  refine run.invariant (P := fun m => ∃ p, Represents m p) ?_ ?_
  · exact ⟨⟨m₀.nframes, m₀.used, 0, by simp⟩, rfl, rfl, .inl ⟨init, rfl⟩⟩
  · rintro _ _ _ ⟨_, h⟩ ran
    exact h.step ran

/-- In every state that can be reached after `pmm_init`, `pmm_alloc` finds a frame if there is one,
and takes this frame only. -/
theorem pmmAlloc_correct {as : List Action} {m₀ : Bitmap} (init : m₀.lastAllocatedFrame = noFrame)
    (run : Run (fun m a m' => step m a = some m') m₀ as m) :
    (m.pmmAlloc = none ↔ ∀ f, f / 32 < m.nframes / 32 → m.used f = true) ∧
    ∀ addr m', m.pmmAlloc = some (addr, m') → isPageAligned addr ∧
      addr / pageSize / 32 < m.nframes / 32 ∧ m.used (addr / pageSize) = false ∧
      m'.used = update m.used (addr / pageSize) true := by
  obtain ⟨p, h⟩ := exists_represents init run
  constructor
  · have stops : m.pmmAlloc = none ↔ p.alloc = none := h.pmmAlloc.eq_none_iff
    rw [stops, ← not_isSome_iff_eq_none, Pmm.alloc_isSome_iff, Finset.not_nonempty_iff_eq_empty,
      Finset.eq_empty_iff_forall_notMem]
    simp only [Pmm.mem_avail, h.nframes, h.used, not_and, Bool.not_eq_false]
  · intro addr m' ran
    obtain ⟨⟨f, p'⟩, alloc, address, h'⟩ := h.pmmAlloc.of_some ran
    obtain ⟨mem, -, used⟩ := Pmm.alloc_spec alloc
    obtain ⟨bound, free⟩ := Pmm.mem_avail.mp mem
    rw [h.nframes] at bound
    rw [h.used] at free used
    obtain rfl : addr = f * pageSize := address
    rw [Nat.mul_div_cancel f (by decide)]
    exact ⟨Nat.mul_mod_left f pageSize, bound, free, h'.used.symm.trans used⟩

/-- 64 frames, of which only the first is in use. -/
def emptyBitmap : Bitmap where
  memEndPage := 0x40000
  small := by decide
  usedFrames i := if i = 0 then 1#32 else 0#32
  lastAllocatedFrame := noFrame

theorem pmmAlloc_correct_sample : ∃ m,
    exec step emptyBitmap [.alloc, .allocContinuous 3 8, .free 0x1000] = some m ∧
      m.pmmAlloc ≠ none ∧ ∀ addr m', m.pmmAlloc = some (addr, m') → m'.used =
        update m.used (addr / pageSize) true := by
  obtain ⟨m, eq, frames, free⟩ :
      ∃ m ∈ exec step emptyBitmap [.alloc, .allocContinuous 3 8, .free 0x1000],
      m.nframes = 64 ∧ m.used 1 = false := by decide +kernel
  obtain ⟨panics, takes⟩ := pmmAlloc_correct rfl (.of_exec eq)
  refine ⟨m, eq, fun none => ?_, fun addr m' ran => (takes addr m' ran).2.2.2⟩
  have full := panics.mp none 1 (by rw [frames]; decide)
  rw [free] at full
  cases full

end Bitmap

end ExscapeOS
