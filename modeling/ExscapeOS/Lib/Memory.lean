import ExscapeOS.Lib.Word

/-!
# Byte-addressed memory with little-endian words

A memory is a total function from addresses to bytes. Words may start at any address, so two words
can overlap; the laws speak of the four bytes of a word. `AgreeOn` is the frame relation: what reads
only bytes of an interval is unchanged by a store outside.
-/
namespace ExscapeOS.Lib

abbrev Memory : Type := Nat → UInt8

namespace Memory

/-- Byte `i` of the little-endian representation of `v`. -/
def byteOf (v i : Nat) : UInt8 := UInt8.ofNat (v / 256 ^ i)

def read32 (m : Memory) (a : Nat) : Nat :=
  (m a).toNat + 256 * (m (a + 1)).toNat + 65536 * (m (a + 2)).toNat +
    16777216 * (m (a + 3)).toNat

def write8 (m : Memory) (a : Nat) (v : UInt8) : Memory := fun b => if b = a then v else m b

def write32 (m : Memory) (a v : Nat) : Memory := fun b =>
  if a ≤ b ∧ b < a + 4 then byteOf v (b - a) else m b

def read16 (m : Memory) (a : Nat) : Nat := (m a).toNat + 256 * (m (a + 1)).toNat

def write16 (m : Memory) (a v : Nat) : Memory := fun b =>
  if a ≤ b ∧ b < a + 2 then byteOf v (b - a) else m b

/-- Every byte of `[lo, hi)` set to zero. -/
def zero (m : Memory) (lo hi : Nat) : Memory := fun b => if lo ≤ b ∧ b < hi then 0 else m b

/-- `m'` holds the same bytes as `m` in `[lo, hi)`. -/
def AgreeOn (m m' : Memory) (lo hi : Nat) : Prop := ∀ b, lo ≤ b → b < hi → m' b = m b

/-- `m'` holds the same bytes as `m` everywhere but in `[lo, hi)`. -/
def AgreeOff (m m' : Memory) (lo hi : Nat) : Prop := ∀ b, b < lo ∨ hi ≤ b → m' b = m b

variable {a : Nat}

lemma read32_congr {m m' : Memory} (h : AgreeOn m m' a (a + 4)) :
    read32 m' a = read32 m a := by
  unfold read32
  rw [h a (by omega) (by omega), h (a + 1) (by omega) (by omega), h (a + 2) (by omega) (by omega),
    h (a + 3) (by omega) (by omega)]

lemma read16_congr {m m' : Memory} (h : AgreeOn m m' a (a + 2)) :
    read16 m' a = read16 m a := by
  unfold read16
  rw [h a (by omega) (by omega), h (a + 1) (by omega) (by omega)]

variable {v b : Nat}

lemma write16_of_not_mem {m : Memory} (h : b < a ∨ a + 2 ≤ b) :
    write16 m a v b = m b := if_neg (by omega)

lemma read16_write16_same (m : Memory) (a : Nat) (hv : v < 65536) :
    read16 (write16 m a v) a = v := by
  have low : write16 m a v a = byteOf v 0 := by simp [write16]
  have high : write16 m a v (a + 1) = byteOf v 1 := by simp [write16]
  unfold read16
  rw [low, high]
  simp only [byteOf, UInt8.toNat_ofNat']
  omega

lemma write32_of_not_mem {m : Memory} (h : b < a ∨ a + 4 ≤ b) :
    write32 m a v b = m b := if_neg (by omega)

lemma write8_of_ne {m : Memory} {v : UInt8} (h : b ≠ a) :
    write8 m a v b = m b := if_neg h

@[simp] lemma write8_same (m : Memory) (a : Nat) (v : UInt8) : write8 m a v a = v := if_pos rfl

lemma zero_of_not_mem {m : Memory} {lo hi : Nat} (h : b < lo ∨ hi ≤ b) :
    zero m lo hi b = m b := if_neg (by omega)

lemma read32_write32_same (m : Memory) (a : Nat) (hv : v < wordSize) :
    read32 (write32 m a v) a = v := by
  have e (i : Nat) (hi : i < 4) : write32 m a v (a + i) = byteOf v i := by
    unfold write32
    rw [if_pos (by omega), Nat.add_sub_cancel_left]
  have e0 : write32 m a v a = byteOf v 0 := e 0 (by omega)
  unfold read32
  rw [e0, e 1 (by omega), e 2 (by omega), e 3 (by omega)]
  simp only [byteOf, UInt8.toNat_ofNat']
  unfold wordSize at hv
  omega

lemma read32_write32_of_disjoint {m : Memory} (h : a + 4 ≤ b ∨ b + 4 ≤ a) :
    read32 (write32 m a v) b = read32 m b :=
  read32_congr fun _ _ _ => write32_of_not_mem (by omega)

lemma read32_write8_of_disjoint {m : Memory} {v : UInt8}
    (h : a < b ∨ b + 4 ≤ a) : read32 (write8 m a v) b = read32 m b :=
  read32_congr fun _ _ _ => write8_of_ne (by omega)

namespace AgreeOn

variable {m m' m'' : Memory} {lo hi lo' hi' : Nat}

lemma refl (m : Memory) (lo hi : Nat) : AgreeOn m m lo hi := fun _ _ _ => rfl

lemma trans (h : AgreeOn m m' lo hi) (g : AgreeOn m' m'' lo hi) : AgreeOn m m'' lo hi :=
  fun b hl hh => (g b hl hh).trans (h b hl hh)

lemma mono (h : AgreeOn m m' lo hi) (hl : lo ≤ lo') (hh : hi' ≤ hi) : AgreeOn m m' lo' hi' :=
  fun b hb hb' => h b (hl.trans hb) (hb'.trans_le hh)

lemma write32 (m : Memory) (h : a + 4 ≤ lo ∨ hi ≤ a) :
    AgreeOn m (Memory.write32 m a v) lo hi := fun _ _ _ => write32_of_not_mem (by omega)

lemma write8 (m : Memory) {v : UInt8} (h : a < lo ∨ hi ≤ a) :
    AgreeOn m (Memory.write8 m a v) lo hi := fun _ _ _ => write8_of_ne (by omega)

lemma zero (m : Memory) (h : b ≤ lo ∨ hi ≤ a) :
    AgreeOn m (Memory.zero m a b) lo hi := fun _ _ _ => zero_of_not_mem (by omega)

lemma read32 (h : AgreeOn m m' lo hi) (hl : lo ≤ a) (hh : a + 4 ≤ hi) :
    Memory.read32 m' a = Memory.read32 m a := read32_congr (h.mono hl hh)

end AgreeOn

namespace AgreeOff

variable {m m' m'' : Memory} {lo hi lo' hi' : Nat}

lemma on (h : AgreeOff m m' lo hi) (apart : hi' ≤ lo ∨ hi ≤ lo') : AgreeOn m m' lo' hi' :=
  fun b _ _ => h b (by omega)

lemma mono (h : AgreeOff m m' lo hi) (hl : lo' ≤ lo) (hh : hi ≤ hi') : AgreeOff m m' lo' hi' :=
  fun b hb => h b (by omega)

lemma write32 (m : Memory) (hl : lo ≤ a) (hh : a + 4 ≤ hi) :
    AgreeOff m (Memory.write32 m a v) lo hi := fun _ _ => write32_of_not_mem (by omega)

lemma write8 (m : Memory) {v : UInt8} (hl : lo ≤ a) (hh : a < hi) :
    AgreeOff m (Memory.write8 m a v) lo hi := fun _ _ => write8_of_ne (by omega)

lemma zero (m : Memory) (lo hi : Nat) : AgreeOff m (Memory.zero m lo hi) lo hi :=
  fun _ h => zero_of_not_mem h

end AgreeOff

end Memory

end ExscapeOS.Lib
