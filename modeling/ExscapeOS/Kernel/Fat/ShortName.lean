import ExscapeOS.Kernel.Fat.Dir

/-!
# Short names in their buffer

`fat_parse_short_name` copies the name with its padding to a buffer of 13 bytes, moves a pointer
back over the padding of the first eight bytes, and writes the saved extension from there on. So it
leaves the name without the padding. But characters are signed: the extension ends before the first
byte above 0x7f, and a name that starts with such a byte fails an assertion.
-/
namespace ExscapeOS.Fat

open Lib List Option

/-! ## The functions of the source -/

/-- Bytes are written to the buffer. -/
def store (buf : Name) (p : Nat) (bytes : Name) : Option Name :=
  if p + bytes.length ≤ buf.length then some (buf.take p ++ bytes ++ buf.drop (p + bytes.length))
  else none

/-- The pointer moves back over the padding, but not before the buffer. -/
def unpad (buf : Name) : Nat → Option Nat
  | 0 => none
  | p + 1 => if buf[p]? = some 0x20 then unpad buf p else some (p + 1)

/-- `strlcat(p, ext, 5)`, where `p` is a string of one character. -/
def appendExt (buf : Name) (p : Nat) (ext : Name) : Option Name :=
  store buf (p + 1) (ext.take (5 - 1 - 1) ++ [0])

/-- The second half of `fat_parse_short_name`, from "Store the extension" on. -/
def stripPadding (buf : Name) : Option Name := do
  let ext := ((buf.drop 8).take 3).takeWhile visible
  let p ← unpad buf 8
  if ext ≠ [] then
    let buf ← store buf p [0x2e, 0]
    appendExt buf p ext
  else store buf p [0]

/-- `fat_parse_short_name`, with the contents of the buffer before and after. -/
def parseShortName (buf : Name) : Name → Option Name
  | [] => some buf
  | first :: rest =>
    if first = 0 then some buf
    else do
      kassert (visible first ∨ first = 0x05)
      stripPadding ((if first = 0x05 then 0xe5 else first) :: rest ++ [0, 0])

/-! ## The string in the buffer -/

lemma unpad_eq {buf : Name} {p : Nat} (le : p ≤ buf.length) (pos : 0 < p)
    (first : buf[0]? ≠ some 0x20) :
    unpad buf p = some ((buf.take p).rdropWhile (· = 0x20)).length := by
  induction p with
  | zero => cases pos
  | succ p ih =>
    rw [unpad, take_add_one, getElem?_eq_getElem le, toList_some]
    split_ifs with space
    · rw [rdropWhile_concat_pos _ _ _ (by simpa using space)]
      refine ih (by omega) (Nat.pos_of_ne_zero fun zero => first ?_)
      subst zero
      rwa [getElem?_eq_getElem le]
    · rw [rdropWhile_concat_neg _ _ _ (by simpa using space)]
      simp
      omega

lemma store_string {buf bytes : Name} {p : Nat} (le : p + bytes.length + 1 ≤ buf.length) :
    (store buf p (bytes ++ [0])).map (·.takeWhile (· ≠ 0)) =
      some ((buf.take p ++ bytes).takeWhile (· ≠ 0)) := by
  have cut (l r : Name) : (l ++ 0 :: r).takeWhile (· ≠ 0) = l.takeWhile (· ≠ 0) := by
    rw [takeWhile_append]
    split_ifs with whole
    · simpa using takeWhile_prefix _ |>.eq_of_length whole |>.symm
    · rfl
  rw [store, if_pos (by rwa [length_append, length_singleton, ← Nat.add_assoc]),
    map_some, ← append_assoc, append_assoc, singleton_append, cut]

lemma stripPadding_string {name : Name} (len : name.length = 11) (start : name[0]? ≠ some 0x20) :
    let base := (name.take 8).rdropWhile (· = 0x20)
    let ext := (name.drop 8).takeWhile visible
    (stripPadding (name ++ [0, 0])).map (·.takeWhile (· ≠ 0)) =
      some ((base ++ if ext = [] then [] else 0x2e :: ext).takeWhile (· ≠ 0)) := by
  have first : (name ++ [0, 0])[0]? ≠ some 0x20 := by rwa [getElem?_append_left (by omega)]
  have eight : (name ++ [0, 0]).take 8 = name.take 8 := take_append_of_le_length (by omega)
  have three : ((name ++ [0, 0]).drop 8).take 3 = name.drop 8 := by
    rw [drop_append_of_le_length (by omega), take_append_of_le_length (by simp [len])]
    exact take_of_length_le (by simp [len])
  -- the name without its padding is what is before the pointer
  have isPrefix : (name.take 8).rdropWhile (· = 0x20) <+: name ++ [0, 0] :=
    rdropWhile_prefix _ _ |>.trans (eight ▸ take_prefix 8 (name ++ [0, 0]))
  have before := prefix_iff_eq_take.mp isPrefix
  have short := rdropWhile_prefix (· = (0x20 : UInt8)) (name.take 8) |>.length_le
  have few : ((name.drop 8).takeWhile visible).length ≤ 3 := by
    simpa [len] using takeWhile_prefix (l := name.drop 8) visible |>.length_le
  rw [length_take, len] at short
  rw [stripPadding, unpad_eq (by simp [len]) (by decide) first, eight, three]
  generalize (name.take 8).rdropWhile (· = 0x20) = base at before short ⊢
  generalize (name.drop 8).takeWhile visible = ext at few ⊢
  by_cases blank : ext = []
  · have ends := @store_string (name ++ [0, 0]) [] base.length (by simp [len]; omega)
    simpa [blank, ← before] using ends
  · have dot : store (name ++ [0, 0]) base.length [0x2e, 0] =
        some (base ++ [0x2e, 0] ++ (name ++ [0, 0]).drop (base.length + 2)) := by
      rw [store, if_pos (by simp [len]; omega), ← before]
      rfl
    have ends := @store_string (base ++ [0x2e, 0] ++ (name ++ [0, 0]).drop (base.length + 2)) ext
      (base.length + 1) (by simp [len]; omega)
    have fits : ext.take (5 - 1 - 1) = ext := take_of_length_le few
    simpa [blank, dot, appendExt, fits, take_length_add_append] using ends

/-- The functional model says which string is left in the buffer. -/
lemma parseShortName_string {name : Name} (buf : Name) (len : name.length = 11)
    (some_name : name[0]? ≠ some 0) :
    (parseShortName buf name).map (·.takeWhile (· ≠ 0)) = fatParseShortName name := by
  obtain _ | ⟨first, rest⟩ := name
  · cases len
  have nonzero : first ≠ 0 := by simpa using some_name
  rw [parseShortName, if_neg nonzero, fatParseShortName, if_neg nonzero]
  by_cases shown : visible first ∨ first = 0x05
  · rw [if_neg (not_not_intro shown), kassert, if_pos shown]
    refine stripPadding_string (by simpa using len) ?_
    split_ifs
    · simp
    · rintro space
      simp [visible, some.inj space] at shown
  · simp [kassert, shown]

/-! ## Legal names -/

/-- A short name. Of the characters that FAT forbids, only those up to the space matter. -/
structure ShortName where
  base : Name
  ext : Name
  some_base : base ≠ []
  base_le : base.length ≤ 8
  ext_le : ext.length ≤ 3
  chars : ∀ c ∈ base ++ ext, 0x20 < c

namespace ShortName

variable (n : ShortName)

/-- The first character, where 0x05 is stored for 0xe5. -/
def first : UInt8 := n.base.head n.some_base

/-- The bytes in the directory entry. -/
def onDisk : Name :=
  ((if n.first = 0xe5 then 0x05 else n.first) :: n.base.tail ++
    replicate (8 - n.base.length) 0x20) ++ (n.ext ++ replicate (3 - n.ext.length) 0x20)

/-- The name without the padding, and the extension if there is one. -/
def readable : Name := n.base ++ if n.ext = [] then [] else 0x2e :: n.ext

lemma base_eq : n.first :: n.base.tail = n.base := cons_head_tail _

lemma space_lt_first : 0x20 < n.first := n.chars _ (mem_append_left _ (head_mem _))

lemma stored_ne_zero : (if n.first = 0xe5 then (0x05 : UInt8) else n.first) ≠ 0 := by
  split_ifs
  · decide
  · exact fun zero => absurd (zero ▸ n.space_lt_first) (by decide)

lemma rdropWhile_padded (k : Nat) :
    (n.base ++ replicate k 0x20).rdropWhile (· = 0x20) = n.base := by
  induction k with
  | zero =>
    rw [replicate_zero, append_nil, rdropWhile_eq_self_iff]
    intro some_base
    have above := n.chars _ (mem_append_left _ (getLast_mem some_base))
    simpa using (UInt8.ne_of_lt above).symm
  | succ k ih => rwa [replicate_succ', ← append_assoc, rdropWhile_concat_pos _ _ _ (by simp)]

lemma takeWhile_padded (l : Name) (k : Nat) :
    (l ++ replicate k 0x20).takeWhile visible = l.takeWhile visible := by
  have spaces : (replicate k (0x20 : UInt8)).takeWhile visible = [] := by cases k <;> rfl
  rw [takeWhile_append, spaces, append_nil]
  split_ifs with all
  · exact takeWhile_prefix _ |>.eq_of_length all |>.symm
  · rfl

lemma fatParseShortName_onDisk : fatParseShortName n.onDisk =
    if n.first < 0x80 ∨ n.first = 0xe5 then
      some (n.base ++ if n.ext.takeWhile visible = [] then [] else 0x2e :: n.ext.takeWhile visible)
    else none := by
  have above := n.space_lt_first
  have not_five : n.first ≠ 0x05 := fun five => absurd (five ▸ above) (by decide)
  have shown : (visible (if n.first = 0xe5 then 0x05 else n.first) ∨
      (if n.first = 0xe5 then (0x05 : UInt8) else n.first) = 0x05) ↔ n.first < 0x80 ∨
        n.first = 0xe5 := by
    split_ifs with escaped <;> simp [visible, above, not_five, escaped]
  have restored : (if (if n.first = 0xe5 then (0x05 : UInt8) else n.first) = 0x05 then 0xe5
      else if n.first = 0xe5 then 0x05 else n.first) = n.first := by
    split_ifs <;> simp_all
  have eight : (n.base ++ replicate (8 - n.base.length) (0x20 : UInt8)).length = 8 := by
    have := n.base_le
    simp only [length_append, length_replicate]
    omega
  have clean (ext : Name) (sub : ∀ c ∈ ext, c ∈ n.ext) :
      (n.base ++ if ext = [] then [] else 0x2e :: ext).takeWhile (· ≠ 0) =
        n.base ++ if ext = [] then [] else 0x2e :: ext := by
    rw [takeWhile_eq_self_iff]
    intro c mem
    have char : c = 0x2e ∨ c ∈ n.base ++ n.ext := by
      split_ifs at mem <;> grind
    obtain rfl | mem := char
    · rfl
    · simpa using (UInt8.ne_of_lt (UInt8.lt_trans (by decide) (n.chars c mem))).symm
  rw [onDisk, cons_append, cons_append, fatParseShortName, if_neg n.stored_ne_zero, tail_cons]
  simp only [ite_not, shown, restored]
  rw [← cons_append, ← cons_append, base_eq, take_left' eight, drop_left' eight, rdropWhile_padded,
    takeWhile_padded, clean _ fun c mem => takeWhile_prefix _ |>.subset mem]

/-- The name is right if the compared characters are seven bit ones. -/
theorem parseShortName_iff (buf : Name) :
    (parseShortName buf n.onDisk).map (·.takeWhile (· ≠ 0)) = some n.readable ↔
      (n.first < 0x80 ∨ n.first = 0xe5) ∧ ∀ c ∈ n.ext, c < 0x80 := by
  have len : n.onDisk.length = 11 := by
    have := n.base_le
    have := n.ext_le
    have := length_pos_of_ne_nil n.some_base
    simp only [onDisk, length_append, length_cons, length_tail, length_replicate]
    omega
  have nonzero : n.onDisk[0]? ≠ some 0 := by simpa [onDisk] using n.stored_ne_zero
  have seven : n.ext.takeWhile visible = n.ext ↔ ∀ c ∈ n.ext, c < 0x80 := by
    rw [takeWhile_eq_self_iff]
    refine forall₂_congr fun c mem => ?_
    simp [visible, n.chars c (mem_append_right _ mem)]
  rw [parseShortName_string buf len nonzero, fatParseShortName_onDisk, ← seven]
  by_cases shown : n.first < 0x80 ∨ n.first = 0xe5
  · rw [if_pos shown, some.injEq, readable, append_right_inj, and_iff_right shown]
    generalize n.ext.takeWhile visible = ext
    split_ifs <;> simp_all
  · simp [shown]

/-- The name `ÉA`, in code page 437. -/
def highName : ShortName where
  base := [0x90, 0x41]
  ext := []
  some_base := by decide
  base_le := by decide
  ext_le := by decide
  chars := by simp

/-- The name `A.TÉX`. -/
def highExt : ShortName where
  base := [0x41]
  ext := [0x54, 0x90, 0x58]
  some_base := by decide
  base_le := by decide
  ext_le := by decide
  chars := by simp

/-- The first name fails the assertion, and the second becomes `A.T`. -/
theorem parseShortName_highBytes : parseShortName (replicate 13 0) highName.onDisk = none ∧
    (parseShortName (replicate 13 0) highExt.onDisk).map (·.takeWhile (· ≠ 0)) =
      some [0x41, 0x2e, 0x54] := by
  decide

end ShortName

end ExscapeOS.Fat
