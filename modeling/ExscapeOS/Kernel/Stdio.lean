import ExscapeOS.Lib.Word

/-!
# Reading a line from the keyboard

`stdio_read` stores the keys until a line ends or only the place for the terminating zero is left.
It keeps the place of the next byte and, separately, the number of bytes. A buffer of length zero
has no place for the zero, and Ctrl-D on an empty line ends the call.
-/
namespace ExscapeOS.Stdio

open Lib List Option

/-- The buffer, with the pointer `p` as an offset, and the result so far. -/
structure Reading where
  buf : List UInt8
  p : Nat
  ret : Int
  deriving DecidableEq

/-- Ctrl-D, for which `getchar` returns -1, and the `char` -1. -/
def IsEof (key : UInt8) : Prop := key = 4 ∨ key = 255

/-- Carriage return and newline. -/
def IsNewline (key : UInt8) : Prop := key = 13 ∨ key = 10

instance (key : UInt8) : Decidable (IsEof key) := inferInstanceAs (Decidable (_ ∨ _))

instance (key : UInt8) : Decidable (IsNewline key) := inferInstanceAs (Decidable (_ ∨ _))

/-- A byte is stored in the buffer; a place outside of it is an error. -/
def store (buf : List UInt8) (p : Nat) (c : UInt8) : Option (List UInt8) := do
  kassert (p < buf.length)
  return buf.set p c

/-- The loop, for the keys that are typed. It waits for more, or gives the result and the buffer. -/
def readLoop (keys : List UInt8) (s : Reading) : Option (Reading ⊕ Int × List UInt8) :=
  if s.p + 1 < s.buf.length then
    match keys with
    | [] => some (.inl s)
    | c :: keys =>
      if c = 8 then
        if 0 < s.p then readLoop keys { s with p := s.p - 1, ret := s.ret - 1 } else readLoop keys s
      else if IsEof c then
        if 0 < s.ret then readLoop keys s else some (.inr (0, s.buf))
      else if IsNewline c then do
        let buf ← store s.buf s.p c
        let buf ← store buf (s.p + 1) 0
        return .inr (s.ret + 1, buf)
      else do
        let buf ← store s.buf s.p c
        readLoop keys { buf := buf, p := s.p + 1, ret := s.ret + 1 }
  else do
    kassert (s.p < s.buf.length)
    let buf ← store s.buf s.p 0
    return .inr (s.ret, buf)

/-- `stdio_read`; `ino` is what `get_filp` finds for the descriptor. -/
def stdioRead (ino : Option Nat) (fd : Int) (buf keys : List UInt8) :
    Option (Reading ⊕ Int × List UInt8) :=
  match ino with
  | none => some (.inr (-9, buf))
  | some ino =>
    if ino ≠ 0 then do
      kassert (ino ≤ 2)
      return .inr (0, buf)
    else if fd ≠ 0 then some (.inr (0, buf))
    else readLoop keys { buf := buf, p := 0, ret := 0 }

/-! ## The line -/

/-- A line that is edited: it is still open, or it has ended. -/
inductive Line where
  | pending (bytes : List UInt8)
  | ended (bytes : List UInt8)

/-- The keys applied to a line with `room` for it. Backspace deletes the last byte; Ctrl-D stores
nothing. -/
def edit (room : Nat) (keys line : List UInt8) : Line :=
  if line.length < room then
    match keys with
    | [] => .pending line
    | c :: keys =>
      if c = 8 then edit room keys line.dropLast
      else if IsEof c then edit room keys line
      else if IsNewline c then .ended (line ++ [c])
      else edit room keys (line ++ [c])
  else .ended line

/-- The call waits with the open line in the buffer, or has returned its length. -/
def Reads (length : Nat) : Line → Option (Reading ⊕ Int × List UInt8) → Prop
  | .pending line, some (.inl s) => s.buf.length = length ∧ s.buf.take s.p = line
  | .ended line, some (.inr (ret, buf)) =>
    buf.length = length ∧ ret = line.length ∧ buf.take line.length = line
  | _, _ => False

/-- Ctrl-D is not typed while the line is open and empty. -/
def NoEof (room : Nat) (keys line : List UInt8) : Prop :=
  ∀ before key after, keys = before ++ key :: after → IsEof key →
    edit room before line ≠ .pending []

section Keys

variable {room : Nat} {key : UInt8} {keys line : List UInt8}

lemma edit_full (full : ¬ line.length < room) : edit room keys line = .ended line := by
  rw [edit.eq_def, if_neg full]

lemma edit_ended_ne_nil (space : 0 < room) {line' : List UInt8}
    (ended : edit room keys line = .ended line') : line' ≠ [] := by
  induction keys generalizing line <;> grind [edit, append_eq_nil_iff]

lemma noEof_cons {line' : List UInt8} (space : line.length < room)
    (next : ∀ keys, edit room (key :: keys) line = edit room keys line') :
    NoEof room (key :: keys) line ↔ (IsEof key → line ≠ []) ∧ NoEof room keys line' := by
  have first : edit room [] line = .pending line := by rw [edit.eq_def, if_pos space]
  constructor
  · intro h
    refine ⟨fun eof empty => h [] key keys rfl eof (by rw [first, empty]), ?_⟩
    rintro before k after rfl eof
    rw [← next]
    exact h (key :: before) k after rfl eof
  · rintro ⟨head, tail⟩ before k after eq eof
    cases before with
    | nil =>
      obtain ⟨rfl, -⟩ := List.cons.inj eq
      simpa [first] using head eof
    | cons _ before =>
      obtain ⟨rfl, rfl⟩ := List.cons.inj eq
      rw [next]
      exact tail before k after rfl eof

lemma noEof_ended (eof : ¬ IsEof key) {line' : List UInt8}
    (ended : ∀ keys, edit room (key :: keys) line = .ended line') :
    NoEof room (key :: keys) line := by
  intro before k after eq isEof
  cases before with
  | nil => exact absurd ((List.cons.inj eq).1 ▸ isEof) eof
  | cons _ before =>
    obtain ⟨rfl, -⟩ := List.cons.inj eq
    rw [ended]
    nofun

end Keys

lemma store_eq {buf : List UInt8} {p : Nat} (inside : p < buf.length) (c : UInt8) :
    store buf p c = some (buf.set p c) := by
  simp [store, kassert, inside]

/-- The buffer holds the line, whose length is `p` and the result so far. -/
structure Stored (s : Reading) (line : List UInt8) : Prop where
  place : s.p = line.length
  ret : s.ret = line.length
  stored : s.buf.take line.length = line
  inside : line.length < s.buf.length

namespace Stored

variable {s : Reading} {line : List UInt8}

variable (h : Stored s line)
include h

lemma set (c : UInt8) :
    (s.buf.set line.length c).take (line.length + 1) = line ++ [c] := by
  rw [take_add_one, take_set_of_le le_rfl, h.stored, getElem?_set_self h.inside]
  rfl

lemma backspace (nonempty : 0 < s.p) :
    Stored { s with p := s.p - 1, ret := s.ret - 1 } line.dropLast where
  place := by simp [h.place]
  ret := by
    have := h.place
    simp [h.ret]
    omega
  stored := by
    rw [length_dropLast, dropLast_eq_take, ← h.stored, take_take]
    simp
  inside := by
    have := h.inside
    simp
    omega

lemma append (more : s.p + 1 < s.buf.length) (c : UInt8) :
    Stored { buf := s.buf.set s.p c, p := s.p + 1, ret := s.ret + 1 } (line ++ [c]) where
  place := by simp [h.place]
  ret := by simp [h.ret]
  stored := by
    rw [h.place, length_append]
    exact h.set c
  inside := by simpa [← h.place] using more

lemma full (full : ¬ line.length < s.buf.length - 1) (keys : List UInt8) :
    Reads s.buf.length (.ended line) (readLoop keys s) := by
  have done : readLoop keys s = some (.inr (s.ret, s.buf.set s.p 0)) := by
    have := h.place
    have := h.inside
    rw [readLoop.eq_def, if_neg (by omega)]
    simp [kassert, store_eq, h.place, h.inside]
  rw [done, h.place]
  exact ⟨length_set, h.ret, by rw [take_set_of_le le_rfl, h.stored]⟩

end Stored

/-- The loop keeps the line in the buffer. -/
lemma readLoop_iff (keys : List UInt8) {s : Reading} {line : List UInt8} (h : Stored s line) :
    Reads s.buf.length (edit (s.buf.length - 1) keys line) (readLoop keys s) ↔
      NoEof (s.buf.length - 1) keys line := by
  induction keys generalizing s line with
  | nil =>
    refine iff_of_true ?_ fun before key after eq => by simp at eq
    rw [edit.eq_def]
    split_ifs with space
    · have more : s.p + 1 < s.buf.length := by have := h.place; omega
      rw [readLoop.eq_def, if_pos more]
      exact ⟨rfl, h.place ▸ h.stored⟩
    · exact h.full space []
  | cons key keys ih =>
    by_cases space : line.length < s.buf.length - 1
    swap
    · rw [edit_full space]
      exact iff_of_true (h.full space _) fun before k after _ _ => by rw [edit_full space]; nofun
    have more : s.p + 1 < s.buf.length := by have := h.place; omega
    have pressed (keys : List UInt8) := edit.eq_def (s.buf.length - 1) (key :: keys) line
    simp only [if_pos space] at pressed
    rw [readLoop.eq_def, if_pos more]
    by_cases backspace : key = 8
    · simp only [if_pos backspace] at pressed ⊢
      have noEof : ¬ IsEof key := by rw [backspace]; decide
      rw [pressed, noEof_cons space pressed, and_iff_right fun eof => absurd eof noEof]
      split_ifs with nonempty
      · exact ih (h.backspace nonempty)
      · obtain rfl : line = [] := length_eq_zero_iff.mp (by have := h.place; omega)
        exact ih h
    by_cases eof : IsEof key
    · simp only [if_neg backspace, if_pos eof] at pressed ⊢
      rw [pressed, noEof_cons space pressed]
      split_ifs with nonempty
      · rw [ih h, and_iff_right fun _ empty => by simp [h.ret, empty] at nonempty]
      · -- the call returns without a line
        obtain rfl : line = [] := length_eq_zero_iff.mp (by have := h.ret; omega)
        refine iff_of_false (fun reads => ?_) fun no => no.1 eof rfl
        cases after : edit (s.buf.length - 1) keys [] with
        | pending line => simp [Reads, after] at reads
        | ended line =>
          rw [after] at reads
          exact edit_ended_ne_nil (by omega) after (by simpa using reads.2.1.symm)
    by_cases newline : IsNewline key
    · simp only [if_neg backspace, if_neg eof, if_pos newline] at pressed ⊢
      refine iff_of_true ?_ (noEof_ended eof pressed)
      rw [pressed, store_eq (by omega)]
      simp only [bind, bind_some, store_eq (show s.p + 1 < (s.buf.set s.p key).length by simpa)]
      refine ⟨by simp, by simp [h.ret], ?_⟩
      rw [h.place, length_append, length_singleton, take_set_of_le le_rfl, h.set]
    simp only [if_neg backspace, if_neg eof, if_neg newline] at pressed ⊢
    rw [pressed, noEof_cons space pressed, and_iff_right fun h => absurd h eof, store_eq (by omega)]
    have next := ih (h.append more key)
    rw [length_set] at next
    exact next

/-- A read of the standard input gives the line that the keys make, exactly if the buffer has a byte
for the terminating zero and Ctrl-D is not typed on an empty line. -/
theorem stdioRead_iff (buf keys : List UInt8) :
    Reads buf.length (edit (buf.length - 1) keys []) (stdioRead (some 0) 0 buf keys) ↔
      0 < buf.length ∧ NoEof (buf.length - 1) keys [] := by
  by_cases nonempty : 0 < buf.length
  · rw [and_iff_right nonempty]
    exact readLoop_iff keys (s := { buf := buf, p := 0, ret := 0 }) ⟨rfl, rfl, rfl, nonempty⟩
  · obtain rfl : buf = [] := length_eq_zero_iff.mp (by omega)
    refine iff_of_false ?_ (by simp)
    have fails : stdioRead (some 0) 0 [] keys = none := by
      simp [stdioRead, readLoop.eq_def, kassert]
    rw [fails]
    cases edit _ keys [] <;> exact id

/-- A read of zero bytes fails the assertion, and Ctrl-D ends a read at once. -/
theorem stdioRead_fails : stdioRead (some 0) 0 [] [] = none ∧
    stdioRead (some 0) 0 [0, 0, 0] [4, 97, 10] = some (.inr (0, [0, 0, 0])) := by
  decide

end ExscapeOS.Stdio
