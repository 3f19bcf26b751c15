import ExscapeOS.Kernel.Fat.Read

/-!
# Reading files of the initrd

A program moves through a file with `lseek` and `read`. The kernel keeps a 64-bit offset. `lseek` of
the C library takes 0 for a negative result, and turns it into -1: a program that goes to the start
of a file is told that this has failed.
-/
namespace ExscapeOS.Initrd

open Lib
open Fat (Whence)

/-- A regular file: the bytes from `offset` on in the image. -/
structure RegularFile where
  data : List UInt8
  /-- `length` in the header is a 32-bit word. -/
  small : data.length < 2 ^ 32

/-- What a program asks for. -/
inductive Call where
  | lseek (offset : Int64) (whence : Whence)
  /-- The buffer is one that the program may write to. -/
  | read (length : UInt32)

/-- What it gets: the result, and the bytes in its buffer. -/
structure Answer where
  ret : Int
  bytes : List UInt8
  deriving DecidableEq

namespace RegularFile

variable (file : RegularFile)

/-! ## The kernel -/

/-- `initrd_lseek`: the result and the new offset. -/
def initrdLseek (offset : Int) (whence : Whence) (pos : Int) : Option (Int × Int) :=
  match whence with
  | .set => if offset < 0 then some (-22, pos) else moved offset
  | .cur => if wrap64 (offset + pos) < 0 then some (-22, pos) else moved (wrap64 (pos + offset))
  | .end =>
    if wrap64 (file.data.length + offset) < 0 then some (-22, pos)
    else moved (wrap64 (file.data.length + offset))
  | .other => some (-22, pos)
where
  moved (new : Int) : Option (Int × Int) := do
    kassert (0 ≤ new)
    return (new, new)

/-- `initrd_read`: the result, the copied bytes and the new offset. -/
def initrdRead (length : Nat) (pos : Int) : Option (Int × List UInt8 × Int) :=
  if file.data.length ≤ pos then some (0, [], pos)
  else
    let length :=
      if file.data.length < wrap64 (pos + length) then ((file.data.length - pos) % 2 ^ 32).toNat
      else length
    if length = 0 then some (0, [], pos)
    else do
      kassert (0 ≤ pos)
      return (signed32 length, (file.data.drop pos.toNat).take length, wrap64 (pos + length))

/-! ## The library -/

/-- A call of a program. -/
def call (pos : Int) : Call → Option (Answer × Int)
  | .lseek offset whence => do
    let (ret, pos) ← file.initrdLseek offset.toInt whence pos
    return (⟨if 0 < ret then ret else -1, []⟩, pos)
  | .read length => do
    let (ret, bytes, pos) ← file.initrdRead length.toNat pos
    return (⟨if ret < 0 then -1 else ret, bytes⟩, pos)

def calls : Int → List Call → Option (List Answer)
  | _, [] => some []
  | pos, c :: cs => do
    let (answer, pos) ← file.call pos c
    let answers ← calls pos cs
    return answer :: answers

/-! ## The offset model -/

/-- The offset that a call of `lseek` asks for. -/
def target (offset : Int) (pos : Nat) : Whence → Option Int
  | .set => some offset
  | .cur => some (pos + offset)
  | .end => some (file.data.length + offset)
  | .other => none

/-- What POSIX asks for. -/
def posix (pos : Nat) : Call → Answer × Nat
  | .lseek offset whence =>
    match file.target offset.toInt pos whence with
    | some new => if 0 ≤ new ∧ new < 2 ^ 63 then (⟨new, []⟩, new.toNat) else (⟨-1, []⟩, pos)
    | none => (⟨-1, []⟩, pos)
  | .read length =>
    let count := min length.toNat (file.data.length - pos)
    (⟨count, (file.data.drop pos).take count⟩, pos + count)

def posixCalls : Nat → List Call → List Answer
  | _, [] => []
  | pos, c :: cs => (file.posix pos c).1 :: posixCalls (file.posix pos c).2 cs

/-- The call does not go to the start of the file, or read 2 GiB or more. -/
def Avoids (pos : Nat) : Call → Prop
  | .lseek offset whence => file.target offset.toInt pos whence ≠ some 0
  | .read length => min length.toNat (file.data.length - pos) < 2 ^ 31

def AvoidAll : Nat → List Call → Prop
  | _, [] => True
  | pos, c :: cs => file.Avoids pos c ∧ AvoidAll (file.posix pos c).2 cs

variable {file} {pos : Nat}

/-- A sum wrapped to 64 bits is negative, or the offset that is asked for. -/
lemma moved_wrap64 (pos : Nat) {new : Int} (ge : -2 ^ 63 ≤ new) (lt : new < 2 ^ 64) :
    (if wrap64 new < 0 then some (-22, (pos : Int)) else initrdLseek.moved (wrap64 new)) =
      if 0 ≤ new ∧ new < 2 ^ 63 then some (new, new) else some (-22, (pos : Int)) := by
  by_cases fits : 0 ≤ new ∧ new < 2 ^ 63
  · rw [wrap64_eq ge fits.2, if_neg (not_lt.mpr fits.1), if_pos fits]
    simp [initrdLseek.moved, kassert, fits.1]
  · rw [if_pos (wrap64_neg ge lt fits), if_neg fits]

lemma initrdLseek_eq (position : pos < 2 ^ 63) (offset : Int64) (whence : Whence) :
    file.initrdLseek offset.toInt whence pos =
      match file.target offset.toInt pos whence with
      | some new => if 0 ≤ new ∧ new < 2 ^ 63 then some (new, new) else some (-22, (pos : Int))
      | none => some (-22, (pos : Int)) := by
  have small := file.small
  have ge := offset.le_toInt
  have lt := offset.toInt_lt
  cases whence with
  | set =>
    have own := moved_wrap64 pos ge (show offset.toInt < 2 ^ 64 by omega)
    rwa [wrap64_eq ge lt] at own
  | cur =>
    rw [initrdLseek, Int.add_comm]
    exact moved_wrap64 pos (by omega) (by omega)
  | «end» => exact moved_wrap64 pos (by omega) (by omega)
  | other => rfl

lemma initrdRead_eq (position : pos < 2 ^ 63) (length : UInt32) :
    file.initrdRead length.toNat pos =
      some (signed32 (min length.toNat (file.data.length - pos)),
        (file.data.drop pos).take (min length.toNat (file.data.length - pos)),
        ((pos + min length.toNat (file.data.length - pos) : Nat) : Int)) := by
  have small := file.small
  have short := length.toNat_lt
  rw [initrdRead]
  split
  · have none_left : min length.toNat (file.data.length - pos) = 0 := by omega
    simp [none_left, signed32]
  · have sum : wrap64 ((pos : Int) + (length.toNat : Int)) = pos + length.toNat :=
      wrap64_eq (by omega) (by omega)
    have count : (if (file.data.length : Int) < wrap64 (pos + length.toNat) then
        (((file.data.length : Int) - pos) % 2 ^ 32).toNat else length.toNat) =
          min length.toNat (file.data.length - pos) := by
      split <;> omega
    simp only [count]
    split
    · rename_i zero
      simp [zero, signed32]
    · have nonneg : (0 : Int) ≤ pos := Int.natCast_nonneg pos
      rw [wrap64_eq (by omega) (by omega)]
      simp [kassert, nonneg]

/-- The kernel follows the offset of the model. The answer is that of the model exactly if the call
avoids the start of the file. -/
lemma call_eq (position : pos < 2 ^ 63) (c : Call) : (file.posix pos c).2 < 2 ^ 63 ∧
    ∃ answer, file.call pos c = some (answer, ((file.posix pos c).2 : Int)) ∧
      (answer = (file.posix pos c).1 ↔ file.Avoids pos c) := by
  cases c with
  | lseek offset whence =>
    simp only [call, initrdLseek_eq position, posix, Avoids]
    cases file.target offset.toInt pos whence with
    | none => exact ⟨position, _, rfl, by simp⟩
    | some new =>
      by_cases fits : 0 ≤ new ∧ new < 2 ^ 63
      · simp only [if_pos fits]
        refine ⟨by omega, _, by simp [fits.1]; rfl, ?_⟩
        simp only [Answer.mk.injEq, and_true, ne_eq, Option.some.injEq]
        split <;> omega
      · have not_start : new ≠ 0 := by omega
        simp only [if_neg fits]
        exact ⟨position, _, rfl, by simp [not_start]⟩
  | read length =>
    have small := file.small
    simp only [call, initrdRead_eq position, posix, Avoids]
    refine ⟨by omega, _, rfl, ?_⟩
    simp only [Answer.mk.injEq, and_true, signed32]
    split <;> split <;> omega

lemma calls_eq_iff (position : pos < 2 ^ 63) (cs : List Call) :
    (∃ answers, file.calls pos cs = some answers) ∧
      (file.calls pos cs = some (file.posixCalls pos cs) ↔ file.AvoidAll pos cs) := by
  induction cs generalizing pos with
  | nil => exact ⟨⟨[], rfl⟩, by simp [calls, posixCalls, AvoidAll]⟩
  | cons c cs ih =>
    obtain ⟨position', answer, called, same⟩ := call_eq position c
    obtain ⟨⟨answers, ran⟩, iff⟩ := ih position'
    have all : file.calls pos (c :: cs) = some (answer :: answers) := by
      rw [calls, called]
      simp [ran]
    refine ⟨⟨_, all⟩, ?_⟩
    rw [ran] at iff
    rw [all, posixCalls, AvoidAll, ← same, ← iff]
    simp

/-- The answers to a sequence of calls are those of the offset model exactly if none goes to the
start of the file or reads 2 GiB or more. -/
theorem answers_posix_iff (file : RegularFile) (cs : List Call) :
    file.calls 0 cs = some (file.posixCalls 0 cs) ↔ file.AvoidAll 0 cs :=
  (calls_eq_iff (by decide) cs).2

end RegularFile

/-- The start of the file is reached, but the answer is -1. -/
theorem rewind_fails :
    let file : RegularFile := ⟨[0x61, 0x62], by decide⟩
    file.calls 0 [.read 1, .lseek 0 .set, .read 1] =
      some [⟨1, [0x61]⟩, ⟨-1, []⟩, ⟨1, [0x61]⟩] ∧
    file.posixCalls 0 [.read 1, .lseek 0 .set, .read 1] = [⟨1, [0x61]⟩, ⟨0, []⟩, ⟨1, [0x61]⟩] := by
  decide +kernel

end ExscapeOS.Initrd
