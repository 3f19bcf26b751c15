import Mathlib.Data.List.TakeWhile
import ExscapeOS.Lib.Loop
import ExscapeOS.Lib.Word

/-!
# `parse_command_line`

The first pass counts runs of spaces to find out how many arguments there can be; the second one
copies an argument to a buffer on the stack. It only goes on at characters that it knows: a round
that begins at a control character, or at one above `0x7f`, which is negative, changes nothing.

The characters of a line are those before the zero at its end.
-/
namespace ExscapeOS.CommandLine

open Lib List Option

abbrev Str : Type := List UInt8

def space : UInt8 := 0x20
def quotemark : UInt8 := 0x22

/-- `sizeof(arg)`. -/
def argSize : Nat := 256

/-! ## The first pass -/

/-- The number of runs of spaces. The character behind each is skipped. -/
def spaceRuns : Str → Nat
  | [] => 0
  | b :: rest =>
    if b = space then spaceRuns ((rest.dropWhile (· = space)).drop 1) + 1 else spaceRuns rest
termination_by line => line.length
decreasing_by
  · have := (List.dropWhile_suffix (· = space) : rest.dropWhile (· = space) <:+ rest).length_le
    simp
    omega
  · simp

def maxArgs (cmdline : Str) : Nat := spaceRuns cmdline + 1

/-! ## The second pass -/

structure Parser where
  /-- The line from `c` on. -/
  rest : Str
  /-- The first `ai` characters of the buffer. -/
  arg : Str
  quote : Bool
  argv : List (Option Str)
  argc : Nat

/-- `*c > ' '`, for a signed character. -/
def aboveSpace (b : UInt8) : Bool := 0x20 < b ∧ b < 0x80

/-- A character that is copied. -/
def regular (quote : Bool) (b : UInt8) : Bool :=
  aboveSpace b ∧ b ≠ quotemark ∨ b = space ∧ quote

/-- The loop that copies characters: the rest of the line and the buffer. There is no result if it
leaves the buffer. -/
def copyRegular (quote : Bool) : Str → Str → Option (Str × Str)
  | [], arg => some ([], arg)
  | b :: rest, arg =>
    if regular quote b then
      if arg.length < argSize then copyRegular quote rest (arg ++ [b]) else none
    else some (b :: rest, arg)

/-- An argument is saved, if it is inside the buffer and the array. -/
def save (maxArgs : Nat) (p : Parser) : Option Parser := do
  kassert (p.arg.length < argSize)
  kassert (p.argc < p.argv.length)
  kassert (p.argc < maxArgs)
  return { p with arg := [], argv := p.argv.set p.argc (some p.arg), argc := p.argc + 1 }

/-- The end of a round: the argument is saved, and spaces are skipped. -/
def endRound (maxArgs : Nat) (p : Parser) : Option Parser := do
  let p ←
    if p.rest.head? = some space ∧ p.quote = false ∨ p.rest = [] then save maxArgs p else some p
  return { p with rest := p.rest.dropWhile (· = space) }

def round (maxArgs : Nat) (p : Parser) : Option (Parser ⊕ Parser) :=
  if p.rest = [] then some (.inr p)
  else do
    let (rest, arg) ← copyRegular p.quote p.rest p.arg
    match rest with
    | [] => (endRound maxArgs { p with rest := [], arg := arg }).map .inl
    | b :: behind =>
      if b = quotemark then
        let p := { p with rest := behind, arg := arg, quote := !p.quote }
        if behind ≠ [] then some (.inl p) else (endRound maxArgs p).map .inl
      else (endRound maxArgs { p with rest := b :: behind, arg := arg }).map .inl

def start (cmdline : Str) : Parser where
  rest := cmdline.dropWhile (· = space)
  arg := []
  quote := false
  argv := .replicate (maxArgs cmdline + 1) none
  argc := 0

/-- `parse_command_line` with a number of rounds: `argv` and `argc`. -/
def parseCommandLine (fuel : Nat) (cmdline : Str) : Option (Option (List (Option Str) × Nat)) :=
  (loop (attempt (round (maxArgs cmdline))) fuel (start cmdline)).map
    fun r => r.map fun p => (p.argv, p.argc)

/-! ## The reference -/

/-- The characters, with whether they are within quotes. -/
def quoted : Bool → Str → List (UInt8 × Bool)
  | _, [] => []
  | q, b :: rest => (b, q) :: quoted (q ^^ b == quotemark) rest

def separator (c : UInt8 × Bool) : Bool := c.1 = space ∧ c.2 = false

def unquote (piece : List (UInt8 × Bool)) : Str := (piece.map Prod.fst).filter (· ≠ quotemark)

/-- The parts of the line between spaces outside quotes, without the quotes. -/
def arguments (line : Str) : List Str :=
  (((quoted false line).splitOnP separator).filter (· ≠ [])).map unquote

/-- The arguments, character by character. `cur` is the part of one before this place. -/
def argumentsFrom : Bool → Option Str → Str → List Str
  | _, cur, [] => cur.toList
  | q, cur, b :: rest =>
    if b = space ∧ q = false then cur.toList ++ argumentsFrom false none rest
    else
      argumentsFrom (q ^^ b == quotemark)
        (some (cur.getD [] ++ if b = quotemark then [] else [b])) rest

/-- The part of an argument that a piece of the line adds. -/
def addPiece (cur : Option Str) (piece : List (UInt8 × Bool)) : List Str :=
  match cur with
  | none => if piece = [] then [] else [unquote piece]
  | some c => [c ++ unquote piece]

lemma addPiece_cons (cur : Option Str) (b : UInt8) (q : Bool) (piece : List (UInt8 × Bool)) :
    addPiece cur ((b, q) :: piece) =
      addPiece (some (cur.getD [] ++ if b = quotemark then [] else [b])) piece := by
  cases cur <;> by_cases mark : b = quotemark <;> simp [addPiece, unquote, mark]

lemma argumentsFrom_eq (q : Bool) (cur : Option Str) (line : Str) :
    ∃ piece pieces, (quoted q line).splitOnP separator = piece :: pieces ∧
      argumentsFrom q cur line = addPiece cur piece ++ (pieces.filter (· ≠ [])).map unquote := by
  induction line generalizing q cur with
  | nil =>
    refine ⟨[], [], by simp [quoted], ?_⟩
    cases cur <;> simp [argumentsFrom, addPiece, unquote]
  | cons b rest ih =>
    rw [quoted, splitOnP_cons_eq_if_modifyHead, argumentsFrom]
    by_cases sep : b = space ∧ q = false
    · obtain ⟨rfl, rfl⟩ := sep
      obtain ⟨piece, pieces, split, eq⟩ := ih false none
      have same : (false ^^ space == quotemark) = false := rfl
      rw [same, split, if_pos (by simp [separator]), if_pos ⟨rfl, rfl⟩, eq]
      refine ⟨[], piece :: pieces, rfl, ?_⟩
      have cur_eq : cur.toList = addPiece cur [] := by cases cur <;> simp [addPiece, unquote]
      rw [cur_eq]
      by_cases none_left : piece = [] <;> simp [addPiece, none_left]
    · obtain ⟨piece, pieces, split, eq⟩ := ih (q ^^ b == quotemark)
        (some (cur.getD [] ++ if b = quotemark then [] else [b]))
      rw [split, if_neg (by simpa [separator] using sep), if_neg sep, eq]
      exact ⟨(b, q) :: piece, pieces, rfl, by rw [addPiece_cons]⟩

lemma arguments_eq (line : Str) : arguments line = argumentsFrom false none line := by
  obtain ⟨piece, pieces, split, eq⟩ := argumentsFrom_eq false none line
  rw [arguments, split, eq]
  by_cases none_left : piece = [] <;> simp [addPiece, none_left]

/-! ## Steps through the line -/

lemma argumentsFrom_space (cur : Option Str) (rest : Str) :
    argumentsFrom false cur (space :: rest) = cur.toList ++ argumentsFrom false none rest := by
  simp [argumentsFrom]

lemma argumentsFrom_quotemark (q : Bool) (cur : Option Str) (rest : Str) :
    argumentsFrom q cur (quotemark :: rest) = argumentsFrom (!q) (some (cur.getD [])) rest := by
  simp [argumentsFrom, quotemark, space]

variable {q : Bool} {b : UInt8}

lemma argumentsFrom_regular (h : regular q b) (cur : Option Str)
    (rest : Str) :
    argumentsFrom q cur (b :: rest) = argumentsFrom q (some (cur.getD [] ++ [b])) rest := by
  have not_mark : b ≠ quotemark := by
    rintro rfl
    revert h
    cases q <;> decide
  have not_sep : ¬ (b = space ∧ q = false) := by
    rintro ⟨rfl, rfl⟩
    revert h
    decide
  have same : (b == quotemark) = false := beq_eq_false_iff_ne.mpr not_mark
  simp [argumentsFrom, not_mark, not_sep, same]

lemma argumentsFrom_spaces (rest : Str) :
    argumentsFrom false none (rest.dropWhile (· = space)) = argumentsFrom false none rest := by
  induction rest with
  | nil => rfl
  | cons b rest ih =>
    rw [dropWhile_cons]
    split
    · rename_i eq
      rw [of_decide_eq_true eq, argumentsFrom_space, ih]
      rfl
    · rfl

lemma argumentsFrom_takeWhile (q : Bool) (arg rest : Str) :
    argumentsFrom q (some (arg ++ rest.takeWhile (regular q))) (rest.dropWhile (regular q)) =
      argumentsFrom q (some arg) rest := by
  induction rest generalizing arg with
  | nil => simp
  | cons b rest ih =>
    by_cases reg : regular q b
    · rw [takeWhile_cons_of_pos reg, dropWhile_cons_of_pos reg, argumentsFrom_regular reg,
        ← ih]
      simp
    · rw [takeWhile_cons_of_neg reg, dropWhile_cons_of_neg reg, append_nil]

lemma exists_argumentsFrom (q : Bool) (arg rest : Str) :
    ∃ a ∈ argumentsFrom q (some arg) rest, arg.length ≤ a.length := by
  induction rest generalizing q arg with
  | nil => exact ⟨arg, by simp [argumentsFrom], le_rfl⟩
  | cons b rest ih =>
    rw [argumentsFrom]
    split
    · exact ⟨arg, by simp, le_rfl⟩
    · obtain ⟨a, mem, le⟩ := ih (q ^^ b == quotemark) ((some arg).getD [] ++
        if b = quotemark then [] else [b])
      refine ⟨a, mem, le_trans ?_ le⟩
      simp

variable {rest : Str}

lemma copyRegular_eq {arg : Str} (small : arg.length ≤ argSize) :
    copyRegular q rest arg =
      if (arg ++ rest.takeWhile (regular q)).length ≤ argSize then
        some (rest.dropWhile (regular q), arg ++ rest.takeWhile (regular q))
      else none := by
  induction rest generalizing arg with
  | nil => simp [copyRegular, small]
  | cons b rest ih =>
    rw [copyRegular]
    by_cases reg : regular q b
    · rw [if_pos reg, takeWhile_cons_of_pos reg, dropWhile_cons_of_pos reg]
      split
      · rename_i room
        rw [ih (by simpa using room), append_assoc, singleton_append]
      · rename_i full
        rw [if_neg]
        simp
        omega
    · rw [if_neg reg, takeWhile_cons_of_neg reg, dropWhile_cons_of_neg reg, append_nil,
        if_pos small]

/-! ## The number of arguments -/

lemma spaceRuns_cons_of_ne (h : b ≠ space) (rest : Str) :
    spaceRuns (b :: rest) = spaceRuns rest := by
  rw [spaceRuns, if_neg h]

lemma spaceRuns_space (rest : Str) :
    spaceRuns (space :: rest) = spaceRuns ((rest.dropWhile (· = space)).drop 1) + 1 := by
  rw [spaceRuns, if_pos rfl]

lemma argumentsFrom_quoted_spaces (cur rest : Str) :
    ∃ cur', argumentsFrom true (some cur) rest =
      argumentsFrom true (some cur') (rest.dropWhile (· = space)) := by
  induction rest generalizing cur with
  | nil => exact ⟨cur, rfl⟩
  | cons b rest ih =>
    rw [dropWhile_cons]
    split
    · rename_i eq
      obtain ⟨cur', eq'⟩ := ih (cur ++ [b])
      refine ⟨cur', ?_⟩
      rw [argumentsFrom_regular (by rw [of_decide_eq_true eq]; decide)]
      exact eq'
    · exact ⟨cur, rfl⟩

variable {behind : Str}

lemma head_dropWhile_space (h : rest.dropWhile (· = space) = b :: behind) : b ≠ space := by
  have head := head_dropWhile_not (p := (· = space)) (l := rest) (by simp [h])
  simpa [h] using head

lemma argumentsFrom_cons_of_ne (h : b ≠ space) (q : Bool) (cur : Option Str)
    (rest : Str) :
    ∃ q' cur', argumentsFrom q cur (b :: rest) = argumentsFrom q' (some cur') rest := by
  rw [argumentsFrom, if_neg fun both => h both.1]
  exact ⟨_, _, rfl⟩

lemma length_argumentsFrom_le (q : Bool) (cur : Option Str) (line : Str) :
    (argumentsFrom q cur line).length ≤ spaceRuns line + 1 := by
  induction n : line.length using Nat.strong_induction_on generalizing q cur line with
  | _ n ih =>
  subst n
  cases line with
  | nil => cases cur <;> simp [argumentsFrom, spaceRuns]
  | cons b rest =>
    by_cases sp : b = space
    · subst sp
      -- the rest behind the run, and the character that is skipped with it
      have behind (q : Bool) (cur : Option Str) :
          (argumentsFrom q cur (rest.dropWhile (· = space))).length ≤
            spaceRuns ((rest.dropWhile (· = space)).drop 1) + 1 := by
        have shorter : (rest.dropWhile (· = space)).length ≤ rest.length :=
          (dropWhile_suffix _).length_le
        cases eq : rest.dropWhile (· = space) with
        | nil => cases cur <;> simp [argumentsFrom]
        | cons b behind =>
          obtain ⟨q', cur', next⟩ := argumentsFrom_cons_of_ne (head_dropWhile_space eq) q cur behind
          rw [next]
          rw [eq] at shorter
          simp only [length_cons] at shorter
          exact ih _ (by simp only [length_cons]; omega) q' (some cur') behind rfl
      rw [spaceRuns_space]
      cases q with
      | true =>
        rw [argumentsFrom_regular (by decide)]
        obtain ⟨cur', eq⟩ := argumentsFrom_quoted_spaces (cur.getD [] ++ [space]) rest
        rw [eq]
        exact (behind true (some cur')).trans (Nat.le_succ _)
      | false =>
        rw [argumentsFrom_space, ← argumentsFrom_spaces, length_append]
        have most := behind false none
        have one : cur.toList.length ≤ 1 := by cases cur <;> simp
        omega
    · obtain ⟨q', cur', next⟩ := argumentsFrom_cons_of_ne sp q cur rest
      rw [next, spaceRuns_cons_of_ne sp]
      exact ih rest.length (by simp) q' (some cur') rest rfl

/-! ## The rounds -/

/-- A character at which the parser goes on. -/
def plain (b : UInt8) : Bool := 0x20 ≤ b ∧ b < 0x80

lemma plain_of_regular (h : regular q b) : plain b := by
  simp only [regular, aboveSpace, plain, space, decide_eq_true_eq] at *
  grind

lemma plain_cases (h : plain b) (q : Bool) :
    regular q b ∨ b = quotemark ∨ b = space ∧ q = false := by
  simp only [regular, aboveSpace, plain, space, decide_eq_true_eq] at *
  grind

namespace Parser

/-- The arguments that are still to come. -/
def left (p : Parser) : List Str :=
  if p.rest = [] then [] else argumentsFrom p.quote (some p.arg) p.rest

/-- The parser goes on at all characters, and all arguments fit in the buffer. -/
def Fine (p : Parser) : Prop := (∀ b ∈ p.rest, plain b) ∧ ∀ a ∈ p.left, a.length < argSize

/-- The arguments `done` are in the array, and there is room for the others. -/
structure Inv (maxArgs : Nat) (done : List Str) (p : Parser) : Prop where
  small : p.arg.length ≤ argSize
  argv : p.argv = done.map some ++ .replicate (maxArgs + 1 - done.length) none
  argc : p.argc = done.length
  room : done.length + p.left.length ≤ maxArgs

end Parser

variable {m : Nat} {done : List Str} {p : Parser}

/-- The buffer after the characters have been copied. -/
def Parser.copied (p : Parser) : Str := p.arg ++ p.rest.takeWhile (regular p.quote)

lemma Parser.left_eq (more : p.rest ≠ []) :
    p.left = argumentsFrom p.quote (some p.copied) (p.rest.dropWhile (regular p.quote)) := by
  rw [left, if_neg more, copied, argumentsFrom_takeWhile]

lemma left_start (rest arg : Str) (h : arg = []) :
    argumentsFrom false none (rest.dropWhile (· = space)) =
      Parser.left { p with rest := rest.dropWhile (· = space), arg := arg, quote := false } := by
  subst h
  rw [Parser.left]
  cases eq : rest.dropWhile (· = space) with
  | nil => rfl
  | cons b behind =>
    have ne := head_dropWhile_space eq
    simp [argumentsFrom, ne]

lemma save_eq {arg : Str} (argv : p.argv = done.map some ++
      .replicate (m + 1 - done.length) none) (argc : p.argc = done.length)
        (room : done.length < m) :
    save m { p with rest := rest, arg := arg, quote := q } =
      if arg.length < argSize then
        some ⟨rest, [], q, (done ++ [arg]).map some ++
          .replicate (m + 1 - (done ++ [arg]).length) none,
          (done ++ [arg]).length⟩
      else none := by
  have length : p.argc < p.argv.length := by
    rw [argv, argc]
    simp
    omega
  have set : p.argv.set p.argc (some arg) =
      (done ++ [arg]).map some ++ .replicate (m + 1 - (done ++ [arg]).length) none := by
    have split : m + 1 - done.length = m - done.length + 1 := by omega
    rw [argv, argc, set_append_right _ _ (by simp), split, replicate_succ]
    simp
  simp only [save, kassert, argc ▸ room, length, set]
  split
  · simp [argc]
  · simp

/-- A round goes on and perhaps saves an argument, or the parser cannot deal with the line. Then it
leaves the buffer, or the rounds behind it change nothing. -/
def Goes (m : Nat) (done : List Str) (p : Parser) : Prop :=
  (∃ p' saved, round m p = some (.inl p') ∧ p'.Inv m (done ++ saved) ∧
    p'.rest.length < p.rest.length ∧ p.left = saved ++ p'.left ∧ (p.Fine ↔ p'.Fine)) ∨
  ¬ p.Fine ∧ (round m p = none ∨ ∃ p', round m p = some (.inl p') ∧ round m p' = some (.inl p'))

lemma plain_dropWhile (rest : Str) :
    (∀ b ∈ rest.dropWhile (· = space), plain b) ↔ ∀ b ∈ rest, plain b := by
  induction rest with
  | nil => simp
  | cons b rest ih =>
    rw [dropWhile_cons]
    split
    · rename_i eq
      have space_plain : plain b := by
        rw [of_decide_eq_true eq]
        decide
      simp [ih, space_plain]
    · rfl

lemma goes_of_end (inv : p.Inv m done)
    (ran : round m p = (endRound m { p with rest := rest, arg := p.copied, quote := q }).map .inl)
    (ends : rest = [] ∨ rest.head? = some space ∧ q = false)
    (left : p.left = p.copied :: argumentsFrom false none rest)
    (bytes : (∀ b ∈ p.rest, plain b) ↔ ∀ b ∈ rest, plain b)
    (shorter : (rest.dropWhile (· = space)).length < p.rest.length) : Goes m done p := by
  have room := inv.room
  rw [left, length_cons] at room
  have saves : rest.head? = some space ∧ q = false ∨ rest = [] := ends.symm
  rw [endRound, if_pos saves, save_eq inv.argv inv.argc (by omega)] at ran
  by_cases fits : p.copied.length < argSize
  · rw [if_pos fits] at ran
    have next : argumentsFrom false none rest =
        Parser.left ⟨rest.dropWhile (· = space), [], q, (done ++ [p.copied]).map some ++
          .replicate (m + 1 - (done ++ [p.copied]).length) none, (done ++ [p.copied]).length⟩ := by
      rw [← argumentsFrom_spaces]
      obtain rfl | ⟨-, rfl⟩ := ends
      · rfl
      · exact left_start (p := ⟨[], [], false, _, _⟩) rest [] rfl
    refine .inl ⟨_, [p.copied], ran, ⟨Nat.zero_le _, rfl, rfl, ?_⟩, shorter, ?_, ?_⟩
    · rw [← next, length_append]
      simp only [length_singleton]
      omega
    · rw [left, next]
      rfl
    · rw [Parser.Fine, Parser.Fine, bytes, plain_dropWhile, left, ← next, forall_mem_cons]
      tauto
  · rw [if_neg fits] at ran
    refine .inr ⟨fun fine => fits ?_, .inl ran⟩
    exact fine.2 _ (by rw [left]; exact mem_cons_self)

lemma plain_rest (q : Bool) (rest : Str) :
    (∀ b ∈ rest, plain b) ↔ ∀ b ∈ rest.dropWhile (regular q), plain b := by
  have copied : ∀ b ∈ rest.takeWhile (regular q), plain b := fun b mem =>
    plain_of_regular (mem_takeWhile_imp mem)
  have split := takeWhile_append_dropWhile (p := regular q) (l := rest)
  constructor
  · intro all b mem
    exact all b ((dropWhile_suffix _).subset mem)
  · intro behind b mem
    rw [← split, mem_append] at mem
    exact mem.elim (copied b) (behind b)

lemma endRound_of_ne (not_space : b ≠ space) (rest : p.rest = b :: behind) :
    endRound m p = some p := by
  obtain ⟨_, arg, quote, argv, argc⟩ := p
  dsimp only at rest
  subst rest
  simp [endRound, not_space]

lemma round_of_stuck (not_regular : ¬ regular p.quote b)
    (not_mark : b ≠ quotemark) (not_space : b ≠ space) (rest : p.rest = b :: behind) :
    round m p = some (.inl p) := by
  have copy : copyRegular p.quote p.rest p.arg = some (b :: behind, p.arg) := by
    rw [rest, copyRegular, if_neg not_regular]
  have same : { p with rest := b :: behind } = p := by rw [← rest]
  rw [round, if_neg (by simp [rest]), copy]
  simp [not_mark, same, endRound_of_ne not_space rest]

lemma goes (inv : p.Inv m done) (more : p.rest ≠ []) : Goes m done p := by
  have left := Parser.left_eq more
  have bytes := plain_rest p.quote p.rest
  have shorter : (p.rest.dropWhile (regular p.quote)).length ≤ p.rest.length :=
    (dropWhile_suffix _).length_le
  have pos := length_pos_iff.mpr more
  by_cases fits : p.copied.length ≤ argSize
  swap
  · -- the copy leaves the buffer
    refine .inr ⟨fun fine => ?_, .inl ?_⟩
    · obtain ⟨a, mem, le⟩ := exists_argumentsFrom p.quote p.copied
        (p.rest.dropWhile (regular p.quote))
      rw [← left] at mem
      have := fine.2 a mem
      omega
    · have fails : copyRegular p.quote p.rest p.arg = none := by
        rw [copyRegular_eq inv.small]
        exact if_neg fits
      rw [round, if_neg more, fails]
      rfl
  have copy : copyRegular p.quote p.rest p.arg =
      some (p.rest.dropWhile (regular p.quote), p.copied) := by
    rw [copyRegular_eq inv.small]
    exact if_pos fits
  cases behind_eq : p.rest.dropWhile (regular p.quote) with
  | nil =>
    rw [behind_eq] at left bytes copy
    refine goes_of_end inv (q := p.quote) ?_ (.inl rfl) left bytes (by simpa using pos)
    rw [round, if_neg more, copy]
    rfl
  | cons b behind =>
    rw [behind_eq] at left bytes copy shorter
    rw [length_cons] at shorter
    by_cases mark : b = quotemark
    · subst mark
      rw [argumentsFrom_quotemark, getD_some] at left
      have mark_plain : plain quotemark := by decide
      have bytes' : (∀ b ∈ p.rest, plain b) ↔ ∀ b ∈ behind, plain b := by
        rw [bytes, forall_mem_cons, and_iff_right mark_plain]
      by_cases last : behind = []
      · subst last
        refine goes_of_end inv (q := !p.quote) ?_ (.inl rfl) left bytes' (by simpa using pos)
        rw [round, if_neg more, copy]
        rfl
      · have next :
          p.left = Parser.left { p with rest := behind, arg := p.copied, quote := !p.quote } := by
          rw [left, Parser.left, if_neg last]
        refine .inl ⟨{ p with rest := behind, arg := p.copied, quote := !p.quote }, [],
          ?_, ?_, ?_, next, ?_⟩
        · rw [round, if_neg more, copy]
          simp [last]
        · rw [append_nil]
          exact ⟨fits, inv.argv, inv.argc, next ▸ inv.room⟩
        · exact Nat.lt_of_succ_le shorter
        · rw [Parser.Fine, Parser.Fine, bytes', next]
    · have not_regular : ¬ regular p.quote b := by
        have head := head_dropWhile_not (p := regular p.quote) (l := p.rest) (by simp [behind_eq])
        simpa [behind_eq] using head
      by_cases sep : b = space ∧ p.quote = false
      · obtain ⟨rfl, unquoted⟩ := sep
        rw [unquoted, argumentsFrom_space] at left
        refine goes_of_end inv (q := p.quote) ?_ (.inr ⟨rfl, unquoted⟩) ?_ bytes ?_
        · rw [round, if_neg more, copy]
          simp [mark]
        · rw [left, argumentsFrom_space]
          rfl
        · rw [dropWhile_cons_of_pos (by simp)]
          exact lt_of_le_of_lt (dropWhile_suffix _).length_le (Nat.lt_of_succ_le shorter)
      · -- nothing is copied, saved or skipped any more
        have not_plain : ¬ plain b := fun h =>
          (plain_cases h p.quote).elim not_regular fun h => h.elim mark sep
        have not_space : b ≠ space := by
          rintro rfl
          exact not_plain (by decide)
        have ran : round m p = some (.inl { p with rest := b :: behind, arg := p.copied }) := by
          rw [round, if_neg more, copy]
          simp [mark, endRound_of_ne (p := { p with rest := b :: behind, arg := p.copied })
            not_space rfl]
        refine .inr ⟨fun fine => not_plain (bytes.mp fine.1 b mem_cons_self), .inr ⟨_, ran, ?_⟩⟩
        exact round_of_stuck not_regular mark not_space rfl

/-- The parser returns exactly if it can deal with the line. Then all arguments are in the array. -/
lemma returns_iff (inv : p.Inv m done) :
    ((∃ r, Returns (round m) p r) ↔ p.Fine) ∧
      (p.Fine → ∃ r, Returns (round m) p r ∧ r.Inv m (done ++ p.left)) := by
  induction n : p.rest.length using Nat.strong_induction_on generalizing p done with
  | _ n ih =>
  subst n
  by_cases finished : p.rest = []
  · have returns : Returns (round m) p p := .of_inr (by rw [round, if_pos finished])
    have none_left : p.left = [] := by rw [Parser.left, if_pos finished]
    have fine : p.Fine := by simp [Parser.Fine, finished, none_left]
    refine ⟨iff_of_true ⟨p, returns⟩ fine, fun _ => ⟨p, returns, ?_⟩⟩
    rw [none_left, append_nil]
    exact inv
  · obtain ⟨p', saved, ran, inv', shorter, left, fine⟩ | ⟨not_fine, fails | ⟨p', ran, stuck⟩⟩ :=
      goes inv finished
    · obtain ⟨iff, all⟩ := ih _ shorter inv' rfl
      simp only [returns_iff_of_inl ran, fine]
      refine ⟨iff, fun h => ?_⟩
      rw [left, ← append_assoc]
      exact all h
    · exact ⟨iff_of_false (fun ⟨r, returns⟩ => not_returns_of_none fails returns) not_fine,
        fun fine => absurd fine not_fine⟩
    · refine ⟨iff_of_false ?_ not_fine, fun fine => absurd fine not_fine⟩
      rintro ⟨r, returns⟩
      exact not_returns_of_self stuck ((returns_iff_of_inl ran).mp returns)

lemma start_left (line : Str) : (start line).left = arguments line := by
  rw [arguments_eq, ← argumentsFrom_spaces]
  exact (left_start (p := start line) line [] rfl).symm

lemma start_inv (line : Str) : (start line).Inv (maxArgs line) [] where
  small := Nat.zero_le _
  argv := rfl
  argc := rfl
  room := by
    rw [start_left, arguments_eq]
    simpa [maxArgs] using length_argumentsFrom_le false none line

lemma start_fine (line : Str) : (start line).Fine ↔
    (∀ b ∈ line, plain b) ∧ ∀ a ∈ arguments line, a.length < argSize := by
  rw [Parser.Fine, start_left, start, plain_dropWhile]

theorem parseCommandLine_some_iff (line : Str) (argv : List (Option Str)) (argc : Nat) :
    (∃ fuel, parseCommandLine fuel line = some (some (argv, argc))) ↔
      ∃ r, Returns (round (maxArgs line)) (start line) r ∧ r.argv = argv ∧ r.argc = argc := by
  simp only [parseCommandLine, Returns, map_eq_some_iff, Prod.mk.injEq]
  constructor
  · rintro ⟨fuel, _, ran, r, rfl, eq⟩
    exact ⟨r, ⟨fuel, ran⟩, eq⟩
  · rintro ⟨r, ⟨fuel, ran⟩, eq⟩
    exact ⟨fuel, _, ran, r, rfl, eq⟩

lemma parses_iff_fine (line : Str) :
    (∃ fuel argv argc, parseCommandLine fuel line = some (some (argv, argc))) ↔
      (start line).Fine := by
  rw [← (returns_iff (start_inv line)).1]
  constructor
  · rintro ⟨fuel, argv, argc, ran⟩
    obtain ⟨r, returns, -⟩ := (parseCommandLine_some_iff line argv argc).mp ⟨fuel, ran⟩
    exact ⟨r, returns⟩
  · rintro ⟨r, returns⟩
    obtain ⟨fuel, ran⟩ := (parseCommandLine_some_iff line r.argv r.argc).mpr ⟨r, returns, rfl, rfl⟩
    exact ⟨fuel, _, _, ran⟩

/-- The parser comes to its end and stays in the buffer and the array, exactly if all characters are
ASCII from the space on, and all arguments are shorter than the buffer. -/
theorem terminates_inside_iff (line : Str) :
    (∃ fuel argv argc, parseCommandLine fuel line = some (some (argv, argc))) ↔
      (∀ b ∈ line, plain b) ∧ ∀ a ∈ arguments line, a.length < argSize := by
  rw [parses_iff_fine, start_fine]

/-- The parser does not come to the end of a line with a tab. -/
theorem tab_not_terminates :
    ¬ ∃ fuel argv argc, parseCommandLine fuel [0x61, 0x09, 0x62] = some (some (argv, argc)) := by
  rw [parses_iff_fine, start_fine]
  intro fine
  exact absurd (fine.1 0x09 (by simp)) (by decide)

/-- The arguments of a line of printable characters. -/
theorem parseCommandLine_eq (line : Str) (printable : ∀ b ∈ line, 0x20 ≤ b ∧ b ≤ 0x7e)
    (short : ∀ a ∈ arguments line, a.length < argSize) :
    ∃ fuel argv, parseCommandLine fuel line = some (some (argv, (arguments line).length)) ∧
      argv.take (arguments line).length = (arguments line).map some ∧
      argv[(arguments line).length]? = some none := by
  have fine : (start line).Fine := by
    refine (start_fine line).mpr ⟨fun b mem => ?_, short⟩
    have := printable b mem
    simp only [plain, decide_eq_true_eq]
    grind
  obtain ⟨r, returns, inv⟩ := (returns_iff (start_inv line)).2 fine
  rw [start_left, nil_append] at inv
  obtain ⟨fuel, ran⟩ := (parseCommandLine_some_iff line r.argv r.argc).mpr ⟨r, returns, rfl, rfl⟩
  have room := inv.room
  refine ⟨fuel, r.argv, inv.argc ▸ ran, ?_, ?_⟩
  · rw [inv.argv, take_left' (by simp)]
  · rw [inv.argv, getElem?_append_right (by simp), getElem?_replicate]
    simp
    omega

/-- `ls "a b"`. -/
theorem parseCommandLine_ls :
    arguments [0x6c, 0x73, 0x20, 0x22, 0x61, 0x20, 0x62, 0x22] =
      [[0x6c, 0x73], [0x61, 0x20, 0x62]] ∧
    ∃ fuel argv, parseCommandLine fuel [0x6c, 0x73, 0x20, 0x22, 0x61, 0x20, 0x62, 0x22] =
        some (some (argv, 2)) ∧
      argv.take 2 = [some [0x6c, 0x73], some [0x61, 0x20, 0x62]] ∧ argv[2]? = some none :=
  ⟨by decide, parseCommandLine_eq [0x6c, 0x73, 0x20, 0x22, 0x61, 0x20, 0x62, 0x22]
    (by simp) (by decide)⟩

end ExscapeOS.CommandLine
