import Mathlib.Data.List.DropRight
import ExscapeOS.Kernel.Exec.CommandLine

/-!
# `parse_command_line` of the shell

The shell's version of the kernel's function, from `userspace/eshell/main.c`. The second pass is a
loop with two loops in its body: one copies the characters of an argument, one skips spaces and
tabs. The state of `parse` says where in the body it is.
-/
namespace ExscapeOS.Shell

open Lib
open CommandLine (Str space quotemark spaceRuns regular maxArgs)

def tab : UInt8 := 0x09
def newline : UInt8 := 0x0a
def hash : UInt8 := 0x23
def equals : UInt8 := 0x3d

/-- `sizeof(arg)` -/
def argSize : Nat := 2048

/-- `max_env`. Here too the character behind a run of spaces is skipped. -/
def maxEnv : Str → Nat
  | [] => 0
  | b :: rest =>
    if b = space then maxEnv ((rest.dropWhile (· = space)).drop 1)
    else maxEnv rest + if b = equals then 1 else 0
termination_by line => line.length
decreasing_by
  · have := (List.dropWhile_suffix (· = space) : rest.dropWhile (· = space) <:+ rest).length_le
    simp
    omega
  · simp

/-- The head of the loop, the copying loop after a character, and the skipping loop. -/
inductive Pc where
  | top
  | copy
  | skip
  deriving DecidableEq

def Pc.rank : Pc → Nat
  | .top => 0
  | .skip => 1
  | .copy => 2

structure Parser where
  /-- The first `ai` characters of `arg`. -/
  arg : Str
  quote : Bool
  envDone : Bool
  /-- The entries of `env` that are set; `env_i` is their number. -/
  env : List Str := []
  argv : List Str := []

/-- A character is copied. There is no result outside the buffer. -/
def append (p : Parser) (b : UInt8) : Option Parser :=
  if p.arg.length < argSize then some { p with arg := p.arg ++ [b] } else none

/-- `strcpy` to a block. There is no result if the string and its zero do not fit. -/
def strcpy (block : Nat) (s : Str) : Option Str := if s.length + 1 ≤ block then some s else none

/-- A variable for the child is saved, in a block of `strlen(arg + 1)` bytes. -/
def saveEnv (envs : Nat) (p : Parser) : Option Parser := do
  kassert (p.env.length < envs)
  let var ← strcpy (p.arg.drop 1).length p.arg
  return { p with arg := [], env := p.env ++ [var] }

def save (envs size : Nat) (p : Parser) : Option Parser := do
  kassert (p.arg.length < argSize)
  if p.envDone = false ∧ equals ∈ p.arg then return ← saveEnv envs p
  kassert (p.argv.length < size + 1)
  kassert (p.argv.length < size)
  return { p with arg := [], envDone := true, argv := p.argv ++ [p.arg] }

/-- The second pass, over what is left of the line. -/
def parse (envs size : Nat) (pc : Pc) (p : Parser) (line : Str) : Option Parser :=
  match line with
  | [] => if pc = .copy then save envs size p else some p
  | b :: rest =>
    if pc = .skip then
      if b = space ∨ b = tab then parse envs size .skip p rest else parse envs size
        .top p (b :: rest)
    else if pc = .top ∧ b = hash ∧ p.quote = false then some p
    else if regular p.quote b then (append p b).bind fun p => parse envs size .copy p rest
    else if b = quotemark then
      if rest = [] then save envs size { p with quote := !p.quote }
      else parse envs size .top { p with quote := !p.quote } rest
    else if b = space then (save envs size p).bind fun p => parse envs size .skip p rest
    else if pc = .top then parse envs size .skip p rest
    else parse envs size .skip p (b :: rest)
termination_by (line.length, pc.rank)
decreasing_by all_goals cases pc <;> simp_all [Prod.lex_def, Pc.rank]

/-- What the first `while` of the second pass removes at the end of the line. -/
def blank (b : UInt8) : Bool := b = newline ∨ b = space

/-- `parse_command_line` with the byte before the line: the arguments and the variables for the
child. There is no result if the line is trimmed beyond its start, and no arguments for a line of
white space. -/
def parseCommandLine (before : UInt8) (cmdline : Str) : Option (Option (List Str × List Str)) := do
  let line := cmdline.rdropWhile blank
  kassert (line ≠ [] ∨ blank before = false)
  if line.all fun b => b = space ∨ b = tab then return none
  let p ← parse (maxEnv cmdline) (maxArgs cmdline) .skip ⟨[], false, false, [], []⟩ line
  return some (p.argv, p.env)

/-! ## The words of a line -/

/-- The words of the second pass, without any buffer, and whether each is saved. -/
def words (pc : Pc) (quote : Bool) (cur : Str) (line : Str) : List (Str × Bool) :=
  match line with
  | [] => [(cur, pc = .copy)]
  | b :: rest =>
    if pc = .skip then
      if b = space ∨ b = tab then words .skip quote cur rest else words .top quote cur (b :: rest)
    else if pc = .top ∧ b = hash ∧ quote = false then [(cur, false)]
    else if regular quote b then words .copy quote (cur ++ [b]) rest
    else if b = quotemark then
      if rest = [] then [(cur, true)] else words .top (!quote) cur rest
    else if b = space then (cur, true) :: words .skip quote [] rest
    else if pc = .top then words .skip quote cur rest
    else words .skip quote cur (b :: rest)
termination_by (line.length, pc.rank)
decreasing_by all_goals cases pc <;> simp_all [Prod.lex_def, Pc.rank]

/-- Every word fits the buffer, if saved with its zero, and the first saved one has no `=`. -/
structure Fits (envDone : Bool) (found : List (Str × Bool)) : Prop where
  buffer : ∀ w ∈ found, w.1.length + w.2.toNat ≤ argSize
  first : envDone = true ∨ (found.find? (·.2)).all (equals ∉ ·.1)

@[simp] lemma fits_nil : Fits true [] := ⟨by simp, .inl rfl⟩

@[simp] lemma fits_abandoned {envDone : Bool} {cur : Str} :
    Fits envDone [(cur, false)] ↔ cur.length ≤ argSize :=
  ⟨fun h => h.buffer (cur, false) (by simp), fun h => ⟨by simpa using h, by simp⟩⟩

@[simp] lemma fits_saved {envDone : Bool} {cur : Str} {found : List (Str × Bool)} :
    Fits envDone ((cur, true) :: found) ↔
      (cur.length < argSize ∧ (envDone = true ∨ equals ∉ cur)) ∧ Fits true found := by
  constructor
  · intro ⟨buffer, first⟩
    exact ⟨⟨buffer _ List.mem_cons_self, by simpa using first⟩,
      fun w mem => buffer w (List.mem_cons_of_mem _ mem), .inl rfl⟩
  · intro ⟨⟨short, first⟩, ⟨buffer, _⟩⟩
    exact ⟨List.forall_mem_cons.mpr ⟨short, buffer⟩, by simpa using first⟩

lemma saveEnv_eq_none (envs : Nat) (p : Parser) : saveEnv envs p = none := by
  simp [saveEnv, strcpy]

lemma save_eq {envs size : Nat} {p : Parser} (room : p.argv.length < size) :
    save envs size p = if p.arg.length < argSize ∧ (p.envDone = true ∨ equals ∉ p.arg) then
      some ⟨[], p.quote, true, p.env, p.argv ++ [p.arg]⟩ else none := by
  have : p.argv.length < size + 1 := by omega
  by_cases short : p.arg.length < argSize <;> by_cases var : equals ∈ p.arg <;>
    cases done : p.envDone <;> simp [save, kassert, saveEnv_eq_none, short, var, done, room, this]

lemma Fits.arg {pc : Pc} {quote envDone : Bool} {cur line : Str}
    (fits : Fits envDone (words pc quote cur line)) : cur.length ≤ argSize := by
  fun_induction words pc quote cur line
  case case1 => exact (Nat.le_add_right ..).trans (fits.buffer _ List.mem_cons_self)
  all_goals simp_all [le_of_lt]

/-- With room in `argv`, the second pass only fails for a word that does not fit. -/
lemma parse_isSome_iff (envs size : Nat) (pc : Pc) (p : Parser) (line : Str)
    (arg : p.arg.length ≤ argSize)
    (room : p.argv.length + (words pc p.quote p.arg line).countP (·.2) ≤ size) :
    (parse envs size pc p line).isSome ↔ Fits p.envDone (words pc p.quote p.arg line) := by
  fun_induction parse envs size pc p line <;> rw [words] at room ⊢ <;>
    simp only [*, ↓reduceIte, and_self, Bool.false_eq_true] at room ⊢
  case case6 p b rest _ _ _ ih =>
    by_cases short : p.arg.length < argSize
    · simpa [append, short] using ih { p with arg := p.arg ++ [b] } (by simpa using short) room
    · have long : ¬ Fits p.envDone (words .copy p.quote (p.arg ++ [b]) rest) :=
        fun fits => short (by simpa using fits.arg)
      simp [append, short, long]
  case case9 p rest _ _ _ _ ih =>
    simp only [List.countP_cons, ↓reduceIte] at room
    have next := ih ⟨[], p.quote, true, p.env, p.argv ++ [p.arg]⟩ (Nat.zero_le _) (by simp; omega)
    rw [save_eq (by omega), fits_saved]
    split_ifs with ok <;> simp [ok, next]
  case case10 => grind
  all_goals simp_all [save_eq]

/-! ## The number of words -/

lemma spaceRuns_dropWhile (line : Str) :
    spaceRuns (space :: line) = spaceRuns (line.dropWhile (· = space)) + 1 := by
  rw [CommandLine.spaceRuns_space]
  cases left : line.dropWhile (· = space) with
  | nil => rfl
  | cons b rest =>
    have := CommandLine.head_dropWhile_space left
    rw [List.drop_one, List.tail_cons, CommandLine.spaceRuns_cons_of_ne this]

lemma spaceRuns_dropWhile_le (line : Str) :
    spaceRuns (line.dropWhile (· = space)) ≤ spaceRuns line ∧
      spaceRuns line ≤ spaceRuns (line.dropWhile (· = space)) + 1 := by
  cases line with
  | nil => simp
  | cons b rest => by_cases sp : b = space <;> simp [sp, spaceRuns_dropWhile]

lemma spaceRuns_le_cons (b : UInt8) (line : Str) : spaceRuns line ≤ spaceRuns (b :: line) := by
  by_cases sp : b = space
  · rw [sp, spaceRuns_dropWhile]
    exact (spaceRuns_dropWhile_le line).2
  · rw [CommandLine.spaceRuns_cons_of_ne sp]

/-- The first pass counts at least the saved words: the skipping loop passes the run of spaces at
the end of a word. -/
lemma saved_le_spaceRuns (pc : Pc) (quote : Bool) (cur line trailing : Str) :
    (words pc quote cur line).countP (·.2) ≤
      spaceRuns (if pc = .skip then (line ++ trailing).dropWhile (· = space) else line ++
        trailing) + 1 := by
  fun_induction words pc quote cur line
  case case1 => grind
  case case2 quote cur b rest white ih =>
    rcases white with rfl | rfl
    · simpa using ih
    · have := (spaceRuns_dropWhile_le (rest ++ trailing)).1
      have := spaceRuns_le_cons tab (rest ++ trailing)
      simp_all [tab, space]
      omega
  all_goals simp_all [spaceRuns_dropWhile, CommandLine.spaceRuns_cons_of_ne]
  case case5 ih | case7 ih => exact ih.trans (Nat.succ_le_succ (spaceRuns_le_cons _ _))
  case case9 rest _ _ _ _ ih => exact ih.trans (Nat.succ_le_succ (spaceRuns_dropWhile_le _).1)

/-! ## Writes stay inside their objects -/

lemma parse_white {envs size : Nat} {p : Parser} {line : Str}
    (white : ∀ b ∈ line, b = space ∨ b = tab) :
    parse envs size .skip p line = some p := by
  induction line with
  | nil => simp [parse]
  | cons b rest ih => simp_all [parse]

/-- Exactly if the line is not trimmed beyond its start, no word is longer than the buffer, and the
first word is not a variable for the child, every pass stays inside its objects. -/
theorem parseCommandLine_iff (before : UInt8) (cmdline : Str) :
    (parseCommandLine before cmdline).isSome ↔
      (cmdline.rdropWhile blank ≠ [] ∨ blank before = false) ∧
        Fits false (words .skip false [] (cmdline.rdropWhile blank)) := by
  obtain ⟨trailing, eq⟩ := cmdline.rdropWhile_prefix blank
  have saved := saved_le_spaceRuns .skip false [] (cmdline.rdropWhile blank) trailing
  have runs := (spaceRuns_dropWhile_le cmdline).1
  rw [if_pos rfl, eq] at saved
  have parsed := parse_isSome_iff (maxEnv cmdline) (maxArgs cmdline) .skip
    ⟨[], false, false, [], []⟩
    (cmdline.rdropWhile blank) (Nat.zero_le _) (by simp only [maxArgs, List.length_nil]; omega)
  rw [← parsed, parseCommandLine]
  generalize cmdline.rdropWhile blank = line
  by_cases start : line ≠ [] ∨ blank before = false
  · by_cases white : ∀ b ∈ line, b = space ∨ b = tab
    · rw [parse_white white]
      simp [kassert, start, apply_ite]
    · simp [kassert, start, white, Option.isSome_bind]
  · simp [kassert, start]

/-- `A=1` -/
theorem parseCommandLine_variable : parseCommandLine 0 [0x41, equals, 0x31] = none := by
  have line : List.rdropWhile blank [0x41, equals, 0x31] = [0x41, equals, 0x31] := by decide
  have saved : parse 1 1 .skip ⟨[], false, false, [], []⟩ [0x41, equals, 0x31] = none := by
    simp [parse, append, save, saveEnv, strcpy, kassert, regular, CommandLine.aboveSpace, argSize,
      equals, space, tab, hash, quotemark]
  have runs : maxArgs [0x41, equals, 0x31] = 1 := by simp [maxArgs, spaceRuns, equals, space]
  have vars : maxEnv [0x41, equals, 0x31] = 1 := by simp [maxEnv, equals, space]
  rw [parseCommandLine, line, runs, vars, saved]
  decide

end ExscapeOS.Shell
