import ExscapeOS.Lib.Word
import Mathlib.Data.List.TakeWhile

/-!
# Symbol tables

`load_symbols` makes a table of the function symbols of an ELF file; an entry of zeros ends it.
`addr_to_func` looks for an address in the tables of the kernel and of the task, and `fork` copies
the table and the names of the parent.

The loop of `load_symbols` begins with entry 1 and ends with the entry after the last one. An
unnamed function gets a name that is not in the string table, and `fork` moves the pointer to it all
the same.
-/
namespace ExscapeOS.Symbols

open Lib List Option

/-- `Elf32_Sym` -/
structure ElfSym where
  value : Nat
  name : Nat
  info : Nat

/-- `struct symbol`; the name is an address. -/
structure Symbol where
  eip : Nat
  name : Nat
  deriving DecidableEq

/-- `STT_FUNC` -/
def ElfSym.IsFunc (sym : ElfSym) : Prop := sym.info % 16 = 2

instance (sym : ElfSym) : Decidable sym.IsFunc := inferInstanceAs (Decidable (_ = _))

/-- The memory, a string table, and the name for unnamed functions. -/
structure Strings where
  memory : Nat → UInt8
  table : Nat
  na : Nat

/-- The entry for a function. -/
def Strings.symbol (strings : Strings) (sym : ElfSym) : Option Symbol :=
  if sym.IsFunc then
    some ⟨sym.value, if sym.name ≠ 0 then add32 strings.table sym.name else strings.na⟩
  else none

/-- The indices of the entries that the loop reads. -/
def entriesRead (numSyms : Nat) : List Nat := (List.range numSyms).map (· + 1)

def loadSymbols (symhdr : Nat → ElfSym) (strings : Strings) (numSyms : Nat) : List Symbol :=
  let symbols := (entriesRead numSyms).filterMap fun i => strings.symbol (symhdr i)
  symbols ++ List.replicate (numSyms + 1 - symbols.length) ⟨0, 0⟩

/-- A table is read up to the first entry with a zero. -/
def scan (symbols : List Symbol) : List Symbol := symbols.takeWhile fun s => s.eip ≠ 0 ∧ s.name ≠ 0

/-! ## Looking for a function -/

/-- The symbol is closer to the address than the best one so far. -/
def closer (addr : Nat) (best : Symbol × Nat) (s : Symbol) : Symbol × Nat :=
  if s.eip ≤ addr ∧ addr - s.eip < best.2 then (s, addr - s.eip) else best

/-- A possibly valid address, in the kernel or in user space. -/
def Accepted (addr : Nat) : Prop :=
  0x100000 ≤ addr ∧ addr ≤ 0x200000 ∨ 0x10000000 ≤ addr ∧ addr ≤ 0x20000000

instance (addr : Nat) : Decidable (Accepted addr) := inferInstanceAs (Decidable (_ ∨ _))

def addrToFunc (memory : Nat → UInt8) (allSyms : List (List Symbol)) (addr : Nat) : Option Symbol :=
  if ¬ Accepted addr then none
  else
    let best := ((allSyms.flatMap scan).foldl (closer addr) (⟨0xffffffff, 0⟩, 0xffffffff)).1
    if best.eip = 0xffffffff ∨ best.name = 0 ∨ memory best.name = 0 then none
    else if 0x200000 < addr - best.eip then none
    else some best

/-- The symbol with the greatest address not above `addr`, if one is within 2 MB. -/
def Finds (symbols : List Symbol) (addr : Nat) : Option Symbol → Prop
  | some s => s ∈ symbols ∧ s.eip ≤ addr ∧ addr - s.eip ≤ 0x200000 ∧
      ∀ t ∈ symbols, t.eip ≤ addr → t.eip ≤ s.eip
  | none => ∀ s ∈ symbols, s.eip ≤ addr → 0x200000 < addr - s.eip

/-- A table that is complete: every entry has an address and a name. -/
def Named (memory : Nat → UInt8) (symbols : List Symbol) : Prop :=
  ∀ s ∈ symbols, s.eip ≠ 0 ∧ s.name ≠ 0 ∧ memory s.name ≠ 0

lemma foldl_closer (addr : Nat) (symbols : List Symbol) (best : Symbol × Nat) :
    let r := symbols.foldl (closer addr) best
    (r = best ∨ r.1 ∈ symbols ∧ r.1.eip ≤ addr ∧ r.2 = addr - r.1.eip ∧ r.2 < best.2) ∧
      ∀ s ∈ symbols, s.eip ≤ addr → r.2 ≤ addr - s.eip := by
  induction symbols generalizing best with
  | nil => simp
  | cons s symbols ih =>
    have rest := ih (closer addr best s)
    rw [foldl_cons]
    generalize symbols.foldl (closer addr) (closer addr best s) = r at *
    unfold closer at rest
    split_ifs at rest <;> grind

lemma scan_named {memory : Nat → UInt8} {symbols : List Symbol} (named : Named memory symbols) :
    scan (symbols ++ [⟨0, 0⟩]) = symbols := by
  rw [scan, takeWhile_append_of_pos fun s mem => by simp [(named s mem).1, (named s mem).2.1]]
  simp

lemma addrToFunc_finds {memory : Nat → UInt8} {allSyms : List (List Symbol)} {addr : Nat}
    (named : Named memory (allSyms.flatMap scan)) (accepted : Accepted addr) :
    Finds (allSyms.flatMap scan) addr (addrToFunc memory allSyms addr) := by
  have small : addr ≤ 0x20000000 := by
    unfold Accepted at accepted
    omega
  have closest := foldl_closer addr (allSyms.flatMap scan) (⟨0xffffffff, 0⟩, 0xffffffff)
  simp only [addrToFunc, accepted, not_true, if_false]
  generalize allSyms.flatMap scan = symbols at *
  generalize symbols.foldl (closer addr) (⟨0xffffffff, 0⟩, 0xffffffff) = best at *
  obtain ⟨rfl | ⟨mem, le, diff, -⟩, closest⟩ := closest
  · intro s mem le
    have := closest s mem le
    omega
  · have := named _ mem
    grind [Finds]

/-- The named functions among the entries of a symbol table. -/
def functions (symhdr : Nat → ElfSym) (strings : Strings) (numSyms : Nat) : List Symbol :=
  (List.range numSyms).filterMap fun i =>
    if (symhdr i).name ≠ 0 ∧ strings.memory (add32 strings.table (symhdr i).name) ≠ 0 then
      strings.symbol (symhdr i)
    else none

/-- `load_symbols` reads only the entries of the table, and `addr_to_func` finds the function at
every address, in the kernel or the table. -/
def Resolves (kernel : List Symbol) (symhdr : Nat → ElfSym) (strings : Strings)
    (numSyms : Nat) : Prop :=
  (∀ i ∈ entriesRead numSyms, i < numSyms) ∧ ∀ addr, Accepted addr →
    Finds (kernel ++ functions symhdr strings numSyms) addr
      (addrToFunc strings.memory [kernel ++ [⟨0, 0⟩], loadSymbols symhdr strings numSyms] addr)

/-- The loop reads beyond every table but the empty one. -/
theorem resolves_iff {kernel : List Symbol} (symhdr : Nat → ElfSym) (strings : Strings)
    (numSyms : Nat) (named : Named strings.memory kernel) :
    Resolves kernel symhdr strings numSyms ↔ numSyms = 0 := by
  constructor
  · rintro ⟨reads, -⟩
    by_contra some
    have := reads numSyms (mem_map.mpr ⟨numSyms - 1, mem_range.mpr (by omega), by omega⟩)
    omega
  · rintro rfl
    have empty : scan (loadSymbols symhdr strings 0) = [] := rfl
    have tables : [kernel ++ [⟨0, 0⟩], loadSymbols symhdr strings 0].flatMap scan = kernel := by
      simp [scan_named named, empty]
    refine ⟨by simp [entriesRead], fun addr accepted => ?_⟩
    have found := addrToFunc_finds
      (by rwa [tables]) accepted
    rw [tables] at found
    simpa [functions] using found

/-- A memory with a name at address 2, and the string table at address 1. -/
def sampleStrings : Strings := { memory := fun a => if a = 2 then 102 else 0, table := 1, na := 64 }

/-- The function `f` at an address. -/
def functionAt (value : Nat) : ElfSym := { value := value, name := 1, info := 2 }

theorem resolves_iff_empty : Resolves [⟨0x100000, 2⟩] (fun _ => functionAt 0) sampleStrings 0 :=
  (resolves_iff _ sampleStrings 0 (by intro s mem; rw [mem_singleton.mp mem]; decide)).mpr rfl

/-- A table with one entry: the entry after it is read, and the function there is found. Behind a
function at address zero, the next one is not found. -/
theorem symbols_not_resolved :
    addrToFunc sampleStrings.memory
      [loadSymbols (fun _ => functionAt 0x10000000) sampleStrings 1] 0x10000004 =
        some ⟨0x10000000, 2⟩ ∧
    entriesRead 1 = [1] ∧
    addrToFunc sampleStrings.memory
      [loadSymbols (fun i => functionAt (if i = 1 then 0 else 0x10000000)) sampleStrings 3]
        0x10000004 = none := by
  decide

/-! ## fork -/

/-- What `fork` copies: the symbols and the string table of a task. -/
structure Tables where
  symbols : List Symbol
  table : Nat
  size : Nat

/-- A pointer into the parent's table becomes one into the child's, which is at `table`. -/
def relocate (parent : Tables) (table : Nat) (s : Symbol) : Symbol :=
  { s with name := add32 (sub32 s.name parent.table) table }

/-- The part of `fork` that copies the symbols. -/
def cloneSymbols (parent : Tables) (table : Nat) : Tables :=
  let num := (scan parent.symbols).length
  { symbols :=
      (parent.symbols.take num).map (relocate parent table) ++ (parent.symbols.drop num).take 1
    table := table
    size := parent.size }

/-- The memory after the string table has been copied. -/
def cloneMemory (memory : Nat → UInt8) (parent : Tables) (table a : Nat) : UInt8 :=
  if table ≤ a ∧ a < table + parent.size then memory (parent.table + (a - table)) else memory a

/-- A string with its terminating zero. -/
def StringAt (memory : Nat → UInt8) (p : Nat) (text : List UInt8) : Prop :=
  (∀ i < text.length, text[i]? = some (memory (p + i)) ∧ memory (p + i) ≠ 0) ∧
    memory (p + text.length) = 0

/-- The name of a symbol is a string inside the string table. -/
def Tables.Holds (tables : Tables) (memory : Nat → UInt8) (s : Symbol) (text : List UInt8) : Prop :=
  StringAt memory s.name text ∧ tables.table ≤ s.name ∧ s.name + text.length <
    tables.table + tables.size

/-- The child has the same functions, and their names are its own. -/
def SameSymbols (memory : Nat → UInt8) (parent : Tables) (table : Nat) : Prop :=
  let child := cloneSymbols parent table
  List.Forall₂ (fun s t => t.eip = s.eip ∧ ∃ text, StringAt memory s.name text ∧
    child.Holds (cloneMemory memory parent table) t text) (scan parent.symbols) (scan child.symbols)

lemma holds_relocate_iff {memory : Nat → UInt8} {parent : Tables} {table : Nat} {s : Symbol}
    (fits : parent.table + parent.size ≤ wordSize) (fits' : table + parent.size ≤ wordSize)
    (pointer : s.name < wordSize) (text : List UInt8) :
    StringAt memory s.name text ∧ (cloneSymbols parent table).Holds
      (cloneMemory memory parent table)
      (relocate parent table s) text ↔ parent.Holds memory s text := by
  have name : (relocate parent table s).name = (s.name +
    (wordSize - parent.table % wordSize) + table) %
      wordSize := by
    simp [relocate, add32, sub32]
  constructor
  · rintro ⟨string, -, low, high⟩
    refine ⟨string, ?_, ?_⟩
    all_goals
      simp only [name, cloneSymbols, wordSize] at *
      omega
  · rintro ⟨string, low, high⟩
    have moved : (relocate parent table s).name = table + (s.name - parent.table) := by
      simp only [name, wordSize] at *
      omega
    have copied {i : Nat} (le : i ≤ text.length) :
        cloneMemory memory parent table ((relocate parent table s).name + i) =
          memory (s.name + i) := by
      rw [cloneMemory, if_pos (by omega)]
      congr 1
      omega
    refine ⟨string, ⟨fun i lt => ?_, ?_⟩, ?_, ?_⟩
    · rw [copied (by omega)]
      exact string.1 i lt
    · rw [copied le_rfl]
      exact string.2
    · rw [moved]
      exact Nat.le_add_right _ _
    · change _ < table + parent.size
      omega

/-- The copy ends with the entry at which the scan of the original ends. -/
lemma scan_rest (symbols : List Symbol) :
    scan ((symbols.drop (scan symbols).length).take 1) = [] := by
  induction symbols with
  | nil => rfl
  | cons s symbols ih =>
    by_cases zero : s.eip ≠ 0 ∧ s.name ≠ 0
    · simpa [scan, zero] using ih
    · simp [scan, zero]

lemma name_lt {symhdr : Nat → ElfSym} {strings : Strings} {numSyms : Nat} {s : Symbol}
    (pointer : strings.na < wordSize) (mem : s ∈ loadSymbols symhdr strings numSyms) :
    s.name < wordSize := by
  obtain found | zero := mem_append.mp mem
  · obtain ⟨i, -, eq⟩ := mem_filterMap.mp found
    obtain ⟨-, eq⟩ := ite_none_right_eq_some.mp eq
    cases eq
    split_ifs
    · exact add32_lt _ _
    · exact pointer
  · rw [(mem_replicate.mp zero).2]
    decide

/-- The child gets the symbols of its parent exactly if all names are strings in the string table.
-/
theorem fork_symbols_iff (symhdr : Nat → ElfSym) (strings : Strings)
    (numSyms size : Nat) {table : Nat}
    (fits : strings.table + size ≤ wordSize) (fits' : table + size ≤ wordSize) (nonnull : table ≠ 0)
    (pointer : strings.na < wordSize) :
    let parent : Tables := ⟨loadSymbols symhdr strings numSyms, strings.table, size⟩
    SameSymbols strings.memory parent table ↔
      ∀ s ∈ scan parent.symbols, ∃ text, parent.Holds strings.memory s text := by
  intro parent
  have isPrefix : scan parent.symbols <+: parent.symbols := takeWhile_prefix _
  have moved {s : Symbol} (mem : s ∈ scan parent.symbols) (text : List UInt8) :
      _ ↔ parent.Holds strings.memory s text :=
    holds_relocate_iff fits fits' (name_lt pointer (isPrefix.subset mem)) text
  have symbols : (cloneSymbols parent table).symbols =
      (scan parent.symbols).map (relocate parent table) ++
        (parent.symbols.drop (scan parent.symbols).length).take 1 := by
    rw [cloneSymbols, ← prefix_iff_eq_take.mp isPrefix]
  -- if no entry is lost, the symbols are compared one by one
  have whole (eq : scan (cloneSymbols parent table).symbols =
      (scan parent.symbols).map (relocate parent table)) : SameSymbols strings.memory parent table ↔
        ∀ s ∈ scan parent.symbols, ∃ text, parent.Holds strings.memory s text := by
    unfold SameSymbols
    dsimp only
    rw [eq, forall₂_map_right_iff, forall₂_same]
    refine forall₂_congr fun s mem => ?_
    simp only [moved mem]
    exact and_iff_right rfl
  constructor
  · intro same
    refine (whole ?_).mp same
    have taken : scan (cloneSymbols parent table).symbols <+: (cloneSymbols parent table).symbols :=
      takeWhile_prefix _
    rw [prefix_iff_eq_take.mp taken, ← same.length_eq, symbols]
    exact take_left' (by simp)
  · intro named
    refine (whole ?_).mpr named
    rw [symbols, scan, takeWhile_append_of_pos, ← scan, scan_rest, append_nil]
    intro t mem
    obtain ⟨s, scanned, rfl⟩ := mem_map.mp mem
    obtain ⟨text, holds⟩ := named s scanned
    have low := ((moved scanned text).mpr holds).2.2.1
    have nonzero := mem_takeWhile_imp scanned
    simp only [ne_eq, decide_eq_true_eq] at nonzero
    simp only [ne_eq, decide_eq_true_eq]
    exact ⟨nonzero.1, fun zero => nonnull (Nat.le_zero.mp (zero ▸ low))⟩

/-- The table of a program with the function `f`. -/
theorem fork_symbols_iff_named : SameSymbols sampleStrings.memory
    ⟨loadSymbols (fun _ => functionAt 0x10000000) sampleStrings 1, sampleStrings.table, 3⟩ 16 := by
  refine (fork_symbols_iff _ sampleStrings 1 3 (by decide) (by decide) (by decide) (by decide)).mpr
    ?_
  intro s mem
  have only : scan (loadSymbols (fun _ => functionAt 0x10000000) sampleStrings 1) =
      [⟨0x10000000, 2⟩] := by decide
  rw [only, mem_singleton] at mem
  refine ⟨[102], ⟨fun i lt => ?_, ?_⟩, ?_, ?_⟩
  · obtain rfl : i = 0 := by simpa using lt
    rw [mem]
    decide
  all_goals
    rw [mem]
    decide

/-- The pointer to the name of an unnamed function, 64 in the parent, becomes 79 in the child. -/
theorem unnamed_function_moved : (cloneSymbols
    ⟨loadSymbols (fun _ => ⟨0x10000000, 0, 2⟩) sampleStrings 1, sampleStrings.table,
      3⟩ 16).symbols = [⟨0x10000000, 79⟩, ⟨0, 0⟩] ∧ sampleStrings.na = 64 := by
  decide

end ExscapeOS.Symbols
