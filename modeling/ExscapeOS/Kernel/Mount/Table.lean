import ExscapeOS.Lib.Word
import ExscapeOS.Kernel.Path.Basic

/-!
# The mount table

`/etc/mounts` has a line for each file system, with its type and path. `fs_mount` reads it from a
buffer where a zero follows the contents. Before a line one comment is skipped, and what follows it
is taken for a line even if it is blank or a comment. A comment that ends the file without a newline
leads out of the buffer.
-/
namespace ExscapeOS.Mount

open Lib ExscapeOS.Path List Option

/-! ## Lines -/

structure Line where
  mount : Str
  path : Str
  deriving DecidableEq

/-- `*p <= ' '`, where `char` is signed. -/
def isJunk (c : UInt8) : Bool := c ≤ 0x20 ∨ 0x80 ≤ c

def isEol (c : UInt8) : Bool := c = 0x0a ∨ c = 0x0d ∨ c = 0

def skipJunk (p : Str) : Str := p.dropWhile fun c => isJunk c && c ≠ 0

/-- One comment. At the end of the file, the zero is skipped too. -/
def skipComment (p : Str) : Str :=
  if p.head? = some 0x23 then (p.dropWhile fun c => c ≠ 0 && c ≠ 0x0a).tail else p

/-- The next line, and what is left of the buffer. The inner option is `none` at the end of the
table. There is no result if the kernel panics, or `fs_mount` leaves one of its buffers. -/
def readLine (p : Str) : Option (Option (Line × Str)) := do
  let p := skipComment (skipJunk p)
  kassert (p ≠ [])
  if p.headD 0 = 0 then return none
  else
    let mount := p.takeWhile fun c => !isJunk c
    kassert (mount.length < 16)
    let p := skipJunk (p.dropWhile fun c => !isJunk c)
    kassert (p.headD 0 ≠ 0)
    let path := p.takeWhile fun c => !isEol c
    kassert (path.length < 256)
    return some (⟨mount, path⟩, skipJunk (p.dropWhile fun c => !isEol c))

def readLines : Nat → Str → Option (List Line)
  | 0, _ => none
  | n + 1, p => do
    match ← readLine p with
    | none => return []
    | some (l, p) => if p.headD 0 = 0 then return [l] else (readLines n p).map (l :: ·)

/-- The lines that `fs_mount` finds in the table. -/
def table (file : Str) : Option (List Line) := do
  kassert ((file ++ [0]).headD 0 ≠ 0)
  readLines (file ++ [0]).length (file ++ [0])

/-! ## What the file says -/

def isBlank (c : UInt8) : Bool := c = 0x20 ∨ c = 0x09 ∨ c = 0x0d

/-- A line of the file: a type and a path, with blanks around them, unless it is a comment. -/
def Line.ofText (text : Str) : Option Line :=
  let words := text.dropWhile isBlank
  let path := ((words.dropWhile (!isBlank ·)).dropWhile isBlank).rdropWhile isBlank
  if words.head? = some 0x23 ∨ path = [] then none
  else some ⟨words.takeWhile (!isBlank ·), path⟩

/-- The lines of the file, however `fs_mount` reads them. -/
def lines (file : Str) : List Line := (file.splitOn 0x0a).filterMap Line.ofText

lemma path_ne_nil_of_mem_lines {file : Str} {l : Line} (mem : l ∈ lines file) : l.path ≠ [] := by
  obtain ⟨text, -, line⟩ := mem_filterMap.mp mem
  simp only [Line.ofText, ite_none_left_eq_some, some.injEq] at line
  obtain ⟨other, rfl⟩ := line
  exact fun none_left => other (.inr none_left)

end ExscapeOS.Mount
