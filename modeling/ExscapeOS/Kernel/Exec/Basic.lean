import ExscapeOS.Kernel.Files.Counts
import ExscapeOS.Kernel.Vmm.Basic
import ExscapeOS.Lib.Memory

/-!
# `execve`

`sys_execve` checks its arguments, copies them to the kernel heap and gives the task a new address
space, where `elf_load_int` loads the file. If that fails, it returns to the old address space. What
the file systems answer is a parameter. The contents of the new pages, the symbols and the name of
the task are left out.
-/
namespace ExscapeOS.Exec

open Lib Vmm Vmm.Vm Files

/-- A string, without its final zero. -/
abbrev Str := List UInt8

/-! ## Arguments -/

/-- What `sys_execve` finds as an array of strings in user memory: a slot that it may not read, the
end of the array, or a string, which is `none` if it may not be read. -/
inductive UserArray where
  | fault
  | null
  | str (s : Option Str) (rest : UserArray)

/-- The loop that checks an array. -/
def UserArray.strings : UserArray → Option (List Str)
  | .fault => none
  | .null => some []
  | .str none _ => none
  | .str (some s) rest => rest.strings.map (s :: ·)

/-- The arguments: `path` and `argv` are `none` if `NULL` or not accessible. -/
structure Args where
  path : Option Str
  argv : Option UserArray
  /-- `none` if it is not accessible, `some none` for `NULL`. -/
  envp : Option (Option UserArray)

/-! ## Files -/

/-- What `stat`, `open` and `read` do. -/
structure FileSystem where
  /-- The result of `stat` and `st_size`. -/
  stat : Str → Int × Nat
  lookup : Str → Tables.Lookup
  /-- The result of an `open` that fails. -/
  error : Str → Int
  error_neg : ∀ path, error path < 0
  /-- The result of reading `st_size` bytes, and the buffer after that. -/
  read : Str → Int × Memory

/-- `open`, with the descriptor if it succeeds. -/
def openFd (t : Pid) : Tables.Lookup → Tables → Option (Option Slot × Tables)
  | .found f, s => do
    let (i, s) ← s.newFilp f t
    let s ← s.addRef f
    return (some i, s)
  | .missing f, s => do
    let (i, s) ← s.newFilp f t
    let s ← s.destroyFilp i t
    return (none, s)
  | .link f target, s => do
    let (i, s) ← s.newFilp f t
    let (fd, s) ← openFd t target s
    let s ← s.destroyFilp i t
    return (fd, s)

/-- The lookup ends at a file. -/
def finds : Tables.Lookup → Bool
  | .found _ => true
  | .missing _ => false
  | .link _ target => finds target

/-! ## The ELF file -/

def read16 (m : Memory) (a : Nat) : Nat := (m a).toNat + 256 * (m (a + 1)).toNat

/-- The identification, the type and the machine are those of a program. -/
def isElf (data : Memory) : Bool :=
  (List.range 4).map data = [0x7f, 0x45, 0x4c, 0x46] &&
    data 4 = 1 && data 5 = 1 && data 6 = 1 && read16 data 18 = 3 && read16 data 16 = 2

/-- One round of the loop over the program headers. -/
def loadSegment (data : Memory) (i : Nat) (mm : TaskMm) (vm : Vm) : Option (TaskMm × Vm) := do
  let phdr := data.read32 28 + read16 data 42 * i
  if data.read32 phdr ≠ 1 then return (mm, vm)
  let start := data.read32 (phdr + 8)
  let writable := data.read32 (phdr + 24) / 2 % 2 = 1
  kassert (if i = 0 then start = 0x10000000 else 0x10000000 < start)
  let stop := pageCeil (add32 start (data.read32 (phdr + 20)))
  let mm := (if mm.brkStart < stop then { mm with brkStart := stop, brk := stop } else mm)
  vm.vmmAllocUser (start - start % pageSize) stop mm writable

def loadSegments (data : Memory) : List Nat → TaskMm → Vm → Option (TaskMm × Vm)
  | [], mm, vm => some (mm, vm)
  | i :: is, mm, vm => do
    let (mm, vm) ← loadSegment data i mm vm
    loadSegments data is mm vm

/-- The size of an array with its strings. -/
def arraySize (strs : List Str) : Nat := (strs.map fun s => 4 + (s.length + 1)).sum + 4

/-- `copy_argv_env_to_task`, apart from the contents. -/
def copyArgvEnvToTask (strs : List Str) (mm : TaskMm) (vm : Vm) : Option (TaskMm × Vm) := do
  kassert (mm.brkStart ≠ 0)
  let size := pageCeil (arraySize strs)
  let (mm', vm) ← vm.vmmAllocUser mm.brkStart (add32 mm.brkStart size) mm true
  return ({ mm' with brk := add32 mm.brk size, brkStart := add32 mm.brkStart size }, vm)

/-- The part of `elf_load_int` behind the checks. -/
def loadImage (reentSize : Nat) (data : Memory) (argv envp : List Str) (mm : TaskMm) (vm : Vm) :
    Option (TaskMm × Vm) := do
  kassert (0x10000000 ≤ data.read32 24 ∧ data.read32 24 < 0x11000000)
  let (mm, vm) ← loadSegments data (List.range (read16 data 44)) mm vm
  let size := pageCeil reentSize
  let (mm', vm) ← vm.vmmAllocUser mm.brk (add32 mm.brk size) mm true
  let mm' := { mm' with brk := add32 mm.brk size, brkStart := add32 mm.brkStart size }
  kassert (isPageAligned mm'.brk ∧ mm'.brk = mm'.brkStart)
  let (mm, vm) ← copyArgvEnvToTask argv { mm' with initialBrk := mm'.brkStart } vm
  copyArgvEnvToTask envp mm vm

/-! ## The calls -/

/-- The calling task, its files and the memory. -/
structure State where
  mm : TaskMm
  pwd : Str
  files : Tables
  vm : Vm

/-- `EFAULT`, `ENOENT` and `ENOEXEC`. -/
def efault : Int := 14

@[inherit_doc efault] def enoent : Int := 2

@[inherit_doc efault] def enoexec : Int := 8

/-- The label `err`. -/
def elfLoadErr (data : Nat) (retval : Int) (s : State) : Option (Int × State) := do
  let vm ← s.vm.kfree data
  kassert (retval ≤ 0)
  return (retval, { s with vm := vm })

/-- `elf_load_int`; `reentSize` is the size of `struct _reent`. -/
def elfLoadInt (fs : FileSystem) (reentSize : Nat) (t : Pid) (path : Str) (argv envp : List Str)
    (s : State) : Option (Int × State) := do
  let (r, fileSize) := fs.stat path
  if r ≠ 0 then
    kassert (r < 0)
    return (r, s)
  let (data, vm) ← s.vm.kmalloc
  let (fd, files) ← openFd t (fs.lookup path) s.files
  let s := { s with files := files, vm := vm }
  match fd with
  | none => elfLoadErr data (fs.error path) s
  | some fd =>
    let (r, buf) := fs.read path
    if r ≠ signed32 fileSize then
      -- if it is not negative, the source has a panic; the file is not closed
      kassert (r < 0)
      elfLoadErr data r s
    else
      let files ← s.files.close fd t
      let s := { s with files := files }
      if ¬ isElf buf then elfLoadErr data (-enoexec) s
      else
        let (mm, vm) ← loadImage reentSize buf argv envp s.mm s.vm
        elfLoadErr data 0 { s with mm := mm, vm := vm }

inductive Outcome where
  /-- The new image takes over. -/
  | replaced (s : State)
  | returned (r : Int) (s : State)

/-- `execve`, after the task has got a new address space; `oldMm` is the old one, and `kpath` the
block with the path. -/
def execve (fs : FileSystem) (reentSize : Nat) (t : Pid) (path : Str) (kpath : Nat)
    (argv envp : List Str) (oldMm : TaskMm) (s : State) : Option Outcome := do
  let (r, s) ← elfLoadInt fs reentSize t path argv envp s
  let vm ← s.vm.kfree kpath
  if r = 0 then
    let vm ← vm.teardown oldMm
    return .replaced { s with vm := vm }
  else
    kassert (r < 0)
    let vm ← vm.teardown s.mm
    return .returned r { s with mm := oldMm, vm := vm }

/-- Several calls of `kmalloc`. -/
def kmallocs : Nat → Vm → Option Vm
  | 0, vm => some vm
  | n + 1, vm => do
    let (_, vm) ← vm.kmalloc
    kmallocs n vm

def sysExecve (fs : FileSystem) (reentSize : Nat) (t : Pid) (args : Args) (s : State) :
    Option Outcome :=
  match args.path with
  | none => some (.returned (-efault) s)
  | some path =>
    if (fs.stat path).1 ≠ 0 then some (.returned (-enoent) s)
    else
      match args.argv, args.envp with
      | none, _ => some (.returned (-efault) s)
      | some _, none => some (.returned (-efault) s)
      | some argv, some envp =>
        match argv.strings with
        | none => some (.returned (-efault) s)
        | some argv => do
          -- `assert(envp != NULL)`
          let envp ← envp
          match envp.strings with
          | none => return .returned (-efault) s
          | some envp =>
            let vm ← kmallocs (argv.length + 1) s.vm
            let vm ← kmallocs (envp.length + 1) vm
            let (kpath, vm) ← vm.kmalloc
            let (mm, vm) ← vm.vmmCreateUserMm
            execve fs reentSize t path kpath argv envp s.mm { s with mm := mm, vm := vm }

end ExscapeOS.Exec
