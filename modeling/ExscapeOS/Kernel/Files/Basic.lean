import ExscapeOS.Lib.Refs
import ExscapeOS.Lib.Transition
import ExscapeOS.Lib.Word

/-!
# Open files

The descriptor tables of all tasks and the `open_file` structures that they point to (`vfs.c`,
`pipe.c`, `task.c`). `count` is `none` where no `open_file` is allocated. The address that `kmalloc`
returns is an argument, and is only required to be free.

`new_filp` hands out the slots from 0 to `MAX_OPEN_FILES`, one more than the loops of `fork` and
`destroy_task` visit. The table has room for it, since it is allocated with the size of
`MAX_OPEN_FILES` structures and not of as many pointers.
-/
namespace ExscapeOS.Files

open Lib Function

abbrev Pid := Nat

/-- The address of a `struct open_file`. -/
abbrev Filp := Nat

def maxOpenFiles : Nat := 128

/-- The slots of a descriptor table that the kernel uses. -/
abbrev Slot := Fin (maxOpenFiles + 1)

structure Tables where
  tasks : Finset Pid
  fdtable : Pid → Slot → Option Filp
  count : Filp → Option Nat

def ebadf : Int := 9

namespace Tables

/-- `task->fdtable[i] = v`. -/
def setSlot (t : Pid) (i : Slot) (v : Option Filp) (s : Tables) : Tables :=
  { s with fdtable := update s.fdtable t (update (s.fdtable t) i v) }

/-- `f->count = c`; with `none`, `f` is freed. -/
def setCount (f : Filp) (c : Option Nat) (s : Tables) : Tables :=
  { s with count := update s.count f c }

/-- `f->count++`. -/
def addRef (f : Filp) (s : Tables) : Option Tables :=
  (s.count f).map fun c => s.setCount f (some (c + 1))

/-! ## Slots -/

/-- The range check of `do_get_filp`. -/
def slotOf (fd : Int) : Option Slot :=
  if h : fd < 0 ∨ fd > maxOpenFiles then none else some ⟨fd.toNat, by omega⟩

/-- The slots that a loop with `i < MAX_OPEN_FILES` visits. -/
def lowSlots : List Slot := (List.finRange maxOpenFiles).map Fin.castSucc

def doGetFilp (fd : Int) (t : Pid) (s : Tables) : Option Filp := (slotOf fd).bind (s.fdtable t)

/-- `new_filp`, with the block `f` from `kmalloc`. -/
def newFilp (f : Filp) (t : Pid) (s : Tables) : Option (Slot × Tables) := do
  kassert (s.count f = none)
  let i ← (List.finRange (maxOpenFiles + 1)).find? fun i => s.fdtable t i = none
  return (i, (s.setSlot t i (some f)).setCount f (some 0))

def destroyFilp (i : Slot) (t : Pid) (s : Tables) : Option Tables := do
  kassert (i.val < maxOpenFiles)
  let f ← s.fdtable t i
  return (s.setSlot t i none).setCount f none

/-! ## The calls -/

/-- How an `open` goes: the file is found, or not, or a symbolic link leads to another `open`. Each
attempt has an `open_file` of its own. -/
inductive Lookup where
  | found (f : Filp)
  | missing (f : Filp)
  | link (f : Filp) (target : Lookup)

/-- `ext2_open`, `fat_open` and `initrd_open`; the last two do not follow links. -/
def fsOpen (t : Pid) : Lookup → Tables → Option Tables
  | .found f, s => do
    let (_, s) ← s.newFilp f t
    s.addRef f
  | .missing f, s => do
    let (i, s) ← s.newFilp f t
    s.destroyFilp i t
  | .link f target, s => do
    let (i, s) ← s.newFilp f t
    let s ← fsOpen t target s
    s.destroyFilp i t

def pipe (rd wr : Filp) (t : Pid) (s : Tables) : Option Tables := do
  let (_, s) ← s.newFilp rd t
  let (_, s) ← s.newFilp wr t
  let s ← s.addRef rd
  s.addRef wr

/-- `do_close`, with its result. The `close` functions of the files return 0. -/
def doClose (i : Slot) (t : Pid) (s : Tables) : Option (Int × Tables) :=
  match s.fdtable t i with
  | none => some (-ebadf, s)
  | some f => do
    let c ← s.count f
    if c < 1 then return (-ebadf, s)
    let s := s.setSlot t i none
    if c - 1 = 0 then return (0, s.setCount f none)
    return (0, s.setCount f (some (c - 1)))

def close (fd : Int) (t : Pid) (s : Tables) : Option Tables :=
  match slotOf fd with
  | none => some s
  | some i => (s.doClose i t).map Prod.snd

def dup (fd : Int) (t : Pid) (s : Tables) : Option Tables :=
  match s.doGetFilp fd t with
  | none => some s
  | some f =>
    match lowSlots.find? fun i => s.fdtable t i = none with
    | none => some s
    | some i => (s.setSlot t i (some f)).addRef f

def dup2 (fd fd2 : Int) (t : Pid) (s : Tables) : Option Tables :=
  if fd2 < 0 ∨ fd2 ≥ maxOpenFiles then some s
  else
    match s.doGetFilp fd t, slotOf fd2 with
    | some f, some i => do
      let s ← if s.fdtable t i = none then some s else s.close fd2 t
      kassert (s.fdtable t i = none)
      (s.setSlot t i (some f)).addRef f
    | _, _ => some s

/-! ## Tasks -/

/-- The table of a new user task: `stdin`, `stdout` and `stderr`. -/
def stdio (stdin stdout stderr : Filp) : Slot → Option Filp :=
  update (update (update (fun _ => none) 0 (some stdin)) 1 (some stdout)) 2 (some stderr)

/-- The part of `create_task` that sets up the table. -/
def createTask (t : Pid) (user : Option (Filp × Filp × Filp)) (s : Tables) : Option Tables := do
  kassert (t ∉ s.tasks)
  let s := { s with tasks := insert t s.tasks, fdtable := update s.fdtable t fun _ => none }
  match user with
  | none => return s
  | some (stdin, stdout, stderr) =>
    kassert ([stdin, stdout, stderr].Nodup ∧ ∀ f ∈ [stdin, stdout, stderr], s.count f = none)
    return { s with
      fdtable := update s.fdtable t (stdio stdin stdout stderr)
      count := update (update (update s.count stdin (some 1)) stdout (some 1)) stderr (some 1) }

/-- The loop of `fork` over the child's table. -/
def addRefs (table : Slot → Option Filp) : List Slot → Tables → Option Tables
  | [], s => some s
  | i :: is, s =>
    match table i with
    | none => addRefs table is s
    | some f => do
      let c ← s.count f
      kassert (0 < c)
      addRefs table is (s.setCount f (some (c + 1)))

/-- The part of `fork` that copies the table. -/
def fork (t child : Pid) (s : Tables) : Option Tables := do
  kassert (child ∉ s.tasks)
  let table := s.fdtable t
  addRefs table lowSlots
    { s with tasks := insert child s.tasks, fdtable := update s.fdtable child table }

/-- The loop of `destroy_task` over the table. -/
def closeAll (t : Pid) : List Slot → Tables → Option Tables
  | [], s => some s
  | i :: is, s =>
    if s.fdtable t i = none then closeAll t is s
    else do
      let (ret, s) ← s.doClose i t
      kassert (ret = 0)
      kassert (s.fdtable t i = none)
      closeAll t is s

/-- The part of `destroy_task` that closes the files and frees the table. -/
def destroyTask (t : Pid) (s : Tables) : Option Tables := do
  let s ← closeAll t lowSlots s
  return { s with tasks := s.tasks.erase t, fdtable := update s.fdtable t fun _ => none }

end Tables

/-- What a task, or the reaper on its behalf, can do. -/
inductive Action where
  | create (t : Pid) (user : Option (Filp × Filp × Filp))
  | openFile (t : Pid) (lookup : Tables.Lookup)
  | pipe (t : Pid) (rd wr : Filp)
  | dup (t : Pid) (fd : Int)
  | dup2 (t : Pid) (fd fd2 : Int)
  | close (t : Pid) (fd : Int)
  | fork (t child : Pid)
  | destroy (t : Pid)

/-- The task that acts; it has a table, unless it is new. -/
def Action.task : Action → Option Pid
  | .create .. => none
  | .openFile t _ | .pipe t .. | .dup t _ | .dup2 t .. | .close t _ | .fork t _ | .destroy t =>
      some t

/-- One call; `none` if the kernel stops in it. -/
def step (s : Tables) (a : Action) : Option Tables :=
  if ∀ t ∈ a.task, t ∈ s.tasks then
    match a with
    | .create t user => s.createTask t user
    | .openFile t lookup => s.fsOpen t lookup
    | .pipe t rd wr => s.pipe rd wr t
    | .dup t fd => s.dup fd t
    | .dup2 t fd fd2 => s.dup2 fd fd2 t
    | .close t fd => s.close fd t
    | .fork t child => s.fork t child
    | .destroy t => s.destroyTask t
  else none

/-- No task, and no open file. -/
def boot : Tables := { tasks := ∅, fdtable := fun _ _ => none, count := fun _ => none }

end ExscapeOS.Files
