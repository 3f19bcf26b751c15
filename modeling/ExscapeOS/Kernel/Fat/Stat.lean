import ExscapeOS.Kernel.Fat.Lookup
import ExscapeOS.Kernel.Path.Basename
import ExscapeOS.Kernel.Vfs.Relpath

/-!
# `fat_stat` and `fat_fstat`

`fat_stat` looks for the last component of a path in the directory that the others lead to. The
parse stops at its entry: if this has a long name, the name is left to the next parse. `fat_fstat`
looks for the path of an open file again, after `find_relpath` has taken it for a path of the VFS.
-/
namespace ExscapeOS.Fat

open Lib ExscapeOS.Path

/-- What `fat_stat` returns, and what it writes to the `struct stat`, if anything. -/
structure StatReply where
  ret : Int
  buf : Option Stat

/-- `-ENOENT`. -/
def enoent : Int := -2

/-- `S_ISDIR`. -/
def Stat.isDir (st : Stat) : Bool := st.stMode &&& 0o170000 = ifDir

/-- After `memset`. -/
def Stat.zero : Stat := ⟨0, 0, 0, 0, 0, 0, 0⟩

/-- The root directory has no entry. -/
def rootStat (dev : Nat) : Stat where
  stDev := dev
  stIno := 2
  stMode := 0o777 ||| ifDir
  stNlink := 1
  stSize := 0
  stBlksize := 4096
  stBlocks := 1

/-- `fat_stat`. There is no result if the kernel panics, or a parse does not end within `fuel`
clusters. -/
def fatStat (fuel : Nat) (part : Partition) (root dev : Nat) (inPath : Str) (s : Statics) :
    Option (StatReply × Statics) := do
  let path := pathDirname inPath
  let base ← pathBasename inPath
  if path = [slash] ∧ base = [slash] then return (⟨0, some (rootStat dev)⟩, s)
  else
    -- `fat_opendir`
    let (cluster, s) ← fatClusterForPath (part.readdir root dev fuel) root path .dir s
    if cluster = 0 ∨ 0x0fffffff ≤ cluster then return (⟨enoent, none⟩, s)
    else
      let p ← (fatParseDir fuel part (fatCallbackStat part dev) cluster s ⟨base, none⟩).join
      match p.data.st with
      | some st => return (⟨0, some st⟩, p.statics)
      | none => return (⟨enoent, some .zero⟩, p.statics)

/-- What does not change in a `struct open_file`, whose path is absolute, and the mountpoints. -/
structure OpenFile extends OpenDir where
  path : Str
  mountpoints : List Mount.Mountpoint

def OpenFile.fatFstat (file : OpenFile) (fuel : Nat) (s : Statics) :
    Option (StatReply × Statics) := do
  let (_, relpath) ← Vfs.findRelpath file.mountpoints some none file.path
  fatStat fuel file.part file.root file.dev relpath s

end ExscapeOS.Fat
