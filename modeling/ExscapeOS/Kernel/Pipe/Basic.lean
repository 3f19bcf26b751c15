import ExscapeOS.Lib.Word

/-!
# Pipes

`pipe_read` and `pipe_write` of `kernel/pipe.c`, cut where another task can observe or change the
pipe. Both look at `bytes_avail` in their wait loops without the mutex. Everything else is under the
mutex, so a step of a task is a test of a wait loop, an acquisition, or one of the two copies with
the update of `bytes_avail` that follows it.

The ghost field `stream` records every copy into the ring. `PIPE_BUF` comes from the C library and
is a parameter, `pipeBuf`; the kernel asserts that it is smaller than the ring.
-/
namespace ExscapeOS.Pipes

open Lib

variable {T : Type} [DecidableEq T]

def pipeBufferSize : Nat := 65536

/-- The end of the pipe that a descriptor refers to. -/
inductive PipeEnd where
  | reader
  | writer
  deriving DecidableEq

/-- `struct pipe`, shared by tasks of type `T`. Positions are offsets from `buffer`. -/
structure Pipe (T : Type) where
  buffer : Nat → UInt8
  /-- The count of the open file of the read end; `none` is `NULL`. -/
  reader : Option Int
  /-- The count of the open file of the write end; `none` is `NULL`. -/
  writer : Option Int
  readPos : Nat
  writePos : Nat
  bytesAvail : Nat
  /-- The task that holds the mutex. -/
  lock : Option T

/-- A call of `pipe_write`: its arguments, and a number. The bytes behind the `count` bytes are part
of `buf`, since a copy can reach them. -/
structure WriteCall where
  id : Nat
  buf : Nat → UInt8
  count : Nat
  count_lt : count < wordSize

/-- A copy into the ring: `size` bytes of the call's buffer from `offset` on. -/
structure Chunk where
  call : WriteCall
  offset : Nat
  size : Nat

inductive Result where
  | ebadf
  | epipe
  | bytes (n : Nat)

/-- Where a task is, with its local variables. -/
inductive Pc where
  | idle
  | readEnter (file : PipeEnd) (count : Nat)
  | readWait (count : Nat)
  | readLock (count : Nat)
  | readFirst (count : Nat)
  | readSecond (count bytesRead : Nat) (out : List UInt8)
  | readUnlock (bytesRead : Nat) (out : List UInt8)
  | writeEnter (file : PipeEnd) (call : WriteCall)
  | writeLoop (call : WriteCall) (bytesWritten : Nat)
  | writeWait (call : WriteCall) (bytesWritten : Nat)
  | writeCheck (call : WriteCall) (bytesWritten : Nat)
  | writeLock (call : WriteCall) (bytesWritten : Nat)
  | writeFirst (call : WriteCall) (bytesWritten : Nat)
  | writeSecond (call : WriteCall) (bytesWritten : Nat)
  | writeUnlock (call : WriteCall) (bytesWritten : Nat)
  | returned (result : Result) (out : List UInt8)

/-! ## The copies -/

namespace Pipe

/-- A copy out of the ring, with the two assertions in front of it. -/
def copyOut (toRead : Nat) (p : Pipe T) : Option (List UInt8 × Pipe T) := do
  kassert (toRead ≤ p.bytesAvail)
  kassert (p.readPos + toRead ≤ pipeBufferSize)
  return ((List.range toRead).map fun i => p.buffer (p.readPos + i),
    { p with readPos := p.readPos + toRead, bytesAvail := p.bytesAvail - toRead })

/-- Wrap the read position, if necessary. -/
def wrapRead (p : Pipe T) : Option (Pipe T) :=
  if pipeBufferSize ≤ p.readPos then do
    kassert (p.readPos = pipeBufferSize)
    return { p with readPos := 0 }
  else some p

/-- A copy into the ring, with the two assertions in front of it. -/
def copyIn (toWrite : Nat) (src : Nat → UInt8) (p : Pipe T) : Option (Pipe T) := do
  kassert (toWrite ≤ pipeBufferSize - p.bytesAvail)
  kassert (p.writePos + toWrite ≤ pipeBufferSize)
  return { p with
    buffer := fun i =>
      if p.writePos ≤ i ∧ i < p.writePos + toWrite then src (i - p.writePos) else p.buffer i
    writePos := p.writePos + toWrite
    bytesAvail := p.bytesAvail + toWrite }

/-- Wrap the write position, if necessary. -/
def wrapWrite (p : Pipe T) : Option (Pipe T) :=
  if pipeBufferSize ≤ p.writePos then do
    kassert (p.writePos = pipeBufferSize)
    return { p with writePos := 0 }
  else some p

/-- `mutex_lock`, when the mutex is free. -/
def acquire (t : T) (p : Pipe T) : Pipe T := { p with lock := some t }

def release (p : Pipe T) : Pipe T := { p with lock := none }

/-- `mutex_unlock`, with its assertions. -/
def unlock (t : T) (p : Pipe T) : Option (Pipe T) := do
  kassert (p.lock = some t)
  return p.release

/-- The test of `pipe_write` for a reader: does the write end in `EPIPE`? -/
def brokenPipe (p : Pipe T) : Option Bool :=
  match p.reader with
  | none => some true
  | some count =>
    if count ≤ 0 then do
      kassert (count = 0)
      return true
    else some false

end Pipe

/-! ## The steps of a task -/

/-- What a step leaves behind: the pipe, the task's place, and the copy. -/
structure Outcome (T : Type) where
  pipe : Pipe T
  pc : Pc
  chunk : Option Chunk

/-- The number of bytes of the first copy of `pipe_read`. -/
def firstRead (p : Pipe T) (count : Nat) : Nat :=
  min (min count (pipeBufferSize - p.readPos)) p.bytesAvail

/-- The number of bytes of the first copy of `pipe_write`. -/
def firstWrite (p : Pipe T) (count : Nat) : Nat :=
  min (min count (pipeBufferSize - p.writePos)) (pipeBufferSize - p.bytesAvail)

/-- `pipe_read` after the mutex is taken: the part without wrapping. -/
def readFirst (p : Pipe T) (count : Nat) : Option (Outcome T) := do
  kassert (0 < p.bytesAvail)
  let toRead := firstRead p count
  let (out, p) ← p.copyOut toRead
  let p ← p.wrapRead
  return ⟨p, .readSecond count toRead out, none⟩

/-- `pipe_read`, "but wait, there's more". The size is bounded by `count`, not by what is left
of it. -/
def readSecond (p : Pipe T) (count bytesRead : Nat) (out : List UInt8) : Option (Outcome T) :=
  if bytesRead < count ∧ 0 < p.bytesAvail then do
    let toRead := min p.bytesAvail count
    let (more, p) ← p.copyOut toRead
    return ⟨p, .readUnlock (add32 bytesRead toRead) (out ++ more), none⟩
  else some ⟨p, .readUnlock bytesRead out, none⟩

/-- `pipe_write` after the mutex is taken: the part without wrapping. It starts at the first byte of
the buffer in every round. -/
def writeFirst (p : Pipe T) (call : WriteCall) (bytesWritten : Nat) : Option (Outcome T) := do
  let toWrite := firstWrite p call.count
  let p ← p.copyIn toWrite call.buf
  let p ← p.wrapWrite
  return ⟨p, .writeSecond call (add32 bytesWritten toWrite), some ⟨call, 0, toWrite⟩⟩

/-- `pipe_write`, "but wait, there's more". The size is bounded by `count`, not by what is left
of it. -/
def writeSecond (p : Pipe T) (call : WriteCall) (bytesWritten : Nat) : Option (Outcome T) :=
  if bytesWritten < call.count ∧ 0 < pipeBufferSize - p.bytesAvail then do
    let toWrite := min (pipeBufferSize - p.bytesAvail) call.count
    let p ← p.copyIn toWrite fun i => call.buf (bytesWritten + i)
    return ⟨p, .writeUnlock call (add32 bytesWritten toWrite),
      some ⟨call, bytesWritten, toWrite⟩⟩
  else some ⟨p, .writeUnlock call bytesWritten, none⟩

/-- One step of task `t`; `none` is a failed assertion. A task that has to wait tries again later.
-/
def taskStep (pipeBuf : Nat) (t : T) (p : Pipe T) : Pc → Option (Outcome T)
  | .idle => some ⟨p, .idle, none⟩
  | .returned result out => some ⟨p, .returned result out, none⟩
  | .readEnter file count =>
    if p.writer = none ∧ p.bytesAvail = 0 then some ⟨p, .returned (.bytes 0) [], none⟩
    else if file = .writer ∧ p.writer ≠ none then some ⟨p, .returned .ebadf [], none⟩
    else some ⟨p, .readWait count, none⟩
  | .readWait count =>
    if p.bytesAvail = 0 then some ⟨p, .readWait count, none⟩
    else some ⟨p, .readLock count, none⟩
  | .readLock count =>
    if p.lock = none then some ⟨p.acquire t, .readFirst count, none⟩
    else some ⟨p, .readLock count, none⟩
  | .readFirst count => readFirst p count
  | .readSecond count bytesRead out => readSecond p count bytesRead out
  | .readUnlock bytesRead out => do
    let p ← p.unlock t
    return ⟨p, .returned (.bytes bytesRead) out, none⟩
  | .writeEnter file call =>
    if file = .reader ∧ p.reader ≠ none then some ⟨p, .returned .ebadf [], none⟩
    else some ⟨p, .writeLoop call 0, none⟩
  | .writeLoop call bytesWritten =>
    if bytesWritten < call.count then do
      if ← p.brokenPipe then return ⟨p, .returned .epipe [], none⟩
      else return ⟨p, .writeWait call bytesWritten, none⟩
    else some ⟨p, .returned (.bytes bytesWritten) [], none⟩
  | .writeWait call bytesWritten =>
    if pipeBufferSize - p.bytesAvail < min pipeBuf call.count then
      some ⟨p, .writeWait call bytesWritten, none⟩
    else some ⟨p, .writeCheck call bytesWritten, none⟩
  | .writeCheck call bytesWritten => do
    if ← p.brokenPipe then return ⟨p, .returned .epipe [], none⟩
    else return ⟨p, .writeLock call bytesWritten, none⟩
  | .writeLock call bytesWritten =>
    if p.lock = none then some ⟨p.acquire t, .writeFirst call bytesWritten, none⟩
    else some ⟨p, .writeLock call bytesWritten, none⟩
  | .writeFirst call bytesWritten => writeFirst p call bytesWritten
  | .writeSecond call bytesWritten => writeSecond p call bytesWritten
  | .writeUnlock call bytesWritten => do
    let p ← p.unlock t
    return ⟨p, .writeLoop call bytesWritten, none⟩

/-! ## Interleavings -/

/-- The pipe and the tasks that use it. -/
structure PipeState (T : Type) where
  pipe : Pipe T
  pc : T → Pc
  /-- Every copy into the ring so far. -/
  stream : List Chunk
  /-- Every call of `pipe_write` so far. -/
  calls : List WriteCall

inductive PipeAction (T : Type) where
  | read (t : T) (file : PipeEnd) (count : Nat)
  | write (t : T) (file : PipeEnd) (buf : Nat → UInt8) (count : Nat)
  | run (t : T)
  /-- Descriptors of the two ends are duplicated or closed. -/
  | ends (reader writer : Option Int)

/-- A task is between two calls. -/
def Pc.isFree : Pc → Bool
  | .idle | .returned .. => true
  | _ => false

/-- Any task may take a step, or begin a call if it is in none. `none` is a failed assertion, or an
impossible action. -/
def pipeStep (pipeBuf : Nat) (s : PipeState T) : PipeAction T → Option (PipeState T)
  | .read t file count => do
    kassert ((s.pc t).isFree = true ∧ count < wordSize)
    return { s with pc := Function.update s.pc t (.readEnter file count) }
  | .write t file buf count =>
    if h : (s.pc t).isFree = true ∧ count < wordSize then
      let call : WriteCall := ⟨s.calls.length, buf, count, h.2⟩
      some { s with
        pc := Function.update s.pc t (.writeEnter file call)
        calls := s.calls ++ [call] }
    else none
  | .run t => do
    let o ← taskStep pipeBuf t s.pipe (s.pc t)
    return { s with
      pipe := o.pipe
      pc := Function.update s.pc t o.pc
      stream := s.stream ++ o.chunk.toList }
  | .ends reader writer => do
    kassert (∀ count ∈ reader, 0 ≤ count)
    return { s with pipe := { s.pipe with reader := reader, writer := writer } }

/-- The pipe that `pipe` creates. -/
def newPipe (T : Type) (buffer : Nat → UInt8) : Pipe T :=
  { buffer := buffer, reader := some 1, writer := some 1, readPos := 0, writePos := 0
    bytesAvail := 0, lock := none }

/-- A new pipe that no task uses yet. -/
def newState (T : Type) (buffer : Nat → UInt8) : PipeState T :=
  { pipe := newPipe T buffer, pc := fun _ => .idle, stream := [], calls := [] }

/-- The bytes of a chunk, each with the number of the call that wrote it. -/
def Chunk.bytes (c : Chunk) : List (Nat × UInt8) :=
  (List.range c.size).map fun i => (c.call.id, c.call.buf (c.offset + i))

/-- Everything that was copied into the ring, in order. -/
def byteStream (s : PipeState T) : List (Nat × UInt8) := s.stream.flatMap Chunk.bytes

end ExscapeOS.Pipes
