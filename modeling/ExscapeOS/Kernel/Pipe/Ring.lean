import ExscapeOS.Kernel.Pipe.Basic
import ExscapeOS.Lib.Transition

/-!
# The ring of a pipe

A copy moves one position around the ring and changes `bytes_avail` by the same number. The second
copy of a call is only reached when the first one stopped at the end of the ring, so it starts at
the beginning and cannot run past the end.

All assertions but one follow from the invariant, in every interleaving. The exception is the test
for data in `pipe_read` after the mutex is taken: another reader may have drained the ring between
the wait loop and the mutex.
-/
namespace ExscapeOS.Pipes

open Lib List Option

variable {T : Type} {p : Pipe T}

structure Ring (p : Pipe T) : Prop where
  readPos_lt : p.readPos < pipeBufferSize
  writePos_lt : p.writePos < pipeBufferSize
  avail_le : p.bytesAvail ≤ pipeBufferSize
  writePos_eq : p.writePos = (p.readPos + p.bytesAvail) % pipeBufferSize
  reader_nonneg : ∀ count ∈ p.reader, 0 ≤ count

namespace Pipe

/-- The ring after `k` bytes are copied out. -/
def take (k : Nat) (p : Pipe T) : Pipe T :=
  { p with readPos := (p.readPos + k) % pipeBufferSize, bytesAvail := p.bytesAvail - k }

/-- The ring after `k` bytes are copied in. -/
def put (k : Nat) (src : Nat → UInt8) (p : Pipe T) : Pipe T :=
  { p with
    buffer := fun i =>
      if p.writePos ≤ i ∧ i < p.writePos + k then src (i - p.writePos) else p.buffer i
    writePos := (p.writePos + k) % pipeBufferSize
    bytesAvail := p.bytesAvail + k }

/-- The bytes in the ring, the oldest first. -/
def contents (p : Pipe T) : List UInt8 :=
  (List.range p.bytesAvail).map fun i => p.buffer ((p.readPos + i) % pipeBufferSize)

@[simp] lemma length_contents (p : Pipe T) : p.contents.length = p.bytesAvail := by
  simp [contents]

end Pipe

namespace Ring

lemma take (ring : Ring p) {k : Nat} (hk : k ≤ p.bytesAvail) : Ring (p.take k) where
  readPos_lt := Nat.mod_lt _ (by decide)
  writePos_lt := ring.writePos_lt
  avail_le := by
    have := ring.avail_le
    simp only [Pipe.take]
    omega
  writePos_eq := by
    have := ring.writePos_eq
    simp only [Pipe.take, pipeBufferSize] at this ⊢
    omega
  reader_nonneg := ring.reader_nonneg

lemma put (ring : Ring p) {k : Nat} (src : Nat → UInt8)
    (hk : k ≤ pipeBufferSize - p.bytesAvail) : Ring (p.put k src) where
  readPos_lt := ring.readPos_lt
  writePos_lt := Nat.mod_lt _ (by decide)
  avail_le := by
    have := ring.avail_le
    simp only [Pipe.put]
    omega
  writePos_eq := by
    have := ring.writePos_eq
    simp only [Pipe.put, pipeBufferSize] at this ⊢
    omega
  reader_nonneg := ring.reader_nonneg

lemma acquire (ring : Ring p) (t : T) : Ring (p.acquire t) :=
  ⟨ring.readPos_lt, ring.writePos_lt, ring.avail_le, ring.writePos_eq, ring.reader_nonneg⟩

lemma release (ring : Ring p) : Ring p.release :=
  ⟨ring.readPos_lt, ring.writePos_lt, ring.avail_le, ring.writePos_eq, ring.reader_nonneg⟩

end Ring

/-! ## The copies keep to the ring -/

lemma copyOut_eq {k : Nat} (hk : k ≤ p.bytesAvail) (fits : p.readPos + k ≤ pipeBufferSize) :
    p.copyOut k = some (p.contents.take k,
      { p with readPos := p.readPos + k, bytesAvail := p.bytesAvail - k }) := by
  have straight : (List.range k).map (fun i => p.buffer (p.readPos + i)) = p.contents.take k := by
    rw [Pipe.contents, ← map_take, take_range, Nat.min_eq_left hk]
    refine map_congr_left fun i hi => ?_
    have lt : i < k := mem_range.mp hi
    rw [Nat.mod_eq_of_lt (by omega)]
  simp [Pipe.copyOut, kassert, hk, fits, straight]

lemma copyIn_eq {k : Nat} (src : Nat → UInt8) (hk : k ≤ pipeBufferSize - p.bytesAvail)
    (fits : p.writePos + k ≤ pipeBufferSize) :
    p.copyIn k src = some { p.put k src with writePos := p.writePos + k } := by
  simp [Pipe.copyIn, Pipe.put, kassert, hk, fits]

lemma wrapRead_eq (h : p.readPos ≤ pipeBufferSize) :
    p.wrapRead = some { p with readPos := p.readPos % pipeBufferSize } := by
  unfold Pipe.wrapRead
  split_ifs with wraps
  · have at_end : p.readPos = pipeBufferSize := by omega
    simp [kassert, at_end]
  · rw [Nat.mod_eq_of_lt (by omega)]

lemma wrapWrite_eq (h : p.writePos ≤ pipeBufferSize) :
    p.wrapWrite = some { p with writePos := p.writePos % pipeBufferSize } := by
  unfold Pipe.wrapWrite
  split_ifs with wraps
  · have at_end : p.writePos = pipeBufferSize := by omega
    simp [kassert, at_end]
  · rw [Nat.mod_eq_of_lt (by omega)]

/-- What a task knows at its place. Between its two copies it holds the mutex, and with more to copy
it is at the beginning of the ring. -/
def Knows (p : Pipe T) : Pc → Prop
  | .readSecond count bytesRead _ =>
    bytesRead < count → 0 < p.bytesAvail → p.readPos = 0 ∧ p.bytesAvail < pipeBufferSize
  | .writeSecond call bytesWritten =>
    bytesWritten < call.count → p.bytesAvail < pipeBufferSize → p.writePos = 0 ∧ 0 < p.bytesAvail
  | .writeWait call bytesWritten
  | .writeCheck call bytesWritten
  | .writeLock call bytesWritten
  | .writeFirst call bytesWritten => bytesWritten < call.count
  | _ => True

lemma readFirst_eq (ring : Ring p) (avail : 0 < p.bytesAvail) (count : Nat) :
    readFirst p count = some ⟨p.take (firstRead p count),
      .readSecond count (firstRead p count) (p.contents.take (firstRead p count)), none⟩ := by
  have lt := ring.readPos_lt
  have le_avail : firstRead p count ≤ p.bytesAvail := by
    unfold firstRead
    omega
  have fits : p.readPos + firstRead p count ≤ pipeBufferSize := by
    unfold firstRead
    omega
  simp only [readFirst, kassert, avail, if_true, copyOut_eq le_avail fits,
    bind_eq_bind, bind_some]
  rw [wrapRead_eq fits]
  rfl

lemma readFirst_knows (ring : Ring p) (count : Nat) (out : List UInt8) :
    Knows (p.take (firstRead p count)) (.readSecond count (firstRead p count) out) := by
  intro more left
  have lt := ring.readPos_lt
  have le := ring.avail_le
  simp only [Pipe.take, firstRead] at more left ⊢
  -- the copy was cut short by the end of the ring
  have stopped : min (min count (pipeBufferSize - p.readPos)) p.bytesAvail
      = pipeBufferSize - p.readPos := by omega
  rw [stopped, show p.readPos + (pipeBufferSize - p.readPos) = pipeBufferSize by omega]
  exact ⟨Nat.mod_self _, by omega⟩

lemma writeFirst_eq (ring : Ring p) (call : WriteCall) (bytesWritten : Nat) :
    writeFirst p call bytesWritten = some ⟨p.put (firstWrite p call.count) call.buf,
      .writeSecond call (add32 bytesWritten (firstWrite p call.count)),
      some ⟨call, 0, firstWrite p call.count⟩⟩ := by
  have lt := ring.writePos_lt
  have le_room : firstWrite p call.count ≤ pipeBufferSize - p.bytesAvail := by
    unfold firstWrite
    omega
  have fits : p.writePos + firstWrite p call.count ≤ pipeBufferSize := by
    unfold firstWrite
    omega
  simp only [writeFirst, copyIn_eq call.buf le_room fits, bind_eq_bind,
    bind_some]
  rw [wrapWrite_eq fits]
  rfl

lemma writeFirst_knows (ring : Ring p) {call : WriteCall} {bytesWritten : Nat}
    (more : bytesWritten < call.count) :
    Knows (p.put (firstWrite p call.count) call.buf)
      (.writeSecond call (add32 bytesWritten (firstWrite p call.count))) := by
  intro more' room
  have lt := ring.writePos_lt
  simp only [Pipe.put] at room ⊢
  -- a copy of `count` bytes would have ended the loop, also if the sum wraps
  have short : firstWrite p call.count ≠ call.count := by
    intro whole
    rw [whole, add32_eq (by simp only [pipeBufferSize, wordSize] at *; omega)] at more'
    omega
  have stopped : firstWrite p call.count = pipeBufferSize - p.writePos := by
    unfold firstWrite at short room ⊢
    omega
  rw [stopped, show p.writePos + (pipeBufferSize - p.writePos) = pipeBufferSize by omega]
  exact ⟨Nat.mod_self _, by omega⟩

lemma readSecond_more {count bytesRead : Nat} {out : List UInt8}
    (knows : Knows p (.readSecond count bytesRead out)) (more : bytesRead < count)
    (avail : 0 < p.bytesAvail) :
    readSecond p count bytesRead out = some ⟨p.take (min p.bytesAvail count),
      .readUnlock (add32 bytesRead (min p.bytesAvail count))
        (out ++ p.contents.take (min p.bytesAvail count)), none⟩ := by
  obtain ⟨start, lt⟩ := knows more avail
  have fits : p.readPos + min p.bytesAvail count ≤ pipeBufferSize := by omega
  have at_start : (p.readPos + min p.bytesAvail count) % pipeBufferSize
      = p.readPos + min p.bytesAvail count := Nat.mod_eq_of_lt (by omega)
  simp [readSecond, more, avail, copyOut_eq (Nat.min_le_left _ _) fits, Pipe.take, at_start]

lemma writeSecond_more {call : WriteCall} {bytesWritten : Nat}
    (knows : Knows p (.writeSecond call bytesWritten)) (more : bytesWritten < call.count)
    (room : p.bytesAvail < pipeBufferSize) :
    writeSecond p call bytesWritten = some
      ⟨p.put (min (pipeBufferSize - p.bytesAvail) call.count) fun i => call.buf (bytesWritten + i),
        .writeUnlock call (add32 bytesWritten (min (pipeBufferSize - p.bytesAvail) call.count)),
        some ⟨call, bytesWritten, min (pipeBufferSize - p.bytesAvail) call.count⟩⟩ := by
  obtain ⟨start, pos⟩ := knows more room
  have fits : p.writePos + min (pipeBufferSize - p.bytesAvail) call.count ≤ pipeBufferSize := by
    omega
  have at_start : (p.writePos + min (pipeBufferSize - p.bytesAvail) call.count) % pipeBufferSize
      = p.writePos + min (pipeBufferSize - p.bytesAvail) call.count := Nat.mod_eq_of_lt (by omega)
  simp [writeSecond, more, room, copyIn_eq _ (Nat.min_le_left _ _) fits, Pipe.put, at_start]

/-! ## What a step can do -/

/-- A task is inside the critical section. -/
def Pc.holdsLock : Pc → Bool
  | .readFirst .. | .readSecond .. | .readUnlock .. => true
  | .writeFirst .. | .writeSecond .. | .writeUnlock .. => true
  | _ => false

/-- A reader relies on the data it saw in its wait loop. -/
def Pc.reliesOnData : Pc → Bool
  | .readLock _ | .readFirst _ => true
  | _ => false

/-- The call of `pipe_write` that a task is in, and the bytes written. -/
def Pc.writing : Pc → Option (WriteCall × Nat)
  | .writeEnter _ call => some (call, 0)
  | .writeLoop call n | .writeWait call n | .writeCheck call n | .writeLock call n => some (call, n)
  | .writeFirst call n | .writeSecond call n | .writeUnlock call n => some (call, n)
  | _ => none

/-- A step that leaves the pipe alone, outside the critical section. -/
structure Silent (p : Pipe T) (pc pc' : Pc) : Prop where
  before : pc.holdsLock = false
  after : pc'.holdsLock = false
  knows : Knows p pc → Knows p pc'
  data : pc'.reliesOnData = true → 0 < p.bytesAvail ∨ pc.reliesOnData = true
  writing : pc'.writing = pc.writing ∨ pc'.writing = none

lemma Silent.writing_before {pc' : Pc} {w : WriteCall × Nat} (silent : Silent p pc pc')
    (h : pc'.writing = some w) : pc.writing = some w := by
  rcases silent.writing with same | same
  · exact same ▸ h
  · simp [same] at h

/-- Everything that a step of task `t` can do. -/
inductive Effect (t : T) (p : Pipe T) : Pc → Outcome T → Prop where
  | silent {pc pc' : Pc} : Silent p pc pc' → Effect t p pc ⟨p, pc', none⟩
  | lockRead {count : Nat} : p.lock = none →
      Effect t p (.readLock count) ⟨p.acquire t, .readFirst count, none⟩
  | lockWrite {call : WriteCall} {n : Nat} : p.lock = none →
      Effect t p (.writeLock call n) ⟨p.acquire t, .writeFirst call n, none⟩
  | readFirst {count : Nat} {out : List UInt8} : 0 < p.bytesAvail →
      Effect t p (.readFirst count)
        ⟨p.take (firstRead p count), .readSecond count (firstRead p count) out, none⟩
  | readMore {count n : Nat} {out out' : List UInt8} : n < count → 0 < p.bytesAvail →
      Effect t p (.readSecond count n out) ⟨p.take (min p.bytesAvail count),
        .readUnlock (add32 n (min p.bytesAvail count)) out', none⟩
  | readDone {count n : Nat} {out : List UInt8} : ¬ (n < count ∧ 0 < p.bytesAvail) →
      Effect t p (.readSecond count n out) ⟨p, .readUnlock n out, none⟩
  | writeFirst {call : WriteCall} {n : Nat} :
      Effect t p (.writeFirst call n) ⟨p.put (firstWrite p call.count) call.buf,
        .writeSecond call (add32 n (firstWrite p call.count)),
        some ⟨call, 0, firstWrite p call.count⟩⟩
  | writeMore {call : WriteCall} {n : Nat} : n < call.count → p.bytesAvail < pipeBufferSize →
      Effect t p (.writeSecond call n)
        ⟨p.put (min (pipeBufferSize - p.bytesAvail) call.count) fun i => call.buf (n + i),
          .writeUnlock call (add32 n (min (pipeBufferSize - p.bytesAvail) call.count)),
          some ⟨call, n, min (pipeBufferSize - p.bytesAvail) call.count⟩⟩
  | writeDone {call : WriteCall} {n : Nat} : ¬ (n < call.count ∧ p.bytesAvail < pipeBufferSize) →
      Effect t p (.writeSecond call n) ⟨p, .writeUnlock call n, none⟩
  | unlockRead {n : Nat} {out : List UInt8} : p.lock = some t →
      Effect t p (.readUnlock n out) ⟨p.release, .returned (.bytes n) out, none⟩
  | unlockWrite {call : WriteCall} {n : Nat} : p.lock = some t →
      Effect t p (.writeUnlock call n) ⟨p.release, .writeLoop call n, none⟩

variable {t : T} {pipeBuf : Nat} {pc : Pc} {o : Outcome T}

lemma readFirst_effect (ring : Ring p) {count : Nat} (h : readFirst p count = some o) :
    Effect t p (.readFirst count) o := by
  have avail : 0 < p.bytesAvail := by
    simp only [readFirst, bind_eq_bind, kassert_bind_eq_some] at h
    exact h.1
  obtain rfl := some.inj ((readFirst_eq ring avail count).symm.trans h)
  exact .readFirst avail

lemma readSecond_effect {count n : Nat} {out : List UInt8}
    (knows : Knows p (.readSecond count n out)) (h : readSecond p count n out = some o) :
    Effect t p (.readSecond count n out) o := by
  by_cases more : n < count ∧ 0 < p.bytesAvail
  · obtain rfl := some.inj ((readSecond_more knows more.1 more.2).symm.trans h)
    exact .readMore more.1 more.2
  · rw [readSecond, if_neg more] at h
    cases h
    exact .readDone more

lemma writeSecond_effect {call : WriteCall} {n : Nat} (knows : Knows p (.writeSecond call n))
    (h : writeSecond p call n = some o) : Effect t p (.writeSecond call n) o := by
  by_cases more : n < call.count ∧ p.bytesAvail < pipeBufferSize
  · obtain rfl := some.inj ((writeSecond_more knows more.1 more.2).symm.trans h)
    exact .writeMore more.1 more.2
  · rw [writeSecond, if_neg (by omega)] at h
    cases h
    exact .writeDone more

/-- The step function does nothing else. -/
lemma taskStep_effect [DecidableEq T] (ring : Ring p) (knows : Knows p pc)
    (h : taskStep pipeBuf t p pc = some o) : Effect t p pc o := by
  cases pc with
  | idle | returned =>
    cases h
    exact .silent ⟨rfl, rfl, id, .inr, .inl rfl⟩
  | readEnter file count =>
    simp only [taskStep] at h
    split_ifs at h <;>
    · cases h
      exact .silent ⟨rfl, rfl, fun _ => trivial, by simp [Pc.reliesOnData], .inr rfl⟩
  | readWait count =>
    simp only [taskStep] at h
    split_ifs at h with empty
    · cases h
      exact .silent ⟨rfl, rfl, id, .inr, .inl rfl⟩
    · cases h
      exact .silent ⟨rfl, rfl, id, fun _ => .inl (Nat.pos_of_ne_zero empty), .inl rfl⟩
  | readLock count =>
    simp only [taskStep] at h
    split_ifs at h with free
    · cases h
      exact .lockRead free
    · cases h
      exact .silent ⟨rfl, rfl, id, .inr, .inl rfl⟩
  | writeEnter file call =>
    simp only [taskStep] at h
    split_ifs at h <;>
    · cases h
      exact .silent ⟨rfl, rfl, fun _ => trivial, .inr, by simp [Pc.writing]⟩
  | writeLoop call n =>
    simp only [taskStep] at h
    split_ifs at h with more
    · obtain ⟨broken, -, h⟩ := bind_eq_some_iff.mp h
      cases broken with
      | false =>
        cases h
        exact .silent ⟨rfl, rfl, fun _ => more, .inr, .inl rfl⟩
      | true =>
        cases h
        exact .silent ⟨rfl, rfl, id, .inr, .inr rfl⟩
    · cases h
      exact .silent ⟨rfl, rfl, id, .inr, .inr rfl⟩
  | writeWait call n =>
    simp only [taskStep] at h
    split_ifs at h <;>
    · cases h
      exact .silent ⟨rfl, rfl, id, .inr, .inl rfl⟩
  | writeCheck call n =>
    obtain ⟨broken, -, h⟩ := bind_eq_some_iff.mp h
    cases broken with
    | false =>
      cases h
      exact .silent ⟨rfl, rfl, id, .inr, .inl rfl⟩
    | true =>
      cases h
      exact .silent ⟨rfl, rfl, fun _ => trivial, .inr, .inr rfl⟩
  | writeLock call n =>
    simp only [taskStep] at h
    split_ifs at h with free
    · cases h
      exact .lockWrite free
    · cases h
      exact .silent ⟨rfl, rfl, id, .inr, .inl rfl⟩
  | readFirst count => exact readFirst_effect ring h
  | readSecond count n out => exact readSecond_effect knows h
  | writeFirst call n =>
    obtain rfl := Option.some.inj ((writeFirst_eq ring call n).symm.trans h)
    exact .writeFirst
  | writeSecond call n => exact writeSecond_effect knows h
  | readUnlock | writeUnlock =>
    simp only [taskStep, Pipe.unlock, bind_eq_bind, bind_eq_some_iff,
      kassert_eq_some, exists_const, Option.pure_def, Option.some.injEq] at h
    obtain ⟨_, ⟨held, rfl⟩, rfl⟩ := h
    first | exact .unlockRead held | exact .unlockWrite held

/-! ## The invariant -/

def FreeFor (t : T) (p : Pipe T) : Prop := p.lock = none ∨ p.lock = some t

lemma Knows.of_outside {p' : Pipe T} (h : Knows p pc) (outside : pc.holdsLock = false) :
    Knows p' pc := by
  cases pc <;> simp_all [Knows, Pc.holdsLock]

/-- What a step of task `t` guarantees to all tasks. -/
structure StepOk (t : T) (p : Pipe T) (o : Outcome T) : Prop where
  ring : Ring o.pipe
  lock : o.pc.holdsLock = true ↔ o.pipe.lock = some t
  knows : Knows o.pipe o.pc
  /-- The pipe does not change while another task is in the critical section. -/
  frame : o.pipe = p ∨ FreeFor t p ∧ FreeFor t o.pipe

lemma StepOk.copy (held : p.lock = some t) {p' : Pipe T} (ring : Ring p')
    (same : p'.lock = p.lock) {pc' : Pc} {chunk : Option Chunk} (holds : pc'.holdsLock = true)
    (knows : Knows p' pc') : StepOk t p ⟨p', pc', chunk⟩ :=
  ⟨ring, by simp [holds, same, held], knows, .inr ⟨.inr held, .inr (same.trans held)⟩⟩

lemma Effect.ok (effect : Effect t p pc o) (ring : Ring p)
    (lock : pc.holdsLock = true ↔ p.lock = some t) (knows : Knows p pc) : StepOk t p o := by
  cases effect with
  | silent h => exact ⟨ring, by rw [h.after, ← h.before, lock], h.knows knows, .inl rfl⟩
  | lockRead free =>
    exact ⟨ring.acquire t, by simp [Pc.holdsLock, Pipe.acquire], trivial,
      .inr ⟨.inl free, .inr rfl⟩⟩
  | lockWrite free =>
    exact ⟨ring.acquire t, by simp [Pc.holdsLock, Pipe.acquire], knows, .inr ⟨.inl free, .inr rfl⟩⟩
  | readFirst avail =>
    exact .copy (lock.mp rfl) (ring.take (Nat.min_le_right _ _)) rfl rfl
      (readFirst_knows ring _ _)
  | readMore => exact .copy (lock.mp rfl) (ring.take (Nat.min_le_left _ _)) rfl rfl trivial
  | readDone => exact .copy (lock.mp rfl) ring rfl rfl trivial
  | writeFirst =>
    exact .copy (lock.mp rfl) (ring.put _ (Nat.min_le_right _ _)) rfl rfl
      (writeFirst_knows ring knows)
  | writeMore => exact .copy (lock.mp rfl) (ring.put _ (Nat.min_le_left _ _)) rfl rfl trivial
  | writeDone => exact .copy (lock.mp rfl) ring rfl rfl trivial
  | unlockRead held | unlockWrite held =>
    exact ⟨ring.release, by simp [Pc.holdsLock, Pipe.release], trivial,
      .inr ⟨.inr held, .inl rfl⟩⟩

/-! ## The assertions -/

lemma brokenPipe_total (ring : Ring p) : ∃ b, p.brokenPipe = some b := by
  unfold Pipe.brokenPipe
  cases h : p.reader with
  | none => exact ⟨true, rfl⟩
  | some count =>
    have nonneg := ring.reader_nonneg count (by simp [h])
    by_cases pos : count ≤ 0
    · have zero : count = 0 := by omega
      exact ⟨true, by simp [kassert, zero]⟩
    · exact ⟨false, by simp [pos]⟩

/-- No assertion but the one that there is data to read can fail. -/
lemma taskStep_total [DecidableEq T] (ring : Ring p)
    (lock : pc.holdsLock = true ↔ p.lock = some t) (knows : Knows p pc)
    (data : ∀ count, pc = .readFirst count → 0 < p.bytesAvail) :
    taskStep pipeBuf t p pc ≠ none := by
  have unlocked (held : pc.holdsLock = true) : p.unlock t = some p.release := by
    simp [Pipe.unlock, kassert, lock.mp held]
  cases pc with
  | idle | returned => simp [taskStep]
  | readEnter | readWait | readLock | writeEnter | writeWait | writeLock =>
    simp only [taskStep]
    split_ifs <;> simp
  | writeLoop call n =>
    obtain ⟨broken, eq⟩ := brokenPipe_total ring
    simp only [taskStep, eq]
    split_ifs <;> cases broken <;> simp
  | writeCheck call n =>
    obtain ⟨broken, eq⟩ := brokenPipe_total ring
    simp only [taskStep, eq]
    cases broken <;> simp
  | readFirst count => simp [taskStep, readFirst_eq ring (data count rfl)]
  | readSecond count n out =>
    by_cases more : n < count ∧ 0 < p.bytesAvail
    · simp [taskStep, readSecond_more knows more.1 more.2]
    · simp [taskStep, readSecond, more]
  | writeFirst call n => simp [taskStep, writeFirst_eq ring]
  | writeSecond call n =>
    by_cases more : n < call.count ∧ 0 < pipeBufferSize - p.bytesAvail
    · simp [taskStep, writeSecond_more knows more.1 (by omega)]
    · rw [taskStep, writeSecond, if_neg more]
      simp
  | readUnlock | writeUnlock => simp [taskStep, unlocked rfl]

end ExscapeOS.Pipes
