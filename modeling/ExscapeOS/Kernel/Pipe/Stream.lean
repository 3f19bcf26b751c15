import ExscapeOS.Kernel.Pipe.Atomic

/-!
# The bytes that go through a pipe

`pipe_read` and `pipe_write` make a second copy when the first one ends at the end of the ring, and
both bound it by the whole count of the caller. So a read that wraps takes too many bytes unless it
empties the ring, and a write that wraps puts in too many unless it fills it. A write that needs a
second round begins at the start of its buffer again.
-/
namespace ExscapeOS.Pipes

open Lib List Option

variable {T : Type} {p : Pipe T}

/-! ## The contents of the ring -/

lemma contents_take {k : Nat} (hk : k ≤ p.bytesAvail) :
    (p.take k).contents = p.contents.drop k := by
  have split : p.bytesAvail = k + (p.bytesAvail - k) := by omega
  rw [Pipe.contents, Pipe.contents, split, range_add, map_append,
    List.drop_left' (by simp), List.map_map]
  simp only [Pipe.take, Nat.mod_add_mod, Function.comp_def, Nat.add_assoc]

lemma contents_put (ring : Ring p) {k : Nat} (src : Nat → UInt8)
    (room : k ≤ pipeBufferSize - p.bytesAvail) (fits : p.writePos + k ≤ pipeBufferSize) :
    (p.put k src).contents = p.contents ++ (List.range k).map src := by
  have write := ring.writePos_eq
  rw [Pipe.contents, Pipe.contents]
  simp only [Pipe.put, List.range_add, List.map_append, List.map_map]
  congr 1
  · refine map_congr_left fun i hi => if_neg ?_
    have lt : i < p.bytesAvail := mem_range.mp hi
    simp only [pipeBufferSize] at *
    omega
  · refine List.map_congr_left fun i hi => ?_
    have lt : i < k := mem_range.mp hi
    have place : (p.readPos + (p.bytesAvail + i)) % pipeBufferSize = p.writePos + i := by
      simp only [pipeBufferSize] at *
      omega
    simp only [Function.comp_apply, place]
    rw [if_pos (by omega), Nat.add_sub_cancel_left]

/-! ## Reading -/

section Read

variable {pipeBuf : Nat} {t : T} {count : Nat}

/-- The number of bytes that `pipe_read` copies. -/
def readLength (p : Pipe T) (count : Nat) : Nat :=
  let first := firstRead p count
  if first < count ∧ 0 < p.bytesAvail - first then first + min (p.bytesAvail - first) count
  else first

lemma readLength_le (p : Pipe T) (count : Nat) : readLength p count ≤ p.bytesAvail := by
  have le : firstRead p count ≤ p.bytesAvail := Nat.min_le_right _ _
  simp only [readLength]
  split_ifs <;> omega

lemma take_take (p : Pipe T) (j k : Nat) : (p.take j).take k = p.take (j + k) := by
  simp [Pipe.take, Nat.add_assoc, Nat.sub_sub]

lemma readSecond_eq (ring : Ring p) (count : Nat) :
    readSecond (p.take (firstRead p count)) count (firstRead p count)
      (p.contents.take (firstRead p count)) = some ⟨p.take (readLength p count),
        .readUnlock (readLength p count) (p.contents.take (readLength p count)), none⟩ := by
  have le : firstRead p count ≤ p.bytesAvail := Nat.min_le_right _ _
  have size := ring.avail_le
  by_cases more : firstRead p count < count ∧ 0 < p.bytesAvail - firstRead p count
  · have length : readLength p count
        = firstRead p count + min (p.bytesAvail - firstRead p count) count := by
      simp only [readLength, if_pos more]
    have short : firstRead p count + min (p.bytesAvail - firstRead p count) count < wordSize := by
      simp only [pipeBufferSize, wordSize] at *
      omega
    rw [readSecond_more (readFirst_knows ring count _) more.1 more.2, contents_take le, take_take,
      ← take_add, length]
    simp only [Pipe.take, add32_eq short]
  · have length : readLength p count = firstRead p count := by
      simp only [readLength, if_neg more]
    rw [length, readSecond]
    exact if_neg more

variable [DecidableEq T]

/-- A call of `pipe_read` on the read end that no other task interrupts. -/
def pipeRead (pipeBuf : Nat) (t : T) (p : Pipe T) (count : Nat) : Option (Pipe T × Pc) :=
  exec (fun s t => (taskStep pipeBuf t s.1 s.2).map fun o => (o.pipe, o.pc))
    (p, .readEnter .reader count) (List.replicate 6 t)

lemma pipeRead_eq (ring : Ring p) (avail : 0 < p.bytesAvail) (free : p.lock = none) :
    pipeRead pipeBuf t p count = some (p.take (readLength p count),
      .returned (.bytes (readLength p count)) (p.contents.take (readLength p count))) := by
  have first := readFirst_eq (ring.acquire t) avail count
  have second := readSecond_eq (ring.acquire t) count
  have released : ((p.acquire t).take (readLength (p.acquire t) count)).release
      = p.take (readLength p count) := by
    simp only [Pipe.release, Pipe.take, Pipe.acquire, ← free]
    rfl
  have unlocked : ((p.acquire t).take (readLength (p.acquire t) count)).unlock t
      = some (p.take (readLength p count)) := by
    rw [← released, Pipe.unlock]
    exact bind_eq_some_iff.mpr ⟨(), kassert_eq_some.mpr rfl, rfl⟩
  simp only [pipeRead, exec, List.replicate, taskStep, avail.ne', free, first, second, unlocked,
    and_false, if_false, if_true, reduceCtorEq, false_and, map_some, bind_some,
    Option.bind_eq_bind, Option.pure_def]
  rfl

/-- As many of the oldest bytes as there are and as fit. -/
structure ReadOk (p : Pipe T) (count : Nat) (p' : Pipe T) (n : Nat) (out : List UInt8) : Prop where
  returns : n = min count p.bytesAvail
  oldest : out = p.contents.take (min count p.bytesAvail)
  fits : out.length ≤ count
  rest : p'.contents = p.contents.drop (min count p.bytesAvail)

/-- A read takes what was asked for exactly if it ends before the end of the ring, or empties the
ring. -/
theorem pipeRead_ok_iff (ring : Ring p) (avail : 0 < p.bytesAvail) (free : p.lock = none) :
    (∃ p' n out, pipeRead pipeBuf t p count = some (p', .returned (.bytes n) out) ∧
        ReadOk p count p' n out) ↔
      count ≤ pipeBufferSize - p.readPos ∨ p.bytesAvail ≤ count := by
  have read := ring.readPos_lt
  have length : readLength p count = min count p.bytesAvail ↔
      count ≤ pipeBufferSize - p.readPos ∨ p.bytesAvail ≤ count := by
    have first : firstRead p count = min (min count (pipeBufferSize - p.readPos)) p.bytesAvail :=
      rfl
    simp only [readLength]
    split_ifs <;> omega
  rw [pipeRead_eq ring avail free, ← length]
  constructor
  · rintro ⟨p', n, out, result, ok⟩
    simp only [some.injEq, Prod.mk.injEq, Pc.returned.injEq, Result.bytes.injEq] at result
    rw [result.2.1, ok.returns]
  · intro exact
    refine ⟨_, _, _, rfl, exact, by rw [exact], ?_, ?_⟩
    · simp only [length_take, Pipe.length_contents, exact]
      omega
    · rw [contents_take (readLength_le p count), exact]

/-- Three bytes, of which the first is the last one of the ring. -/
def acrossEnd : Pipe (Fin 1) :=
  { newPipe (Fin 1) fun i => i.toUInt8 with readPos := 65535, writePos := 2, bytesAvail := 3 }

lemma acrossEnd_ring : Ring acrossEnd := by
  constructor <;> simp [acrossEnd, newPipe, pipeBufferSize]

theorem pipeRead_ok_all : ∃ p' n out,
    pipeRead 512 0 acrossEnd 4 = some (p', .returned (.bytes n) out) ∧
      ReadOk acrossEnd 4 p' n out :=
  (pipeRead_ok_iff acrossEnd_ring (by decide) rfl).mpr (.inr (by decide))

/-- A read of two bytes stores three. -/
theorem pipeRead_too_long : Ring acrossEnd ∧ 0 < acrossEnd.bytesAvail ∧ acrossEnd.lock = none ∧
    ∃ p', pipeRead 512 0 acrossEnd 2 = some (p', .returned (.bytes 3) [255, 0, 1]) := by
  refine ⟨acrossEnd_ring, by decide, rfl, acrossEnd.take 3, ?_⟩
  rfl

end Read

/-! ## Writing -/

section Write

variable {pipeBuf : Nat} {s s' : PipeState T} {a : PipeAction T}
variable {t : T} {pc : Pc} {o : Outcome T} {call : WriteCall} {n : Nat} {stream : List Chunk}

/-- The bytes of the call in the stream are those of its buffer. -/
def Exact (call : WriteCall) (stream : List Chunk) : Prop :=
  (stream.flatMap Chunk.bytes).filter (fun b => b.1 = call.id)
    = (List.range call.count).map fun i => (call.id, call.buf i)

lemma filter_flatMap_bytes (stream : List Chunk) (id : Nat) :
    (stream.flatMap Chunk.bytes).filter (fun b => b.1 = id)
      = (stream.filter fun c => c.call.id = id).flatMap Chunk.bytes := by
  induction stream with
  | nil => rfl
  | cons c stream ih =>
    rw [flatMap_cons, filter_append, ih]
    by_cases own : c.call.id = id
    · simp [Chunk.bytes, own]
    · simp [Chunk.bytes, own]

lemma Fresh.filter_eq (h : Fresh call stream) :
    (stream.filter fun c => c.call.id = call.id) = [] :=
  filter_eq_nil_iff.mpr fun c hc => by simpa using h c hc

lemma Exact.append {more : List Chunk} (h : Exact call stream) (fresh : Fresh call more) :
    Exact call (stream ++ more) := by
  unfold Exact at *
  rw [filter_flatMap_bytes] at *
  rw [filter_append, fresh.filter_eq, append_nil, h]

/-- Nothing was written before, and two copies come to the whole buffer. -/
lemma Exact.of_copies {j k : Nat} (fresh : Fresh call stream) (whole : j + k = call.count) :
    Exact call (stream ++ [⟨call, 0, j⟩] ++ [⟨call, j, k⟩]) := by
  rw [Exact, filter_flatMap_bytes]
  simp [filter_append, fresh.filter_eq, Chunk.bytes, ← whole, range_add,
    Function.comp_def]

lemma Exact.of_copy (fresh : Fresh call stream) :
    Exact call (stream ++ [⟨call, 0, call.count⟩]) := by
  rw [Exact, filter_flatMap_bytes]
  simp [filter_append, fresh.filter_eq, Chunk.bytes]

/-- The write fits in the ring, and does not wrap unless it fills the ring. -/
def fits (p : Pipe T) (count : Nat) : Prop :=
  count ≤ pipeBufferSize - p.bytesAvail ∧
    (count ≤ pipeBufferSize - p.writePos ∨ count = pipeBufferSize - p.bytesAvail)

instance (p : Pipe T) (count : Nat) : Decidable (fits p count) :=
    inferInstanceAs (Decidable (_ ∧ _))

/-- A writer takes the mutex, and its bytes fit. -/
def fitsAtLock (p : Pipe T) : Pc → Bool
  | .writeLock call _ => p.lock.isSome ∨ fits p call.count
  | _ => true

/-- A writer that takes the mutex can write all of its bytes. -/
def wholeAtLock (s : PipeState T) : PipeAction T → Prop
  | .run t => fitsAtLock s.pipe (s.pc t) = true
  | _ => True

instance (s : PipeState T) (a : PipeAction T) : Decidable (wholeAtLock s a) :=
  match a with
  | .run t => inferInstanceAs (Decidable (fitsAtLock s.pipe (s.pc t) = true))
  | .read .. | .write .. | .ends .. => isTrue trivial

/-- Outside the critical section a call has written nothing or all. -/
def AllOrNothing (stream : List Chunk) (pc : Pc) : Prop :=
  ∀ call n, pc.writing = some (call, n) →
    n = 0 ∧ Fresh call stream ∨ n = call.count ∧ Exact call stream

/-- How far a call has come. -/
def Written (p : Pipe T) (stream : List Chunk) : Pc → Prop
  | .writeFirst call n => n = 0 ∧ Fresh call stream ∧ fits p call.count
  | .writeSecond call n => (∃ before, stream = before ++ [⟨call, 0, n⟩] ∧ Fresh call before) ∧
    (n = call.count ∨ n < call.count ∧ call.count - n = pipeBufferSize - p.bytesAvail)
  | .writeUnlock call n => n = call.count ∧ Exact call stream
  | pc => AllOrNothing stream pc

lemma written_iff_allOrNothing (outside : pc.holdsLock = false) :
    Written p stream pc ↔ AllOrNothing stream pc := by
  cases pc <;> first | exact Iff.rfl | simp [Pc.holdsLock] at outside

lemma Effect.written (effect : Effect t p pc o) (knows : Knows p pc)
    (h : Written p stream pc) (whole : fitsAtLock p pc = true) :
    Written o.pipe (stream ++ o.chunk.toList) o.pc := by
  cases effect with
  | silent silent =>
    rw [written_iff_allOrNothing silent.before] at h
    rw [written_iff_allOrNothing silent.after]
    intro call n writing
    simpa using h call n (silent.writing_before writing)
  | @lockWrite call n free =>
    rcases h call n rfl with ⟨zero, fresh⟩ | ⟨done, -⟩
    · have fit : fits p call.count := by simpa [fitsAtLock, free] using whole
      exact ⟨zero, by simpa using fresh, fit⟩
    · exact absurd done (Nat.ne_of_lt knows)
  | @writeFirst call n =>
    obtain ⟨rfl, fresh, room, wraps⟩ := h
    have first : firstWrite p call.count = min (min call.count (pipeBufferSize - p.writePos))
      (pipeBufferSize - p.bytesAvail) := rfl
    have sum : add32 0 (firstWrite p call.count) = firstWrite p call.count := by
      rw [add32_eq (by unfold pipeBufferSize at *; unfold wordSize; omega), Nat.zero_add]
    rw [sum]
    refine ⟨⟨stream, rfl, fresh⟩, ?_⟩
    simp only [Pipe.put]
    omega
  | @writeMore call n more room =>
    obtain ⟨⟨before, rfl, fresh⟩, left⟩ := h
    have size : min (pipeBufferSize - p.bytesAvail) call.count = call.count - n := by omega
    have sum : n + (call.count - n) = call.count := by omega
    rw [size, add32_eq (by rw [sum]; exact call.count_lt), sum]
    exact ⟨rfl, .of_copies fresh sum⟩
  | @writeDone call n done =>
    obtain ⟨⟨before, rfl, fresh⟩, left⟩ := h
    have all : n = call.count := by omega
    rw [all]
    exact ⟨rfl, by simpa using Exact.of_copy fresh⟩
  | @unlockWrite call n =>
    intro call' n' same
    cases same
    have done : n = call.count ∧ Exact call stream := h
    exact .inr (by simpa using done)
  | lockRead | readFirst | readMore | readDone | unlockRead =>
    intro call n writing
    cases writing

lemma Effect.written_other (effect : Effect t s.pipe (s.pc t) o) (inv : Inv s)
    (numbered : Numbered s) {u : T} (other : u ≠ t) (h : Written s.pipe s.stream (s.pc u)) :
    Written o.pipe (s.stream ++ o.chunk.toList) (s.pc u) := by
  rcases effect.other inv numbered other with ⟨same, none⟩ | ⟨outside, fresh'⟩
  · rw [same, none, append_nil]
    exact h
  · rw [written_iff_allOrNothing outside] at h ⊢
    intro call n writing
    rcases h call n writing with ⟨zero, fresh⟩ | ⟨done, exact'⟩
    · exact .inl ⟨zero, fresh.append (fresh' call n writing)⟩
    · exact .inr ⟨done, exact'.append (fresh' call n writing)⟩

/-- The ring holds the end of the stream. -/
def Traced (s : PipeState T) : Prop :=
  ∃ consumed, (byteStream s).map Prod.snd = consumed ++ s.pipe.contents

/-- A step takes bytes out at the front or adds its chunk at the back. -/
lemma Effect.contents (effect : Effect t p pc o) (ring : Ring p) (knows : Knows p pc) :
    ∃ taken, p.contents ++ (o.chunk.toList.flatMap Chunk.bytes).map Prod.snd
      = taken ++ o.pipe.contents := by
  have out {k : Nat} (hk : k ≤ p.bytesAvail) : p.contents ++ [] = p.contents.take k ++
      (p.take k).contents := by
    rw [contents_take hk, take_append_drop, append_nil]
  have bytes (call : WriteCall) (offset k : Nat) :
      ((some (⟨call, offset, k⟩ : Chunk)).toList.flatMap Chunk.bytes).map Prod.snd =
        (List.range k).map fun i => call.buf (offset + i) := by
    simp [Chunk.bytes, Function.comp_def]
  cases effect with
  | silent | lockRead | lockWrite | readDone | writeDone | unlockRead | unlockWrite =>
    exact ⟨[], by simp [Pipe.contents, Pipe.acquire, Pipe.release]⟩
  | readFirst => exact ⟨_, out (Nat.min_le_right _ _)⟩
  | readMore => exact ⟨_, out (Nat.min_le_left _ _)⟩
  | @writeFirst call n =>
    have lt := ring.writePos_lt
    have inside : p.writePos + firstWrite p call.count ≤ pipeBufferSize := by
      unfold firstWrite
      omega
    rw [contents_put (k := firstWrite p call.count) ring call.buf (Nat.min_le_right _ _) inside,
      bytes]
    exact ⟨[], by simp⟩
  | @writeMore call n more room =>
    obtain ⟨start, -⟩ := knows more room
    rw [contents_put ring _ (Nat.min_le_left _ _) (by omega), bytes]
    exact ⟨[], rfl⟩

lemma traced_newState (buffer : Nat → UInt8) : Traced (newState T buffer) :=
  ⟨[], rfl⟩

variable [DecidableEq T]

lemma Traced.step (inv : Inv s) (h : Traced s) (step : pipeStep pipeBuf s a = some s') :
    Traced s' := by
  cases pipeStep_moves step with
  | read | write | ends => exact h
  | @run t o ran =>
    obtain ⟨consumed, eq⟩ := h
    obtain ⟨taken, eq'⟩ :=
      (taskStep_effect inv.ring (inv.knows t) ran).contents inv.ring (inv.knows t)
    refine ⟨consumed ++ taken, ?_⟩
    unfold byteStream at *
    rw [flatMap_append, map_append, eq, append_assoc, eq', append_assoc]

/-- Every call has written nothing or all, or is in between. -/
structure Whole (s : PipeState T) : Prop where
  numbered : Numbered s
  written : ∀ t, Written s.pipe s.stream (s.pc t)

lemma Whole.written_enter (h : Whole s) (t : T) (new : Written s.pipe s.stream pc) (u : T) :
    Written s.pipe s.stream (Function.update s.pc t pc u) := by
  by_cases same : u = t
  · subst same
    simpa using new
  · simpa [Function.update_of_ne same] using h.written u

lemma Whole.step (inv : Inv s) (h : Whole s) (ok : wholeAtLock s a)
    (step : pipeStep pipeBuf s a = some s') : Whole s' := by
  refine ⟨h.numbered.step inv step, ?_⟩
  cases pipeStep_moves step with
  | @run t o ran =>
    have effect := taskStep_effect inv.ring (inv.knows t) ran
    intro u
    by_cases same : u = t
    · subst same
      simpa using effect.written (inv.knows u) (h.written u) ok
    · simpa [Function.update_of_ne same] using
        effect.written_other inv h.numbered same (h.written u)
  | @read t =>
    refine h.written_enter t ?_
    intro call n writing
    cases writing
  | @write t file call free next =>
    refine h.written_enter t ?_
    intro call' n writing
    cases writing
    exact .inl ⟨rfl, h.numbered.fresh next⟩
  | ends =>
    intro u
    have written := h.written u
    exact written

/-- The number that a call has returned. -/
def Pc.success : Pc → Option Nat
  | .returned (.bytes m) _ => some m
  | _ => none

/-- A write returns with success when it has counted enough bytes. -/
lemma loop_of_success (ring : Ring p) (knows : Knows p pc) {m : Nat}
    (writing : pc.writing = some (call, n)) (step : taskStep pipeBuf t p pc = some o)
    (ret : o.pc.success = some m) : pc.holdsLock = false ∧ m = n ∧ call.count ≤ n := by
  cases pc with
  | writeLoop call' n' =>
    cases writing
    simp only [taskStep] at step
    split_ifs at step with more
    · obtain ⟨broken, -, step⟩ := bind_eq_some_iff.mp step
      cases broken <;>
      · cases step
        cases ret
    · cases step
      exact ⟨rfl, (some.inj ret).symm, Nat.le_of_not_lt more⟩
  | writeEnter | writeWait | writeLock =>
    simp only [taskStep] at step
    split_ifs at step <;>
    · cases step
      cases ret
  | writeCheck =>
    obtain ⟨broken, -, step⟩ := bind_eq_some_iff.mp step
    cases broken <;>
    · cases step
      cases ret
  | writeFirst | writeSecond | writeUnlock =>
    cases taskStep_effect ring knows step with
    | silent silent => cases silent.before
    | _ => cases ret
  | _ => cases writing

/-- In every run in which a write fits in the ring when it takes the mutex, and does not wrap unless
it fills the ring: when a task returns from `pipe_write` with success, it returns the count, and the
bytes of the call in the stream are those of its buffer. The ring holds the end of the stream. -/
theorem pipeWrite_exact {buffer : Nat → UInt8} {acts : List (PipeAction T)}
    (run : Run (Guarded wholeAtLock fun s a s' => pipeStep pipeBuf s a = some s')
      (newState T buffer) acts s)
    (writing : (s.pc t).writing = some (call, n)) {m : Nat}
    (step : taskStep pipeBuf t s.pipe (s.pc t) = some o) (ret : o.pc.success = some m) :
    m = call.count ∧
      (byteStream s).filter (fun b => b.1 = call.id)
        = (List.range call.count).map (fun i => (call.id, call.buf i)) ∧
      ∃ consumed, (byteStream s).map Prod.snd = consumed ++ s.pipe.contents := by
  obtain ⟨inv, whole, traced⟩ : Inv s ∧ Whole s ∧ Traced s := by
    refine run.invariant (P := fun s => Inv s ∧ Whole s ∧ Traced s)
      ⟨inv_newState buffer, ⟨numbered_newState buffer, ?_⟩, traced_newState buffer⟩ ?_
    · intro t call n writing
      cases writing
    · rintro s a s' ⟨inv, whole, traced⟩ ⟨ok, step⟩
      exact ⟨inv_step inv step, whole.step inv ok step, traced.step inv step⟩
  obtain ⟨outside, rfl, enough⟩ := loop_of_success inv.ring (inv.knows t) writing step ret
  have written := whole.written t
  rw [written_iff_allOrNothing outside] at written
  rcases written call m writing with ⟨rfl, fresh⟩ | ⟨done, bytes⟩
  · -- a write of no bytes
    have zero : call.count = 0 := Nat.le_zero.mp enough
    refine ⟨zero.symm, ?_, traced⟩
    rw [byteStream, filter_flatMap_bytes, fresh.filter_eq, zero]
    rfl
  · exact ⟨done, bytes, traced⟩

/-- A write of two bytes, up to its last step. -/
theorem pipeWrite_exact_two : ∃ (s : PipeState (Fin 1)) (call : WriteCall) (o : Outcome (Fin 1)),
    Run (Guarded wholeAtLock fun s a s' => pipeStep 512 s a = some s')
      (newState (Fin 1) fun _ => 0) (.write 0 .writer (fun i => i.toUInt8) 2 :: runs 0 8) s ∧
    taskStep 512 0 s.pipe (s.pc 0) = some o ∧ o.pc.success = some 2 ∧ call.count = 2 ∧
    (byteStream s).filter (fun b => b.1 = call.id)
      = (List.range call.count).map fun i => (call.id, call.buf i) := by
  obtain ⟨s, ran, ⟨call, n⟩, writing, count, o, step, ret⟩ :
      ∃ s ∈ exec (fun s a => if wholeAtLock s a then pipeStep 512 s a else none)
        (newState (Fin 1) fun _ => 0) (.write 0 .writer (fun i => i.toUInt8) 2 :: runs 0 8),
      ∃ w ∈ (s.pc 0).writing, w.1.count = 2 ∧
      ∃ o ∈ taskStep 512 0 s.pipe (s.pc 0), o.pc.success = some 2 := by decide +kernel
  have run := Run.of_exec_guarded ran
  exact ⟨s, call, o, run, step, ret, count,
    (pipeWrite_exact run writing step ret).2.1⟩

/-- A write of two bytes at the last place of the ring copies one, and then two. -/
theorem pipeWrite_too_long : ∃ s : PipeState (Fin 1),
    Run (fun s a s' => pipeStep 512 s a = some s') (newState (Fin 1) fun _ => 0)
      ([[.write 0 .writer (fun _ => 7) 65535], runs 0 9, [.read 0 .reader 65535], runs 0 6,
        [.write 0 .writer (fun _ => 8) 2], runs 0 9].flatten) s ∧
    s.calls.map WriteCall.count = [65535, 2] ∧ (s.pc 0).success = some 3 ∧
    (s.stream.map fun c => (c.call.id, c.size)) = [(0, 65535), (1, 1), (1, 2)] :=
  Run.exists_of_exec (by decide +kernel)

/-! ## What is read -/

/-- The bytes that a call of `pipe_read` has copied to the caller's buffer. -/
def Pc.out : Pc → List UInt8
  | .readSecond _ _ out | .readUnlock _ out => out
  | _ => []

/-- A step, with the bytes that all readers have copied, in order. -/
def readStep (pipeBuf : Nat) (r : PipeState T × List UInt8) (a : PipeAction T) :
    Option (PipeState T × List UInt8) := do
  let s ← pipeStep pipeBuf r.1 a
  let more := match a with
    | .run t => (s.pc t).out.drop (r.1.pc t).out.length
    | _ => []
  return (s, r.2 ++ more)

/-- A step takes out what it adds to the caller's buffer. -/
lemma taskStep_out (ring : Ring p) (knows : Knows p pc) (h : taskStep pipeBuf t p pc = some o) :
    p.contents ++ (o.chunk.toList.flatMap Chunk.bytes).map Prod.snd
      = o.pc.out.drop pc.out.length ++ o.pipe.contents := by
  have effect := taskStep_effect ring knows h
  obtain ⟨taken, eq⟩ := effect.contents ring knows
  cases effect with
  | @readFirst count _ avail =>
    obtain rfl : p.contents.take _ = _ := by simpa [taskStep, readFirst_eq ring avail] using h
    simp [contents_take (k := firstRead p count) (Nat.min_le_right _ _), Pc.out]
  | readMore more avail =>
    obtain rfl : _ ++ p.contents.take _ = _ := by
      simpa [taskStep, readSecond_more knows more avail] using h
    simp [contents_take (Nat.min_le_left _ _), Pc.out]
  | @silent _ pc' silent =>
    have nothing : pc'.out = [] := by
      have after := silent.after
      cases pc' <;> first | rfl | cases after
    simp [nothing]
  | lockRead | lockWrite | readDone | writeFirst | writeMore | writeDone | unlockRead |
      unlockWrite =>
    -- the ring holds as much more as was written
    obtain rfl : taken = [] := by
      have length := congrArg length eq
      simpa [Pipe.acquire, Pipe.release, Pipe.put, Chunk.bytes] using length
    rw [eq]
    simp [Pc.out]

/-- In every run, what has been read and what is in the ring are together what has been written: no
byte is lost, read twice or overtakes another. -/
theorem pipe_fifo {buffer : Nat → UInt8} {acts : List (PipeAction T)} {r : PipeState T × List UInt8}
    (run : Run (fun r a r' => readStep pipeBuf r a = some r') (newState T buffer, []) acts r) :
    (byteStream r.1).map Prod.snd = r.2 ++ r.1.pipe.contents := by
  refine (run.invariant (P := fun r => Inv r.1 ∧ (byteStream r.1).map Prod.snd
    = r.2 ++ r.1.pipe.contents) ⟨inv_newState buffer, rfl⟩ ?_).2
  rintro ⟨s, read⟩ a r' ⟨inv, eq⟩ h
  obtain ⟨s', step, h⟩ := Option.bind_eq_some_iff.mp h
  cases h
  refine ⟨inv_step inv step, ?_⟩
  cases pipeStep_moves step with
  | read | write | ends => exact eq.trans (congrArg (· ++ _) (append_nil read).symm)
  | @run t o ran =>
    have out := taskStep_out inv.ring (inv.knows t) ran
    simp only [byteStream, flatMap_append, map_append] at eq ⊢
    simp [eq, out]

theorem pipe_fifo_turns : ∃ r, Run (fun r a r' => readStep 512 r a = some r')
      (newState (Fin 2) fun _ => 0, []) (readersInTurn ++ runs 1 2) r ∧ r.2 = [7, 8] ∧
    (byteStream r.1).map Prod.snd = r.2 ++ r.1.pipe.contents := by
  obtain ⟨r, run, read⟩ : ∃ r, Run (fun r a r' => readStep 512 r a = some r')
      (newState (Fin 2) fun _ => 0, []) (readersInTurn ++ runs 1 2) r ∧ r.2 = [7, 8] :=
    Run.exists_of_exec (by decide +kernel)
  exact ⟨r, run, read, pipe_fifo run⟩

end Write

end ExscapeOS.Pipes
