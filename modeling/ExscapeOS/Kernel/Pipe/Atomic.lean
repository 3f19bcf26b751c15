import ExscapeOS.Kernel.Pipe.Run
import ExscapeOS.Lib.Contiguous

/-!
# Small writes

A write of at most `PIPE_BUF` bytes waits without the mutex until the ring has room for it. If there
still is room when it has the mutex, its copies are next to each other in the stream. If another
writer was faster, it copies what fits, gives the mutex back and goes around its loop.
-/
namespace ExscapeOS.Pipes

open Lib List Option

variable {T : Type} {pipeBuf : Nat} {s s' : PipeState T} {a : PipeAction T}
variable {t : T} {p : Pipe T} {pc : Pc} {o : Outcome T} {stream : List Chunk}

lemma map_fst_byteStream (s : PipeState T) : (byteStream s).map Prod.fst =
    (s.stream.map fun c => (c.call.id, c.size)).flatMap fun c => List.replicate c.2 c.1 := by
  simp [byteStream, map_flatMap, flatMap_map, Chunk.bytes, Function.comp_def]

/-- Nothing of the call is in the stream yet. -/
def Fresh (call : WriteCall) (stream : List Chunk) : Prop := ∀ c ∈ stream, c.call.id ≠ call.id

variable {call : WriteCall}

lemma Fresh.append {more : List Chunk} (h : Fresh call stream)
    (h' : Fresh call more) : Fresh call (stream ++ more) := by
  intro c hc
  rcases mem_append.mp hc with hc | hc
  · exact h c hc
  · exact h' c hc

/-- Outside the critical section a small write has written nothing or all. -/
def Outside (pipeBuf : Nat) (stream : List Chunk) (pc : Pc) : Prop :=
  ∀ call n, pc.writing = some (call, n) → call.count ≤ pipeBuf →
    n = 0 ∧ Fresh call stream ∨ call.count ≤ n

/-- How far a small write has come. Between its copies the first one ends the stream, and there is
room for the rest. -/
def Progress (pipeBuf : Nat) (p : Pipe T) (stream : List Chunk) : Pc → Prop
  | .writeFirst call n => call.count ≤ pipeBuf →
    n = 0 ∧ Fresh call stream ∧ call.count ≤ pipeBufferSize - p.bytesAvail
  | .writeSecond call n => call.count ≤ pipeBuf →
    n ≤ pipeBufferSize ∧ call.count - n ≤ pipeBufferSize - p.bytesAvail ∧
      ∃ before, stream = before ++ [⟨call, 0, n⟩] ∧ Fresh call before
  | .writeUnlock call n => call.count ≤ pipeBuf → call.count ≤ n
  | pc => Outside pipeBuf stream pc

lemma progress_iff_outside (outside : pc.holdsLock = false) :
    Progress pipeBuf p stream pc ↔ Outside pipeBuf stream pc := by
  cases pc <;> first | exact Iff.rfl | simp [Pc.holdsLock] at outside

/-- Only a task that writes under the mutex adds to the stream. -/
lemma Effect.chunk (effect : Effect t p pc o) {c : Chunk} (h : c ∈ o.chunk) :
    pc.holdsLock = true ∧ ∃ n, pc.writing = some (c.call, n) := by
  cases effect with
  | writeFirst | writeMore =>
    cases h
    exact ⟨rfl, _, rfl⟩
  | _ => cases h

lemma Effect.writing (effect : Effect t p pc o) {n : Nat}
    (h : o.pc.writing = some (call, n)) : ∃ m, pc.writing = some (call, m) := by
  cases effect with
  | silent silent => exact ⟨n, silent.writing_before h⟩
  | lockWrite | writeFirst | writeMore | writeDone | unlockWrite =>
    cases h
    exact ⟨_, rfl⟩
  | _ => cases h

/-- A small writer takes the mutex, and its bytes do not fit any more. -/
def crowdedOut (pipeBuf : Nat) (p : Pipe T) : Pc → Bool
  | .writeLock call _ => p.lock.isNone ∧ call.count ≤ pipeBuf ∧
      pipeBufferSize - p.bytesAvail < call.count
  | _ => false

/-- A small writer that takes the mutex has room for all of its bytes. -/
def roomAtLock (pipeBuf : Nat) (s : PipeState T) : PipeAction T → Prop
  | .run t => crowdedOut pipeBuf s.pipe (s.pc t) = false
  | _ => True

instance (s : PipeState T) (a : PipeAction T) : Decidable (roomAtLock pipeBuf s a) :=
  match a with
  | .run t => inferInstanceAs (Decidable (crowdedOut pipeBuf s.pipe (s.pc t) = false))
  | .read .. | .write .. | .ends .. => isTrue trivial

lemma Effect.progress (effect : Effect t p pc o) (knows : Knows p pc)
    (h : Progress pipeBuf p stream pc)
    (room : crowdedOut pipeBuf p pc = false) :
    Progress pipeBuf o.pipe (stream ++ o.chunk.toList) o.pc := by
  cases effect with
  | silent silent =>
    rw [progress_iff_outside silent.before] at h
    rw [progress_iff_outside silent.after]
    intro call n writing
    simpa using h call n (silent.writing_before writing)
  | @lockWrite call n free =>
    intro small
    rcases h call n rfl small with ⟨zero, fresh⟩ | done
    · have fits : call.count ≤ pipeBufferSize - p.bytesAvail := by
        simpa [crowdedOut, free, small] using room
      exact ⟨zero, by simpa using fresh, fits⟩
    · exact absurd done (Nat.not_le_of_lt knows)
  | @writeFirst call n =>
    intro small
    obtain ⟨rfl, fresh, fits⟩ := h small
    have le : firstWrite p call.count ≤ pipeBufferSize := by
      unfold firstWrite
      omega
    have sum : add32 0 (firstWrite p call.count) = firstWrite p call.count := by
      rw [add32_eq (by unfold pipeBufferSize at le; unfold wordSize; omega), Nat.zero_add]
    rw [sum]
    refine ⟨le, ?_, stream, rfl, fresh⟩
    simp only [Pipe.put]
    omega
  | @writeMore call n more room =>
    intro small
    obtain ⟨le, fits, -⟩ := h small
    have sum : add32 n (min (pipeBufferSize - p.bytesAvail) call.count)
        = n + min (pipeBufferSize - p.bytesAvail) call.count := by
      apply add32_eq
      simp only [pipeBufferSize, wordSize] at le ⊢
      omega
    omega
  | writeDone done =>
    intro small
    obtain ⟨le, fits, -⟩ := h small
    omega
  | @unlockWrite call n =>
    intro call' n' same small
    cases same
    exact .inr (h small)
  | lockRead | readFirst | readMore | readDone | unlockRead =>
    intro call n writing
    cases writing

/-! ## The calls -/

/-- A call is in the stream under its number, and in at most one task. -/
structure Numbered (s : PipeState T) : Prop where
  ids : s.calls.map WriteCall.id = List.range s.calls.length
  stream : ∀ c ∈ s.stream, c.call ∈ s.calls
  active : ∀ t call n, (s.pc t).writing = some (call, n) → call ∈ s.calls
  apart : ∀ t u call call' n m, (s.pc t).writing = some (call, n) →
    (s.pc u).writing = some (call', m) → call.id = call'.id → t = u

namespace Numbered

lemma id_lt (h : Numbered s) (mem : call ∈ s.calls) :
    call.id < s.calls.length := by
  have := mem_map_of_mem (f := WriteCall.id) mem
  rwa [h.ids, mem_range] at this

lemma eq_of_id (h : Numbered s) {c d : WriteCall} (hc : c ∈ s.calls) (hd : d ∈ s.calls)
    (same : c.id = d.id) : c = d :=
  inj_on_of_nodup_map (by rw [h.ids]; exact nodup_range) hc hd same

lemma fresh (h : Numbered s) (next : call.id = s.calls.length) :
    Fresh call s.stream := by
  intro c hc
  rw [next]
  exact (h.id_lt (h.stream c hc)).ne

variable [DecidableEq T]

lemma update (h : Numbered s) (t : T) (pc : Pc) (p : Pipe T) (more : List Chunk)
    (keeps : ∀ call n, pc.writing = some (call, n) → ∃ m, (s.pc t).writing = some (call, m))
    (own : ∀ c ∈ more, c.call ∈ s.calls) :
    Numbered ⟨p, Function.update s.pc t pc, s.stream ++ more, s.calls⟩ := by
  have before : ∀ u call n, (Function.update s.pc t pc u).writing = some (call, n) →
      ∃ m, (s.pc u).writing = some (call, m) := by
    intro u call n writing
    by_cases same : u = t
    · subst same
      exact keeps call n (by simpa using writing)
    · exact ⟨n, by simpa [Function.update_of_ne same] using writing⟩
  refine ⟨h.ids, ?_, ?_, ?_⟩
  · intro c hc
    rcases mem_append.mp hc with hc | hc
    · exact h.stream c hc
    · exact own c hc
  · intro u call n writing
    obtain ⟨m, writing⟩ := before u call n writing
    exact h.active u call m writing
  · intro u v call call' n m hu hv same
    obtain ⟨_, hu⟩ := before u call n hu
    obtain ⟨_, hv⟩ := before v call' m hv
    exact h.apart u v call call' _ _ hu hv same

lemma begin (h : Numbered s) (t : T) (file : PipeEnd)
    (next : call.id = s.calls.length) :
    Numbered { s with
      pc := Function.update s.pc t (.writeEnter file call), calls := s.calls ++ [call] } := by
  have before : ∀ u call' n, u ≠ t →
      (Function.update s.pc t (.writeEnter file call) u).writing = some (call', n) →
      (s.pc u).writing = some (call', n) := by
    intro u call' n other writing
    simpa [Function.update_of_ne other] using writing
  have own : ∀ call' n, (Function.update s.pc t (.writeEnter file call) t).writing
      = some (call', n) → call' = call := by
    intro call' n writing
    simp only [Function.update_self, Pc.writing, some.injEq, Prod.mk.injEq] at writing
    exact writing.1.symm
  -- the number of a call in progress is smaller
  have other : ∀ u call' n, (s.pc u).writing = some (call', n) → call'.id ≠ call.id := by
    intro u call' n writing
    rw [next]
    exact (h.id_lt (h.active u call' n writing)).ne
  refine ⟨?_, ?_, ?_, ?_⟩
  · simp [h.ids, next, range_succ]
  · intro c hc
    exact mem_append_left _ (h.stream c hc)
  · intro u call' n writing
    by_cases same : u = t
    · subst same
      simp [own call' n writing]
    · exact mem_append_left _ (h.active u call' n (before u call' n same writing))
  · intro u v c d n m hu hv same
    by_cases ut : u = t <;> by_cases vt : v = t
    · rw [ut, vt]
    · subst ut
      rw [own c n hu] at same
      exact absurd same.symm (other v d m (before v d m vt hv))
    · subst vt
      rw [own d m hv] at same
      exact absurd same (other u c n (before u c n ut hu))
    · exact h.apart u v c d n m (before u c n ut hu) (before v d m vt hv) same

lemma run (h : Numbered s) (effect : Effect t s.pipe (s.pc t) o) :
    Numbered ⟨o.pipe, Function.update s.pc t o.pc, s.stream ++ o.chunk.toList, s.calls⟩ := by
  refine h.update t o.pc o.pipe _ (fun _ _ => effect.writing) fun c hc => ?_
  obtain ⟨-, n, writing⟩ := effect.chunk (mem_toList.mp hc)
  exact h.active t c.call n writing

lemma step (inv : Inv s) (h : Numbered s) (step : pipeStep pipeBuf s a = some s') :
    Numbered s' := by
  cases pipeStep_moves step with
  | run ran => exact h.run (taskStep_effect inv.ring (inv.knows _) ran)
  | @read t file count free =>
    simpa using h.update t (.readEnter file count) s.pipe [] (by simp [Pc.writing]) (by simp)
  | @write t file call free next => exact h.begin t file next
  | ends => exact ⟨h.1, h.2, h.3, h.4⟩

end Numbered

lemma numbered_newState (buffer : Nat → UInt8) : Numbered (newState T buffer) :=
  ⟨rfl, by simp [newState], by simp [newState, Pc.writing], by simp [newState, Pc.writing]⟩

/-! ## Small writes are contiguous -/

structure Atomic (pipeBuf : Nat) (s : PipeState T) : Prop where
  numbered : Numbered s
  progress : ∀ t, Progress pipeBuf s.pipe s.stream (s.pc t)
  contiguous : ∀ call ∈ s.calls, call.count ≤ pipeBuf →
    Contiguous (fun c => c.call.id = call.id) s.stream

/-- A copy of a small write goes next to the bytes of the same write. -/
lemma Effect.contiguous (effect : Effect t p pc o) (h : Progress pipeBuf p stream pc)
    {c : Chunk} (own : c ∈ o.chunk) (small : c.call.count ≤ pipeBuf) :
    Contiguous (fun d => d.call.id = c.call.id) (stream ++ [c]) := by
  cases effect with
  | writeFirst =>
    cases own
    obtain ⟨-, fresh, -⟩ := h small
    exact .of_block fresh (by simp)
  | writeMore =>
    cases own
    obtain ⟨-, -, before, rfl, fresh⟩ := h small
    rw [append_assoc]
    exact .of_block fresh (by simp)
  | _ => cases own

/-- A step of one task changes nothing for another in the critical section, and adds no bytes of one
outside. -/
lemma Effect.other (effect : Effect t s.pipe (s.pc t) o) (inv : Inv s) (numbered : Numbered s)
    {u : T} (other : u ≠ t) :
    o.pipe = s.pipe ∧ o.chunk.toList = [] ∨ (s.pc u).holdsLock = false ∧
      ∀ call n, (s.pc u).writing = some (call, n) → Fresh call o.chunk.toList := by
  cases holds : (s.pc u).holdsLock with
  | true =>
    have held := (inv.lock u).mp holds
    have out : ¬ FreeFor t s.pipe := by simp [FreeFor, held, other]
    have same : o.pipe = s.pipe :=
      (effect.ok inv.ring (inv.lock t) (inv.knows t)).frame.resolve_right fun h => out h.1
    refine .inl ⟨same, ?_⟩
    cases hc : o.chunk with
    | none => rfl
    | some c => exact absurd (.inr ((inv.lock t).mp (effect.chunk hc).1)) out
  | false =>
    refine .inr ⟨rfl, fun call n writing c hc same => ?_⟩
    obtain ⟨-, m, theirs⟩ := effect.chunk (mem_toList.mp hc)
    exact other (numbered.apart u t call c.call n m writing theirs same.symm)

lemma Atomic.progress_other (inv : Inv s) (h : Atomic pipeBuf s)
    (effect : Effect t s.pipe (s.pc t) o) {u : T} (other : u ≠ t) :
    Progress pipeBuf o.pipe (s.stream ++ o.chunk.toList) (s.pc u) := by
  have progress := h.progress u
  rcases effect.other inv h.numbered other with ⟨same, none⟩ | ⟨outside, fresh'⟩
  · rw [same, none, append_nil]
    exact progress
  · rw [progress_iff_outside outside] at progress ⊢
    intro call n writing small
    exact (progress call n writing small).imp_left fun ⟨zero, fresh⟩ =>
      ⟨zero, fresh.append (fresh' call n writing)⟩

lemma atomic_newState (buffer : Nat → UInt8) : Atomic pipeBuf (newState T buffer) where
  numbered := numbered_newState buffer
  progress t := by
    intro call n writing
    cases writing
  contiguous := by simp [newState]

variable [DecidableEq T]

lemma Atomic.progress_enter (h : Atomic pipeBuf s) (t : T)
    (new : Progress pipeBuf s.pipe s.stream pc) (u : T) :
    Progress pipeBuf s.pipe s.stream (Function.update s.pc t pc u) := by
  by_cases same : u = t
  · subst same
    simpa using new
  · simpa [Function.update_of_ne same] using h.progress u

lemma Atomic.run (inv : Inv s) (h : Atomic pipeBuf s) (ok : roomAtLock pipeBuf s (.run t))
    (effect : Effect t s.pipe (s.pc t) o) :
    Atomic pipeBuf ⟨o.pipe, Function.update s.pc t o.pc, s.stream ++ o.chunk.toList, s.calls⟩ := by
  refine ⟨h.numbered.run effect, ?_, ?_⟩
  · intro u
    by_cases same : u = t
    · subst same
      simpa using effect.progress (inv.knows u) (h.progress u) ok
    · simpa [Function.update_of_ne same] using h.progress_other inv effect same
  · intro call mem small
    cases hc : o.chunk with
    | none => simpa using h.contiguous call mem small
    | some c =>
      by_cases same : c.call.id = call.id
      · obtain ⟨-, n, writing⟩ := effect.chunk hc
        obtain rfl := h.numbered.eq_of_id (h.numbered.active t c.call n writing) mem same
        exact effect.contiguous (h.progress t) hc small
      · exact (h.contiguous call mem small).append (by simpa using same)

lemma atomic_step (inv : Inv s) (h : Atomic pipeBuf s) (ok : roomAtLock pipeBuf s a)
    (step : pipeStep pipeBuf s a = some s') : Atomic pipeBuf s' := by
  have numbered := h.numbered.step inv step
  cases pipeStep_moves step with
  | run ran => exact h.run inv ok (taskStep_effect inv.ring (inv.knows _) ran)
  | @read t file count free =>
    refine ⟨numbered, h.progress_enter t ?_, h.contiguous⟩
    intro call n writing
    cases writing
  | @write t file call free next =>
    have fresh := h.numbered.fresh next
    refine ⟨numbered, h.progress_enter t ?_, ?_⟩
    · intro call' n writing small
      cases writing
      exact .inl ⟨rfl, fresh⟩
    · intro call' mem small
      rcases mem_append.mp mem with mem | mem
      · exact h.contiguous call' mem small
      · obtain rfl := mem_singleton.mp mem
        exact .of_none fresh
  | ends => exact ⟨numbered, h.progress, h.contiguous⟩

/-- In every run in which a small writer that takes the mutex still has room for all of its bytes,
the bytes of every write of at most `PIPE_BUF` bytes stand together in the stream. -/
theorem writes_contiguous {buffer : Nat → UInt8} {acts : List (PipeAction T)}
    (run : Run (Guarded (roomAtLock pipeBuf) fun s a s' => pipeStep pipeBuf s a = some s')
      (newState T buffer) acts s) :
    ∀ call ∈ s.calls, call.count ≤ pipeBuf →
      Contiguous (fun b => b.1 = call.id) (byteStream s) := by
  obtain ⟨-, atomic⟩ : Inv s ∧ Atomic pipeBuf s := by
    refine run.invariant (P := fun s => Inv s ∧ Atomic pipeBuf s)
      ⟨inv_newState buffer, atomic_newState buffer⟩ ?_
    rintro s a s' ⟨inv, atomic⟩ ⟨ok, step⟩
    exact ⟨inv_step inv step, atomic_step inv atomic ok step⟩
  intro call mem small
  refine (atomic.contiguous call mem small).flatMap ?_
  intro c b hb
  obtain ⟨i, -, rfl⟩ := mem_map.mp hb
  exact Iff.rfl

/-- Task 1 writes while task 0 is on its way to the mutex; both have room. -/
def writersWithRoom : List (PipeAction (Fin 2)) :=
  [[.write 0 .writer (fun _ => 7) 2], runs 0 4, [.write 1 .writer (fun _ => 8) 3], runs 1 9,
    runs 0 5].flatten

theorem writes_contiguous_sample : ∃ s : PipeState (Fin 2),
    Run (Guarded (roomAtLock 512) fun s a s' => pipeStep 512 s a = some s')
      (newState (Fin 2) fun _ => 0) writersWithRoom s ∧
    s.calls.map WriteCall.count = [2, 3] ∧ (s.stream.map fun c => c.call.id) = [1, 0] ∧
    ∀ call ∈ s.calls, Contiguous (fun b => b.1 = call.id) (byteStream s) := by
  obtain ⟨s, run, counts, order⟩ : ∃ s : PipeState (Fin 2),
      Run (Guarded (roomAtLock 512) fun s a s' => pipeStep 512 s a = some s')
        (newState (Fin 2) fun _ => 0) writersWithRoom s ∧
      s.calls.map WriteCall.count = [2, 3] ∧ (s.stream.map fun c => c.call.id) = [1, 0] :=
    Run.exists_of_exec_guarded (by decide +kernel)
  have small : ∀ call ∈ s.calls, call.count ≤ 512 := by
    intro call mem
    have : call.count ∈ [2, 3] := counts ▸ mem_map_of_mem mem
    revert this
    simp only [mem_cons, not_mem_nil, or_false]
    omega
  exact ⟨s, run, counts, order, fun call mem => writes_contiguous run call mem (small call mem)⟩

/-- Task 0 wants to write two bytes, and finds room for them. Before it takes the mutex, task 1
fills the ring up to its last byte. Task 0 writes one byte; then task 2 empties the ring and task 1
writes a byte; then task 0 goes on. -/
def writersCrowded : List (PipeAction (Fin 3)) :=
  [[.write 0 .writer (fun _ => 7) 2], runs 0 4, [.write 1 .writer (fun _ => 8) 65535], runs 1 9,
    runs 0 5, [.read 2 .reader 65536], runs 2 6, [.write 1 .writer (fun _ => 9) 1], runs 1 9,
    runs 0 6].flatten

/-- Another writer's byte stands between the bytes of a small write. -/
theorem writes_not_contiguous : ∃ (s : PipeState (Fin 3)) (call : WriteCall),
    Run (fun s a s' => pipeStep 512 s a = some s') (newState (Fin 3) fun _ => 0)
      writersCrowded s ∧
    call ∈ s.calls ∧ call.count ≤ 512 ∧
    ¬ Contiguous (fun b => b.1 = call.id) (byteStream s) := by
  obtain ⟨s, ran, call, mem, id, count, order⟩ :
      ∃ s ∈ exec (pipeStep 512) (newState (Fin 3) fun _ => 0) writersCrowded,
      ∃ call ∈ s.calls, call.id = 0 ∧ call.count ≤ 512 ∧
        (s.stream.map fun c => (c.call.id, c.size)) = [(1, 65535), (0, 1), (2, 1), (0, 2)] := by
    decide +kernel
  refine ⟨s, call, Run.of_exec ran, mem, count, ?_⟩
  intro contiguous
  rw [id] at contiguous
  have writers : Contiguous (fun n => n = 0) ((byteStream s).map Prod.fst) := by
    rw [map_eq_flatMap]
    exact contiguous.flatMap (by simp)
  rw [map_fst_byteStream, order] at writers
  have between : [0, 2, 0].Sublist ([(1, 65535), (0, 1), (2, 1), (0, 2)].flatMap
      fun c : Nat × Nat => List.replicate c.2 c.1) := by
    exact List.Sublist.trans (by decide) (sublist_append_right _ _)
  exact absurd (writers.not_between between rfl rfl) (by decide)

end ExscapeOS.Pipes
