import ExscapeOS.Kernel.Pipe.Ring

/-!
# Runs of readers and writers

Any number of tasks use one pipe. The ring invariant holds in every state of every run. The data
that a reader saw in its wait loop is still there when it has the mutex as long as no other reader
empties the ring in between.
-/
namespace ExscapeOS.Pipes

open Lib

variable {T : Type} {pipeBuf : Nat} {s s' : PipeState T} {a : PipeAction T}

/-! ## Readers -/

/-- The copy the task makes next takes every byte in the ring. -/
def drains (p : Pipe T) : Pc → Bool
  | .readFirst count => p.bytesAvail ≤ min count (pipeBufferSize - p.readPos)
  | .readSecond count bytesRead _ => bytesRead < count ∧ p.bytesAvail ≤ count
  | _ => false

/-- A reader has left its wait loop and does not have the mutex yet. -/
def Pc.awaitsLock : Pc → Bool
  | .readLock _ => true
  | _ => false

/-- A copy empties the ring only while no reader is between the wait loop and the mutex. -/
def drainsAlone (s : PipeState T) : PipeAction T → Prop
  | .run t => drains s.pipe (s.pc t) = true → ∀ u, (s.pc u).awaitsLock = false
  | _ => True

instance [Fintype T] (s : PipeState T) (a : PipeAction T) : Decidable (drainsAlone s a) :=
  match a with
  | .run t =>
    inferInstanceAs (Decidable (drains s.pipe (s.pc t) = true → ∀ u, (s.pc u).awaitsLock = false))
  | .read .. | .write .. | .ends .. => isTrue trivial

/-- Every reader that relies on data has data. -/
def DataReady (s : PipeState T) : Prop :=
  ∀ t, (s.pc t).reliesOnData = true → 0 < s.pipe.bytesAvail

variable {t : T} {p : Pipe T} {pc : Pc} {o : Outcome T}

lemma Effect.drains (effect : Effect t p pc o) (empty : o.pipe.bytesAvail = 0)
    (avail : 0 < p.bytesAvail) : Pipes.drains p pc = true ∧ pc.holdsLock = true := by
  cases effect with
  | silent | lockRead | lockWrite | readDone | writeDone | unlockRead | unlockWrite =>
    exact absurd empty avail.ne'
  | readFirst =>
    simp only [Pipe.take, firstRead] at empty
    exact ⟨decide_eq_true (by omega), rfl⟩
  | readMore more =>
    simp only [Pipe.take] at empty
    exact ⟨decide_eq_true ⟨more, by omega⟩, rfl⟩
  | writeFirst | writeMore =>
    simp only [Pipe.put] at empty
    omega

lemma Effect.data (effect : Effect t p pc o) (relies : o.pc.reliesOnData = true)
    (before : pc.reliesOnData = true → 0 < p.bytesAvail) : 0 < o.pipe.bytesAvail := by
  cases effect with
  | silent h => exact (h.data relies).elim id before
  | lockRead => exact before rfl
  | _ => simp [Pc.reliesOnData] at relies

/-! ## The invariant -/

structure Inv (s : PipeState T) : Prop where
  ring : Ring s.pipe
  lock : ∀ t, (s.pc t).holdsLock = true ↔ s.pipe.lock = some t
  knows : ∀ t, Knows s.pipe (s.pc t)

lemma inv_newState (buffer : Nat → UInt8) : Inv (newState T buffer) where
  ring := by constructor <;> simp [newState, newPipe, pipeBufferSize]
  lock t := by simp [newState, newPipe, Pc.holdsLock]
  knows t := trivial

variable [DecidableEq T]

/-- Everything that can happen in a state. -/
inductive Moves (pipeBuf : Nat) (s : PipeState T) : PipeAction T → PipeState T → Prop where
  | read {t : T} {file : PipeEnd} {count : Nat} : (s.pc t).isFree = true →
      Moves pipeBuf s (.read t file count)
        { s with pc := Function.update s.pc t (.readEnter file count) }
  | write {t : T} {file : PipeEnd} {call : WriteCall} : (s.pc t).isFree = true →
      call.id = s.calls.length →
      Moves pipeBuf s (.write t file call.buf call.count)
        { s with pc := Function.update s.pc t (.writeEnter file call), calls := s.calls ++ [call] }
  | run {t : T} {o : Outcome T} : taskStep pipeBuf t s.pipe (s.pc t) = some o →
      Moves pipeBuf s (.run t) { s with
        pipe := o.pipe
        pc := Function.update s.pc t o.pc
        stream := s.stream ++ o.chunk.toList }
  | ends {reader writer : Option Int} : (∀ count ∈ reader, 0 ≤ count) →
      Moves pipeBuf s (.ends reader writer)
        { s with pipe := { s.pipe with reader := reader, writer := writer } }

lemma pipeStep_moves (step : pipeStep pipeBuf s a = some s') : Moves pipeBuf s a s' := by
  cases a with
  | read t file count =>
    simp only [pipeStep, Option.bind_eq_bind, kassert_bind_eq_some, Option.pure_def,
      Option.some.injEq] at step
    obtain ⟨⟨free, -⟩, rfl⟩ := step
    exact .read free
  | write t file buf count =>
    simp only [pipeStep] at step
    split_ifs at step with h
    cases step
    let call : WriteCall := ⟨s.calls.length, buf, count, h.2⟩
    exact @Moves.write T _ pipeBuf s t file call h.1 rfl
  | run t =>
    obtain ⟨o, ran, step⟩ := Option.bind_eq_some_iff.mp step
    cases step
    exact .run ran
  | ends reader writer =>
    simp only [pipeStep, Option.bind_eq_bind, kassert_bind_eq_some, Option.pure_def,
      Option.some.injEq] at step
    obtain ⟨nonneg, rfl⟩ := step
    exact .ends nonneg

lemma Inv.update {t : T} (inv : Inv s) {o : Outcome T} (ok : StepOk t s.pipe o)
    (stream : List Chunk) (calls : List WriteCall) :
    Inv ⟨o.pipe, Function.update s.pc t o.pc, stream, calls⟩ := by
  refine ⟨ok.ring, fun u => ?_, fun u => ?_⟩
  · by_cases same : u = t
    · subst same
      simpa using ok.lock
    · simp only [Function.update_of_ne same, inv.lock u]
      rcases ok.frame with eq | ⟨before, after⟩
      · rw [eq]
      · -- before and after the step the mutex is free or with `t`
        have other : s.pipe.lock ≠ some u := by
          rcases before with h | h <;> simp [h, Ne.symm same]
        have other' : o.pipe.lock ≠ some u := by
          rcases after with h | h <;> simp [h, Ne.symm same]
        exact iff_of_false other other'
  · by_cases same : u = t
    · subst same
      simpa using ok.knows
    · simp only [Function.update_of_ne same]
      rcases ok.frame with eq | ⟨before, -⟩
      · simpa [eq] using inv.knows u
      · refine (inv.knows u).of_outside ?_
        rw [← Bool.not_eq_true, inv.lock u]
        rcases before with h | h <;> simp [h, Ne.symm same]

lemma Pc.holdsLock_of_isFree {pc : Pc} (h : pc.isFree = true) : pc.holdsLock = false := by
  cases pc <;> simp_all [Pc.isFree, Pc.holdsLock]

lemma Inv.enter {t : T} (inv : Inv s) (free : (s.pc t).isFree = true) (pc : Pc)
    (outside : pc.holdsLock = false) (knows : Knows s.pipe pc) (calls : List WriteCall) :
    Inv ⟨s.pipe, Function.update s.pc t pc, s.stream, calls⟩ := by
  have lock := inv.lock t
  rw [Pc.holdsLock_of_isFree free, ← outside] at lock
  exact inv.update (o := ⟨s.pipe, pc, none⟩) ⟨inv.ring, lock, knows, .inl rfl⟩ _ _

lemma inv_step (inv : Inv s) (step : pipeStep pipeBuf s a = some s') : Inv s' := by
  cases pipeStep_moves step with
  | read free => exact inv.enter free (.readEnter _ _) rfl trivial _
  | write free => exact inv.enter free (.writeEnter _ _) rfl trivial _
  | run ran =>
    have effect := taskStep_effect inv.ring (inv.knows _) ran
    exact inv.update (effect.ok inv.ring (inv.lock _) (inv.knows _)) _ _
  | ends nonneg =>
    have ring := inv.ring
    exact ⟨⟨ring.1, ring.2, ring.3, ring.4, nonneg⟩, inv.lock, inv.knows⟩

/-! ## The assertions hold -/

lemma dataReady_step (inv : Inv s) (ready : DataReady s) (ok : drainsAlone s a)
    (step : pipeStep pipeBuf s a = some s') : DataReady s' := by
  -- a task that begins a call relies on nothing
  have enter (t : T) (pc : Pc) (none : pc.reliesOnData = false) :
      ∀ u, (Function.update s.pc t pc u).reliesOnData = true → 0 < s.pipe.bytesAvail := by
    intro u relies
    by_cases same : u = t
    · subst same
      simp [none] at relies
    · exact ready u (by simpa [Function.update_of_ne same] using relies)
  cases pipeStep_moves step with
  | read => exact enter _ _ rfl
  | write => exact enter _ _ rfl
  | ends => exact ready
  | @run t o ran =>
    have effect := taskStep_effect inv.ring (inv.knows t) ran
    intro u relies
    by_cases same : u = t
    · subst same
      exact effect.data (by simpa using relies) (ready u)
    · have relies : (s.pc u).reliesOnData = true := by
        simpa [Function.update_of_ne same] using relies
      by_contra empty
      obtain ⟨all, held⟩ := effect.drains (by simpa using empty) (ready u relies)
      -- `u` cannot be in front of the mutex, and inside it is only `t`
      cases h : s.pc u with
      | readLock count => simpa [h, Pc.awaitsLock] using ok all u
      | readFirst count =>
        have hu := (inv.lock u).mp (by rw [h]; rfl)
        have ht := (inv.lock t).mp held
        exact same (Option.some.inj (hu.symm.trans ht))
      | _ => simp [h, Pc.reliesOnData] at relies

/-- In every run in which a copy that empties the ring is only made while no other reader is between
its wait loop and the mutex, no assertion of any task fails in any state, and a reader that has the
mutex has data. -/
theorem asserts_hold {buffer : Nat → UInt8} {acts : List (PipeAction T)}
    (run : Run (Guarded drainsAlone fun s a s' => pipeStep pipeBuf s a = some s')
      (newState T buffer) acts s) :
    (∀ t, taskStep pipeBuf t s.pipe (s.pc t) ≠ none) ∧
      ∀ t count, s.pc t = .readFirst count → 0 < s.pipe.bytesAvail := by
  obtain ⟨inv, ready⟩ : Inv s ∧ DataReady s := by
    refine run.invariant (P := fun s => Inv s ∧ DataReady s)
      ⟨inv_newState buffer, by simp [DataReady, newState, Pc.reliesOnData]⟩ ?_
    rintro s a s' ⟨inv, ready⟩ ⟨ok, step⟩
    exact ⟨inv_step inv step, dataReady_step inv ready ok step⟩
  have data : ∀ t count, s.pc t = .readFirst count → 0 < s.pipe.bytesAvail := by
    intro t count h
    exact ready t (by rw [h]; rfl)
  exact ⟨fun t => taskStep_total inv.ring (inv.lock t) (inv.knows t) (data t), data⟩

scoped instance neZero_two : NeZero 2 := ⟨by decide⟩

scoped instance neZero_three : NeZero 3 := ⟨by decide⟩

/-- Task `t` takes `n` steps. -/
def runs (t : T) (n : Nat) : List (PipeAction T) := List.replicate n (.run t)

/-- Task 0 writes a byte, and both read: task 1 waits until task 0 has drained the ring and written
again. -/
def readersInTurn : List (PipeAction (Fin 2)) :=
  [[.write 0 .writer (fun _ => 7) 1], runs 0 9, [.read 0 .reader 4], runs 0 6,
    [.read 1 .reader 4], runs 1 3, [.write 0 .writer (fun _ => 8) 1], runs 0 9, runs 1 2].flatten

lemma Pc.eq_readFirst {pc : Pc} (h : (pc.reliesOnData && pc.holdsLock) = true) :
    ∃ count, pc = .readFirst count := by
  cases pc <;> simp_all [Pc.reliesOnData, Pc.holdsLock]

theorem asserts_hold_sample : ∃ (s : PipeState (Fin 2)) (count : Nat),
    Run (Guarded drainsAlone fun s a s' => pipeStep 512 s a = some s')
      (newState (Fin 2) fun _ => 0) readersInTurn s ∧ s.pc 1 = .readFirst count ∧
    0 < s.pipe.bytesAvail ∧ ∀ t, taskStep 512 t s.pipe (s.pc t) ≠ none := by
  have done : ((exec (fun s a => if drainsAlone s a then pipeStep 512 s a else none)
      (newState (Fin 2) fun _ => 0) readersInTurn).map fun s =>
        (s.pc 1).reliesOnData && (s.pc 1).holdsLock) = some true := by decide +kernel
  obtain ⟨s, ran, place⟩ := Option.map_eq_some_iff.mp done
  obtain ⟨count, place⟩ := Pc.eq_readFirst place
  have run := Run.of_exec_guarded ran
  obtain ⟨total, data⟩ := asserts_hold run
  exact ⟨s, count, run, place, data 1 count place, total⟩

/-- Tasks 1 and 2 both see the byte that task 0 wrote. Task 1 takes it. -/
def readersTogether : List (PipeAction (Fin 3)) :=
  [[.write 0 .writer (fun _ => 7) 1], runs 0 9, [.read 1 .reader 4], runs 1 2,
    [.read 2 .reader 4], runs 2 2, runs 1 4, runs 2 1].flatten

/-- Two readers leave their wait loops on the same data; the second finds none. -/
theorem asserts_fail : ∃ (s : PipeState (Fin 3)) (count : Nat),
    Run (fun s a s' => pipeStep 512 s a = some s') (newState (Fin 3) fun _ => 0)
      readersTogether s ∧
    s.pc 2 = .readFirst count ∧ s.pipe.bytesAvail = 0 ∧
    taskStep 512 2 s.pipe (s.pc 2) = none := by
  obtain ⟨s, run, place, empty⟩ : ∃ s : PipeState (Fin 3),
      Run (fun s a s' => pipeStep 512 s a = some s') (newState (Fin 3) fun _ => 0)
        readersTogether s ∧
      ((s.pc 2).reliesOnData && (s.pc 2).holdsLock) ∧ s.pipe.bytesAvail = 0 :=
    Run.exists_of_exec (by decide +kernel)
  obtain ⟨count, place⟩ := Pc.eq_readFirst place
  refine ⟨s, count, run, place, empty, ?_⟩
  simp [place, taskStep, readFirst, kassert, empty]

/-! ## One call at a time -/

/-- A call begins only while no task is in a call. -/
def oneAtATime (s : PipeState T) : PipeAction T → Prop
  | .read .. | .write .. => ∀ t, (s.pc t).isFree = true
  | .run _ | .ends .. => True

instance [Fintype T] (s : PipeState T) (a : PipeAction T) : Decidable (oneAtATime s a) :=
  match a with
  | .read .. | .write .. => inferInstanceAs (Decidable (∀ t, (s.pc t).isFree = true))
  | .run _ | .ends .. => isTrue trivial

/-- At most one task is in a call. -/
def Serial (s : PipeState T) : Prop :=
  ∀ t u, (s.pc t).isFree = false → (s.pc u).isFree = false → t = u

lemma taskStep_free {t : T} {p : Pipe T} {pc : Pc} {o : Outcome T} (free : pc.isFree = true)
    (h : taskStep pipeBuf t p pc = some o) : o.pc.isFree = true := by
  cases pc with
  | idle | returned =>
    cases h
    rfl
  | _ => simp [Pc.isFree] at free

lemma serial_step (serial : Serial s) (ok : oneAtATime s a)
    (step : pipeStep pipeBuf s a = some s') : Serial s' := by
  -- the task that begins a call is the only one in a call
  have enter (alone : ∀ t, (s.pc t).isFree = true) (t : T) (pc : Pc) (u v : T)
      (hu : (Function.update s.pc t pc u).isFree = false)
      (hv : (Function.update s.pc t pc v).isFree = false) : u = v := by
    have eq (w : T) (hw : (Function.update s.pc t pc w).isFree = false) : w = t := by
      by_contra other
      simp [Function.update_of_ne other, alone w] at hw
    rw [eq u hu, eq v hv]
  cases pipeStep_moves step with
  | read => exact enter ok _ _
  | write => exact enter ok _ _
  | ends => exact serial
  | @run t o ran =>
    have before (w : T) (hw : (Function.update s.pc t o.pc w).isFree = false) :
        (s.pc w).isFree = false := by
      by_cases same : w = t
      · subst same
        by_contra free
        simp [taskStep_free (by simpa using free) ran] at hw
      · simpa [Function.update_of_ne same] using hw
    exact fun u v hu hv => serial u v (before u hu) (before v hv)

omit [DecidableEq T] in
/-- A reader that empties the ring is the only task in a call. -/
lemma Serial.drainsAlone (serial : Serial s) (a : PipeAction T) : Pipes.drainsAlone s a := by
  cases a with
  | run t =>
    intro drains u
    by_contra awaits
    cases ht : s.pc t <;> simp only [ht, Pipes.drains, Bool.false_eq_true] at drains
    all_goals
      cases hu : s.pc u <;> simp only [hu, Pc.awaitsLock, not_true_eq_false] at awaits
      have same : t = u := serial t u (by rw [ht]; rfl) (by rw [hu]; rfl)
      simp [← same, ht] at hu
  | read | write | ends => trivial

/-- Calls made one at a time, on both ends and by any tasks: the positions stay inside the ring, the
write position is `bytes_avail` bytes behind the read position, and no assertion fails. -/
theorem serial_calls {buffer : Nat → UInt8} {acts : List (PipeAction T)}
    (run : Run (Guarded oneAtATime fun s a s' => pipeStep pipeBuf s a = some s')
      (newState T buffer) acts s) :
    s.pipe.bytesAvail ≤ pipeBufferSize ∧ s.pipe.readPos < pipeBufferSize ∧
      s.pipe.writePos < pipeBufferSize ∧
      s.pipe.writePos = (s.pipe.readPos + s.pipe.bytesAvail) % pipeBufferSize ∧
      ∀ t, taskStep pipeBuf t s.pipe (s.pc t) ≠ none := by
  obtain ⟨inv, ready, -⟩ : Inv s ∧ DataReady s ∧ Serial s := by
    refine run.invariant (P := fun s => Inv s ∧ DataReady s ∧ Serial s)
      ⟨inv_newState buffer, by simp [DataReady, newState, Pc.reliesOnData],
        by simp [Serial, newState, Pc.isFree]⟩ ?_
    rintro s a s' ⟨inv, ready, serial⟩ ⟨ok, step⟩
    exact ⟨inv_step inv step, dataReady_step inv ready (serial.drainsAlone a) step,
      serial_step serial ok step⟩
  refine ⟨inv.ring.avail_le, inv.ring.readPos_lt, inv.ring.writePos_lt, inv.ring.writePos_eq,
    fun t => taskStep_total inv.ring (inv.lock t) (inv.knows t) fun count h => ?_⟩
  exact ready t (by rw [h]; rfl)

/-- Task 0 writes four bytes, and task 1 reads three of them. -/
def callsInTurn : List (PipeAction (Fin 2)) :=
  [[.write 0 .writer (fun _ => 7) 4], runs 0 9, [.read 1 .reader 3], runs 1 6].flatten

theorem serial_calls_inTurn : ∃ s : PipeState (Fin 2),
    Run (Guarded oneAtATime fun s a s' => pipeStep 512 s a = some s')
      (newState (Fin 2) fun _ => 0) callsInTurn s ∧
    (∀ t, (s.pc t).isFree = true) ∧ s.pipe.bytesAvail = 1 ∧
    s.pipe.writePos = (s.pipe.readPos + s.pipe.bytesAvail) % pipeBufferSize := by
  obtain ⟨s, run, free, avail⟩ : ∃ s : PipeState (Fin 2),
      Run (Guarded oneAtATime fun s a s' => pipeStep 512 s a = some s')
        (newState (Fin 2) fun _ => 0) callsInTurn s ∧
      (∀ t, (s.pc t).isFree = true) ∧ s.pipe.bytesAvail = 1 :=
    Run.exists_of_exec_guarded (by decide +kernel)
  exact ⟨s, run, free, avail, (serial_calls run).2.2.2.1⟩

end ExscapeOS.Pipes
