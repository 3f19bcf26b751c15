import ExscapeOS.Lib.Transition
import ExscapeOS.Lib.Word

/-!
# Network handlers

`nethandler_add_packet`, which the interrupt handler calls, and `nethandler_task` share eight
buffers. The interrupt fills the first empty one; the task looks for a filled one, marks it, calls a
function, clears the buffer and marks it as empty.

A call of `nethandler_add_packet` is one step, since interrupts are off. The task can be interrupted
between any two accesses to a buffer, and while the function runs, which may change the buffer. The
fields `accepted`, `passed`, `mark` and `serial` only record what has happened.
-/
namespace ExscapeOS.Nethandler

open Lib Function List Option

abbrev Bytes : Type := List UInt8

/-- `NETHANDLER_NUM_BUFFERS` -/
def numBuffers : Nat := 8

/-- `NETHANDLER_BUFFER_SIZE` -/
def bufferSize : Nat := 1536

inductive BufferState where
  | empty
  | needsProcessing
  | currentlyProcessing
  deriving DecidableEq

/-- `nethandler_buffer_t` -/
structure Buffer where
  buffer : Bytes
  length : Nat
  state : BufferState
  /-- Which packet was copied here last. -/
  serial : Nat

/-- A packet that the card has received and that fits in a buffer. -/
structure Packet where
  data : Bytes
  fits : data.length ≤ bufferSize

abbrev Slot : Type := Fin numBuffers

inductive Pc where
  /-- In the `for` loop, before the test of a buffer. -/
  | scan (i : Slot)
  /-- Before `buffer->state = CURRENTLY_PROCESSING`. -/
  | claim (i : Slot)
  | sleep
  | call (i : Slot)
  /-- In the function. -/
  | inFunction (i : Slot)
  /-- In `memset`, before byte `j`. -/
  | clear (i : Slot) (j : Nat)
  | release (i : Slot)
  deriving DecidableEq

/-- A call of the function: the packet, and what the function finds in the buffer. -/
structure Pass where
  serial : Nat
  data : Bytes
  length : Nat
  deriving DecidableEq

/-- `nethandler_t`, and the task. -/
structure Worker where
  buffers : Slot → Buffer
  pc : Pc
  accepted : List Bytes
  passed : List Pass
  /-- How many packets had been accepted when the task began its scan. -/
  mark : Nat

/-- After `nethandler_create`. -/
def created : Worker where
  buffers _ := { buffer := List.replicate bufferSize 0, length := 0, state := .empty, serial := 0 }
  pc := .scan ⟨0, by decide⟩
  accepted := []
  passed := []
  mark := 0

namespace Worker

def setBuffer (i : Slot) (b : Buffer) (w : Worker) : Worker :=
  { w with buffers := update w.buffers i b }

def setState (i : Slot) (state : BufferState) (w : Worker) : Worker :=
  w.setBuffer i { w.buffers i with state := state }

def store (i : Slot) (j : Nat) (byte : UInt8) (w : Worker) : Worker :=
  w.setBuffer i { w.buffers i with buffer := (w.buffers i).buffer.set j byte }

def jump (pc : Pc) (w : Worker) : Worker := { w with pc := pc }

/-- The task looks at the first buffer again. -/
def rescan (w : Worker) : Worker :=
  { w with pc := .scan ⟨0, by decide⟩, mark := w.accepted.length }

def firstFree (w : Worker) : Option Slot :=
  (List.finRange numBuffers).find? fun i => (w.buffers i).state = .empty

/-- The packet is copied to buffer `i`. -/
def accept (i : Slot) (p : Packet) (w : Worker) : Worker :=
  { w.setBuffer i
      { buffer := p.data ++ (w.buffers i).buffer.drop p.data.length
        length := p.data.length
        state := .needsProcessing
        serial := w.accepted.length } with accepted := w.accepted ++ [p.data] }

/-- `nethandler_add_packet`. -/
def addPacket (p : Packet) (w : Worker) : Option Worker := do
  kassert (0 < p.data.length)
  match w.firstFree with
  | none => return w
  | some i => return w.accept i p

/-- What the function gets. -/
def pass (i : Slot) (w : Worker) : Pass :=
  { serial := (w.buffers i).serial
    data := (w.buffers i).buffer.take (w.buffers i).length
    length := (w.buffers i).length }

/-- The next step of `nethandler_task`. In the function, it returns. -/
def task (w : Worker) : Worker :=
  match w.pc with
  | .scan i =>
    if (w.buffers i).state = .needsProcessing then w.jump (.claim i)
    else if next : i + 1 < numBuffers then w.jump (.scan ⟨i + 1, next⟩)
    else w.jump .sleep
  | .claim i => (w.setState i .currentlyProcessing).jump (.call i)
  | .sleep => w.rescan
  | .call i => { w with passed := w.passed ++ [w.pass i] }.jump (.inFunction i)
  | .inFunction i => w.jump (.clear i 0)
  | .clear i j =>
    if j < bufferSize then
      (w.store i j 0).jump (.clear i (j + 1))
    else w.jump (.release i)
  | .release i => (w.setState i .empty).rescan

end Worker

inductive Action where
  /-- The card's interrupt. -/
  | receive (p : Packet)
  | task
  /-- The function changes a byte of the buffer. -/
  | store (j : Nat) (byte : UInt8)

namespace Worker

def step (w : Worker) : Action → Option Worker
  | .receive p => w.addPacket p
  | .task => some w.task
  | .store j byte =>
    match w.pc with
    | .inFunction i => some (w.store i j byte)
    | _ => none

/-- The packet in the buffer has not been passed to the function. -/
def waits (w : Worker) (i : Slot) : Prop :=
  (w.buffers i).state = .needsProcessing ∨ w.pc = .call i

instance (w : Worker) (i : Slot) : Decidable (w.waits i) := inferInstanceAs (Decidable (_ ∨ _))

end Worker

abbrev WorkerRun : Worker → List Action → Worker → Prop :=
  Run fun w a w' => w.step a = some w'

variable {w w' : Worker} {i j : Slot} {p : Packet} {a : Action}

namespace Worker

/-! ## Which packets wait -/

/-- Every packet that was accepted has been passed on once, with its bytes, or waits in one buffer
and is intact. -/
structure Ledger (w : Worker) : Prop where
  intact : ∀ i, w.waits i → ∃ data, w.accepted[(w.buffers i).serial]? = some data ∧
    (w.buffers i).length = data.length ∧ (w.buffers i).buffer.take data.length = data
  apart : ∀ i j, w.waits i → w.waits j → (w.buffers i).serial = (w.buffers j).serial → i = j
  fresh : ∀ i, w.waits i → (w.buffers i).serial ∉ w.passed.map Pass.serial
  once : (w.passed.map Pass.serial).Nodup
  right : ∀ c ∈ w.passed, w.accepted[c.serial]? = some c.data ∧ c.length = c.data.length
  kept : ∀ n < w.accepted.length, n ∈ w.passed.map Pass.serial ∨
    ∃ i, w.waits i ∧ (w.buffers i).serial = n

namespace Ledger

lemma congr (h : Ledger w) (waits : ∀ i, w'.waits i ↔ w.waits i)
    (same : ∀ i, w.waits i → (w'.buffers i).serial = (w.buffers i).serial ∧
      (w'.buffers i).length = (w.buffers i).length ∧ (w'.buffers i).buffer = (w.buffers i).buffer)
    (accepted : w'.accepted = w.accepted) (passed : w'.passed = w.passed) : Ledger w' where
  intact i waiting := by
    rw [waits] at waiting
    obtain ⟨serial, length, buffer⟩ := same i waiting
    rw [serial, length, buffer, accepted]
    exact h.intact i waiting
  apart i j hi hj eq := by
    rw [waits] at hi hj
    rw [(same i hi).1, (same j hj).1] at eq
    exact h.apart i j hi hj eq
  fresh i waiting := by
    rw [waits] at waiting
    rw [(same i waiting).1, passed]
    exact h.fresh i waiting
  once := passed ▸ h.once
  right := by
    rw [passed, accepted]
    exact h.right
  kept n lt := by
    rw [accepted] at lt
    rw [passed]
    refine (h.kept n lt).imp_right fun ⟨i, waiting, serial⟩ => ⟨i, (waits i).mpr waiting, ?_⟩
    exact (same i waiting).1.trans serial

lemma serial_lt (h : Ledger w) (waiting : w.waits i) :
    (w.buffers i).serial < w.accepted.length := by
  obtain ⟨data, at_, -⟩ := h.intact i waiting
  exact (List.getElem?_eq_some_iff.mp at_).1

lemma passed_lt (h : Ledger w) {n : Nat} (mem : n ∈ w.passed.map Pass.serial) :
    n < w.accepted.length := by
  obtain ⟨c, called, rfl⟩ := mem_map.mp mem
  exact (List.getElem?_eq_some_iff.mp (h.right c called).1).1

end Ledger

lemma addPacket_cases (h : w.addPacket p = some w') :
    w' = w ∨ ∃ i, (w.buffers i).state = .empty ∧ w' = w.accept i p := by
  obtain ⟨-, h⟩ := kassert_bind_eq_some.mp h
  cases free : w.firstFree with
  | none =>
    rw [free] at h
    exact .inl (some.inj h).symm
  | some i =>
    rw [free] at h
    have empty := find?_some free
    exact .inr ⟨i, of_decide_eq_true empty, (some.inj h).symm⟩

/-! ## Accepting a packet -/

lemma accept_waits (j : Slot) : (w.accept i p).waits j ↔ w.waits j ∨ j = i := by
  by_cases same : j = i
  · subst same
    simp [waits, accept, setBuffer]
  · simp [waits, accept, setBuffer, same]

lemma accept_buffers_of_ne (other : j ≠ i) : (w.accept i p).buffers j = w.buffers j := by
  simp [accept, setBuffer, other]

@[simp] lemma accept_serial : ((w.accept i p).buffers i).serial = w.accepted.length := by
  simp [accept, setBuffer]

lemma accept_cases (waiting : (w.accept i p).waits j) :
    j = i ∨ j ≠ i ∧ w.waits j := by
  by_cases same : j = i
  · exact .inl same
  · exact .inr ⟨same, ((accept_waits j).mp waiting).resolve_right same⟩

lemma Ledger.accept (h : Ledger w) (fresh : ¬ w.waits i) : Ledger (w.accept i p) where
  intact j waiting := by
    change ∃ data, (w.accepted ++ [p.data])[_]? = some data ∧ _
    rcases accept_cases waiting with rfl | ⟨other, before⟩
    · exact ⟨p.data, by simp, by simp [Worker.accept,
        setBuffer], by simp [Worker.accept, setBuffer]⟩
    · rw [accept_buffers_of_ne other, getElem?_append_left (h.serial_lt before)]
      exact h.intact j before
  apart j k hj hk eq := by
    rcases accept_cases hj with rfl | ⟨other, before⟩
    · rcases accept_cases hk with rfl | ⟨other, before⟩
      · rfl
      · rw [accept_serial, accept_buffers_of_ne other] at eq
        exact absurd eq (h.serial_lt before).ne'
    · rw [accept_buffers_of_ne other] at eq
      rcases accept_cases hk with rfl | ⟨other', before'⟩
      · rw [accept_serial] at eq
        exact absurd eq (h.serial_lt before).ne
      · rw [accept_buffers_of_ne other'] at eq
        exact h.apart j k before before' eq
  fresh j waiting := by
    rcases accept_cases waiting with rfl | ⟨other, before⟩
    · rw [accept_serial]
      exact fun mem => absurd (h.passed_lt mem) (lt_irrefl _)
    · rw [accept_buffers_of_ne other]
      exact h.fresh j before
  once := h.once
  right c mem := by
    obtain ⟨at_, length⟩ := h.right c mem
    refine ⟨?_, length⟩
    exact (List.getElem?_append_left (List.getElem?_eq_some_iff.mp at_).1).trans at_
  kept n lt := by
    change n < (w.accepted ++ [p.data]).length at lt
    rw [length_append, length_singleton] at lt
    rcases Nat.lt_succ_iff_lt_or_eq.mp lt with old | rfl
    · refine (h.kept n old).imp_right fun ⟨j, waiting, serial⟩ => ⟨j, ?_, ?_⟩
      · exact (accept_waits j).mpr (.inl waiting)
      · have other : j ≠ i := by
          rintro rfl
          exact fresh waiting
        rw [accept_buffers_of_ne other]
        exact serial
    · exact .inr ⟨i, (accept_waits i).mpr (.inr rfl), accept_serial⟩

end Worker

/-! ## The task -/

/-- The buffer that the task has marked. -/
def Pc.holds : Pc → Option Slot
  | .call i | .inFunction i | .clear i _ | .release i => some i
  | .scan _ | .claim _ | .sleep => none

namespace Worker

/-- The marks follow the task. -/
structure Marked (w : Worker) : Prop where
  busy : ∀ i, (w.buffers i).state = .currentlyProcessing ↔ w.pc.holds = some i
  claimed : ∀ i, w.pc = .claim i → (w.buffers i).state = .needsProcessing

lemma Marked.not_waits (h : Marked w) (held : w.pc.holds = some i) (called : w.pc ≠ .call i) :
    ¬ w.waits i := by
  rintro (needs | call)
  · rw [(h.busy i).mpr held] at needs
    cases needs
  · exact called call

lemma Marked.not_waits_of_empty (h : Marked w) (empty : (w.buffers i).state = .empty) :
    ¬ w.waits i := by
  rintro (needs | call)
  · simp [empty] at needs
  · have busy := (h.busy i).mpr (by rw [call]; rfl)
    simp [empty] at busy

lemma Marked.accept (h : Marked w) (empty : (w.buffers i).state = .empty) :
    Marked (w.accept i p) := by
  refine ⟨fun j => ?_, fun j claim => ?_⟩
  · by_cases same : j = i
    · subst same
      have idle := (not_congr (h.busy j)).mp (by simp [empty])
      exact iff_of_false (by simp [Worker.accept, setBuffer]) idle
    · rw [accept_buffers_of_ne same]
      exact h.busy j
  · have needs := h.claimed j claim
    have other : j ≠ i := by
      rintro rfl
      simp [empty] at needs
    rwa [accept_buffers_of_ne other]

lemma store_buffers_of_ne {k : Nat} {byte : UInt8} (other : j ≠ i) :
    (w.store i k byte).buffers j = w.buffers j := by
  simp [store, setBuffer, other]

lemma store_state {k : Nat} {byte : UInt8} (j : Slot) :
    ((w.store i k byte).buffers j).state = (w.buffers j).state := by
  by_cases same : j = i
  · subst same
    simp [store, setBuffer]
  · rw [store_buffers_of_ne same]

lemma store_waits {k : Nat} {byte : UInt8} (j : Slot) :
    (w.store i k byte).waits j ↔ w.waits j := by
  rw [waits, store_state]
  rfl

/-- A step of the task changes the state of one buffer at most. -/
lemma task_state (w : Worker) (j : Slot) : (w.task.buffers j).state =
    if w.pc = .claim j then .currentlyProcessing
    else if w.pc = .release j then .empty
    else (w.buffers j).state := by
  cases pc : w.pc with
  | scan i =>
    simp only [task, pc]
    split_ifs <;> simp_all [jump]
  | claim i | release i =>
    by_cases same : i = j
    · subst same
      simp [task, pc, jump, rescan, setState, setBuffer]
    · simp [task, pc, jump, rescan, setState, setBuffer, same, Ne.symm same]
  | sleep | call | inFunction => simp [task, pc, jump, rescan]
  | clear i k =>
    simp only [task, pc, reduceCtorEq, if_false]
    split
    · exact store_state j
    · rfl

inductive Next (w : Worker) : Pc → Pc → Prop where
  | found (i : Slot) : (w.buffers i).state = .needsProcessing → Next w (.scan i) (.claim i)
  | next (i : Slot) (h : i + 1 < numBuffers) : (w.buffers i).state ≠ .needsProcessing →
      Next w (.scan i) (.scan ⟨i + 1, h⟩)
  | last (i : Slot) : ¬ i + 1 < numBuffers → (w.buffers i).state ≠ .needsProcessing →
      Next w (.scan i) .sleep
  | claim (i : Slot) : Next w (.claim i) (.call i)
  | wake (h : 0 < numBuffers) : Next w .sleep (.scan ⟨0, h⟩)
  | call (i : Slot) : Next w (.call i) (.inFunction i)
  | returns (i : Slot) : Next w (.inFunction i) (.clear i 0)
  | clear (i : Slot) (j : Nat) : j < bufferSize → Next w (.clear i j) (.clear i (j + 1))
  | cleared (i : Slot) (j : Nat) : ¬ j < bufferSize → Next w (.clear i j) (.release i)
  | release (i : Slot) (h : 0 < numBuffers) : Next w (.release i) (.scan ⟨0, h⟩)

lemma task_next (w : Worker) : Next w w.pc w.task.pc := by
  cases pc : w.pc with
  | scan i =>
    simp only [task, pc]
    split
    · case isTrue needs => exact .found i needs
    · case isFalse idle =>
      split
      · case isTrue next => exact .next i next idle
      · case isFalse last => exact .last i last idle
  | clear i j =>
    simp only [task, pc]
    split
    · case isTrue lt => exact .clear i j lt
    · case isFalse ge => exact .cleared i j ge
  | claim | sleep | call | inFunction | release =>
    simp only [task, pc]
    constructor

lemma Marked.task (h : Marked w) : Marked w.task := by
  have next := task_next w
  refine ⟨fun j => ?_, fun j claim => ?_⟩
  · have busy := h.busy j
    rw [task_state]
    generalize w.pc = pc at next busy
    generalize w.task.pc = pc' at next
    cases next <;> simp_all [Pc.holds]
    grind
  · have claimed := h.claimed j
    rw [task_state]
    generalize w.pc = pc at next claimed
    generalize w.task.pc = pc' at next claim
    cases next <;> simp_all

/-- Only the call of the function makes a packet not wait any more. -/
lemma task_waits (h : Marked w) (j : Slot) : w.task.waits j ↔ w.waits j ∧ w.pc ≠ .call j := by
  have next := task_next w
  have busy := h.busy j
  have claimed := h.claimed j
  rw [waits, waits, task_state]
  generalize w.pc = pc at next busy claimed
  generalize w.task.pc = pc' at next
  cases next <;> simp_all [Pc.holds] <;> grind

/-- The task does not change a buffer that waits, its mark apart. -/
lemma task_buffers (h : Marked w) (waiting : w.waits j) :
    (w.task.buffers j).serial = (w.buffers j).serial ∧
      (w.task.buffers j).length = (w.buffers j).length ∧
      (w.task.buffers j).buffer = (w.buffers j).buffer := by
  cases pc : w.pc with
  | scan i =>
    simp only [task, pc]
    split_ifs <;> exact ⟨rfl, rfl, rfl⟩
  | sleep | call | inFunction =>
    simp only [task, pc]
    exact ⟨rfl, rfl, rfl⟩
  | claim i | release i =>
    by_cases same : j = i
    · subst same
      simp [task, pc, jump, rescan, setState, setBuffer]
    · simp [task, pc, jump, rescan, setState, setBuffer, same]
  | clear i k =>
    have other : j ≠ i := by
      rintro rfl
      exact h.not_waits (by rw [pc]; rfl) (by rw [pc]; nofun) waiting
    simp only [task, pc]
    split
    · have same : ((w.store i k 0).jump (.clear i (k + 1))).buffers j = w.buffers j :=
        store_buffers_of_ne other
      rw [same]
      exact ⟨rfl, rfl, rfl⟩
    · exact ⟨rfl, rfl, rfl⟩

lemma task_accepted (w : Worker) : w.task.accepted = w.accepted := by
  unfold task
  split
  · split_ifs <;> rfl
  all_goals first | rfl | (split <;> rfl)

/-- The function is called for a packet that waits, at no other step. -/
lemma task_passed (w : Worker) :
    w.task.passed = w.passed ∧ (∀ i, w.pc ≠ .call i) ∨
      ∃ i, w.pc = .call i ∧ w.task.passed = w.passed ++ [w.pass i] := by
  cases pc : w.pc with
  | call i => exact .inr ⟨i, rfl, by simp only [task, pc]; rfl⟩
  | scan i =>
    refine .inl ⟨?_, nofun⟩
    simp only [task, pc]
    split_ifs <;> rfl
  | clear i j =>
    refine .inl ⟨?_, nofun⟩
    simp only [task, pc]
    split <;> rfl
  | claim | sleep | inFunction | release => exact .inl ⟨by simp only [task, pc]; rfl, nofun⟩

lemma task_mark (w : Worker) : w.task.mark = w.mark ∨
    w.task.mark = w.accepted.length ∧ ∃ h, w.task.pc = .scan ⟨0, h⟩ := by
  cases pc : w.pc with
  | scan i =>
    simp only [task, pc]
    split_ifs <;> exact .inl rfl
  | clear i j =>
    simp only [task, pc]
    split <;> exact .inl rfl
  | claim | call | inFunction => exact .inl (by simp only [task, pc]; rfl)
  | sleep | release =>
    simp only [task, pc]
    exact .inr ⟨rfl, by decide, rfl⟩

lemma Ledger.call (h : Ledger w) (marked : Marked w) (call : w.pc = .call i)
    (passed : w.task.passed = w.passed ++ [w.pass i]) : Ledger w.task := by
  have waiting : w.waits i := .inr call
  have before {j : Slot} (hj : w.task.waits j) : w.waits j ∧ j ≠ i := by
    obtain ⟨waits, other⟩ := (task_waits marked j).mp hj
    exact ⟨waits, fun same => other (same ▸ call)⟩
  have serial {j : Slot} (hj : w.waits j) := (task_buffers marked hj).1
  obtain ⟨data, at_, length, take⟩ := h.intact i waiting
  refine ⟨fun j hj => ?_, fun j k hj hk eq => ?_, fun j hj => ?_, ?_, fun c mem => ?_,
    fun n lt => ?_⟩
  · obtain ⟨serial, length, buffer⟩ := task_buffers marked (before hj).1
    rw [serial, length, buffer, task_accepted]
    exact h.intact j (before hj).1
  · rw [serial (before hj).1, serial (before hk).1] at eq
    exact h.apart j k (before hj).1 (before hk).1 eq
  · obtain ⟨waits, other⟩ := before hj
    rw [serial waits, passed, map_append, mem_append, not_or]
    refine ⟨h.fresh j waits, fun mem => ?_⟩
    exact other (h.apart j i waits waiting (mem_singleton.mp mem))
  · rw [passed, map_append]
    refine nodup_append'.mpr ⟨h.once, nodup_singleton _, ?_⟩
    exact disjoint_singleton.mpr (h.fresh i waiting)
  · rw [task_accepted]
    rw [passed] at mem
    rcases mem_append.mp mem with before | new
    · exact h.right c before
    · obtain rfl := mem_singleton.mp new
      simp only [pass, length, take]
      exact ⟨at_, trivial⟩
  · rw [task_accepted] at lt
    rw [passed, map_append, mem_append]
    rcases h.kept n lt with before | ⟨j, hj, eq⟩
    · exact .inl (.inl before)
    · by_cases same : j = i
      · subst same
        exact .inl (.inr (mem_singleton.mpr eq.symm))
      · refine .inr ⟨j, (task_waits marked j).mpr ⟨hj, ?_⟩, (serial hj).trans eq⟩
        rw [call]
        exact fun h => same (Pc.call.inj h).symm

lemma Ledger.task (h : Ledger w) (marked : Marked w) : Ledger w.task := by
  rcases task_passed w with ⟨passed, idle⟩ | ⟨i, call, passed⟩
  · have waits (j : Slot) : w.task.waits j ↔ w.waits j := by
      rw [task_waits marked]
      exact and_iff_left (idle j)
    exact h.congr waits (fun j => task_buffers marked) (task_accepted w) passed
  · exact h.call marked call passed

end Worker

/-! ## Runs -/

/-- The scan has passed the buffer. -/
def Pc.scanned (i : Slot) : Pc → Prop
  | .scan j => i < j
  | .sleep => True
  | _ => False

namespace Worker

structure Inv (w : Worker) : Prop where
  marked : Marked w
  ledger : Ledger w
  size : ∀ i, (w.buffers i).buffer.length = bufferSize
  /-- What waits behind the scan has come after the scan began. -/
  scanned : ∀ i, w.waits i → w.pc.scanned i → w.mark ≤ (w.buffers i).serial
  mark_le : w.mark ≤ w.accepted.length

namespace Inv

lemma created : Inv created := by
  have idle (i : Slot) : ¬ Nethandler.created.waits i := by simp [waits, Nethandler.created]
  refine ⟨⟨fun i => ?_, nofun⟩, ⟨fun i hi => absurd hi (idle i), fun i _ hi => absurd hi (idle i),
    fun i hi => absurd hi (idle i), nodup_nil, nofun, nofun⟩, fun i => length_replicate,
    fun i hi => absurd hi (idle i), le_rfl⟩
  simp [Nethandler.created, Pc.holds]

variable (inv : Inv w)
include inv

lemma accept (empty : (w.buffers i).state = .empty) : Inv (w.accept i p) := by
  refine ⟨inv.marked.accept empty, inv.ledger.accept (inv.marked.not_waits_of_empty empty),
    fun j => ?_, fun j waiting scanned => ?_, ?_⟩
  · by_cases same : j = i
    · subst same
      have size := inv.size j
      have fits := p.fits
      simp only [Worker.accept, setBuffer, update_self, length_append, length_drop]
      omega
    · rw [accept_buffers_of_ne same]
      exact inv.size j
  · rcases accept_cases waiting with rfl | ⟨other, before⟩
    · rw [accept_serial]
      exact inv.mark_le
    · rw [accept_buffers_of_ne other]
      exact inv.scanned j before scanned
  · exact inv.mark_le.trans (by simp [Worker.accept])

lemma size_task (j : Slot) : (w.task.buffers j).buffer.length = bufferSize := by
  cases pc : w.pc with
  | scan i =>
    simp only [Worker.task, pc]
    split_ifs <;> exact inv.size j
  | sleep | call | inFunction =>
    simp only [Worker.task, pc]
    exact inv.size j
  | claim i | release i =>
    by_cases same : j = i
    · subst same
      simpa [Worker.task, pc, jump, rescan, setState, setBuffer] using inv.size j
    · simpa [Worker.task, pc, jump, rescan, setState, setBuffer, same] using inv.size j
  | clear i k =>
    simp only [Worker.task, pc]
    split
    · by_cases same : j = i
      · subst same
        simpa [jump, store, setBuffer] using inv.size j
      · simpa [jump, store, setBuffer, same] using inv.size j
    · exact inv.size j

lemma mark_task : w.task.mark ≤ w.task.accepted.length := by
  rw [task_accepted]
  rcases task_mark w with same | ⟨now, -⟩
  · exact same.trans_le inv.mark_le
  · exact now.le

lemma scanned_task (waiting : w.task.waits j) (scanned : w.task.pc.scanned j) :
    w.task.mark ≤ (w.task.buffers j).serial := by
  obtain ⟨waits, -⟩ := (task_waits inv.marked j).mp waiting
  rw [(task_buffers inv.marked waits).1]
  rcases task_mark w with same | ⟨-, h, first⟩
  · rw [same]
    refine inv.scanned j waits ?_
    -- the scan gets past `j` only by a test, which `j` would not pass
    have next := task_next w
    have needs : (∀ i, w.pc ≠ .call i) → (w.buffers j).state = .needsProcessing := fun idle =>
      waits.resolve_right (idle j)
    generalize w.pc = pc at next needs
    generalize w.task.pc = pc' at next scanned
    cases next with
    | next i h idle =>
      refine lt_of_le_of_ne (Nat.lt_succ_iff.mp scanned) fun same => ?_
      exact idle (same ▸ needs nofun)
    | last i h idle =>
      have bound : j.val < i.val + 1 := j.isLt.trans_le (not_lt.mp h)
      refine lt_of_le_of_ne (Nat.lt_succ_iff.mp bound) fun same => ?_
      exact idle (same ▸ needs nofun)
    | wake | release => exact absurd scanned (Nat.not_lt_zero _)
    | _ => exact scanned.elim
  · rw [first] at scanned
    exact absurd scanned (Nat.not_lt_zero _)

lemma task : Inv w.task where
  marked := inv.marked.task
  ledger := inv.ledger.task inv.marked
  size := inv.size_task
  scanned _ := inv.scanned_task
  mark_le := inv.mark_task

lemma store {k : Nat} {byte : UInt8} (pc : w.pc = .inFunction i) :
    Inv (w.store i k byte) := by
  have idle := inv.marked.not_waits (by rw [pc]; rfl) (by rw [pc]; nofun)
  have kept {j : Slot} (waiting : w.waits j) : (w.store i k byte).buffers j = w.buffers j := by
    refine store_buffers_of_ne ?_
    rintro rfl
    exact idle waiting
  refine ⟨⟨fun j => ?_, fun j => ?_⟩, inv.ledger.congr store_waits (fun j hj => ?_) rfl rfl,
    fun j => ?_, fun j waiting => ?_, inv.mark_le⟩
  · rw [store_state]
    exact inv.marked.busy j
  · rw [store_state]
    exact inv.marked.claimed j
  · rw [kept hj]
    exact ⟨rfl, rfl, rfl⟩
  · by_cases same : j = i
    · subst same
      simpa [Worker.store, setBuffer] using inv.size j
    · rw [store_buffers_of_ne same]
      exact inv.size j
  · rw [store_waits] at waiting
    rw [kept waiting]
    exact inv.scanned j waiting

lemma step (stepped : w.step a = some w') : Inv w' := by
  cases a with
  | receive p =>
    rcases addPacket_cases stepped with rfl | ⟨i, empty, rfl⟩
    · exact inv
    · exact inv.accept empty
  | task => exact some.inj stepped ▸ inv.task
  | store k byte =>
    unfold Worker.step at stepped
    cases pc : w.pc with
    | inFunction i =>
      simp only [pc, some.injEq] at stepped
      exact stepped ▸ inv.store pc
    | _ => simp [pc] at stepped

end Inv

end Worker

/-! ## Progress -/

/-- A bound on the steps before the next call of the function, if a packet waits. The scan may find
one at `i` or later, or only in its next round. -/
def Pc.rank (ahead : Slot → Bool) : Pc → Nat
  | .scan i => if ahead i then numBuffers - i + 2 else 2 * numBuffers - i + 4
  | .claim _ => 2
  | .call _ => 1
  | .sleep => numBuffers + 3
  | .inFunction _ => bufferSize + numBuffers + 6
  | .clear _ j => bufferSize - j + numBuffers + 5
  | .release _ => numBuffers + 4

namespace Worker

def waiting (w : Worker) : Finset Slot := Finset.univ.filter w.waits

@[simp] lemma mem_waiting : i ∈ w.waiting ↔ w.waits i := by simp [waiting]

/-- A packet waits at `i` or later. -/
def ahead (w : Worker) (i : Slot) : Bool := ∃ j, i ≤ j ∧ w.waits j

/-- A bound on the steps before all packets have been passed. -/
def energy (w : Worker) : Nat :=
  w.waiting.card * (bufferSize + numBuffers + 7) + w.pc.rank w.ahead

lemma rank_first (waiting : w.waiting.Nonempty) (h : 0 < numBuffers) :
    (Pc.scan ⟨0, h⟩).rank w.ahead = numBuffers + 2 := by
  obtain ⟨k, hk⟩ := waiting
  have ahead : w.ahead ⟨0, h⟩ = true := decide_eq_true ⟨k, Nat.zero_le _, mem_waiting.mp hk⟩
  rw [Pc.rank, if_pos ahead]
  rfl

lemma Next.rank_lt {pc pc' : Pc} (next : Next w pc pc') (waiting : w.waiting.Nonempty)
    (idle : ∀ i, pc ≠ .call i) (needs : ∀ i, w.waits i → (w.buffers i).state = .needsProcessing) :
    pc'.rank w.ahead < pc.rank w.ahead := by
  cases next with
  | found i =>
    simp only [Pc.rank]
    split_ifs <;> omega
  | next i h skipped =>
    -- what is ahead of `i` is ahead of its successor
    have ahead : w.ahead ⟨i + 1, h⟩ = w.ahead i := by
      refine decide_eq_decide.mpr (exists_congr fun j => and_congr_left fun hj => ?_)
      refine ⟨fun le => Nat.le_of_succ_le le, fun le => lt_of_le_of_ne le fun same => ?_⟩
      exact skipped (same ▸ needs j hj)
    simp only [Pc.rank, ahead]
    split_ifs <;> omega
  | last i h skipped =>
    have behind : ¬ w.ahead i = true := by
      intro ahead
      obtain ⟨j, le, hj⟩ := of_decide_eq_true ahead
      have same : j = i := Fin.ext (by have := j.isLt; have := Fin.le_def.mp le; omega)
      exact skipped (same ▸ needs j hj)
    simp only [Pc.rank, if_neg behind]
    omega
  | claim => exact Nat.one_lt_two
  | wake h => exact (rank_first waiting h).trans_lt (Nat.lt_succ_self _)
  | call i => exact absurd rfl (idle i)
  | returns | clear | cleared =>
    simp only [Pc.rank]
    omega
  | release i h => exact (rank_first waiting h).trans_lt (Nat.lt_add_of_pos_right Nat.two_pos)

lemma energy_task (inv : Inv w) (waiting : w.waiting.Nonempty) : w.task.energy < w.energy := by
  by_cases call : ∃ i, w.pc = .call i
  · obtain ⟨i, call⟩ := call
    have fewer : w.task.waiting = w.waiting.erase i := by
      ext j
      simp [task_waits inv.marked, call, and_comm, eq_comm]
    have mem : i ∈ w.waiting := mem_waiting.mpr (.inr call)
    have some := Finset.card_pos.mpr ⟨i, mem⟩
    have place : w.task.pc = .inFunction i := by
      rw [task, call]
      rfl
    rw [energy, energy, place, call, fewer, Finset.card_erase_of_mem mem, Nat.sub_mul]
    simp only [Pc.rank]
    have := Nat.mul_le_mul_right (bufferSize + numBuffers + 7) some
    omega
  · have idle (i : Slot) : w.pc ≠ .call i := fun h => call ⟨i, h⟩
    have waits (j : Slot) : w.task.waits j ↔ w.waits j := by
      rw [task_waits inv.marked]
      exact and_iff_left (idle j)
    have same : w.task.waiting = w.waiting := by
      ext j
      simp [waits]
    have ahead : w.task.ahead = w.ahead := by
      funext j
      simp [Worker.ahead, waits]
    rw [energy, energy, same, ahead]
    exact Nat.add_lt_add_left
      ((task_next w).rank_lt waiting idle fun i hi => hi.resolve_right (idle i)) _

end Worker

def Action.isReceive : Action → Bool
  | .receive _ => true
  | _ => false

def Action.isTask : Action → Bool
  | .task => true
  | _ => false

namespace Worker

lemma step_store {k : Nat} {byte : UInt8} (stepped : w.step (.store k byte) = some w') :
    ∃ i, w' = w.store i k byte := by
  unfold step at stepped
  cases pc : w.pc with
  | inFunction i =>
    simp only [pc, some.injEq] at stepped
    exact ⟨i, stepped.symm⟩
  | _ => simp [pc] at stepped

lemma energy_store {k : Nat} {byte : UInt8} : (w.store i k byte).energy = w.energy := by
  have same : (w.store i k byte).waiting = w.waiting := by
    ext j
    simp [store_waits]
  have ahead : (w.store i k byte).ahead = w.ahead := by
    funext j
    simp [Worker.ahead, store_waits]
  rw [energy, energy, same, ahead]
  rfl

/-- Without interrupts, the task uses up the energy as long as a packet waits. -/
lemma drains {acts : List Action} (inv : Inv w) (run : WorkerRun w acts w')
    (quiet : ∀ a ∈ acts, a.isReceive = false) : w'.accepted = w.accepted ∧
      (w'.waiting = ∅ ∨ w'.energy + acts.countP Action.isTask ≤ w.energy) := by
  induction run with
  | nil => exact ⟨rfl, .inr (by rw [countP_nil, Nat.add_zero])⟩
  | @snoc u v acts a run stepped ih =>
    obtain ⟨accepted, drained⟩ := ih fun b mem => quiet b (mem_append_left _ mem)
    have inv' : Inv u := run.invariant inv fun _ _ _ inv stepped => inv.step stepped
    cases a with
    | receive p => cases quiet (.receive p) (by simp)
    | task =>
      cases stepped
      refine ⟨(task_accepted u).trans accepted, ?_⟩
      by_cases none : u.waiting = ∅
      · refine .inl (Finset.eq_empty_of_forall_notMem fun j mem => ?_)
        have before := ((task_waits inv'.marked j).mp (mem_waiting.mp mem)).1
        rw [← mem_waiting, none] at before
        exact Finset.notMem_empty j before
      · have less := energy_task inv' (Finset.nonempty_iff_ne_empty.mpr none)
        have le := drained.resolve_left none
        have one : List.countP Action.isTask [.task] = 1 := rfl
        rw [countP_append, one]
        exact .inr (by omega)
    | store k byte =>
      obtain ⟨i, rfl⟩ := step_store stepped
      have same : (u.store i k byte).waiting = u.waiting := by
        ext j
        simp [store_waits]
      rw [same, energy_store, countP_append]
      exact ⟨accepted, drained⟩

/-- Packet `n` has been passed to the function once, as it was received. -/
def Passed (w : Worker) (n : Nat) (data : Bytes) : Prop :=
  (w.passed.map Pass.serial).count n = 1 ∧
    (∀ c ∈ w.passed, c.serial = n → c.data = data ∧ c.length = data.length) ∧
    ∀ i, w.waits i → (w.buffers i).serial ≠ n

/-- Packet `n` waits in one buffer, as it was received. -/
def Waits (w : Worker) (n : Nat) (data : Bytes) : Prop :=
  (w.passed.map Pass.serial).count n = 0 ∧
    ∃ i, w.waits i ∧ (w.buffers i).serial = n ∧ (w.buffers i).length = data.length ∧
      (w.buffers i).buffer.take data.length = data ∧
      ∀ j, w.waits j → (w.buffers j).serial = n → j = i

namespace Ledger

lemma passed (h : Ledger w) {n : Nat} {data : Bytes} (accepted : w.accepted[n]? = some data)
    (mem : n ∈ w.passed.map Pass.serial) : w.Passed n data := by
  refine ⟨count_eq_one_of_mem h.once mem, fun c called serial => ?_, fun i waiting eq => ?_⟩
  · obtain ⟨at_, length⟩ := h.right c called
    rw [serial, accepted] at at_
    cases at_
    exact ⟨rfl, length⟩
  · exact h.fresh i waiting (eq ▸ mem)

lemma waits (h : Ledger w) {n : Nat} {data : Bytes} (accepted : w.accepted[n]? = some data)
    (waiting : w.waits i) (serial : (w.buffers i).serial = n) : w.Waits n data := by
  subst serial
  obtain ⟨data', at_, length, take⟩ := h.intact i waiting
  obtain rfl := some.inj (at_.symm.trans accepted)
  exact ⟨count_eq_zero.mpr (h.fresh i waiting), i, waiting, rfl, length, take,
    fun j hj eq => h.apart j i hj waiting eq⟩

end Ledger

/-- For every interleaving: a packet that was accepted has been passed to the function exactly once,
with its bytes and its length, or it waits in its buffer, unchanged. An interrupt changes no buffer
between filling and the end of processing. When the task finds nothing to do, the packets that had
come before its scan have been passed, and if no more come, all are. -/
theorem every_packet_once {acts : List Action} (run : WorkerRun created acts w) :
    (∀ n data, w.accepted[n]? = some data → w.Passed n data ∨ w.Waits n data) ∧
    (∀ c ∈ w.passed, c.serial < w.accepted.length) ∧
    (∀ i, w.waits i ∨ w.pc.holds = some i → (w.buffers i).state ≠ .empty) ∧
    (∀ p w', w.step (.receive p) = some w' →
      ∀ i, (w.buffers i).state ≠ .empty → w'.buffers i = w.buffers i) ∧
    (w.pc = .sleep → ∀ n data, w.accepted[n]? = some data → n < w.mark → w.Passed n data) ∧
    ∃ steps, ∀ acts' w', WorkerRun w acts' w' → (∀ a ∈ acts', a.isReceive = false) →
      steps ≤ acts'.countP Action.isTask →
      ∀ n data, w.accepted[n]? = some data → w'.Passed n data := by
  have inv : Inv w := run.invariant Inv.created fun _ _ _ inv stepped => inv.step stepped
  refine ⟨fun n data accepted => ?_, fun c mem => ?_, fun i held => ?_,
    fun p w' stepped i busy => ?_, fun asleep n data accepted old => ?_, w.energy + 1,
      fun acts' w' run' quiet many n data accepted => ?_⟩
  · rcases inv.ledger.kept n (List.getElem?_eq_some_iff.mp accepted).1 with
      mem | ⟨i, waiting, serial⟩
    · exact .inl (inv.ledger.passed accepted mem)
    · exact .inr (inv.ledger.waits accepted waiting serial)
  · exact inv.ledger.passed_lt (mem_map.mpr ⟨c, mem, rfl⟩)
  · intro empty
    rcases held with waiting | held
    · exact inv.marked.not_waits_of_empty empty waiting
    · rw [(inv.marked.busy i).mpr held] at empty
      cases empty
  · rcases addPacket_cases stepped with rfl | ⟨j, empty, rfl⟩
    · rfl
    · refine accept_buffers_of_ne ?_
      rintro rfl
      exact busy empty
  · rcases inv.ledger.kept n (List.getElem?_eq_some_iff.mp accepted).1 with
      mem | ⟨i, waiting, serial⟩
    · exact inv.ledger.passed accepted mem
    · have new := inv.scanned i waiting (by rw [asleep]; trivial)
      rw [serial] at new
      exact absurd old new.not_gt
  · have inv' : Inv w' := run'.invariant inv fun _ _ _ inv stepped => inv.step stepped
    obtain ⟨same, drained⟩ := drains inv run' quiet
    have none : w'.waiting = ∅ := drained.resolve_right (by omega)
    rw [← same] at accepted
    rcases inv'.ledger.kept n (List.getElem?_eq_some_iff.mp accepted).1 with mem | ⟨i, waiting, -⟩
    · exact inv'.ledger.passed accepted mem
    · rw [← mem_waiting, none] at waiting
      exact absurd waiting (Finset.notMem_empty i)

/-- The second packet comes while the task is about to mark the buffer of the first. -/
def twoPackets : List Action :=
  [.receive ⟨[1, 2, 3], by decide⟩, .task, .receive ⟨[4], by decide⟩, .task, .task]

theorem every_packet_once_twoPackets : ∃ w, WorkerRun created twoPackets w ∧
    w.passed = [⟨0, [1, 2, 3], 3⟩] ∧ w.Passed 0 [1, 2, 3] ∧ w.Waits 1 [4] := by
  obtain ⟨w, run, passed, accepted⟩ : ∃ w, WorkerRun created twoPackets w ∧
      w.passed = [⟨0, [1, 2, 3], 3⟩] ∧ w.accepted = [[1, 2, 3], [4]] :=
    Run.exists_of_exec (by decide +kernel)
  obtain ⟨once, -⟩ := every_packet_once run
  refine ⟨w, run, passed, (once 0 _ (by rw [accepted]; rfl)).resolve_right fun waits => ?_,
    (once 1 _ (by rw [accepted]; rfl)).resolve_left fun called => ?_⟩
  · have := waits.1
    simp [passed] at this
  · have := called.1
    simp [passed] at this

end Worker

end ExscapeOS.Nethandler
