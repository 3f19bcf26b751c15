import ExscapeOS.Kernel.Net.Basic
import ExscapeOS.Lib.Transition

/-!
# The ARP cache over time

Additions and lookups at tick counts that do not decrease. The entry for an address is its last
addition. Its age is computed in milliseconds with 32 bits, so after 49 days an entry that nobody
has looked up becomes fresh again for five minutes.
-/
namespace ExscapeOS.Net

open Lib

structure Addition where
  ip : Bytes
  mac : Bytes
  ticks : Nat
  deriving DecidableEq

/-- The cache, the tick count of the last operation, and the additions, last one first. -/
structure ArpState where
  cache : ArpCache
  now : Nat
  added : List Addition

def arpInit : ArpState := { cache := [], now := 0, added := [] }

inductive ArpOp where
  | add (ip mac : Bytes) (length : mac.length = 6)
  | lookup (ip : Bytes)

/-- An operation at a tick count. -/
def arpStep (s : ArpState) (op : ArpOp × Nat) : ArpState :=
  match op with
  | (.add ip mac length, ticks) =>
    { cache := arpCacheAdd ip mac length ticks s.cache, now := ticks, added := ⟨ip, mac,
      ticks⟩ :: s.added }
  | (.lookup ip, ticks) => { s with cache := (arpCacheLookup ip ticks s.cache).2, now := ticks }

/-- The tick count does not decrease and does not wrap. -/
def InTime (s : ArpState) (ticks : Nat) : Prop := s.now ≤ ticks ∧ ticks < wordSize

abbrev ArpRun (ops : List (ArpOp × Nat)) (s : ArpState) : Prop :=
  Run (Guarded (fun s op => InTime s op.2) fun s op t => arpStep s op = t) arpInit ops s

def ArpState.last (s : ArpState) (ip : Bytes) : Option Addition := s.added.find? (·.ip = ip)

/-- The cache has one entry for each address; a lookup that succeeds gives its last addition, which
is less than five minutes old. -/
structure Reliable (s : ArpState) (ip : Bytes) (ticks : Nat) : Prop where
  unique : (s.cache.map ArpEntry.ip).Nodup
  right : ∀ mac, (arpCacheLookup ip ticks s.cache).1 = some mac → ∃ a, s.last ip =
    some a ∧ a.mac = mac ∧ (ticks - a.ticks) * 10 < arpCacheTime

/-! ## One operation -/

section Cache

variable {ip mac : Bytes} {length : mac.length = 6} {ticks : Nat} {cache : ArpCache} {e : ArpEntry}

lemma mem_arpCacheAdd (mem : e ∈ arpCacheAdd ip mac length ticks cache) :
    e = ⟨ip, mac, length, ticks⟩ ∨ e ∈ cache := by
  induction cache <;> grind [arpCacheAdd]

lemma nodup_arpCacheAdd (nodup : (cache.map ArpEntry.ip).Nodup) :
    ((arpCacheAdd ip mac length ticks cache).map ArpEntry.ip).Nodup := by
  induction cache with
  | nil => simp [arpCacheAdd]
  | cons entry cache ih =>
    simp only [List.map_cons, List.nodup_cons, List.mem_map] at nodup
    unfold arpCacheAdd
    split_ifs with same
    · simpa using nodup
    · simp only [List.map_cons, List.nodup_cons, List.mem_map]
      refine ⟨fun ⟨e, mem, eq⟩ => ?_, ih nodup.2⟩
      obtain rfl | old := mem_arpCacheAdd mem
      · exact same eq.symm
      · exact nodup.1 ⟨e, old, eq⟩

lemma eq_of_mem_arpCacheAdd (nodup : (cache.map ArpEntry.ip).Nodup)
    (mem : e ∈ arpCacheAdd ip mac length ticks cache) (same : e.ip = ip) :
    e = ⟨ip, mac, length, ticks⟩ := by
  induction cache <;> grind [arpCacheAdd]

lemma arpCacheLookup_sublist : (arpCacheLookup ip ticks cache).2.Sublist cache := by
  induction cache with
  | nil => exact .slnil
  | cons entry cache ih =>
    unfold arpCacheLookup
    split_ifs
    · exact List.sublist_cons_self ..
    · exact .refl _
    · exact ih.cons_cons _

lemma arpCacheLookup_eq_some (nodup : (cache.map ArpEntry.ip).Nodup) :
    (arpCacheLookup ip ticks cache).1 = some mac ↔ ∃ e ∈ cache, e.ip = ip ∧ e.mac = mac ∧
      sub32 ticks e.timestamp * 10 % wordSize < arpCacheTime := by
  induction cache with
  | nil => simp [arpCacheLookup]
  | cons entry cache ih =>
    unfold arpCacheLookup
    split_ifs <;> grind

end Cache

/-! ## All operations -/

/-- The entries are the last additions for their addresses. -/
structure Current (s : ArpState) : Prop where
  unique : (s.cache.map ArpEntry.ip).Nodup
  last : ∀ e ∈ s.cache, s.last e.ip = some ⟨e.ip, e.mac, e.timestamp⟩
  past : ∀ e ∈ s.cache, e.timestamp ≤ s.now

lemma Current.step {s : ArpState} (h : Current s) {op : ArpOp × Nat} (inTime : InTime s op.2) :
    Current (arpStep s op) := by
  obtain ⟨unique, last, past⟩ := h
  have later := inTime.1
  match op with
  | (.add ip mac length, ticks) =>
    refine ⟨nodup_arpCacheAdd unique, fun e mem => ?_, fun e mem => ?_⟩
    · by_cases same : e.ip = ip
      · rw [eq_of_mem_arpCacheAdd unique mem same]
        simp [ArpState.last, arpStep]
      · have old := (mem_arpCacheAdd mem).resolve_left fun eq => same (by rw [eq])
        simpa [ArpState.last, arpStep, Ne.symm same] using last e old
    · obtain rfl | old := mem_arpCacheAdd mem
      · exact le_rfl
      · exact (past e old).trans later
  | (.lookup ip, ticks) =>
    have sub : (arpCacheLookup ip ticks s.cache).2.Sublist s.cache := arpCacheLookup_sublist
    exact ⟨(sub.map _).nodup unique, fun e mem => last e (sub.subset mem),
      fun e mem => (past e (sub.subset mem)).trans later⟩

lemma ArpRun.current {ops : List (ArpOp × Nat)} {s : ArpState} (run : ArpRun ops s) : Current s :=
  run.invariant ⟨List.nodup_nil, nofun, nofun⟩ fun _ _ _ h step => step.2 ▸ h.step step.1

/-- After any operations, the cache is reliable for a lookup unless the age of the entry in
milliseconds does not fit in 32 bits and what is left of it is less than five minutes. -/
theorem reliable_iff {ops : List (ArpOp × Nat)} {s : ArpState} (run : ArpRun ops s) (ip : Bytes)
    {ticks : Nat} (inTime : InTime s ticks) : Reliable s ip ticks ↔ ∀ e ∈ s.cache, e.ip = ip →
      (ticks - e.timestamp) * 10 < wordSize ∨ arpCacheTime ≤
        (ticks - e.timestamp) * 10 % wordSize := by
  obtain ⟨unique, last, past⟩ := run.current
  obtain ⟨later, word⟩ := inTime
  have age {e : ArpEntry} (mem : e ∈ s.cache) : sub32 ticks e.timestamp = ticks - e.timestamp :=
    sub32_eq word ((past e mem).trans later)
  constructor
  · rintro ⟨-, right⟩ e mem rfl
    by_contra! old
    obtain ⟨a, eq, -, fresh⟩ := right e.mac
      ((arpCacheLookup_eq_some unique).mpr ⟨e, mem, rfl, rfl, by rw [age mem]; exact old.2⟩)
    obtain rfl := Option.some.inj ((last e mem).symm.trans eq)
    simp only [arpCacheTime, wordSize] at *
    omega
  · intro old
    refine ⟨unique, fun mac found => ?_⟩
    obtain ⟨e, mem, rfl, rfl, fresh⟩ := (arpCacheLookup_eq_some unique).mp found
    refine ⟨_, last e mem, rfl, ?_⟩
    rw [age mem] at fresh
    obtain small | large := old e mem rfl
    · rwa [Nat.mod_eq_of_lt small] at fresh
    · exact absurd fresh (not_lt.mpr large)

/-- The gateway has been added when the machine was started. -/
def gatewayAdded : ArpState := arpStep arpInit (.add gateway [2, 0, 0, 0, 0, 2] rfl, 0)

theorem reliable_iff_gateway : Reliable gatewayAdded gateway 30000 := by
  have run : ArpRun _ gatewayAdded := .single ⟨⟨le_rfl, by decide⟩, rfl⟩
  refine (reliable_iff run gateway ⟨by decide, by decide⟩).mpr fun e mem _ => .inl ?_
  rw [List.mem_singleton.mp mem]
  decide

/-- After 49 days, 17 hours and some minutes the lookup succeeds. -/
theorem stale_lookup : (arpCacheLookup gateway 429496730 gatewayAdded.cache).1 =
      some [2, 0, 0, 0, 0, 2] ∧ gatewayAdded.last gateway = some ⟨gateway, [2, 0, 0, 0, 0, 2], 0⟩ ∧
    ¬ Reliable gatewayAdded gateway 429496730 := by
  refine ⟨by decide, by decide, fun h => ?_⟩
  obtain ⟨a, eq, -, fresh⟩ := h.right [2, 0, 0, 0, 0, 2] (by decide)
  obtain rfl := Option.some.inj (eq.symm.trans
    (show gatewayAdded.last gateway = some ⟨gateway, [2, 0, 0, 0, 0, 2], 0⟩ by decide))
  revert fresh
  decide

end ExscapeOS.Net
