import ExscapeOS.Kernel.Vmm.Areas

/-!
# Cloning an address space

`clone_user_page_directory` shares the page tables of kernel space with the parent and copies those
of user space, with a new frame for every page. `Copying` says what has been copied when the tables
with the numbers in `done` have been visited.
-/
namespace ExscapeOS.Vmm

open Lib Function Vm List Option

variable {vm vm₀ vm' vm'' : Vm} {d i j n p src dst parent child : Nat} {e e' : Pte}
  {js is : List Nat}

/-! ## Addresses of tables -/

lemma isUserSpace_table : isUserSpace (i * 1024 * pageSize) ↔ 64 ≤ i ∧ i < 768 := by
  unfold isUserSpace pageSize
  omega

lemma isUserSpace_page : isUserSpace (p * pageSize) ↔ 64 ≤ p / 1024 ∧ p / 1024 < 768 := by
  unfold isUserSpace pageSize
  omega

lemma entry_of_table {t : Nat} (table : vm.dir d (p / 1024) = some t) :
    vm.entry d p = vm.table t (p % 1024) := by
  unfold Vm.entry pte tableIndex pageIndex
  rw [Nat.mul_div_cancel _ (by decide), table]

lemma entry_of_none (missing : vm.dir d (p / 1024) = none) : vm.entry d p = .zero := by
  unfold Vm.entry pte tableIndex
  rw [Nat.mul_div_cancel _ (by decide), missing]

/-! ## What is used up -/

/-- No frame is freed, and the frames in use keep their contents. -/
structure Grows (vm vm' : Vm) : Prop where
  pmm : vm.pmm.Extends vm'.pmm
  mem : ∀ f, vm.pmm.used f = true → vm'.mem f = vm.mem f

lemma Grows.refl (vm : Vm) : Grows vm vm := ⟨.refl _, fun _ _ => rfl⟩

lemma Grows.trans (h : Grows vm vm') (h' : Grows vm' vm'') : Grows vm vm'' where
  pmm := h.pmm.trans h'.pmm
  mem f used := (h'.mem f (h.pmm.used f used)).trans (h.mem f used)

/-- A step with `calls` calls of `kmalloc` that takes `frames` frames besides. -/
structure Spends (calls frames : Nat) (vm vm' : Vm) : Prop where
  growth : vm'.growth = vm.growth.drop calls
  avail : vm'.pmm.avail.card + ((vm.growth.take calls).sum + frames) = vm.pmm.avail.card

lemma Spends.refl (vm : Vm) : Spends 0 0 vm vm := ⟨rfl, rfl⟩

lemma Spends.trans {k k' m m' : Nat} (h : Spends k m vm vm') (h' : Spends k' m' vm' vm'') :
    Spends (k + k') (m + m') vm vm'' where
  growth := by rw [h'.growth, h.growth, drop_drop]
  avail := by
    have first := h.avail
    have last := h'.avail
    rw [h.growth] at last
    rw [take_add, sum_append]
    omega

/-- The computation stops exactly when there are not enough frames for `calls` calls of `kmalloc`
and `frames` frames, and has a result with `post` otherwise. -/
def Costs {α : Type} (vm : Vm) (calls frames : Nat) (state : α → Vm) (post : α → Prop)
    (r : Option α) :
    Prop :=
  (∃ a, r = some a ∧ Spends calls frames vm (state a) ∧ post a) ∨
    r = none ∧ vm.pmm.avail.card < (vm.growth.take calls).sum + frames

namespace Costs

variable {α β : Type} {k l m q : Nat} {state : α → Vm} {post : α → Prop} {r : Option α}

lemma pure (a : α) (here : state a = vm) (holds : post a) : Costs vm 0 0 state post (some a) :=
  .inl ⟨a, rfl, here ▸ .refl vm, holds⟩

variable (h : Costs vm k m state post r)
include h

lemma imp {post' : α → Prop} (weaker : ∀ a, post a → post' a) : Costs vm k m state post' r := by
  rcases h with ⟨a, eq, spent, holds⟩ | short
  · exact .inl ⟨a, eq, spent, weaker a holds⟩
  · exact .inr short

lemma same (vm' : Vm) (growth : vm'.growth = vm.growth) (pmm : vm'.pmm = vm.pmm) :
    Costs vm' k m state post r := by
  unfold Costs at *
  rw [growth, pmm]
  rcases h with ⟨a, eq, spent, holds⟩ | short
  · exact .inl ⟨a, eq, ⟨growth ▸ spent.growth, by rw [growth, pmm, spent.avail]⟩, holds⟩
  · exact .inr short

lemma bind {state' : β → Vm} {post' : β → Prop} {f : α → Option β} {calls frames : Nat}
    (next : ∀ a, post a → Costs (state a) l q state' post' (f a)) (total : calls = k + l)
    (total' : frames = m + q) : Costs vm calls frames state' post' (r.bind f) := by
  subst total total'
  rcases h with ⟨a, rfl, spent, holds⟩ | ⟨rfl, short⟩
  · rcases next a holds with ⟨b, eq, spent', holds'⟩ | ⟨eq, short⟩
    · exact .inl ⟨b, eq, spent.trans spent', holds'⟩
    · refine .inr ⟨eq, ?_⟩
      have left := spent.avail
      rw [spent.growth] at short
      rw [take_add, sum_append]
      omega
  · refine .inr ⟨rfl, ?_⟩
    rw [take_add, sum_append]
    omega

lemma of_enough (enough : (vm.growth.take k).sum + m ≤ vm.pmm.avail.card) :
    ∃ a, r = some a ∧ Spends k m vm (state a) ∧ post a :=
  h.resolve_right fun short => absurd short.2 (not_lt.mpr enough)

lemma of_some {a : α} (eq : r = some a) : Spends k m vm (state a) ∧ post a := by
  rcases h with ⟨b, eq', spent, holds⟩ | ⟨eq', -⟩
  · obtain rfl := some.inj (eq.symm.trans eq')
    exact ⟨spent, holds⟩
  · rw [eq] at eq'
    cases eq'

end Costs

lemma Takes.grows (h : Takes n vm vm') : Grows vm vm' := ⟨h.pmm, h.mem⟩

lemma Takes.spends (h : Takes n vm vm') : Spends 0 n vm vm' where
  growth := by
    rw [h.eq]
    rfl
  avail := by simpa using h.avail

lemma NewBlock.grows (h : NewBlock vm i vm') : Grows vm vm' := ⟨h.pmm, h.mem⟩

lemma NewBlock.spends (h : NewBlock vm i vm') : Spends 1 0 vm vm' where
  growth := by
    rw [h.eq]
    exact drop_one.symm
  avail := by
    rw [← h.avail]
    cases vm.growth <;> simp

lemma heapExpand_isSome (room : n ≤ vm.pmm.avail.card) : ∃ vm', heapExpand n vm = some vm' := by
  induction n generalizing vm with
  | zero => exact ⟨vm, rfl⟩
  | succ n ih =>
    obtain ⟨f, vm₁, alloc⟩ := pmmAlloc_isSome (Nat.zero_lt_of_lt room)
    have left := (pmmAlloc_takes alloc).1.avail
    have room' : n ≤ vm₁.pmm.avail.card := by omega
    obtain ⟨vm', more⟩ := ih room'
    exact ⟨vm', by simp [heapExpand, alloc, more]⟩

lemma kmalloc_isSome (room : (vm.growth.take 1).sum ≤ vm.pmm.avail.card) :
    ∃ vm', vm.kmalloc = some (vm.next, vm') := by
  have enough : vm.growth.headD 0 ≤ ({ vm with growth := vm.growth.tail } : Vm).pmm.avail.card := by
    cases h : vm.growth <;> simp_all
  obtain ⟨vm₁, grown⟩ := heapExpand_isSome enough
  obtain ⟨⟨t, vm'⟩, alloc⟩ : ∃ new, vm.kmalloc = some new := ⟨_, by rw [kmalloc, grown]; rfl⟩
  exact ⟨vm', (kmalloc_newBlock alloc).block ▸ alloc⟩

lemma kmalloc_costs (vm : Vm) : Costs vm 1 0 Prod.snd (fun r => NewBlock vm r.1 r.2)
    vm.kmalloc := by
  cases alloc : vm.kmalloc with
  | none =>
    refine .inr ⟨rfl, lt_of_not_ge fun room => ?_⟩
    obtain ⟨vm', eq⟩ := kmalloc_isSome room
    rw [alloc] at eq
    cases eq
  | some r =>
    have new := kmalloc_newBlock alloc
    exact .inl ⟨r, rfl, new.spends, new⟩

lemma pmmAlloc_costs (vm : Vm) :
    Costs vm 0 1 Prod.snd (fun r => vm.pmmAlloc = some r) vm.pmmAlloc := by
  cases alloc : vm.pmmAlloc with
  | none =>
    refine .inr ⟨rfl, lt_of_not_ge fun room => ?_⟩
    obtain ⟨f, vm', eq⟩ := pmmAlloc_isSome (Nat.lt_of_lt_of_le (by simp) room)
    rw [alloc] at eq
    cases eq
  | some r => exact .inl ⟨r, rfl, (pmmAlloc_takes alloc).1.spends, rfl⟩

/-! ## One table -/

/-- The entry `e'` is a copy of `e` with a frame that was free before. -/
structure Copied (vm vm' : Vm) (e e' : Pte) : Prop where
  flags : e' = { e with frame := e'.frame }
  free : e'.frame ∈ vm.pmm.avail
  used : vm'.pmm.used e'.frame = true
  mem : vm'.mem e'.frame = vm.mem e.frame

lemma Copied.later (h : Copied vm vm' e e') (grows : Grows vm' vm'') : Copied vm vm'' e e' where
  flags := h.flags
  free := h.free
  used := grows.pmm.used _ h.used
  mem := (grows.mem _ h.used).trans h.mem

lemma Copied.earlier (h : Copied vm' vm'' e e') (grows : Grows vm vm')
    (used : vm.pmm.used e.frame = true) : Copied vm vm'' e e' where
  flags := h.flags
  free := grows.pmm.avail_subset h.free
  used := h.used
  mem := h.mem.trans (grows.mem _ used)

/-- What the inner loop does to the table `dst`. -/
structure PagesCopied (src dst : Nat) (js : List Nat) (vm vm' : Vm) : Prop where
  eq : vm' = { vm with pmm := vm'.pmm, mem := vm'.mem, table := vm'.table }
  table : ∀ t ≠ dst, vm'.table t = vm.table t
  grows : Grows vm vm'
  other : ∀ j, (j ∈ js → (vm.table src j).frame = 0) → vm'.table dst j = vm.table dst j
  copied : ∀ j ∈ js, (vm.table src j).frame ≠ 0 → Copied vm vm' (vm.table src j) (vm'.table dst j)
  inj : ∀ j ∈ js, ∀ k ∈ js, (vm.table src j).frame ≠ 0 → (vm.table src k).frame ≠ 0 →
    (vm'.table dst j).frame = (vm'.table dst k).frame → j = k
  spends : Spends 0 (js.countP fun j => (vm.table src j).frame ≠ 0) vm vm'

/-- Give page `j` of the table `dst` the new frame `f`. -/
def putCopy (src dst j f : Nat) (vm : Vm) : Vm :=
  { vm with
    mem := update vm.mem f (vm.mem (vm.table src j).frame)
    table := update vm.table dst (update (vm.table dst) j { vm.table src j with frame := f }) }

lemma PagesCopied.skip (empty : (vm.table src j).frame = 0) : PagesCopied src dst [j] vm vm where
  eq := rfl
  table _ _ := rfl
  grows := .refl vm
  other _ _ := rfl
  copied := by simp [empty]
  inj := by simp
  spends := by simpa [empty] using Spends.refl vm

lemma PagesCopied.put {f : Nat} {vm₁ : Vm} (used : vm.pmm.used (vm.table src j).frame = true)
    (nonzero : (vm.table src j).frame ≠ 0) (alloc : vm.pmmAlloc = some (f, vm₁)) :
    PagesCopied src dst [j] vm (putCopy src dst j f vm₁) := by
  obtain ⟨takes, avail, taken⟩ := pmmAlloc_takes alloc
  have free := (Pmm.mem_avail.mp avail).2
  have table : vm₁.table = vm.table := by rw [takes.eq]
  have ne (g : Nat) (h : vm.pmm.used g = true) : g ≠ f := by
    rintro rfl
    rw [free] at h
    cases h
  have entry : (putCopy src dst j f vm₁).table dst j = { vm.table src j with frame := f } := by
    simp [putCopy, table]
  refine ⟨?_, ?_, ⟨takes.pmm, ?_⟩, ?_, ?_, by simp, ?_⟩
  · have eq := takes.eq
    generalize vm₁.pmm = pmm, vm₁.mem = contents at *
    subst eq
    rfl
  · intro t other
    simp [putCopy, other, table]
  · intro g h
    rw [← takes.mem g h]
    exact update_of_ne (ne g h) ..
  · intro k away
    have other : k ≠ j := by
      rintro rfl
      exact nonzero (away mem_cons_self)
    simp [putCopy, other, table]
  · intro k mem _
    obtain rfl := mem_singleton.mp mem
    rw [entry]
    refine ⟨rfl, avail, taken, ?_⟩
    rw [← takes.mem _ used, ← table]
    exact update_self ..
  · have spent := takes.spends
    rw [countP_singleton, if_pos (by simpa using nonzero)]
    exact ⟨spent.growth, spent.avail⟩

/-- One round of the inner loop. -/
def copyPage (src dst j n : Nat) (vm : Vm) : Option (Nat × Vm) :=
  if (vm.table src j).frame = 0 then some (n, vm)
  else vm.pmmAlloc.bind fun (f, vm) => some (n + 1, putCopy src dst j f vm)

lemma copyPages_cons (src dst j : Nat) (js : List Nat) (n : Nat) (vm : Vm) :
    copyPages src dst (j :: js) n vm =
      (copyPage src dst j n vm).bind fun r => copyPages src dst js r.1 r.2 := by
  rw [copyPages, copyPage]
  split_ifs with skip
  · rfl
  · cases alloc : vm.pmmAlloc with
    | none => rfl
    | some new =>
      obtain ⟨f, vm₁⟩ := new
      have same : vm₁.table = vm.table := by rw [(pmmAlloc_takes alloc).1.eq]
      simp only [bind, bind_some, putCopy, same]

lemma copyPage_costs
    (frame : (vm.table src j).frame ≠ 0 → vm.pmm.used (vm.table src j).frame = true) :
    Costs vm 0 ([j].countP fun j => (vm.table src j).frame ≠ 0) Prod.snd
      (fun r => PagesCopied src dst [j] vm r.2 ∧
        r.1 = n + [j].countP fun j => (vm.table src j).frame ≠ 0)
      (copyPage src dst j n vm) := by
  rw [copyPage, countP_singleton]
  by_cases skip : (vm.table src j).frame = 0
  · rw [if_pos skip, if_neg (by simpa using skip)]
    exact .pure _ rfl ⟨.skip skip, rfl⟩
  · rw [if_neg skip, if_pos (by simpa using skip)]
    refine Costs.bind (l := 0) (q := 0) (pmmAlloc_costs vm) (fun r alloc => ?_) rfl rfl
    exact .inl ⟨_, rfl, ⟨rfl, rfl⟩, .put (frame skip) skip alloc, rfl⟩

lemma PagesCopied.append {js' : List Nat} (ne : src ≠ dst) (apart : js.Disjoint js')
    (frames : ∀ j ∈ js', (vm.table src j).frame ≠ 0 → vm.pmm.used (vm.table src j).frame = true)
    (h : PagesCopied src dst js vm vm') (h' : PagesCopied src dst js' vm' vm'') :
    PagesCopied src dst (js ++ js') vm vm'' := by
  have same : vm'.table src = vm.table src := h.table src ne
  have first (j : Nat) (mem : j ∈ js) : vm''.table dst j = vm'.table dst j :=
    h'.other j fun mem' => absurd mem' (apart mem)
  have mixed (j k : Nat) (mem : j ∈ js) (mem' : k ∈ js') (used : (vm.table src j).frame ≠ 0)
      (used' : (vm.table src k).frame ≠ 0) :
      (vm''.table dst j).frame ≠ (vm''.table dst k).frame := by
    intro eq
    have before := (h.copied j mem used).used
    rw [← first j mem, eq] at before
    have after := (Pmm.mem_avail.mp (h'.copied k mem' (same ▸ used')).free).2
    rw [before] at after
    cases after
  constructor
  · have eq := h.eq
    have eq' := h'.eq
    generalize vm'.pmm = pmm, vm'.mem = contents, vm'.table = tables at eq
    subst eq
    exact eq'
  · intro t other
    rw [h'.table t other, h.table t other]
  · exact h.grows.trans h'.grows
  · intro j away
    rw [h'.other j fun mem => by rw [same]; exact away (mem_append_right _ mem)]
    exact h.other j fun mem => away (mem_append_left _ mem)
  · intro j mem used
    rcases mem_append.mp mem with mem | mem
    · rw [first j mem]
      exact (h.copied j mem used).later h'.grows
    · have copied := h'.copied j mem (same ▸ used)
      rw [same] at copied
      exact copied.earlier h.grows (frames j mem used)
  · intro j mem k mem' used used' eq
    rcases mem_append.mp mem with mem | mem <;> rcases mem_append.mp mem' with mem' | mem'
    · exact h.inj j mem k mem' used used' (by rwa [← first j mem, ← first k mem'])
    · exact absurd eq (mixed j k mem mem' used used')
    · exact absurd eq.symm (mixed k j mem' mem used' used)
    · exact h'.inj j mem k mem' (same ▸ used) (same ▸ used') eq
  · have last := h'.spends
    rw [same] at last
    rw [countP_append]
    exact h.spends.trans last

/-- The inner loop copies the pages, or the kernel runs out of frames. -/
lemma copyPages_costs (ne : src ≠ dst) (nodup : js.Nodup)
    (frames : ∀ j ∈ js, (vm.table src j).frame ≠ 0 → vm.pmm.used (vm.table src j).frame = true) :
    Costs vm 0 (js.countP fun j => (vm.table src j).frame ≠ 0) Prod.snd
      (fun r => PagesCopied src dst js vm r.2 ∧
        r.1 = n + js.countP fun j => (vm.table src j).frame ≠ 0)
      (copyPages src dst js n vm) := by
  induction js generalizing vm n with
  | nil =>
    refine .pure (n, vm) rfl ⟨⟨rfl, fun _ _ => rfl, .refl vm, fun _ _ => rfl, ?_, ?_, .refl vm⟩,
      rfl⟩
    · simp
    · simp
  | cons j js ih =>
    obtain ⟨fresh, nodup⟩ := nodup_cons.mp nodup
    have rest (k : Nat) (mem : k ∈ js) := frames k (mem_cons_of_mem j mem)
    rw [copyPages_cons, ← singleton_append, countP_append]
    refine Costs.bind (l := 0) (copyPage_costs (frames j mem_cons_self)) (fun r first => ?_) rfl rfl
    have same : r.2.table src = vm.table src := first.1.table src ne
    have rest₁ (k : Nat) (mem : k ∈ js) (nonzero : (r.2.table src k).frame ≠ 0) :
        r.2.pmm.used (r.2.table src k).frame = true := by
      rw [same] at nonzero ⊢
      exact first.1.grows.pmm.used _ (rest k mem nonzero)
    have more := ih nodup rest₁ (n := r.1)
    rw [same] at more
    refine more.imp fun r' ⟨copied, count⟩ => ⟨first.1.append ne (by simpa using fresh) rest copied,
      ?_⟩
    rw [count, first.2, Nat.add_assoc]

/-! ## All tables -/

/-- The entry of the child for the entry `e` of the parent. -/
def CopyOf (vm vm' : Vm) (e e' : Pte) : Prop := if e.frame = 0 then e' = .zero
    else Copied vm vm' e e'

lemma CopyOf.zero (vm vm' : Vm) : CopyOf vm vm' .zero .zero := by simp [CopyOf, Pte.zero]

lemma CopyOf.later (h : CopyOf vm vm' e e') (grows : Grows vm' vm'') : CopyOf vm vm'' e e' := by
  unfold CopyOf at *
  split_ifs at h ⊢
  · exact h
  · exact h.later grows

/-- The tables of user space, in the order of their numbers in `is`. -/
def userTables (vm : Vm) (d : Nat) (is : List Nat) : List Nat :=
  is.filterMap fun i => if isUserSpace (i * 1024 * pageSize) then vm.dir d i else none

lemma userTables_append (vm : Vm) (d : Nat) (is js : List Nat) :
    userTables vm d (is ++ js) = userTables vm d is ++ userTables vm d js :=
  filterMap_append

lemma userTables_congr
    (same : ∀ i ∈ is, isUserSpace (i * 1024 * pageSize) → vm'.dir d i = vm.dir d i) :
    userTables vm' d is = userTables vm d is := by
  refine filterMap_congr fun i mem => ?_
  split_ifs with space
  · exact same i mem space
  · rfl

/-- The state of the outer loop after the tables in `done`. -/
structure Copying (vm₀ : Vm) (parent child : Nat) (done : List Nat) (vm : Vm) : Prop where
  ok : DirOk vm child
  next : vm₀.next ≤ vm.next
  live : ∀ b, vm.live b = (vm₀.live b || decide (vm₀.next ≤ b ∧ b < vm.next))
  stale : vm.stale = vm₀.stale
  tables : child < vm.next ∧
    userTables vm child done = List.range' (child + 1) (vm.next - (child + 1))
  kernelDirectory : vm.kernelDirectory = vm₀.kernelDirectory
  pagedirs : vm.pagedirs = vm₀.pagedirs
  dir : ∀ d ≠ child, vm.dir d = vm₀.dir d
  table : ∀ t < vm₀.next, vm.table t = vm₀.table t
  grows : Grows vm₀ vm
  missing : ∀ i ∉ done, vm.dir child i = none
  shared : ∀ i ∈ done, ¬ isUserSpace (i * 1024 * pageSize) → vm.dir child i = vm₀.dir parent i
  present : ∀ i ∈ done, isUserSpace (i * 1024 * pageSize) →
    (vm.dir child i).isSome = (vm₀.dir parent i).isSome
  fresh : ∀ i t, isUserSpace (i * 1024 * pageSize) → vm.dir child i = some t → vm₀.next ≤ t
  pages : ∀ p, isUserSpace (p * pageSize) → p / 1024 ∈ done →
    CopyOf vm₀ vm (vm₀.entry parent p) (vm.entry child p)
  inj : ∀ p q, isUserSpace (p * pageSize) → isUserSpace (q * pageSize) →
    vm.entry child p ≠ .zero → vm.entry child q ≠ .zero →
    (vm.entry child p).frame = (vm.entry child q).frame → p = q

/-- In user space, an entry is zero or belongs to a frame in use, which is not the first one. -/
structure UserDir (vm : Vm) (d : Nat) : Prop where
  ok : DirOk vm d
  old : d < vm.next
  pages : ∀ p, isUserSpace (p * pageSize) → vm.entry d p = .zero ∨
    (vm.entry d p).frame ≠ 0 ∧ vm.pmm.used (vm.entry d p).frame = true

lemma user_page_iff : isUserSpace (p * pageSize) ↔ isUserSpace (p / 1024 * 1024 * pageSize) := by
  rw [isUserSpace_page, isUserSpace_table]

lemma setDir_entry {tables : Nat → Option Nat} (same : tables (p / 1024) = vm.dir d (p / 1024)) :
    (vm.setDir d tables).entry d p = vm.entry d p := by
  cases table : vm.dir d (p / 1024) with
  | none => rw [entry_of_none table, entry_of_none (by rw [setDir_dir, same, table])]
  | some t =>
    rw [entry_of_table table, entry_of_table (by rw [setDir_dir, same, table])]
    rfl

def tableFrames (vm : Vm) (t : Nat) : Nat := (List.range 1024).countP fun j =>
    (vm.table t j).frame ≠ 0

variable {done : List Nat}

/-- The table with the number `i` has been visited, and is `x` in the child. -/
lemma Copying.visit {x : Option Nat} (h : Copying vm₀ parent child done vm)
    (dirChild : vm'.dir child = update (vm.dir child) i x) (next : vm.next ≤ vm'.next)
    (link : ∀ t, x = some t → i < 1024 ∧ t < vm'.next ∧ ∀ j, vm.dir child j = some t → j = i)
    (live : ∀ b, vm'.live b = (vm₀.live b || decide (vm₀.next ≤ b ∧ b < vm'.next)))
    (stale : vm'.stale = vm.stale)
    (tables : userTables vm' child (done ++ [i]) =
      List.range' (child + 1) (vm'.next - (child + 1)))
    (kernelDirectory : vm'.kernelDirectory = vm.kernelDirectory)
    (pagedirs : vm'.pagedirs = vm.pagedirs) (dir : ∀ d ≠ child, vm'.dir d = vm.dir d)
    (table : ∀ t < vm₀.next, vm'.table t = vm.table t) (grows : Grows vm vm')
    (shared : ¬ isUserSpace (i * 1024 * pageSize) → x = vm₀.dir parent i)
    (present : isUserSpace (i * 1024 * pageSize) → x.isSome = (vm₀.dir parent i).isSome)
    (fresh : isUserSpace (i * 1024 * pageSize) → ∀ t, x = some t → vm₀.next ≤ t)
    (others : ∀ p, p / 1024 ≠ i → vm'.entry child p = vm.entry child p)
    (pages : ∀ p, isUserSpace (p * pageSize) → p / 1024 = i →
      CopyOf vm₀ vm' (vm₀.entry parent p) (vm'.entry child p))
    (inj : ∀ p q, isUserSpace (p * pageSize) → isUserSpace (q * pageSize) →
      vm'.entry child p ≠ .zero → vm'.entry child q ≠ .zero →
      (vm'.entry child p).frame = (vm'.entry child q).frame → p = q) :
    Copying vm₀ parent child (done ++ [i]) vm' := by
  have before {j : Nat} (mem : j ∈ done ++ [i]) (other : j ≠ i) : j ∈ done := by
    simpa [other] using mem
  refine ⟨⟨fun j t used => ?_, fun j k t used used' => ?_, fun j t used => ?_⟩, h.next.trans next,
    live, stale.trans h.stale, ⟨h.tables.1.trans_le next, tables⟩,
    kernelDirectory.trans h.kernelDirectory, pagedirs.trans h.pagedirs,
    fun d other => (dir d other).trans (h.dir d other), fun t lt =>
      (table t lt).trans (h.table t lt),
    h.grows.trans grows, fun j away => ?_, fun j mem kernel => ?_, fun j mem space => ?_,
    fun j t space used => ?_, fun p space mem => ?_, inj⟩
  · rw [dirChild, update_apply] at used
    split_ifs at used with eq
    · exact eq ▸ (link t used).1
    · exact h.ok.bound j t used
  · rw [dirChild, update_apply] at used used'
    split_ifs at used used' with eq eq' eq'
    · rw [eq, eq']
    · rw [eq, (link t used).2.2 k used']
    · rw [eq', (link t used').2.2 j used]
    · exact h.ok.inj j k t used used'
  · rw [dirChild, update_apply] at used
    split_ifs at used
    · exact (link t used).2.1
    · exact (h.ok.old j t used).trans_le next
  · rw [mem_append, mem_singleton, not_or] at away
    rw [dirChild, update_of_ne away.2]
    exact h.missing j away.1
  · rw [dirChild, update_apply]
    split_ifs with eq
    · exact eq ▸ shared (eq ▸ kernel)
    · exact h.shared j (before mem eq) kernel
  · rw [dirChild, update_apply]
    split_ifs with eq
    · exact eq ▸ present (eq ▸ space)
    · exact h.present j (before mem eq) space
  · rw [dirChild, update_apply] at used
    split_ifs at used with eq
    · exact fresh (eq ▸ space) t used
    · exact h.fresh j t space used
  · by_cases here : p / 1024 = i
    · exact pages p space here
    · rw [others p here]
      exact (h.pages p space (before mem here)).later grows

lemma userTables_update {x : Option Nat} (new : i ∉ done)
    (dirChild : vm'.dir child = update (vm.dir child) i x) :
    userTables vm' child (done ++ [i]) =
      userTables vm child done ++ if isUserSpace (i * 1024 * pageSize) then x.toList else [] := by
  rw [userTables_append, userTables_congr fun j mem _ => ?_]
  · rw [userTables, userTables, dirChild]
    split_ifs with space
    · cases x <;> simp [space]
    · simp [space]
  · rw [dirChild, update_of_ne]
    rintro rfl
    exact new mem

lemma Copying.share (user : UserDir vm₀ parent) (ne : parent ≠ child)
    (new : i ∉ done) (kernel : ¬ isUserSpace (i * 1024 * pageSize))
    (h : Copying vm₀ parent child done vm) : Copying vm₀ parent child (done ++ [i])
      (vm.setDir child (update (vm.dir child) i (vm.dir parent i))) := by
  have own : vm.dir parent = vm₀.dir parent := h.dir parent ne
  rw [own]
  have after : (vm.setDir child (update (vm.dir child) i (vm₀.dir parent i))).dir child =
      update (vm.dir child) i (vm₀.dir parent i) := setDir_dir ..
  have others (p : Nat) (other : p / 1024 ≠ i) :
      (vm.setDir child (update (vm.dir child) i (vm₀.dir parent i))).entry child p =
        vm.entry child p := setDir_entry (update_of_ne other ..)
  have away {p : Nat} (space : isUserSpace (p * pageSize)) : p / 1024 ≠ i := by
    rintro rfl
    exact kernel (user_page_iff.mp space)
  -- the table is not in the child yet
  have unused (j t : Nat) (here : vm₀.dir parent i = some t) (there : vm.dir child j = some t) :
      j = i := by
    by_cases space : isUserSpace (j * 1024 * pageSize)
    · exact absurd (h.fresh j t space there) (not_le.mpr (user.ok.old i t here))
    · by_cases visited : j ∈ done
      · rw [h.shared j visited space] at there
        exact user.ok.inj j i t there here
      · rw [h.missing j visited] at there
        cases there
  refine h.visit after le_rfl (fun t used => ?_) h.live rfl ?_ rfl rfl
    (fun d other => update_of_ne other ..) (fun _ _ => rfl) ⟨.refl _, fun _ _ => rfl⟩ (fun _ => rfl)
    (absurd · kernel) (absurd · kernel) others (fun p space here => absurd here (away space))
    fun p q space space' => ?_
  · exact ⟨user.ok.bound i t used, (user.ok.old i t used).trans_le h.next, fun j => unused j t used⟩
  · rw [userTables_update new after, if_neg kernel, append_nil]
    exact h.tables.2
  · rw [others p (away space), others q (away space')]
    exact h.inj p q space space'

lemma Copying.skip (space : isUserSpace (i * 1024 * pageSize)) (new : i ∉ done)
    (none : vm₀.dir parent i = none) (h : Copying vm₀ parent child done vm) :
    Copying vm₀ parent child (done ++ [i]) vm := by
  have missing := h.missing i new
  have after : vm.dir child = update (vm.dir child) i .none := by rw [← missing, update_eq_self]
  refine h.visit after le_rfl nofun h.live rfl ?_ rfl rfl (fun _ _ => rfl)
    (fun _ _ => rfl) (.refl vm)
    (absurd space ·) (fun _ => by rw [none]) nofun (fun _ _ => rfl) (fun p _ here => ?_) h.inj
  · rw [userTables_update new after, if_pos space, toList_none, append_nil]
    exact h.tables.2
  · rw [entry_of_none (here ▸ none), entry_of_none (here ▸ missing)]
    exact .zero vm₀ vm

lemma UserDir.used (user : UserDir vm d) (space : isUserSpace (i * 1024 * pageSize))
    (table : vm.dir d i = some src) (lt : j < 1024) (nonzero : (vm.table src j).frame ≠ 0) :
    vm.pmm.used (vm.table src j).frame = true := by
  have index : (i * 1024 + j) / 1024 = i := by omega
  have entry : vm.entry d (i * 1024 + j) = vm.table src j := by
    rw [entry_of_table (by rw [index]; exact table), show (i * 1024 + j) % 1024 = j by omega]
  rcases user.pages (i * 1024 + j) (by rw [user_page_iff, index]; exact space) with zero | used
  · rw [← entry, zero] at nonzero
    exact absurd rfl nonzero
  · exact entry ▸ used.2

lemma Copying.copy {vm₂ : Vm} (user : UserDir vm₀ parent)
    (space : isUserSpace (i * 1024 * pageSize)) (new : i ∉ done)
    (table : vm₀.dir parent i = some src) (h : Copying vm₀ parent child done vm)
    (block : NewBlock vm vm.next vm₂)
    (same : (vm₂.linkTable child i vm.next).table src = vm₀.table src)
    (pages : PagesCopied src vm.next (List.range 1024) (vm₂.linkTable child i vm.next) vm') :
    Copying vm₀ parent child (done ++ [i]) vm' := by
  have grows : Grows vm₀ (vm₂.linkTable child i vm.next) := by
    have both := h.grows.trans block.grows
    exact ⟨both.pmm, both.mem⟩
  have frames (j : Nat) (lt : j < 1024) := user.used space table lt
  have dir : vm'.dir = (vm₂.linkTable child i vm.next).dir := by rw [pages.eq]
  have dirs (d : Nat) (other : d ≠ child) : vm'.dir d = vm.dir d := by
    rw [dir, ← block.dir]
    exact update_of_ne other ..
  have dirChild : vm'.dir child = update (vm.dir child) i (some vm.next) := by
    rw [dir, ← block.dir]
    exact update_self ..
  have tables (t : Nat) (other : t ≠ vm.next) : vm'.table t = vm.table t := by
    rw [pages.table t other, ← block.table]
    exact update_of_ne other ..
  have next : vm'.next = vm.next + 1 := by
    rw [pages.eq]
    exact block.next
  have later : Grows vm vm' :=
    block.grows.trans ⟨pages.grows.pmm, pages.grows.mem⟩
  -- the entries of the other tables, and of the new one
  have others (p : Nat) (other : p / 1024 ≠ i) : vm'.entry child p = vm.entry child p := by
    have here : vm'.dir child (p / 1024) = vm.dir child (p / 1024) := by rw [dirChild,
      update_of_ne other]
    cases used : vm.dir child (p / 1024) with
    | none => rw [entry_of_none used, entry_of_none (here.trans used)]
    | some t =>
      rw [entry_of_table used, entry_of_table (here.trans used), tables t (h.ok.old _ t used).ne]
  have own (p : Nat) (here : p / 1024 = i) :
      vm₀.entry parent p = vm₀.table src (p % 1024) ∧
        vm'.entry child p = vm'.table vm.next (p % 1024) :=
    ⟨entry_of_table (here ▸ table), entry_of_table (by rw [dirChild, here, update_self])⟩
  have empty (j : Nat) (zero : (vm₀.table src j).frame = 0) : vm'.table vm.next j = .zero := by
    rw [pages.other j fun _ => by rw [same]; exact zero]
    simp [linkTable]
  have filled (j : Nat) (lt : j < 1024) (nonzero : (vm₀.table src j).frame ≠ 0) :
      Copied (vm₂.linkTable child i vm.next) vm' (vm₀.table src j) (vm'.table vm.next j) := by
    have copied := pages.copied j (mem_range.mpr lt) (same ▸ nonzero)
    rwa [same] at copied
  have below (p : Nat) : p % 1024 < 1024 := Nat.mod_lt p (by decide)
  have mixed (p q : Nat) (space : isUserSpace (p * pageSize)) (other : p / 1024 ≠ i)
    (here : q / 1024 = i)
      (mapped : vm.entry child p ≠ .zero) (mapped' : vm'.table vm.next (q % 1024) ≠ .zero) :
      (vm.entry child p).frame ≠ (vm'.table vm.next (q % 1024)).frame := by
    intro eq
    have free := (Pmm.mem_avail.mp (filled _ (below q) fun zero => mapped' (empty _ zero)).free).2
    have visited : p / 1024 ∈ done := by
      by_contra away
      exact mapped (entry_of_none (h.missing _ away))
    have before := h.pages p space visited
    unfold CopyOf at before
    split_ifs at before
    · exact mapped before
    · have taken : (vm₂.linkTable child i vm.next).pmm.used (vm.entry child p).frame = true :=
        block.grows.pmm.used _ before.used
      rw [eq, free] at taken
      cases taken
  refine h.visit dirChild (next ▸ Nat.le_succ _) (fun t used => ?_) (fun b => ?_) ?_ ?_ ?_ ?_ dirs
    (fun t lt => tables t (lt.trans_le h.next).ne) later (absurd space ·)
      (fun _ => by rw [table]; rfl)
    (fun _ t used => some.inj used ▸ h.next) others (fun p space here => ?_) ?_
  · refine ⟨user.ok.bound i src table, ?_, fun j there => ?_⟩
    · rw [next]
      exact some.inj used ▸ Nat.lt_succ_self _
    · exact absurd (some.inj used).symm (h.ok.old j t there).ne
  · have live : vm'.live = update vm.live vm.next true := by
      rw [pages.eq]
      exact block.live
    have above := h.next
    rw [live, next, update_apply, h.live]
    grind
  · rw [pages.eq]
    change vm₂.stale = _
    rw [block.eq]
  · obtain ⟨lt, range⟩ := h.tables
    rw [userTables_update new dirChild, if_pos space, range, next,
      show vm.next + 1 - (child + 1) = vm.next - (child + 1) + 1 by omega,
      range'_concat, Nat.one_mul, Nat.add_sub_cancel' (Nat.succ_le_of_lt lt)]
    rfl
  · rw [pages.eq]
    exact block.kernelDirectory
  · rw [pages.eq]
    exact block.pagedirs
  · rw [(own p here).1, (own p here).2, CopyOf]
    split_ifs with zero
    · exact empty _ zero
    · exact (filled _ (below p) zero).earlier grows (frames _ (below p) zero)
  · intro p q space space' mapped mapped' eq
    by_cases here : p / 1024 = i <;> by_cases here' : q / 1024 = i
    · rw [(own p here).2] at mapped eq
      rw [(own q here').2] at mapped' eq
      have index := pages.inj _ (mem_range.mpr (below p)) _ (mem_range.mpr (below q))
        (fun zero => mapped (empty _ (same ▸ zero)))
        (fun zero => mapped' (empty _ (same ▸ zero))) eq
      omega
    · rw [(own p here).2] at mapped eq
      rw [others q here'] at mapped' eq
      exact absurd eq.symm (mixed q p space' here' here mapped' mapped)
    · rw [others p here] at mapped eq
      rw [(own q here').2] at mapped' eq
      exact absurd eq (mixed p q space here here' mapped mapped')
    · rw [others p here] at mapped eq
      rw [others q here'] at mapped' eq
      exact h.inj p q space space' mapped mapped' eq

lemma vmmCreatePageTable_costs (missing : vm.dir d i = none)
    (space : isUserSpace (i * 1024 * pageSize)) :
    Costs vm 1 0 id (fun vm' => ∃ vm₁, NewBlock vm vm.next vm₁ ∧ vm' = vm₁.linkTable d i vm.next)
      (vm.vmmCreatePageTable i d) := by
  have space' : isUserSpace (i * 4096 * 1024) := by
    rw [isUserSpace_table] at space
    unfold isUserSpace
    omega
  simp only [vmmCreatePageTable, kassert, if_pos missing, bind, bind_some]
  refine Costs.bind (l := 0) (q := 0) (kmalloc_costs vm) (fun r new => ?_) rfl rfl
  obtain ⟨t, vm₁⟩ := r
  obtain rfl := new.block
  rw [if_pos (.inl space')]
  exact .inl ⟨_, rfl, ⟨rfl, rfl⟩, vm₁, new, rfl⟩

/-- The number of tables of user space among those with the numbers in `is`. -/
def tablesIn (vm : Vm) (d : Nat) (is : List Nat) : Nat :=
  is.countP fun i => isUserSpace (i * 1024 * pageSize) ∧ (vm.dir d i).isSome

def framesIn (vm : Vm) (d : Nat) (is : List Nat) : Nat :=
  (is.map fun i =>
    if isUserSpace (i * 1024 * pageSize) then (vm.dir d i).elim 0 (tableFrames vm) else 0).sum

/-- One round of the outer loop. -/
def copyTable (parent child i n : Nat) (vm : Vm) : Option (Nat × Vm) :=
  if ¬ isUserSpace (i * 1024 * pageSize) then
    some (n, vm.setDir child (update (vm.dir child) i (vm.dir parent i)))
  else
    match vm.dir parent i with
    | none => some (n, vm)
    | some src => (vm.vmmCreatePageTable i child).bind fun vm =>
      (vm.dir child i).bind fun dst => copyPages src dst (List.range 1024) n vm

lemma copyTables_cons (parent child i : Nat) (is : List Nat) (n : Nat) (vm : Vm) :
    copyTables parent child (i :: is) n vm =
      (copyTable parent child i n vm).bind fun r => copyTables parent child is r.1 r.2 := by
  rw [copyTables, copyTable]
  split_ifs
  · cases vm.dir parent i with
    | none => rfl
    | some src => simp only [bind, bind_assoc]
  · rfl

lemma copyTable_costs (user : UserDir vm₀ parent) (ne : parent ≠ child)
    (new : i ∉ done) (h : Copying vm₀ parent child done vm) :
    Costs vm (tablesIn vm₀ parent [i]) (framesIn vm₀ parent [i]) Prod.snd
      (fun r => Copying vm₀ parent child (done ++ [i]) r.2 ∧ r.1 = n + framesIn vm₀ parent [i])
      (copyTable parent child i n vm) := by
  have own : vm.dir parent = vm₀.dir parent := h.dir parent ne
  rw [copyTable]
  by_cases space : isUserSpace (i * 1024 * pageSize)
  · rw [if_neg (not_not.mpr space), own]
    cases table : vm₀.dir parent i with
    | none =>
      have frames : framesIn vm₀ parent [i] = 0 := by simp [framesIn, table]
      have tables : tablesIn vm₀ parent [i] = 0 := by simp [tablesIn, table]
      rw [frames, tables]
      exact .pure _ rfl ⟨h.skip space new table, rfl⟩
    | some src =>
      have frames : framesIn vm₀ parent [i] = tableFrames vm₀
        src := by simp [framesIn, table, space]
      have tables : tablesIn vm₀ parent [i] = 1 := by simp [tablesIn, table, space]
      rw [frames, tables]
      refine Costs.bind (l := 0) (vmmCreatePageTable_costs (h.missing i new) space) ?_ rfl
        (Nat.zero_add _).symm
      rintro _ ⟨vm₂, block, rfl⟩
      have old : src < vm₀.next := user.ok.old i src table
      have ne' : src ≠ vm.next := (old.trans_le h.next).ne
      have same : (vm₂.linkTable child i vm.next).table src = vm₀.table src := by
        simp [linkTable, ne', block.table, h.table src old]
      have linked : (vm₂.linkTable child i vm.next).dir child i = some vm.next := by
        rw [linkTable_dir, if_pos rfl]
      rw [linked, bind_some]
      have pages := copyPages_costs (n := n) ne' nodup_range fun j mem nonzero => by
        rw [same] at nonzero ⊢
        exact block.grows.pmm.used _ (h.grows.pmm.used _
          (user.used space table (mem_range.mp mem) nonzero))
      simp only [same] at pages
      refine pages.imp fun r copied => ?_
      exact ⟨h.copy user space new table block same copied.1, copied.2⟩
  · have frames : framesIn vm₀ parent [i] = 0 := by simp [framesIn, space]
    have tables : tablesIn vm₀ parent [i] = 0 := by simp [tablesIn, space]
    rw [if_pos space, frames, tables]
    exact .inl ⟨_, rfl, ⟨rfl, rfl⟩, h.share user ne new space, rfl⟩

/-- The kernel runs out of frames, or all tables have been visited. -/
lemma copyTables_costs (user : UserDir vm₀ parent) (ne : parent ≠ child)
    (nodup : (done ++ is).Nodup) (h : Copying vm₀ parent child done vm) :
    Costs vm (tablesIn vm₀ parent is) (framesIn vm₀ parent is) Prod.snd
      (fun r => Copying vm₀ parent child (done ++ is) r.2 ∧ r.1 = n + framesIn vm₀ parent is)
      (copyTables parent child is n vm) := by
  induction is generalizing done n vm with
  | nil => exact .pure _ rfl ⟨by simpa using h, rfl⟩
  | cons i is ih =>
    have new : i ∉ done := by
      intro mem
      exact (nodup_append.mp nodup).2.2 i mem i mem_cons_self rfl
    have frames : framesIn vm₀ parent (i :: is) = framesIn vm₀ parent [i] + framesIn vm₀
      parent is := by
      simp [framesIn]
    have tables : tablesIn vm₀ parent (i :: is) = tablesIn vm₀ parent [i] + tablesIn vm₀
      parent is := by
      rw [tablesIn, ← singleton_append, countP_append]
      rfl
    rw [frames, tables, copyTables_cons]
    refine Costs.bind (copyTable_costs user ne new h) (fun r step => ?_) rfl rfl
    have split : done ++ i :: is = done ++ [i] ++ is := by simp
    rw [split] at nodup ⊢
    refine (ih nodup step.1).imp fun r' copied => ⟨copied.1, ?_⟩
    rw [copied.2, step.2, Nat.add_assoc]

/-! ## The whole clone -/

/-- A step that allocates `k` blocks. -/
structure NewBlocks (k : Nat) (vm vm' : Vm) : Prop where
  eq : vm' = { vm with
    pmm := vm'.pmm, mem := vm'.mem, growth := vm'.growth, next := vm.next + k, live := vm'.live }
  live : ∀ b, vm'.live b = (vm.live b || decide (vm.next ≤ b ∧ b < vm.next + k))
  grows : Grows vm vm'

lemma NewBlocks.refl (vm : Vm) : NewBlocks 0 vm vm where
  eq := rfl
  live b := by
    have none : ¬ (vm.next ≤ b ∧ b < vm.next + 0) := by omega
    simp only [none, decide_false, Bool.or_false]
  grows := .refl vm

lemma NewBlocks.next {k : Nat} (h : NewBlocks k vm vm') : vm'.next = vm.next + k := by rw [h.eq]

lemma NewBlocks.snoc {k t : Nat} (h : NewBlocks k vm vm') (new : NewBlock vm' t vm'') :
    NewBlocks (k + 1) vm vm'' where
  eq := by
    have eq := h.eq
    have eq' := new.eq
    generalize vm'.pmm = pmm, vm'.mem = contents, vm'.growth = growth, vm'.live = live at eq
    subst eq
    rw [eq']
    rfl
  live b := by
    rw [new.live, update_apply, h.live, h.next]
    grind
  grows := h.grows.trans new.grows

/-- What two descriptions of one area have in common. -/
def Area.bounds (a : Area) : Nat × Nat × Bool := (a.start, a.stop, a.writable)

/-- The blocks of an area, in the order of their allocation. -/
def Area.blocks (a : Area) : List Nat := [a.node, a.block]

lemma copyAreas_costs {areas : List Area} {k : Nat} (h : NewBlocks k vm₀ vm) :
    Costs vm (2 * areas.length) 0 Prod.snd
      (fun r => NewBlocks (k + 2 * areas.length) vm₀ r.2 ∧
        r.1.map Area.bounds = areas.map Area.bounds ∧
        r.1.flatMap Area.blocks = List.range' vm.next (2 * areas.length))
      (copyAreas areas vm) := by
  induction areas generalizing vm k with
  | nil => exact .pure _ rfl ⟨h, rfl, rfl⟩
  | cons a as ih =>
    refine Costs.bind (l := 1 + 2 * as.length) (q := 0) (kmalloc_costs vm)
      (fun ⟨node, vm₁⟩ new => ?_) (by rw [length_cons]; omega) rfl
    refine Costs.bind (q := 0) (kmalloc_costs vm₁) (fun ⟨block, vm₂⟩ new' => ?_)
      rfl rfl
    refine Costs.bind (l := 0) (q := 0) (ih ((h.snoc new).snoc new')) (fun ⟨as', vm₃⟩ copied => ?_)
      rfl rfl
    obtain ⟨blocks, bounds, range⟩ := copied
    refine .pure _ rfl ⟨?_, ?_, ?_⟩
    · rw [length_cons, Nat.mul_succ, show k + (2 * as.length + 2) =
        k + 1 + 1 + 2 * as.length by omega]
      exact blocks
    · simpa [Area.bounds] using bounds
    · rw [flatMap_cons, range, new'.next, new.next, length_cons, Nat.mul_succ,
        range'_succ, range'_succ]
      have first : node = vm.next := new.block
      have second : block = vm.next + 1 := new'.block.trans new.next
      simp [Area.blocks, first, second]

/-- The result of `vmm_clone_mm`. -/
structure Cloned (vm : Vm) (mm child : TaskMm) (vm' : Vm) : Prop where
  zero : child.brkStart = 0 ∧ child.brk = 0 ∧ child.initialBrk = 0 ∧ child.userStackGuardPage = 0
  framesUsed : child.framesUsed = framesIn vm mm.directory (List.range 1024)
  bounds : child.areas.map Area.bounds = mm.areas.map Area.bounds
  blocks : child.block :: child.list :: child.areas.flatMap Area.blocks =
    List.range' vm.next (2 + 2 * mm.areas.length)
  directory : child.directory = vm.next + (2 + 2 * mm.areas.length)
  copying : ∃ vm₁ vm₂, Copying vm mm.directory child.directory (List.range 1024) vm₁ ∧
    NewBlock vm₁ vm₁.next vm₂ ∧
    vm' = { vm₂ with pagedirs := vm.pagedirs ++ [(vm₁.next, child.directory)] }

lemma Copying.start {k : Nat} (h : NewBlocks k vm₀ vm) (new : NewBlock vm child vm') :
    Copying vm₀ parent child [] (vm'.setDir child fun _ => none) := by
  have all := h.snoc new
  have block : child = vm₀.next + k := new.block.trans h.next
  have next : (vm'.setDir child fun _ => none).next = vm₀.next + (k + 1) := all.next
  have empty : (vm'.setDir child fun _ => none).dir child = fun _ => none := setDir_dir ..
  have entry (p : Nat) : (vm'.setDir child fun _ => none).entry child p = .zero :=
    entry_of_none (congrFun empty _)
  have eq := all.eq
  constructor
  · constructor <;> simp [empty]
  · omega
  · rw [next]
    exact all.live
  · change vm'.stale = _
    rw [eq]
  · rw [next]
    refine ⟨by omega, ?_⟩
    rw [show vm₀.next + (k + 1) - (child + 1) = 0 by omega]
    rfl
  · change vm'.kernelDirectory = _
    rw [eq]
  · change vm'.pagedirs = _
    rw [eq]
  · intro d other
    rw [setDir]
    simp only [update_of_ne other]
    rw [eq]
  · intro t _
    change vm'.table t = _
    rw [eq]
  · exact ⟨all.grows.pmm, all.grows.mem⟩
  · simp [empty]
  · simp
  · simp
  · simp [empty]
  · simp
  · intro p q _ _ mapped
    exact absurd (entry p) mapped

lemma cloneUserPageDirectory_costs {k : Nat} (user : UserDir vm₀ parent) (h : NewBlocks k vm₀ vm) :
    Costs vm (2 + tablesIn vm₀ parent (List.range 1024)) (framesIn vm₀ parent (List.range 1024))
      (fun r => r.2.2)
      (fun r => r.1 = vm₀.next + k ∧ r.2.1 = framesIn vm₀ parent (List.range 1024) ∧
        ∃ vm₁ vm₂, Copying vm₀ parent r.1 (List.range 1024) vm₁ ∧ NewBlock vm₁ vm₁.next vm₂ ∧
          r.2.2 = { vm₂ with pagedirs := vm₀.pagedirs ++ [(vm₁.next, r.1)] })
      (vm.cloneUserPageDirectory parent) := by
  refine Costs.bind (l := tablesIn vm₀ parent (List.range 1024) + 1)
    (q := framesIn vm₀ parent (List.range 1024)) (kmalloc_costs vm) (fun ⟨child, vm₁⟩ new => ?_)
    (by omega) (by omega)
  have block : child = vm₀.next + k := new.block.trans h.next
  have ne : parent ≠ child := by
    have old := user.old
    omega
  have start : Copying vm₀ parent child [] (vm₁.setDir child fun _ => none) := .start h new
  have nodup : ([] ++ List.range 1024).Nodup := by
    rw [nil_append]
    exact nodup_range
  have loop := (copyTables_costs (n := 0) user ne nodup start).same vm₁ rfl rfl
  refine Costs.bind (l := 1) (q := 0) loop
    (fun ⟨n, vm₂⟩ ⟨copying, count⟩ => ?_) (by omega) (by omega)
  rw [nil_append] at copying
  refine Costs.bind (l := 0) (q := 0) (kmalloc_costs vm₂) (fun ⟨node, vm₃⟩ new' => ?_) rfl rfl
  rw [Nat.zero_add] at count
  refine .inl ⟨_, rfl, ⟨rfl, rfl⟩, block, count, vm₂, vm₃, copying, ?_, ?_⟩
  · exact new'.block ▸ new'
  · have pagedirs : vm₃.pagedirs = vm₀.pagedirs := new'.pagedirs.trans copying.pagedirs
    have last : node = vm₂.next := new'.block
    rw [pagedirs, last]

lemma vmmCloneMm_costs {mm : TaskMm} (user : UserDir vm mm.directory) :
    Costs vm (4 + 2 * mm.areas.length + tablesIn vm mm.directory (List.range 1024))
      (framesIn vm mm.directory (List.range 1024)) Prod.snd (fun r => Cloned vm mm r.1 r.2)
      (vm.vmmCloneMm mm) := by
  set tables := tablesIn vm mm.directory (List.range 1024)
  set frames := framesIn vm mm.directory (List.range 1024) with count
  refine Costs.bind (l := 3 + 2 * mm.areas.length + tables) (q := frames) (kmalloc_costs vm)
    (fun ⟨block, vm₁⟩ new₁ => ?_) (by omega) (by omega)
  refine Costs.bind (l := 2 + 2 * mm.areas.length + tables) (q := frames) (kmalloc_costs vm₁)
    (fun ⟨list, vm₂⟩ new₂ => ?_) (by omega) (by omega)
  have two : NewBlocks (0 + 1 + 1) vm vm₂ := ((NewBlocks.refl vm).snoc new₁).snoc new₂
  refine Costs.bind (l := 2 + tables) (q := frames) (copyAreas_costs two)
    (fun ⟨areas, vm₃⟩ copied => ?_) (by omega) (by omega)
  obtain ⟨all, bounds, range⟩ := copied
  refine Costs.bind (l := 0) (q := 0) (cloneUserPageDirectory_costs user all)
    (fun ⟨d, n, vm₄⟩ ⟨directory, count', copying⟩ => ?_) (by omega) (by omega)
  have first : block = vm.next := new₁.block
  have second : list = vm.next + 1 := new₂.block.trans new₁.next
  refine .pure _ rfl ⟨⟨rfl, rfl, rfl, rfl⟩, count', bounds, ?_, by simpa using directory, copying⟩
  rw [Nat.add_comm 2, range'_succ, range'_succ]
  simpa [first, second, two.next] using range

end ExscapeOS.Vmm
