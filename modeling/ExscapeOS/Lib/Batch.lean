import ExscapeOS.Lib.Lockstep

/-!
# Reading a list in batches

A caller reads a list with a sequence of calls. Each has a limit on the size of what it returns, and
returns as many entries as fit. A call that comes to an entry which is larger than its limit fails,
and what it had already taken is lost.

`Reader.read` is one call, and `listing` the replies up to the end of the list. `Lossless` says that
a call does not fail after it has taken something. By `Reader.complete_iff` this is exactly what it
takes for the caller to get the whole list.
-/
namespace ExscapeOS.Lib

open List Option

variable {α S T : Type}

structure Reply (α : Type) where
  /-- The size of the entries, or a negative number. -/
  ret : Int
  /-- What has been copied to the caller. -/
  entries : List α

def Reply.delivered (r : Reply α) : List α := if r.ret < 0 then [] else r.entries

def delivered (rs : List (Reply α)) : List α := rs.flatMap Reply.delivered

/-- The replies to a sequence of calls, up to the first 0. There are none if a call has no result.
-/
def listing (call : Int → S → Option (Reply α × S)) : List Int → S → Option (List (Reply α))
  | [], _ => some []
  | c :: cs, s => (call c s).bind fun (r, s) =>
    if r.ret = 0 then some [r] else (listing call cs s).map (r :: ·)

/-- The calls return the entries of `all` in order, all of them if the end is reached, and no error
but `error`. -/
def Complete (error : Int) (call : Int → S → Option (Reply α × S)) (s : S) (all : List α)
    (cs : List Int) : Prop :=
  ∃ rs, listing call cs s = some rs ∧ (∀ r ∈ rs, r.ret < 0 → r.ret = error) ∧
    delivered rs <+: all ∧ ((∃ r ∈ rs, r.ret = 0) → delivered rs = all)

lemma Complete.congr {error : Int} {call : Int → S → Option (Reply α × S)}
    {call' : Int → T → Option (Reply α × T)} {s : S} {t : T} {all : List α} {cs : List Int}
    (h : Complete error call s all cs) (same : listing call cs s = listing call' cs t) :
    Complete error call' t all cs := by
  obtain ⟨rs, listed, rest⟩ := h
  exact ⟨rs, same.symm.trans listed, rest⟩

/-- Two readers that give the same replies before the end. -/
theorem listing_congr {call : Int → S → Option (Reply α × S)}
    {call' : Int → T → Option (Reply α × T)}
    {R : S → T → Prop} {s : S} {t : T} (cs : List Int) (init : R s t)
    (calls : ∀ c s t, R s t → Lockstep (fun x y => x.1 = y.1 ∧ (x.1.ret ≠ 0 → R x.2 y.2))
      (call c s) (call' c t)) : listing call cs s = listing call' cs t := by
  induction cs generalizing s t with
  | nil => rfl
  | cons c cs ih =>
    have both := calls c s t init
    simp only [listing]
    generalize call c s = x at both
    generalize call' c t = y at both
    cases both with
    | stop => rfl
    | @both x y related =>
      obtain ⟨r, s'⟩ := x
      obtain ⟨rfl, related⟩ := related
      simp only [bind_some]
      split
      · rfl
      · rename_i more
        rw [ih (related more)]

/-- If calls have no result, or another error from the start, a large one gets nothing. -/
lemma not_complete_of_bad {error least big : Int} {call : Int → S → Option (Reply α × S)} {s : S}
    {all : List α} (nonzero : error ≠ 0) (le : least ≤ big)
    (small : ∀ c < least, call c s = some (⟨error, []⟩, s))
    (bad : ∀ c r s', least ≤ c → call c s = some (r, s') → r.ret < 0 ∧ r.ret ≠ error)
    (cs : List Int) :
    ¬ Complete error call s all (cs ++ [big]) := by
  rintro ⟨rs, listed, errors, -⟩
  induction cs generalizing rs with
  | nil =>
    obtain ⟨⟨r, s'⟩, called, rest⟩ := bind_eq_some_iff.mp listed
    obtain ⟨failed, other⟩ := bad big r s' le called
    obtain ⟨rs', -, rfl⟩ : ∃ rs', _ ∧ r :: rs' = rs := by simpa [failed.ne] using rest
    exact other (errors r mem_cons_self failed)
  | cons c cs ih =>
    obtain ⟨⟨r, s'⟩, called, rest⟩ := bind_eq_some_iff.mp listed
    by_cases below : c < least
    · obtain ⟨rfl, rfl⟩ := Prod.mk.inj (some.inj ((small c below).symm.trans called))
      obtain ⟨rs', listed', rfl⟩ := map_eq_some_iff.mp (by simpa [nonzero] using rest)
      exact ih rs' listed' fun r mem => errors r (mem_cons_of_mem _ mem)
    · obtain ⟨failed, other⟩ := bad c r s' (not_lt.mp below) called
      obtain ⟨rs', -, rfl⟩ := map_eq_some_iff.mp (by simpa [failed.ne] using rest)
      exact other (errors r mem_cons_self failed)

/-! ## Readers -/

structure Reader (α : Type) where
  size : α → Nat
  pos : ∀ e, 0 < size e
  /-- A call with a smaller limit fails at once. -/
  least : Int
  /-- What a call returns that fails. -/
  error : Int
  neg : error < 0
  /-- A limit that is large enough for every entry. -/
  big : Nat
  fits : ∀ e, size e ≤ big
  least_le : least ≤ big

namespace Reader

variable (R : Reader α)

/-- The first entries, as long as there is room for them. -/
def batch : Nat → List α → List α
  | _, [] => []
  | room, e :: es => if R.size e ≤ room then e :: batch (room - R.size e) es else []

/-- What a batch leaves. -/
def leftover (room : Nat) (es : List α) : List α := es.drop (R.batch room es).length

def total (es : List α) : Nat := (es.map R.size).sum

/-- Copy entries until one does not fit. The flag says that the list has no end: there is no result
if the reader comes there. -/
def fill (endless : Bool) (limit : Nat) : List α → Nat → List α → Option (Reply α × List α)
  | [], written, taken => if endless then none else some (⟨written, taken⟩, [])
  | e :: es, written, taken =>
    if limit < written + R.size e then
      some (⟨if limit < R.size e then R.error else written, taken⟩, e :: es)
    else fill endless limit es (written + R.size e) (taken ++ [e])

def read (endless : Bool) (c : Int) (es : List α) : Option (Reply α × List α) :=
  if c < R.least then some (⟨R.error, []⟩, es) else R.fill endless c.toNat es 0 []

def next (c : Int) (es : List α) : List α := if c < R.least then es else R.leftover c.toNat es

/-- If an entry is larger than the limit, it is the first. -/
def Lossless (c : Int) (es : List α) : Prop :=
  R.least ≤ c → ∀ e ∈ (R.leftover c.toNat es).head?, c.toNat < R.size e → R.batch c.toNat es = []

def LosslessRun : List Int → List α → Prop
  | [], _ => True
  | c :: cs, es => R.Lossless c es ∧ LosslessRun cs (R.next c es)

variable {R} {endless : Bool} {c : Int} {cs more : List Int} {es es' all : List α} {e : α}
  {room : Nat} {r : Reply α} {rs : List (Reply α)}

lemma batch_append_leftover : R.batch room es ++ R.leftover room es = es := by
  induction es generalizing room with
  | nil => rfl
  | cons e es ih =>
    simp only [leftover, batch]
    split
    · simpa [leftover] using ih
    · rfl

lemma batch_ne_nil (small : R.size e ≤ room) : R.batch room (e :: es) ≠ [] := by
  simp [batch, small]

variable {limit written : Nat} {taken : List α}

lemma fill_of_lt (large : limit < written + R.size e) :
    R.fill endless limit (e :: es) written taken =
      some (⟨if limit < R.size e then R.error else written, taken⟩, e :: es) :=
  if_pos large

lemma fill_of_le (small : ¬ limit < written + R.size e) :
    R.fill endless limit (e :: es) written taken =
      R.fill endless limit es (written + R.size e) (taken ++ [e]) :=
  if_neg small

theorem fill_eq (le : written ≤ limit) :
    R.fill endless limit es written taken =
      let batch := R.batch (limit - written) es
      match R.leftover (limit - written) es with
      | [] => if endless then none else some (⟨(written + R.total batch : Nat), taken ++ batch⟩, [])
      | e :: rest => some (⟨if limit < R.size e then R.error else (written + R.total batch : Nat),
          taken ++ batch⟩, e :: rest) := by
  induction es generalizing written taken with
  | nil => simp [fill, leftover, batch, total]
  | cons e es ih =>
    unfold fill
    by_cases small : R.size e ≤ limit - written
    · rw [if_neg (by omega), ih (by omega), ← Nat.sub_sub]
      simp [leftover, batch, small, total, Nat.add_assoc]
    · rw [if_pos (by omega)]
      simp [leftover, batch, small, total]

/-- A call fails at once, returns the rest, fails, or returns a part. -/
inductive Reads (R : Reader α) (endless : Bool) (c : Int) (es : List α) :
    Reply α → List α → Prop where
  | least : c < R.least → Reads R endless c es ⟨R.error, []⟩ es
  | rest : R.least ≤ c → endless = false → R.batch c.toNat es = es →
      Reads R endless c es ⟨R.total es, es⟩ []
  | fails {e : α} {rest : List α} : R.least ≤ c → c.toNat < R.size e →
      R.batch c.toNat es ++ e :: rest = es →
      Reads R endless c es ⟨R.error, R.batch c.toNat es⟩ (e :: rest)
  | part {e : α} {rest : List α} : R.least ≤ c → R.size e ≤ c.toNat →
      R.batch c.toNat es ++ e :: rest = es → R.batch c.toNat es ≠ [] →
      Reads R endless c es ⟨R.total (R.batch c.toNat es), R.batch c.toNat es⟩ (e :: rest)

lemma reads_of_read (h : R.read endless c es = some (r, es')) :
    Reads R endless c es r es' ∧ es' = R.next c es := by
  unfold read at h
  unfold next
  by_cases least : c < R.least
  · obtain ⟨rfl, rfl⟩ : _ ∧ _ := by simpa [least] using h
    simp [least, Reads.least least]
  simp only [if_neg least, fill_eq (Nat.zero_le _), Nat.sub_zero, Nat.zero_add, nil_append]
    at h ⊢
  rw [not_lt] at least
  have parts : R.batch c.toNat es ++ R.leftover c.toNat es = es := batch_append_leftover
  cases left : R.leftover c.toNat es with
  | nil =>
    cases endless with
    | true => simp [left] at h
    | false =>
      rw [left, append_nil] at parts
      obtain ⟨rfl, rfl⟩ : _ ∧ _ := by simpa [left, parts] using h
      exact ⟨.rest least rfl parts, rfl⟩
  | cons e rest =>
    rw [left] at parts
    simp only [left, some.injEq, Prod.mk.injEq] at h
    obtain ⟨rfl, rfl⟩ := h
    by_cases large : c.toNat < R.size e
    · simpa [large] using Reads.fails least large parts
    · have some_taken : R.batch c.toNat es ≠ [] := by
        intro none_taken
        rw [none_taken, nil_append] at parts
        exact batch_ne_nil (not_lt.mp large) (parts ▸ none_taken)
      simpa [large] using Reads.part least (not_lt.mp large) parts some_taken

lemma exists_read (c : Int) (es : List α) : ∃ r, R.read false c es = some (r, R.next c es) := by
  unfold read next
  split
  · exact ⟨_, rfl⟩
  · rw [fill_eq (Nat.zero_le _), Nat.sub_zero]
    cases R.leftover c.toNat es with
    | nil => exact ⟨_, rfl⟩
    | cons e rest => exact ⟨_, rfl⟩

lemma total_pos (some_taken : es ≠ []) : 0 < R.total es := by
  obtain ⟨e, es, rfl⟩ := exists_cons_of_ne_nil some_taken
  have := R.pos e
  simp only [total, map_cons, sum_cons]
  omega

@[simp] lemma delivered_error : (Reply.mk R.error es).delivered = [] := by
  simp [Reply.delivered, R.neg]

@[simp] lemma delivered_total : (Reply.mk (R.total es) es').delivered = es' := by
  simp [Reply.delivered]

namespace Reads

lemma ret_eq_zero (h : Reads R endless c es r es') (zero : r.ret = 0) :
    endless = false ∧ es = [] := by
  have neg := R.neg
  cases h with
  | least => exact absurd zero (by simp only; omega)
  | rest _ ends _ =>
    refine ⟨ends, ?_⟩
    by_contra some_left
    have := total_pos (R := R) some_left
    simp only at zero
    omega
  | fails => exact absurd zero (by simp only; omega)
  | part _ _ _ some_taken =>
    have := total_pos (R := R) some_taken
    simp only at zero
    omega

theorem length_le (h : Reads R endless c es r es') :
    r.delivered.length + es'.length ≤ es.length := by
  cases h with
  | least => simp
  | rest => simp
  | fails _ _ parts =>
    have := congrArg List.length parts
    simp only [delivered_error, length_append, length_nil] at this ⊢
    omega
  | part _ _ parts =>
    have := congrArg List.length parts
    simp only [delivered_total, length_append] at this ⊢
    omega

lemma leftover_eq {rest : List α} (parts : R.batch room es ++ rest = es) :
    R.leftover room es = rest :=
  append_cancel_left (batch_append_leftover.trans parts.symm)

variable (h : Reads R endless c es r es')
include h

lemma ret_of_neg (failed : r.ret < 0) : r.ret = R.error := by
  cases h with
  | least => rfl
  | rest => exact absurd failed (by simp)
  | fails => rfl
  | part => exact absurd failed (by simp)

/-- If nothing is lost, the call has not failed after it took something. -/
theorem lossless (all : es.length ≤ r.delivered.length + es'.length) : R.Lossless c es := by
  intro least e first large
  cases h with
  | least below => omega
  | rest _ _ parts => simp [leftover, parts] at first
  | fails _ _ parts =>
    have := congrArg List.length parts
    simp only [delivered_error, length_append, length_nil] at this all
    exact eq_nil_of_length_eq_zero (by omega)
  | part _ small parts _ =>
    rw [leftover_eq parts] at first
    cases first
    omega

lemma append (lossless : R.Lossless c es) :
    r.delivered ++ es' = es := by
  cases h with
  | least => simp
  | rest => simp
  | fails least large parts =>
    have none_taken := lossless least _ (by rw [leftover_eq parts]; rfl) large
    simpa [none_taken] using parts
  | part _ _ parts => simpa using parts

theorem length_lt (large : R.big ≤ c) (more : r.ret ≠ 0) :
    es'.length < es.length := by
  have least_le := R.least_le
  cases h with
  | least below => omega
  | rest =>
    rw [length_nil, length_pos_iff]
    rintro rfl
    exact more rfl
  | @fails e _ _ small =>
    have := R.fits e
    omega
  | part _ _ parts some_taken =>
    have := congrArg List.length parts
    have := length_pos_iff.mpr some_taken
    rw [length_append] at *
    omega

end Reads

lemma lossless_of_big (large : R.big ≤ c) : R.Lossless c es := by
  intro _ e _ small
  have := R.fits e
  omega

/-! ## Sequences of calls -/

/-- The first reply is 0, or the listing goes on. -/
theorem listing_cons (h : listing (R.read endless) (c :: cs) es = some rs) :
    ∃ r, Reads R endless c es r (R.next c es) ∧
      (r.ret = 0 ∧ rs = [r] ∨ r.ret ≠ 0 ∧
        ∃ rs', listing (R.read endless) cs (R.next c es) = some rs' ∧ rs = r :: rs') := by
  obtain ⟨⟨r, es'⟩, ran, h⟩ := bind_eq_some_iff.mp h
  obtain ⟨reads, rfl⟩ := reads_of_read ran
  refine ⟨r, reads, ?_⟩
  by_cases zero : r.ret = 0
  · exact .inl ⟨zero, by simpa [zero] using h.symm⟩
  · obtain ⟨rs', rest, rfl⟩ := map_eq_some_iff.mp (by simpa only [if_neg zero] using h)
    exact .inr ⟨zero, rs', rest, rfl⟩

lemma exists_listing (cs : List Int) (es : List α) :
    ∃ rs, listing (R.read false) cs es = some rs := by
  induction cs generalizing es with
  | nil => exact ⟨[], rfl⟩
  | cons c cs ih =>
    obtain ⟨r, ran⟩ := exists_read (R := R) c es
    obtain ⟨rs, rest⟩ := ih (R.next c es)
    simp only [listing, ran, rest, bind_some]
    split
    · exact ⟨_, rfl⟩
    · exact ⟨_, rfl⟩

@[simp] lemma next_nil : R.next c [] = [] := by
  simp [next, leftover]

lemma losslessRun_nil (cs : List Int) : R.LosslessRun cs [] := by
  induction cs with
  | nil => trivial
  | cons c cs ih => exact ⟨by simp [Lossless, leftover], by simpa using ih⟩

lemma losslessRun_append (cs : List Int) (large : ∀ c ∈ more, R.big ≤ c) (h : R.LosslessRun cs es) :
    R.LosslessRun (cs ++ more) es := by
  induction cs generalizing es with
  | nil =>
    induction more generalizing es with
    | nil => trivial
    | cons c more ih =>
      exact ⟨lossless_of_big (large c mem_cons_self),
        ih (fun c mem => large c (mem_cons_of_mem _ mem)) trivial⟩
  | cons c cs ih => exact ⟨h.1, ih h.2⟩

@[simp] lemma delivered_nil : delivered ([] : List (Reply α)) = [] := rfl

@[simp] lemma delivered_cons : delivered (r :: rs) = r.delivered ++ delivered rs := rfl

lemma losslessRun_of_append (h : R.LosslessRun (cs ++ more) es) : R.LosslessRun cs es := by
  induction cs generalizing es with
  | nil => trivial
  | cons c cs ih => exact ⟨h.1, ih h.2⟩

section

variable (h : listing (R.read endless) cs es = some rs)
include h

lemma delivered_length_le :
    (delivered rs).length ≤ es.length := by
  induction cs generalizing es rs with
  | nil =>
    obtain rfl : [] = rs := by simpa [listing] using h
    exact Nat.zero_le _
  | cons c cs ih =>
    obtain ⟨r, reads, ⟨_, rfl⟩ | ⟨_, rs', rest, rfl⟩⟩ := listing_cons h
    · have := reads.length_le
      simp only [delivered_cons, delivered_nil, append_nil]
      omega
    · have := reads.length_le
      have := ih rest
      rw [delivered_cons, length_append]
      omega

lemma ret_of_neg (mem : r ∈ rs) (failed : r.ret < 0) : r.ret = R.error := by
  induction cs generalizing es rs with
  | nil =>
    obtain rfl : [] = rs := by simpa [listing] using h
    cases mem
  | cons c cs ih =>
    obtain ⟨r', reads, ⟨_, rfl⟩ | ⟨_, rs', rest, rfl⟩⟩ := listing_cons h
    · obtain rfl := mem_singleton.mp mem
      exact reads.ret_of_neg failed
    · obtain rfl | mem := mem_cons.mp mem
      · exact reads.ret_of_neg failed
      · exact ih rest mem

/-- If the caller gets as many entries as there are, none is lost. -/
theorem losslessRun_of_length (all : es.length ≤ (delivered rs).length) : R.LosslessRun cs es := by
  induction cs generalizing es rs with
  | nil => trivial
  | cons c cs ih =>
    obtain ⟨r, reads, ⟨zero, rfl⟩ | ⟨_, rs', rest, rfl⟩⟩ := listing_cons h
    · obtain ⟨-, rfl⟩ := reads.ret_eq_zero zero
      exact losslessRun_nil _
    · have := reads.length_le
      have := delivered_length_le rest
      rw [delivered_cons, length_append] at all
      exact ⟨reads.lossless (by omega), ih rest (by omega)⟩

theorem delivered_append (lossless : R.LosslessRun cs es) :
    ∃ rest, delivered rs ++ rest = es ∧ ((∃ r ∈ rs, r.ret = 0) → rest = []) := by
  induction cs generalizing es rs with
  | nil =>
    obtain rfl : [] = rs := by simpa [listing] using h
    exact ⟨es, rfl, by simp⟩
  | cons c cs ih =>
    obtain ⟨r, reads, ⟨zero, rfl⟩ | ⟨more, rs', listed, rfl⟩⟩ := listing_cons h
    · obtain ⟨-, rfl⟩ := reads.ret_eq_zero zero
      exact ⟨[], by simpa using reads.append lossless.1, fun _ => rfl⟩
    · obtain ⟨rest, parts, ends⟩ := ih listed lossless.2
      refine ⟨rest, ?_, fun ⟨r', mem, zero⟩ => ends ⟨r', ?_, zero⟩⟩
      · rw [delivered_cons, append_assoc, parts]
        exact reads.append lossless.1
      · exact (mem_cons.mp mem).resolve_left fun eq => more (eq ▸ zero)

end

theorem ends_of_big (cs : List Int) (h : listing (R.read endless) (cs ++ more) es = some rs)
    (large : ∀ c ∈ more, R.big ≤ c) (long : es.length < more.length) :
    endless = false ∧ ∃ r ∈ rs, r.ret = 0 := by
  induction cs generalizing es rs with
  | nil =>
    induction more generalizing es rs with
    | nil => simp at long
    | cons c more ih =>
      obtain ⟨r, reads, ⟨zero, rfl⟩ | ⟨goes_on, rs', listed, rfl⟩⟩ := listing_cons h
      · exact ⟨(reads.ret_eq_zero zero).1, r, mem_cons_self, zero⟩
      · have nearer := reads.length_lt (large c mem_cons_self) goes_on
        obtain ⟨ends, r', mem, zero⟩ := ih (fun c mem => large c (mem_cons_of_mem _ mem))
          listed (by rw [length_cons] at long; omega)
        exact ⟨ends, r', mem_cons_of_mem _ mem, zero⟩
  | cons c cs ih =>
    obtain ⟨r, reads, ⟨zero, rfl⟩ | ⟨_, rs', listed, rfl⟩⟩ := listing_cons h
    · exact ⟨(reads.ret_eq_zero zero).1, r, mem_cons_self, zero⟩
    · have := reads.length_le
      obtain ⟨ends, r', mem, zero⟩ := ih listed (by omega)
      exact ⟨ends, r', mem_cons_of_mem _ mem, zero⟩

/-- The caller of `cs` gets the whole list, whatever calls with a large limit follow, exactly if
none of the calls of `cs` fails after it has taken something. -/
theorem complete_iff (endless : Bool) (cs : List Int) (le : es.length ≤ all.length) :
    (∀ more : List Int, (∀ c ∈ more, R.big ≤ c) →
      Complete R.error (R.read endless) es all (cs ++ more)) ↔
      endless = false ∧ es = all ∧ R.LosslessRun cs es := by
  constructor
  · intro complete
    have large : ∀ c ∈ List.replicate (es.length + 1) (R.big : Int), (R.big : Int) ≤ c :=
      fun c mem => (eq_of_mem_replicate mem).ge
    obtain ⟨rs, listed, _, _, all_delivered⟩ := complete _ large
    obtain ⟨ends, zero⟩ := ends_of_big cs listed large (by simp)
    have delivered := all_delivered zero
    have lossless := losslessRun_of_length listed (by rw [delivered]; exact le)
    obtain ⟨rest, parts, no_rest⟩ := delivered_append listed lossless
    rw [no_rest zero, append_nil] at parts
    exact ⟨ends, parts.symm.trans delivered, losslessRun_of_append lossless⟩
  · rintro ⟨rfl, rfl, lossless⟩ more large
    obtain ⟨rs, listed⟩ := exists_listing (cs ++ more) es
    obtain ⟨rest, parts, no_rest⟩ := delivered_append listed (losslessRun_append cs large lossless)
    refine ⟨rs, listed, fun r mem => ret_of_neg listed mem, ⟨rest, parts⟩, fun zero => ?_⟩
    rw [← parts, no_rest zero, append_nil]

end Reader

end ExscapeOS.Lib
