import ExscapeOS.Kernel.Fat.Chain

/-!
# The buffers for long names

`fat_parse_dir` copies the thirteen characters of an entry to the place in `lfn_buf` that the number
of the entry says, and `parse_lfn` ends the converted name with a zero. Both buffers have 256
elements. Nineteen entries fit, and then there is a zero where `parse_lfn` stops; a name of 248 to
255 characters, which FAT allows, has twenty.
-/
namespace ExscapeOS.Fat

open Lib Relation

variable {σ : Type} {part : Partition} {callback : Callback σ} {p q : Parse σ} {s : Statics}
  {e : Direntry} {es : List Direntry}

namespace Direntry

/-- The entry is used as a `fat32_lfn_t`. -/
def isLfn (e : Direntry) : Prop := e 0 ≠ 0xe5 ∧ e.attrib = 0x0f

/-- `lfn->entry & 0x3f`. -/
def lfnNum (e : Direntry) : Nat := (e 0 &&& 0x3f).toNat

/-- `offset`, signed: for the number 0, the copy goes before the buffer. -/
def lfnOffset (e : Direntry) : Int := (e.lfnNum - 1 : Int) * 13

end Direntry

/-- The round for an entry stays within the two buffers. The last index for the converted name is
its length. -/
def inBounds (e : Direntry) (s : Statics) : Prop :=
  if e 0 = 0xe5 then True
  else if e.attrib &&& 0x08 ≠ 0 ∧ e.attrib ≠ 0x0f then True
  else if e.attrib = 0x0f then 0 ≤ e.lfnOffset ∧ e.lfnOffset + 13 ≤ 256
  else s.haveLfn = true → (parseLfn s.lfnBuf).length < 256

/-- The rounds for the entries of a cluster do. -/
def entriesInBounds (callback : Callback σ) : List Direntry → Parse σ → Prop
  | [], _ => True
  | e :: rest, p => e 0 ≠ 0 → inBounds e p.statics ∧
      ∀ q, parseEntry callback e p = some (q, true) → entriesInBounds callback rest q

/-- The parse of a directory does, also if it has no end or panics. -/
def ParsesInBounds (part : Partition) (callback : Callback σ) (ino : Nat) (s : Statics) (data : σ) :
    Prop :=
  2 ≤ ino ∧ part.readable ino → ∀ t,
    ReflTransGen (fun t t' => parseCluster part callback t = .inl t') (ino, .start s data) t →
      entriesInBounds callback (part.direntries t.1) t.2

/-- The entries before the end of the directory have numbers with room. -/
def numbered (es : List Direntry) : Prop :=
  ∀ e ∈ es.takeWhile fun e => e 0 ≠ 0, e.isLfn → 1 ≤ e.lfnNum ∧ e.lfnNum ≤ 19

def Numbered (part : Partition) (ino : Nat) : Prop :=
  2 ≤ ino ∧ part.readable ino → ∀ c, ReflTransGen (Follows part) ino c →
    numbered (part.direntries c)

/-- The variables that some sequence of parses of such directories has left. -/
inductive Kept : Statics → Prop where
  | boot : Kept .boot
  | parse {s : Statics} {σ : Type} {fuel ino : Nat} {part : Partition} {callback : Callback σ}
      {data : σ} {p : Parse σ} : Kept s → Numbered part ino →
      fatParseDir fuel part callback ino s data = some (some p) → Kept p.statics

/-! ## The end of the buffer -/

/-- No entry of the first nineteen comes to the last nine characters. -/
def Statics.terminated (s : Statics) : Prop := ∀ i : Int, 247 ≤ i → i < 256 → s.lfnBuf i = 0

lemma numbered_cons : numbered (e :: es) ↔
    (e 0 ≠ 0 → (e.isLfn → 1 ≤ e.lfnNum ∧ e.lfnNum ≤ 19) ∧ numbered es) := by
  unfold numbered
  by_cases last : e 0 = 0
  · simp [last]
  · simp [last]

lemma Statics.terminated.lfnEntry (tail : s.terminated) (le : e.lfnNum ≤ 19) :
    (lfnEntry e s).terminated := by
  intro i low high
  have past : ¬ (i < e.lfnOffset + 13) := by
    unfold Direntry.lfnOffset
    omega
  have copy (buf : Int → UInt16) (chars : List UInt16) :
      copyLfn e.lfnOffset chars buf i = buf i := if_neg fun h => past h.2
  unfold Fat.lfnEntry
  by_cases first : e 0 &&& 0x40 ≠ 0
  · simp only [if_pos first]
    exact (copy _ _).trans (if_pos ⟨by omega, high⟩)
  · simp only [if_neg first]
    exact (copy _ _).trans (tail i low high)

lemma Statics.terminated.length_parseLfn (tail : s.terminated) :
    (parseLfn s.lfnBuf).length < 256 := by
  by_contra long
  have whole := List.takeWhile_prefix (l := (List.range 256).map fun i : Nat => s.lfnBuf i)
    fun c => decide (c ≠ 0 ∧ c ≠ 0xffff)
  have all := whole.eq_of_length_le (by
    rw [parseLfn, List.length_map] at long
    simpa using long)
  have char := List.takeWhile_eq_self_iff.mp all (s.lfnBuf 255)
    (List.mem_map.mpr ⟨255, by simp, rfl⟩)
  simp [tail 255 (by decide) (by decide)] at char

lemma Statics.terminated.parseEntry {more : Bool} (tail : p.statics.terminated)
    (number : e.isLfn → 1 ≤ e.lfnNum ∧ e.lfnNum ≤ 19)
    (h : parseEntry callback e p = some (q, more)) : q.statics.terminated := by
  unfold Fat.parseEntry at h
  split_ifs at h with deleted label lfn
  · cases h
    exact tail
  · cases h
    exact tail
  · cases h
    exact tail.lfnEntry (number ⟨deleted, lfn⟩).2
  · obtain ⟨⟨data, more'⟩, -, eq⟩ := Option.map_eq_some_iff.mp h
    cases more' with
    | false =>
      cases eq
      exact tail
    | true =>
      cases eq
      exact tail

lemma inBounds_of_terminated (tail : s.terminated)
    (number : e.isLfn → 1 ≤ e.lfnNum ∧ e.lfnNum ≤ 19) : inBounds e s := by
  unfold inBounds
  split_ifs with deleted label lfn
  · obtain ⟨low, high⟩ := number ⟨deleted, lfn⟩
    unfold Direntry.lfnOffset
    omega
  · exact fun _ => tail.length_parseLfn

lemma number_of_inBounds (h : inBounds e s) (lfn : e.isLfn) : 1 ≤ e.lfnNum ∧ e.lfnNum ≤ 19 := by
  rw [inBounds, if_neg lfn.1, if_neg (fun label => label.2 lfn.2), if_pos lfn.2] at h
  unfold Direntry.lfnOffset at h
  omega

/-! ## Clusters and directories -/

lemma entriesInBounds_of_numbered (tail : p.statics.terminated) (numbers : numbered es) :
    entriesInBounds callback es p := by
  induction es generalizing p with
  | nil => trivial
  | cons e es ih =>
    intro valid
    obtain ⟨number, rest⟩ := numbered_cons.mp numbers valid
    exact ⟨inBounds_of_terminated tail number, fun q h => ih (tail.parseEntry number h) rest⟩

lemma numbered_of_entriesInBounds {p : Parse Unit} (h : entriesInBounds visitAll es p) :
    numbered es := by
  induction es generalizing p with
  | nil => simp [numbered]
  | cons e es ih =>
    refine numbered_cons.mpr fun valid => ?_
    obtain ⟨bounds, rest⟩ := h valid
    obtain ⟨q, entry⟩ := parseEntry_visitAll e p
    exact ⟨number_of_inBounds bounds, ih (rest q entry)⟩

lemma Statics.terminated.parseEntries {more : Bool} (tail : p.statics.terminated)
    (numbers : numbered es) (h : parseEntries callback es p = some (q, more)) :
    q.statics.terminated := by
  induction es generalizing p with
  | nil =>
    cases h
    exact tail
  | cons e es ih =>
    unfold Fat.parseEntries at h
    split_ifs at h with last
    · cases h
      exact tail
    · obtain ⟨number, rest⟩ := numbered_cons.mp numbers last
      obtain ⟨⟨p', more'⟩, entry, h⟩ := Option.bind_eq_some_iff.mp h
      have tail' := tail.parseEntry number entry
      cases more' with
      | false =>
        cases h
        exact tail'
      | true => exact ih tail' rest h

/-- What a parse keeps from cluster to cluster. -/
def Within (part : Partition) (ino : Nat) (t : Nat × Parse σ) : Prop :=
  ReflTransGen (Follows part) ino t.1 ∧ t.2.statics.terminated

lemma Within.entries {ino : Nat} {t : Nat × Parse σ} {more : Bool} (within : Within part ino t)
    (numbers : ∀ c, ReflTransGen (Follows part) ino c → numbered (part.direntries c))
    (h : parseEntries callback (part.direntries t.1) t.2 = some (q, more)) : q.statics.terminated :=
  within.2.parseEntries (numbers t.1 within.1) h

lemma parseCluster_state {t : Nat × Parse σ} {q : Parse σ}
    (h : (∃ c, parseCluster part callback t = .inl (c, q)) ∨
      parseCluster part callback t = .inr (some q)) :
    ∃ more, parseEntries callback (part.direntries t.1) t.2 = some (q, more) := by
  unfold parseCluster at h
  cases entries : parseEntries callback (part.direntries t.1) t.2 with
  | none => simp [entries] at h
  | some r =>
    obtain ⟨q', more⟩ := r
    obtain rfl : q' = q := by
      cases more with
      | false => simpa [entries] using h
      | true => rcases next : fatReadNextCluster part t.1 with _ | _ | c' <;> simp_all
    exact ⟨more, rfl⟩

lemma Within.step {ino : Nat} {t t' : Nat × Parse σ} (within : Within part ino t)
    (numbers : ∀ c, ReflTransGen (Follows part) ino c → numbered (part.direntries c))
    (h : parseCluster part callback t = .inl t') : Within part ino t' := by
  obtain ⟨more, entries⟩ := parseCluster_state (.inl ⟨t'.1, h⟩)
  exact ⟨within.1.tail (follows_of_parseCluster h), within.entries numbers entries⟩

lemma Within.result {ino : Nat} {t : Nat × Parse σ} (within : Within part ino t)
    (numbers : ∀ c, ReflTransGen (Follows part) ino c → numbered (part.direntries c))
    (h : parseCluster part callback t = .inr (some q)) : q.statics.terminated := by
  obtain ⟨more, entries⟩ := parseCluster_state (.inr h)
  exact within.entries numbers entries

lemma Kept.terminated (kept : Kept s) : s.terminated := by
  induction kept with
  | boot => exact fun _ _ _ => rfl
  | @parse s σ fuel ino part callback data p _ numbers ran tail =>
    unfold fatParseDir at ran
    split_ifs at ran with valid
    · obtain ⟨t, within, last⟩ := loop_invariant (Within part ino)
        (fun _ _ within h => within.step (numbers valid) h) ⟨.refl, tail⟩ ran
      exact within.result (numbers valid) last
    · cases ran

/-- After parses that met the condition, all parses of a directory stay within the buffers, exactly
if the entries for long names have numbers from 1 to 19. -/
theorem parsesInBounds_iff (kept : Kept s) (part : Partition) (ino : Nat) :
    (∀ (σ : Type) (callback : Callback σ) (data : σ), ParsesInBounds part callback ino s data) ↔
      Numbered part ino := by
  constructor
  · intro bounds valid c chain
    have reach : ∃ p, ReflTransGen (fun t t' => parseCluster part visitAll t = .inl t')
        (ino, .start s ()) (c, p) := by
      induction chain with
      | refl => exact ⟨_, .refl⟩
      | tail _ follows ih =>
        obtain ⟨p, reach⟩ := ih
        obtain ⟨p', round⟩ := parseCluster_visitAll follows
        exact ⟨p', reach.tail round⟩
    obtain ⟨p, reach⟩ := reach
    exact numbered_of_entriesInBounds (bounds Unit visitAll () valid _ reach)
  · intro numbers σ callback data valid t reach
    have within : Within part ino t := by
      induction reach with
      | refl => exact ⟨.refl, kept.terminated⟩
      | tail _ round ih => exact ih.step (numbers valid) round
    exact entriesInBounds_of_numbered within.2 (numbers valid t.1 within.1)

theorem longName_inBounds : Kept .boot ∧ ∀ (σ : Type) (callback : Callback σ) (data : σ),
    ParsesInBounds longName callback 2 .boot data := by
  refine ⟨.boot, (parsesInBounds_iff .boot longName 2).mpr fun _ c chain => ?_⟩
  obtain rfl | ⟨d, follows, -⟩ := chain.cases_head
  · let e (i : Nat) : Direntry := fun j => longName.data 2 (i * 32 + j)
    have short : ¬ (e 1).isLfn := fun lfn => absurd lfn.2 (by decide +kernel)
    have last : (e 2) 0 = 0 := rfl
    refine numbered_cons.mpr fun _ => ⟨fun _ => by decide +kernel, ?_⟩
    refine numbered_cons.mpr fun _ => ⟨fun lfn => absurd lfn short, ?_⟩
    exact numbered_cons.mpr fun valid => absurd last valid
  · cases follows.2

/-- A directory with one entry, `AAAAAA~1`, whose long name is 255 times `a`. -/
def longestName : Partition where
  fat _ := 0x0fffffff
  data _ i :=
    if i < 32 then
      ([0x54, 0x61, 0, 0x61, 0, 0x61, 0, 0x61, 0, 0x61, 0, 0x0f, 0, 0xb4, 0x61, 0, 0x61, 0, 0x61, 0,
        0, 0, 0xff, 0xff, 0xff, 0xff, 0, 0, 0xff, 0xff, 0xff, 0xff] : List UInt8).getD i 0
    else if i < 640 then
      ([(20 - i / 32).toUInt8, 0x61, 0, 0x61, 0, 0x61, 0, 0x61, 0, 0x61, 0, 0x0f, 0, 0xb4, 0x61, 0,
        0x61, 0, 0x61, 0, 0x61, 0, 0x61, 0, 0x61, 0, 0, 0, 0x61, 0, 0x61, 0] : List UInt8).getD
          (i % 32) 0
    else
      ([0x41, 0x41, 0x41, 0x41, 0x41, 0x41, 0x7e, 0x31, 0x20, 0x20, 0x20] : List UInt8).getD
        (i - 640) 0
  readable _ := true
  sectorsPerCluster := 2
  pos := by decide

/-- The first round copies thirteen characters to index 247. -/
theorem longestName_outOfBounds :
    ¬ ParsesInBounds longestName (fatCallbackStat longestName 0) 2 .boot ⟨longText, none⟩ := by
  intro bounds
  have first := bounds ⟨le_rfl, rfl⟩ _ .refl
  have number := number_of_inBounds (first (by decide)).1 ⟨by decide, by decide⟩
  exact absurd number.2 (by decide)

end ExscapeOS.Fat
