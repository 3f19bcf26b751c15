import Mathlib.Tactic
import ExscapeOS.Kernel.Fat.Dir

/-!
# What earlier parses leave behind

The entries and long names that `fat_parse_dir` reports depend on the disk and the directory only,
if `have_lfn` is false when the parse begins. But it stays set when the callback stops a parse at an
entry with a long name, and then the next parse gives this name to the first entry that has none.
-/
namespace ExscapeOS.Fat

open Lib Option

variable {σ : Type} {callback : Callback σ} {part : Partition} {s s' : Statics}

/-! ## Parses in lockstep -/

/-- The two sets of variables mean the same long name, or none. -/
def Statics.same (s s' : Statics) : Prop :=
  s.haveLfn = s'.haveLfn ∧
    (s.haveLfn = true → ∀ i : Int, 0 ≤ i → i < 256 → s.lfnBuf i = s'.lfnBuf i)

/-- Two parses that have made the same calls. -/
structure Alike (p p' : Parse σ) : Prop where
  statics : p.statics.same p'.statics
  data : p.data = p'.data
  calls : p.calls = p'.calls

lemma Statics.same.lfn (h : s.same s') : s.lfn = s'.lfn := by
  unfold Statics.lfn
  rw [← h.1]
  split
  · case isTrue lfn =>
    have chars : ((List.range 256).map fun i : Nat => s.lfnBuf i) =
        (List.range 256).map fun i : Nat => s'.lfnBuf i := by
      refine List.map_congr_left fun i mem => h.2 lfn i (Int.natCast_nonneg i) ?_
      exact_mod_cast List.mem_range.mp mem
    rw [parseLfn, parseLfn, chars]
  · rfl

lemma Statics.same.lfnEntry (e : Direntry) (h : s.same s') :
    (lfnEntry e s).same (lfnEntry e s') := by
  unfold Fat.lfnEntry
  by_cases last : e 0 &&& 0x40 ≠ 0
  · -- the buffer is cleared, so that both copies go to the same contents
    simp only [if_pos last]
    refine ⟨rfl, fun _ i low high => ?_⟩
    simp [copyLfn, clearLfn, low, high]
  · simp only [if_neg last]
    refine ⟨h.1, fun lfn i low high => ?_⟩
    simp [copyLfn, h.2 lfn i low high]

variable {p p' : Parse σ}

lemma Alike.parseEntry (e : Direntry) (h : Alike p p') :
    Lockstep (fun r r' => Alike r.1 r'.1 ∧ r.2 = r'.2) (parseEntry callback e p)
      (parseEntry callback e p') := by
  unfold Fat.parseEntry
  split_ifs
  · exact .both ⟨h, rfl⟩
  · exact .both ⟨h, rfl⟩
  · exact .both ⟨⟨h.statics.lfnEntry e, h.data, h.calls⟩, rfl⟩
  · rw [h.statics.lfn, h.data, h.calls]
    cases callback p'.data e p'.statics.lfn with
    | none => exact .stop
    | some r =>
      obtain ⟨data, more⟩ := r
      cases more
      · exact .both ⟨⟨h.statics, rfl, rfl⟩, rfl⟩
      · exact .both ⟨⟨⟨rfl, nofun⟩, rfl, rfl⟩, rfl⟩

lemma Alike.parseEntries (es : List Direntry) (h : Alike p p') :
    Lockstep (fun r r' => Alike r.1 r'.1 ∧ r.2 = r'.2) (parseEntries callback es p)
      (parseEntries callback es p') := by
  induction es generalizing p p' with
  | nil => exact .both ⟨h, rfl⟩
  | cons e rest ih =>
    simp only [Fat.parseEntries]
    split_ifs
    · exact .both ⟨h, rfl⟩
    · refine (h.parseEntry e).bind fun r r' _ _ ⟨alike, more⟩ => ?_
      rw [← more]
      split_ifs
      · exact ih alike
      · exact .both ⟨alike, rfl⟩

/-- The calls that a parse has made, and the data of the callback. -/
def Parse.report (p : Parse σ) : σ × List (Direntry × Option Name) := (p.data, p.calls)

lemma Alike.report (h : Alike p p') : p.report = p'.report := by
  rw [Parse.report, h.data, h.calls]
  rfl

/-- What is the same for parses that are alike is the same at their ends. -/
lemma Alike.loop {β : Type} (f : Parse σ → β) (respects : ∀ p p', Alike p p' → f p = f p')
    (fuel cluster : Nat) (h : Alike p p') :
    (loop (parseCluster part callback) fuel (cluster, p)).map (Option.map f) =
      (loop (parseCluster part callback) fuel (cluster, p')).map (Option.map f) := by
  induction fuel generalizing cluster p p' with
  | zero => rfl
  | succ fuel ih =>
    have entries : Lockstep (fun r r' => Alike r.1 r'.1 ∧ r.2 = r'.2)
        (Fat.parseEntries callback (part.direntries cluster) p)
        (Fat.parseEntries callback (part.direntries cluster) p') :=
      h.parseEntries (part.direntries cluster)
    simp only [Lib.loop, parseCluster]
    generalize Fat.parseEntries callback (part.direntries cluster) p = x at *
    generalize Fat.parseEntries callback (part.direntries cluster) p' = y at *
    cases entries with
    | stop => rfl
    | @both r r' related =>
      obtain ⟨r, more⟩ := r
      obtain ⟨r', more'⟩ := r'
      obtain ⟨alike, rfl⟩ := related
      have same := respects r r' alike
      cases more with
      | false => simp [same]
      | true =>
        cases fatReadNextCluster part cluster with
        | none => rfl
        | some next =>
          cases next with
          | none => simp [same]
          | some next => exact ih next alike

/-! ## Histories -/

/-- The variables that some sequence of parses has left. -/
inductive Left : Statics → Prop where
  | boot : Left .boot
  | parse {s : Statics} {σ : Type} {fuel ino : Nat} {part : Partition} {callback : Callback σ}
      {data : σ} {p : Parse σ} : Left s →
      fatParseDir fuel part callback ino s data = some (some p) → Left p.statics

/-- Parses of every directory make the same calls from both. -/
def Agree (s s' : Statics) : Prop :=
  ∀ (σ : Type) (fuel ino : Nat) (part : Partition) (callback : Callback σ) (data : σ),
    (fatParseDir fuel part callback ino s data).map (Option.map Parse.report) =
      (fatParseDir fuel part callback ino s' data).map (Option.map Parse.report)

lemma fatParseDir_same {β : Type} (f : Parse σ → β) (respects : ∀ p p', Alike p p' → f p = f p')
    (h : s.same s') (fuel ino : Nat) (data : σ) :
    (fatParseDir fuel part callback ino s data).map (Option.map f) =
      (fatParseDir fuel part callback ino s' data).map (Option.map f) := by
  unfold fatParseDir
  split_ifs
  · exact Alike.loop f respects fuel ino ⟨h, rfl, rfl⟩
  · rfl

lemma agree_of_same (h : s.same s') : Agree s s' :=
  fun _ fuel ino _ _ data =>
    fatParseDir_same Parse.report (fun _ _ alike => alike.report) h fuel ino data

/-- A directory with one entry, `A`, which has no long name. -/
def shortOnly : Partition where
  fat _ := 0x0fffffff
  data _ i := if i = 0 then 0x41 else if i < 11 then 0x20 else 0
  readable _ := true
  sectorsPerCluster := 1
  pos := Nat.one_pos

/-- A callback that looks at every entry. -/
def visitAll : Callback Unit := fun _ _ _ => some ((), true)

/-- The only entry is reported with the long name that was left behind. -/
lemma parse_shortOnly (s : Statics) : ∃ e : Direntry,
    (fatParseDir 1 shortOnly visitAll 2 s ()).map (Option.map Parse.report) =
      some (some ((), [(e, s.lfn)])) := by
  let e (i : Nat) : Direntry := fun j => shortOnly.data 2 (i * 32 + j)
  obtain ⟨rest, entries⟩ : ∃ rest, shortOnly.direntries 2 = e 0 :: e 1 :: rest := ⟨_, rfl⟩
  refine ⟨e 0, ?_⟩
  have first (p : Parse Unit) : parseEntry visitAll (e 0) p = some ({ p with
      statics := { p.statics with haveLfn := false }, data := (),
      calls := p.calls ++ [(e 0, p.statics.lfn)] }, true) := by
    have name : (e 0) 0 = 0x41 := rfl
    have attrib : (e 0).attrib = 0 := rfl
    simp [parseEntry, name, attrib, visitAll]
  have parsed : parseEntries visitAll (shortOnly.direntries 2) (.start s ()) = some ({
      statics := { s with haveLfn := false }, data := (), calls := [(e 0, s.lfn)] }, false) := by
    have name : (e 0) 0 = 0x41 := rfl
    have last : (e 1) 0 = 0 := rfl
    simp [entries, parseEntries, first, name, last, Parse.start]
  have readable : 2 ≤ 2 ∧ shortOnly.readable 2 = true := ⟨le_rfl, rfl⟩
  rw [fatParseDir, if_pos readable, loop_succ_of_inr (by rw [parseCluster, parsed])]
  rfl

/-- A history leads to the same results as every history that leaves `have_lfn` false, on every disk
and directory, exactly if it leaves `have_lfn` false too. -/
theorem history_independent_iff (s : Statics) :
    (∀ s', Left s' → s'.haveLfn = false → Agree s s') ↔ s.haveLfn = false := by
  constructor
  · intro agrees
    by_contra lfn
    obtain ⟨e, parse⟩ := parse_shortOnly s
    obtain ⟨e', parse'⟩ := parse_shortOnly .boot
    have same := agrees .boot .boot rfl Unit 1 2 shortOnly visitAll ()
    rw [parse, parse'] at same
    simp [Statics.lfn, lfn, Statics.boot] at same
  · intro clean s' _ clean'
    exact agree_of_same ⟨clean.trans clean'.symm, fun lfn => absurd lfn (by simp [clean])⟩

/-- A directory with one entry, `LONG.TXT`, whose long name is `long.text`. -/
def longName : Partition where
  fat _ := 0x0fffffff
  data _ i :=
    ([0x41, 0x6c, 0, 0x6f, 0, 0x6e, 0, 0x67, 0, 0x2e, 0, 0x0f, 0, 0, 0x74, 0, 0x65, 0, 0x78, 0,
      0x74, 0, 0, 0, 0xff, 0xff, 0, 0, 0xff, 0xff, 0xff, 0xff,
      0x4c, 0x4f, 0x4e, 0x47, 0x20, 0x20, 0x20, 0x20, 0x54, 0x58, 0x54] : List UInt8).getD i 0
  readable _ := true
  sectorsPerCluster := 1
  pos := Nat.one_pos

def longText : Name := [0x6c, 0x6f, 0x6e, 0x67, 0x2e, 0x74, 0x65, 0x78, 0x74]

/-- `stat` finds `long.text` and stops. The next parse reports `A` under this name. -/
theorem history_matters : ∃ p : Parse StatData,
    fatParseDir 1 longName (fatCallbackStat longName 0) 2 .boot ⟨longText, none⟩ = some (some p) ∧
    (∃ e, (fatParseDir 1 shortOnly visitAll 2 p.statics ()).map (Option.map Parse.report) =
      some (some ((), [(e, some longText)]))) ∧
    ∃ e, (fatParseDir 1 shortOnly visitAll 2 .boot ()).map (Option.map Parse.report) =
      some (some ((), [(e, none)])) := by
  have lfn : (fatParseDir 1 longName (fatCallbackStat longName 0) 2 .boot ⟨longText, none⟩).bind
      (Option.map fun p => p.statics.lfn) = some (some longText) := by decide +kernel
  obtain ⟨r, ran, lfn⟩ := bind_eq_some_iff.mp lfn
  obtain ⟨p, rfl, left⟩ := map_eq_some_iff.mp lfn
  obtain ⟨e, parse⟩ := parse_shortOnly p.statics
  exact ⟨p, ran, ⟨e, by rw [parse, left]⟩, parse_shortOnly .boot⟩

end ExscapeOS.Fat
