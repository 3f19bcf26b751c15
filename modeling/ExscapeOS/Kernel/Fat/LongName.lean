import Mathlib.Data.List.GetD
import ExscapeOS.Kernel.Fat.History

/-!
# Long names

A long name is cut into pieces of thirteen characters. Their entries stand in front of the entry for
the short name, the last piece first. If the last piece is shorter, it ends with a zero and is
filled up with `0xffff`.

The clusters of a directory are parsed like the sequence of all their entries.
-/
namespace ExscapeOS.Fat

open Lib List Option

variable {σ : Type} {part : Partition} {callback : Callback σ} {p : Parse σ}

/-! ## The entries of all clusters -/

/-- The clusters of a directory, from `c` to the end of the chain. -/
inductive Clusters (part : Partition) : Nat → List Nat → Prop where
  | last {c : Nat} : fatReadNextCluster part c = some none → Clusters part c [c]
  | cons {c c' : Nat} {cs : List Nat} : fatReadNextCluster part c = some (some c') →
      Clusters part c' cs → Clusters part c (c :: cs)

lemma parseEntries_append (es es' : List Direntry) :
    parseEntries callback (es ++ es') p = (parseEntries callback es p).bind fun (q, more) =>
      if more then parseEntries callback es' q else some (q, false) := by
  induction es generalizing p with
  | nil => rfl
  | cons e es ih =>
    rw [cons_append, parseEntries, parseEntries]
    split_ifs with last
    · rfl
    · rw [bind_assoc]
      congr 1
      funext r
      obtain ⟨q, more⟩ := r
      cases more with
      | false => rfl
      | true => exact ih

lemma loop_clusters {c fuel : Nat} {cs : List Nat} (chain : Clusters part c cs)
    (enough : cs.length ≤ fuel) :
    loop (parseCluster part callback) fuel (c, p) =
      some ((parseEntries callback (cs.flatMap part.direntries) p).map Prod.fst) := by
  induction chain generalizing fuel p with
  | @last c next =>
    obtain ⟨fuel, rfl⟩ := Nat.exists_eq_add_of_le' (Nat.one_le_of_lt enough)
    rcases entries : parseEntries callback (part.direntries c) p with _ | ⟨q, _ | _⟩
    · exact loop_succ_of_inr (by simp [parseCluster, entries])
    · exact loop_succ_of_inr (by simp [parseCluster, entries])
    · exact loop_succ_of_inr (by simp [parseCluster, entries, next])
  | @cons c c' cs next _ ih =>
    obtain ⟨fuel, rfl⟩ := Nat.exists_eq_add_of_le' (Nat.one_le_of_lt enough)
    rw [flatMap_cons, parseEntries_append]
    rcases entries : parseEntries callback (part.direntries c) p with _ | ⟨q, _ | _⟩
    · exact loop_succ_of_inr (by simp [parseCluster, entries])
    · exact loop_succ_of_inr (by simp [parseCluster, entries])
    · have step : parseCluster part callback (c, p) = .inl (c', q) := by
        simp [parseCluster, entries, next]
      rw [loop_succ_of_inl step]
      exact ih (Nat.le_of_succ_le_succ enough)

lemma Clusters.two_le {c : Nat} {cs : List Nat} (chain : Clusters part c cs) : 2 ≤ c := by
  by_contra small
  have panics : fatReadNextCluster part c = none := by
    simp [fatReadNextCluster, fatNextCluster, not_le.mp small]
  cases chain with
  | last next => simp [panics] at next
  | cons next _ => simp [panics] at next

lemma fatParseDir_clusters {ino fuel : Nat} {cs : List Nat} (chain : Clusters part ino cs)
    (readable : part.readable ino) (enough : cs.length ≤ fuel) (s : Statics) (data : σ) :
    fatParseDir fuel part callback ino s data =
      some ((parseEntries callback (cs.flatMap part.direntries) (.start s data)).map Prod.fst) := by
  rw [fatParseDir, if_pos ⟨chain.two_le, readable⟩]
  exact loop_clusters chain enough

/-! ## Encoding -/

/-- The characters of the pieces. -/
def padLfn (name : List UInt16) : List UInt16 :=
  if name.length % 13 = 0 then name
  else name ++ 0 :: List.replicate (12 - name.length % 13) 0xffff

/-- The entries for the first `n` pieces, the last one first. The last piece of the name has a mark.
-/
inductive LfnEntries (chars : List UInt16) : Bool → Nat → List Direntry → Prop where
  | nil : LfnEntries chars false 0 []
  | cons {last : Bool} {n : Nat} {e : Direntry} {es : List Direntry} :
      e 0 = (n + 1).toUInt8 ||| (if last then 0x40 else 0) → e.attrib = 0x0f →
      e.lfnChars = (chars.drop (n * 13)).take 13 → LfnEntries chars false n es →
      LfnEntries chars last (n + 1) (e :: es)

/-- The entries in front of that for the short name. -/
def EncodesLfn (name : List UInt16) (es : List Direntry) : Prop :=
  LfnEntries (padLfn name) true ((padLfn name).length / 13) es

/-- The name without characters that are not ASCII. -/
def asciiName (name : List UInt16) : Name :=
  name.map fun c => if c &&& 0xff80 = 0 then c.toUInt8 else 0x5f

/-- Names that an entry can have. -/
structure LongName (name : List UInt16) : Prop where
  pos : 1 ≤ name.length
  le : name.length ≤ 247
  units : ∀ c ∈ name, c ≠ 0 ∧ c ≠ 0xffff

/-! ## Decoding -/

/-- All characters from the piece `n` on are in the buffer. -/
def Collected (chars : List UInt16) (n : Nat) (lfnBuf : Int → UInt16) : Prop :=
  ∀ i : Nat, i < 256 → n * 13 ≤ i → lfnBuf i = chars.getD i 0

lemma Collected.copyLfn {chars : List UInt16} {n : Nat} {lfnBuf : Int → UInt16}
    (h : Collected chars (n + 1) lfnBuf) :
    Collected chars n (copyLfn (n * 13 : Nat) ((chars.drop (n * 13)).take 13) lfnBuf) := by
  intro i lt ge
  unfold Fat.copyLfn
  by_cases inside : i < n * 13 + 13
  · rw [if_pos (by omega)]
    have place : ((i : Int) - (n * 13 : Nat)).toNat = i - n * 13 := by omega
    have index : n * 13 + (i - n * 13) = i := by omega
    rw [place, getD_eq_getElem?_getD, getD_eq_getElem?_getD, getElem?_take,
      if_pos (by omega), getElem?_drop, index]
  · rw [if_neg (by omega)]
    exact h i lt (by omega)

lemma clearLfn_eq {i : Nat} (lt : i < 256) (lfnBuf : Int → UInt16) : clearLfn lfnBuf i = 0 :=
  if_pos ⟨Int.natCast_nonneg i, by exact_mod_cast lt⟩

lemma lfn_byte {n : Nat} (le : n < 19) (last : Bool) :
    let b := (n + 1).toUInt8 ||| (if last then 0x40 else 0)
    b ≠ 0 ∧ b ≠ 0xe5 ∧ (b &&& 0x40 ≠ 0 ↔ last = true) ∧ (b &&& 0x3f).toNat = n + 1 := by
  have all : ∀ n : Fin 19, ∀ last : Bool,
      let b := (n.val + 1).toUInt8 ||| (if last then 0x40 else 0)
      b ≠ 0 ∧ b ≠ 0xe5 ∧ (b &&& 0x40 ≠ 0 ↔ last = true) ∧ (b &&& 0x3f).toNat = n.val + 1 := by
    decide
  exact all ⟨n, le⟩ last

/-- The entries of a long name collect its characters in a cleared buffer. -/
lemma LfnEntries.parse (callback : Callback σ) {p : Parse σ} {chars : List UInt16} {last : Bool}
    {n : Nat} {es : List Direntry} (entries : LfnEntries chars last n es) (le : n ≤ 19)
    (whole : last = true → chars.length ≤ n * 13)
    (started : last = false → p.statics.haveLfn = true ∧ Collected chars n p.statics.lfnBuf)
    (rest : List Direntry) :
    ∃ s, parseEntries callback (es ++ rest) p = parseEntries callback rest { p with statics := s } ∧
      s.haveLfn = true ∧ Collected chars 0 s.lfnBuf := by
  induction entries generalizing p with
  | nil => exact ⟨p.statics, rfl, started rfl⟩
  | @cons last n e es byte attrib piece _ ih =>
    obtain ⟨valid, live, mark, number⟩ := lfn_byte (Nat.lt_of_succ_le le) last
    rw [← byte] at valid live mark number
    have offset : ((e 0 &&& 0x3f).toNat - 1 : Int) * 13 = (n * 13 : Nat) := by
      omega
    have before : (lfnEntry e p.statics).haveLfn = true ∧
        Collected chars n (lfnEntry e p.statics).lfnBuf := by
      unfold lfnEntry
      dsimp only
      rw [offset, piece]
      cases last with
      | true =>
        rw [if_pos (mark.mpr rfl)]
        refine ⟨rfl, Collected.copyLfn fun i lt ge => ?_⟩
        rw [getD_eq_default _ _ ((whole rfl).trans ge)]
        dsimp only
        rw [clearLfn_eq lt]
      | false =>
        rw [if_neg fun h => Bool.false_ne_true (mark.mp h)]
        obtain ⟨flag, collected⟩ := started rfl
        exact ⟨flag, collected.copyLfn⟩
    have step : parseEntry callback e p =
        some ({ p with statics := lfnEntry e p.statics }, true) := by
      rw [parseEntry, if_neg live, if_neg fun label => label.2 attrib, if_pos attrib]
    obtain ⟨s, parsed, done⟩ := ih (p := { p with statics := lfnEntry e p.statics })
      (by omega) (by simp) fun _ => before
    refine ⟨s, ?_, done⟩
    rw [cons_append, parseEntries, if_neg valid, step]
    exact parsed

lemma padLfn_length (name : List UInt16) :
    (padLfn name).length % 13 = 0 ∧ (padLfn name).length < name.length + 13 := by
  unfold padLfn
  split_ifs with multiple
  · omega
  · simp only [length_append, length_cons, length_replicate]
    omega

lemma padLfn_getD (name : List UInt16) (i : Nat) (le : i ≤ name.length) :
    (padLfn name).getD i 0 = name.getD i 0 := by
  unfold padLfn
  split_ifs
  · rfl
  · obtain lt | rfl := lt_or_eq_of_le le
    · exact getD_append _ _ _ _ lt
    · simp

lemma LongName.parseLfn {name : List UInt16} (long : LongName name) {lfnBuf : Int → UInt16}
    (collected : Collected (padLfn name) 0 lfnBuf) : parseLfn lfnBuf = asciiName name := by
  have le := long.le
  have char (i : Nat) (within : i ≤ name.length) : lfnBuf i = name.getD i 0 := by
    rw [collected i (by omega) (by omega), padLfn_getD name i within]
  have front : ((List.range name.length).map fun i : Nat => lfnBuf i) = name := by
    refine ext_getElem (by simp) fun i lt lt' => ?_
    rw [getElem_map, getElem_range, char i lt'.le, getD_eq_getElem _ _ lt']
  have split : List.range 256 = List.range name.length ++
      name.length :: List.range' (name.length + 1) (255 - name.length) := by
    have sum : 256 = name.length + (255 - name.length + 1) := by omega
    rw [sum, range_add, ← range'_eq_map_range, range'_succ]
  have stop : lfnBuf name.length = 0 := by
    rw [char _ le_rfl, getD_eq_default _ _ le_rfl]
  rw [Fat.parseLfn, split, map_append, front, map_cons, stop,
    takeWhile_append_of_pos fun c mem => by simpa using long.units c mem]
  simp [asciiName]

lemma parseEntry_live {e : Direntry} (live : ¬ e.hidden) :
    parseEntry callback e p = (callback p.data e p.statics.lfn).map fun (data, more) =>
      ({ statics := { p.statics with haveLfn := p.statics.haveLfn && !more }, data := data,
         calls := p.calls ++ [(e, p.statics.lfn)] }, more) := by
  simp only [Direntry.hidden, decide_eq_true_eq, not_or] at live
  obtain ⟨deleted, label, lfn⟩ := live
  rw [parseEntry, if_neg deleted, if_neg label, if_neg lfn]
  congr 1
  funext r
  obtain ⟨data, more⟩ := r
  cases more <;> simp

/-- The entries of a long name, and that of the short name after them. -/
lemma parseEntries_longName (callback : Callback σ) (p : Parse σ) {name : List UInt16}
    (long : LongName name)
    {es : List Direntry} (encodes : EncodesLfn name es) {short : Direntry} (valid : short 0 ≠ 0)
    (live : ¬ short.hidden) (after : List Direntry) : ∃ s : Statics,
    parseEntries callback (es ++ short :: after) p =
      (callback p.data short (some (asciiName name))).bind fun (data, more) =>
        let q : Parse σ := ⟨{ s with haveLfn := !more }, data,
          p.calls ++ [(short, some (asciiName name))]⟩
        if more then parseEntries callback after q else some (q, false) := by
  obtain ⟨multiple, small⟩ := padLfn_length name
  have le := long.le
  obtain ⟨s, parsed, flag, collected⟩ := encodes.parse callback (by omega)
    (fun _ => by omega) nofun (short :: after)
  have lfn : s.lfn = some (asciiName name) := by
    rw [Statics.lfn, if_pos flag, long.parseLfn collected]
  refine ⟨s, ?_⟩
  rw [parsed, parseEntries, if_neg valid, parseEntry_live live, bind_map]
  simp only [lfn, flag, Bool.true_and]
  rfl

/-- From any state, when a parse comes to the short entry behind the entries of a long name, the
callback is called with the long name. -/
theorem longName_passed {ino fuel : Nat} {cs : List Nat} {before es after : List Direntry}
    {short : Direntry} {name : List UInt16} {s : Statics} {data : σ}
    (chain : Clusters part ino cs) (readable : part.readable ino) (enough : cs.length ≤ fuel)
    (entries : cs.flatMap part.direntries = before ++ (es ++ short :: after))
    (reached : parseEntries callback before (.start s data) = some (p, true))
    (long : LongName name) (encodes : EncodesLfn name es) (valid : short 0 ≠ 0)
    (live : ¬ short.hidden) : ∃ s' : Statics,
    fatParseDir fuel part callback ino s data =
      some ((callback p.data short (some (asciiName name))).bind fun (data, more) =>
        let q : Parse σ := ⟨{ s' with haveLfn := !more }, data,
          p.calls ++ [(short, some (asciiName name))]⟩
        if more then (parseEntries callback after q).map Prod.fst else some q) := by
  obtain ⟨s', parsed⟩ := parseEntries_longName callback p long encodes valid live after
  refine ⟨s', ?_⟩
  rw [fatParseDir_clusters chain readable enough, entries, parseEntries_append, reached]
  simp only [bind_some, if_true, parsed, map_bind]
  congr 2
  funext ⟨data, more⟩
  cases more <;> rfl

/-- The characters of `long.text`. -/
def longUnits : List UInt16 := [0x6c, 0x6f, 0x6e, 0x67, 0x2e, 0x74, 0x65, 0x78, 0x74]

lemma longUnits_longName : LongName longUnits where
  pos := by decide
  le := by decide
  units := by simp [longUnits]

theorem longUnits_passed : ∃ (es after : List Direntry) (short : Direntry) (s' : Statics),
    longName.direntries 2 = es ++ short :: after ∧ EncodesLfn longUnits es ∧
    fatParseDir 1 longName visitAll 2 .boot () =
      some ((visitAll () short (some longText)).bind fun (data, more) =>
        let q : Parse Unit := ⟨{ s' with haveLfn := !more }, data, [(short, some longText)]⟩
        if more then (parseEntries visitAll after q).map Prod.fst else some q) := by
  let e (i : Nat) : Direntry := fun j => longName.data 2 (i * 32 + j)
  obtain ⟨rest, entries⟩ : ∃ rest, longName.direntries 2 = [e 0] ++ e 1 :: rest := ⟨_, rfl⟩
  have encodes : EncodesLfn longUnits [e 0] :=
    .cons (by decide +kernel) (by decide +kernel) (by decide +kernel) .nil
  have chain : Clusters longName 2 [2] := .last (by decide +kernel)
  have whole : [2].flatMap longName.direntries = [] ++ ([e 0] ++ e 1 :: rest) :=
    (append_nil _).trans entries
  have reached : parseEntries visitAll [] (.start .boot ()) = some (.start .boot (), true) := rfl
  obtain ⟨s', parsed⟩ := longName_passed chain rfl le_rfl whole reached
    longUnits_longName encodes (by decide +kernel) (by decide +kernel)
  exact ⟨[e 0], rest, e 1, s', entries, encodes, parsed⟩

end ExscapeOS.Fat
