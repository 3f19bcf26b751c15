import ExscapeOS.Kernel.Fat.History

/-!
# The clusters of a directory

`fat_parse_dir` goes to the next cluster if it has found no end of the directory in this one. It
does not count clusters, so that it ends only if the chain does.
-/
namespace ExscapeOS.Fat

open Lib Relation

variable {σ : Type} {part : Partition} {callback : Callback σ} {p p' : Parse σ} {c c' : Nat}

/-- A parse that is not stopped goes from a cluster to another. -/
def Follows (part : Partition) (c c' : Nat) : Prop :=
  (∀ e ∈ part.direntries c, e 0 ≠ 0) ∧ fatReadNextCluster part c = some (some c')

lemma Follows.unique {c'' : Nat} (h : Follows part c c') (h' : Follows part c c'') : c' = c'' := by
  simpa using h.2.symm.trans h'.2

lemma parseEntries_true {es : List Direntry} (h : parseEntries callback es p = some (p', true)) :
    ∀ e ∈ es, e 0 ≠ 0 := by
  induction es generalizing p with
  | nil => simp
  | cons e es ih =>
    unfold parseEntries at h
    split at h
    · simp at h
    · rename_i valid
      obtain ⟨⟨q, more⟩, -, h⟩ := Option.bind_eq_some_iff.mp h
      cases more with
      | false => simp at h
      | true => exact List.forall_mem_cons.mpr ⟨valid, ih h⟩

lemma parseEntry_visitAll (e : Direntry) (p : Parse Unit) :
    ∃ q, parseEntry visitAll e p = some (q, true) := by
  unfold parseEntry
  split_ifs
  · exact ⟨_, rfl⟩
  · exact ⟨_, rfl⟩
  · exact ⟨_, rfl⟩
  · exact ⟨_, rfl⟩

lemma parseEntries_visitAll {es : List Direntry} {p : Parse Unit} (valid : ∀ e ∈ es, e 0 ≠ 0) :
    ∃ p', parseEntries visitAll es p = some (p', true) := by
  induction es generalizing p with
  | nil => exact ⟨p, rfl⟩
  | cons e es ih =>
    obtain ⟨first, rest⟩ := List.forall_mem_cons.mp valid
    obtain ⟨q, entry⟩ := parseEntry_visitAll e p
    obtain ⟨p', parsed⟩ := ih (p := q) rest
    exact ⟨p', by simp [parseEntries, first, entry, parsed]⟩

lemma follows_of_parseCluster (h : parseCluster part callback (c, p) = .inl (c', p')) :
    Follows part c c' := by
  unfold parseCluster at h
  cases entries : parseEntries callback (part.direntries c) p with
  | none => simp [entries] at h
  | some r =>
    obtain ⟨q, more⟩ := r
    cases more with
    | false => simp [entries] at h
    | true =>
      refine ⟨parseEntries_true entries, ?_⟩
      cases next : fatReadNextCluster part c with
      | none => simp [entries, next] at h
      | some next' =>
        cases next' with
        | none => simp [entries, next] at h
        | some next' =>
          obtain ⟨rfl, -⟩ : next' = c' ∧ q = p' := by simpa [entries, next] using h
          rfl

lemma parseCluster_visitAll {p : Parse Unit} (h : Follows part c c') :
    ∃ p', parseCluster part visitAll (c, p) = .inl (c', p') := by
  obtain ⟨p', entries⟩ := parseEntries_visitAll (p := p) h.1
  exact ⟨p', by simp [parseCluster, entries, h.2]⟩

/-- A chain that comes to an end is parsed to its end at most. -/
lemma halts_of_chain (chain : ReflTransGen (Follows part) c c')
    (last : ∀ c'', ¬ Follows part c' c'') :
    Halts (parseCluster part callback) (c, p) := by
  induction chain using ReflTransGen.head_induction_on generalizing p with
  | refl =>
    cases round : parseCluster part callback (c', p) with
    | inl s => exact absurd (follows_of_parseCluster round) (last s.1)
    | inr r => exact .of_inr round
  | head follows _ ih =>
    cases round : parseCluster part callback (_, p) with
    | inl s =>
      obtain ⟨next, q⟩ := s
      obtain rfl := follows.unique (follows_of_parseCluster round)
      exact (halts_iff_of_inl round).mpr ih
    | inr r => exact .of_inr round

/-- The parse ends, whatever the callback does, exactly if the first cluster cannot be read or the
chain comes to an end. -/
lemma parseDir_halts_iff (part : Partition) (ino : Nat) :
    (∀ (σ : Type) (callback : Callback σ) (s : Statics) (data : σ),
      ∃ fuel, (fatParseDir fuel part callback ino s data).isSome) ↔
      (2 ≤ ino ∧ part.readable ino →
        ∃ c, ReflTransGen (Follows part) ino c ∧ ∀ c', ¬ Follows part c c') := by
  constructor
  · intro halts valid
    by_contra endless
    push Not at endless
    obtain ⟨fuel, ran⟩ := halts Unit visitAll .boot ()
    rw [fatParseDir, if_pos valid] at ran
    refine not_halts (fun s => ReflTransGen (Follows part) ino s.1) ?_ .refl ⟨fuel, ran⟩
    rintro ⟨c, p⟩ chain
    obtain ⟨c', follows⟩ := endless c chain
    obtain ⟨p', round⟩ := parseCluster_visitAll (p := p) follows
    exact ⟨(c', p'), round, chain.tail follows⟩
  · intro ends σ callback s data
    unfold fatParseDir
    split
    · rename_i valid
      obtain ⟨c, chain, last⟩ := ends valid
      exact halts_of_chain chain last
    · exact ⟨0, rfl⟩

end ExscapeOS.Fat
