import ExscapeOS.Lib.Loop

/-!
# Variables on the command line of the shell

`replace_variables` and `str_replace` of `userspace/eshell`. A state is the part of the buffer
before the pointer `p` and the part from `p` on, with the zero that ends the text and whatever lies
behind it. An access outside the buffer has no result.
-/
namespace ExscapeOS.Shell

open Lib List Option

abbrev Text := List Char

/-- The zero at the end of a string. -/
def nul : Char := '\x00'

/-- `strchr(p, '$')`: the characters passed over, and the rest. -/
def strchr : Text → Option (Option (Text × Text))
  | [] => none
  | c :: q =>
    if c = '$' then some (some ([], c :: q))
    else if c = nul then some none
    else (strchr q).map (Option.map fun r => (c :: r.1, r.2))

/-- The loop that goes on to a space, or to the end. -/
def skip : Text → Option (Text × Text)
  | [] => none
  | c :: q => if c = ' ' ∨ c = nul then some ([], c :: q) else (skip q).map fun r => (c :: r.1, r.2)

/-- The loop that reads `varname`, with the room that is left, and whether a dollar sign is allowed.
-/
def varname : Nat → Bool → Text → Option Text
  | 0, _, _ => some []
  | _ + 1, _, [] => none
  | n + 1, dollar, c :: q =>
    if c.isAlphanum ∨ c = '_' ∨ c = '$' ∧ dollar = true then (varname n (c == '$') q).map (c :: ·)
    else some []

def strstr (text old : Text) : Option Nat :=
  (List.range (text.length + 1)).find? fun i => old.isPrefixOf (text.drop i)

/-- `str_replace`, on the part that begins with the text. Nothing changes where the new text does
not fit. -/
def strReplace (q old new : Text) : Option Text :=
  let text := q.takeWhile (· ≠ nul)
  if nul ∉ q then none
  else
    match strstr text old with
    | none => some q
    | some start =>
      if text.length + new.length > q.length - 1 + old.length then some q
      else
        let written := text.take start ++ new ++ text.drop (start + old.length) ++ [nul]
        if written.length ≤ q.length then some (written ++ q.drop written.length) else none

variable (getenv : Text → Option Text) (pid : Text)

/-- The variable at the pointer is replaced, unless it is a dollar sign alone. -/
def replaceOne (name q : Text) : Option Text :=
  if name.length < 2 then some q
  else if (strstr name ['$', '$']).isSome then strReplace q ['$', '$'] pid
  else strReplace q name ((getenv name.tail).getD [])

/-- A round of `replace_variables`. -/
def replaceStep (s : Text × Text) : Option ((Text × Text) ⊕ Text) :=
  match strchr s.2 with
  | none => none
  | some none => some (.inr (s.1 ++ s.2))
  | some (some (passed, q)) =>
    let before := s.1 ++ passed
    if before.getLast? = some '\\' then
      -- `memmove` to the place of the backslash leaves the last byte of the buffer as it is
      (skip (q.tail ++ q.getLast?.toList)).map fun r => .inl (before.dropLast ++ '$' :: r.1, r.2)
    else do
      let name ← varname 254 true q
      let q ← replaceOne getenv pid name q
      return .inl (before ++ q.take 1, q.drop 1)

variable {getenv : Text → Option Text} {pid : Text} {q old new : Text} {s : Text × Text}

lemma strchr_spec (ends : nul ∈ q) : strchr q = some none ∨ ∃ passed v,
    strchr q = some (some (passed, '$' :: v)) ∧ q = passed ++ '$' :: v ∧ nul ∈ v := by
  induction q with
  | nil => cases ends
  | cons c q ih =>
    by_cases dollar : c = '$'
    · subst dollar
      exact .inr ⟨[], q, by simp [strchr], rfl, by simpa [nul] using ends⟩
    by_cases zero : c = nul
    · exact .inl (by simp [strchr, zero, nul])
    have ends : nul ∈ q := by simpa [Ne.symm zero] using ends
    rcases ih ends with none | ⟨passed, v, found, eq, mem⟩
    · exact .inl (by simp [strchr, dollar, zero, none])
    · exact .inr ⟨c :: passed, v, by simp [strchr, dollar, zero, found], by simp [eq], mem⟩

lemma skip_spec (ends : nul ∈ q) : ∃ w c r, skip q = some (w, c :: r) ∧ q = w ++ c :: r ∧ c ≠ '$' ∧
    nul ∈ c :: r := by
  induction q with
  | nil => cases ends
  | cons c q ih =>
    by_cases stop : c = ' ' ∨ c = nul
    · exact ⟨[], c, q, by simp [skip, stop], rfl, by rintro rfl; simp [nul] at stop, ends⟩
    have ends : nul ∈ q := by simpa [Ne.symm (not_or.mp stop).2] using ends
    obtain ⟨w, d, r, found, eq, ne, mem⟩ := ih ends
    exact ⟨c :: w, d, r, by simp [skip, stop, found], by simp [eq], ne, mem⟩

lemma varname_spec (ends : nul ∈ q) (n : Nat) (dollar : Bool) :
    ∃ name, varname n dollar q = some name := by
  induction q generalizing n dollar with
  | nil => cases ends
  | cons c q ih =>
    cases n with
    | zero => exact ⟨[], rfl⟩
    | succ n =>
      by_cases inName : c.isAlphanum ∨ c = '_' ∨ c = '$' ∧ dollar = true
      · have ne : nul ≠ c := by
          rintro rfl
          simp [nul] at inName
        have ends : nul ∈ q := by simpa [ne] using ends
        obtain ⟨name, found⟩ := ih ends n (c == '$')
        exact ⟨c :: name, by simp [varname, inName, found]⟩
      · exact ⟨[], by simp [varname, inName]⟩

lemma length_le_of_strstr {text : Text} {start : Nat} (found : strstr text old = some start) :
    start + old.length ≤ text.length := by
  have le := mem_range.mp (mem_of_find?_eq_some found)
  have here : old.isPrefixOf (text.drop start) = true :=
    find?_some (p := fun i => old.isPrefixOf (text.drop i)) found
  have fits := isPrefixOf_iff_prefix.mp here |>.length_le
  rw [length_drop] at fits
  omega

/-- Replaced or not, a zero follows behind the first character. -/
lemma strReplace_spec {c : Char} (ne : c ≠ nul) (ends : nul ∈ q) (old new : Text) :
    ∃ q', strReplace (c :: q) old new = some q' ∧ q'.length = q.length + 1 ∧ nul ∈ q'.drop 1 := by
  obtain ⟨ending, stale, rfl, notMem⟩ := eq_append_cons_of_mem ends
  have text : (c :: (ending ++ nul :: stale)).takeWhile (· ≠ nul) = c :: ending := by
    rw [← cons_append, takeWhile_append_of_pos (by grind)]
    simp
  simp only [strReplace, text]
  rw [if_neg (by simp)]
  split
  · exact ⟨_, rfl, rfl, by simp⟩
  next start found =>
    have le := length_le_of_strstr found
    split_ifs with long fits
    · exact ⟨_, rfl, rfl, by simp⟩
    · refine ⟨_, rfl, ?_, ?_⟩
      · rw [length_append, length_drop, Nat.add_sub_cancel' fits]
        rfl
      · -- if nothing is left of the text, the zero that ended it is still there
        generalize (c :: ending).take start ++ new ++ (c :: ending).drop (start + old.length) = left
        cases left <;> simp
    · simp only [length_append, length_take, length_drop, length_cons,
        length_nil] at *
      omega

/-- Twice what is left of the buffer, and one if it is left at a dollar sign. -/
def measure (s : Text × Text) : Nat := 2 * s.2.length + if s.2.head? = some '$' then 1 else 0

/-- A round ends the loop or moves the pointer forward; it stays at most once. -/
lemma replaceStep_spec (ends : nul ∈ s.2) : (∃ r, replaceStep getenv pid s = some (.inr r)) ∨
    ∃ s', replaceStep getenv pid s = some (.inl s') ∧ nul ∈ s'.2 ∧ measure s' < measure s := by
  obtain ⟨before, q⟩ := s
  rcases strchr_spec ends with none | ⟨passed, v, found, eq, mem⟩
  · exact .inl ⟨before ++ q, by simp only [replaceStep, none]⟩
  right
  obtain rfl : q = passed ++ '$' :: v := eq
  have length : (passed ++ '$' :: v).length = passed.length + v.length +
    1 := by simp [Nat.add_assoc]
  by_cases escaped : (before ++ passed).getLast? = some '\\'
  · obtain ⟨w, c, r, skipped, eq, ne, ends⟩ :=
      skip_spec (mem_append_left (('$' :: v).getLast?.toList) mem)
    have shorter := congrArg List.length eq
    simp only [length_append, length_cons, length_toList] at shorter
    refine ⟨((before ++ passed).dropLast ++ '$' :: w, c :: r), ?_, ends, ?_⟩
    · simp only [replaceStep, found, escaped, if_true, tail_cons, skipped, map_some]
    · cases passed <;> simp [measure, ne] at * <;> omega
  · obtain ⟨name, named⟩ := varname_spec (mem_cons_of_mem '$' mem) 254 true
    have replaced (old new : Text) := strReplace_spec (c := '$') (by decide) mem old new
    obtain ⟨q, eq, same, ends⟩ : ∃ q, replaceOne getenv pid name ('$' :: v) = some q ∧
        q.length = v.length + 1 ∧ nul ∈ q.drop 1 := by
      unfold replaceOne
      split_ifs
      · exact ⟨_, rfl, rfl, mem⟩
      · exact replaced _ _
      · exact replaced _ _
    refine ⟨(before ++ passed ++ q.take 1, q.drop 1), ?_, ends, ?_⟩
    · simp only [replaceStep, found, escaped, if_false, named, eq, bind, pure, bind_some]
    · simp only [measure, length_drop, same, length]
      split_ifs <;> omega

/-- The variables of every buffer are replaced in finitely many rounds, without an access outside
it. -/
theorem replaceVariables_returns (getenv : Text → Option Text) (pid : Text) {buf : Text}
    (ends : nul ∈ buf) : ∃ r, Returns (replaceStep getenv pid) ([], buf) r := by
  have general (n : Nat) (s : Text × Text) (ends : nul ∈ s.2) (eq : measure s = n) :
      ∃ r, Returns (replaceStep getenv pid) s r := by
    induction n using Nat.strong_induction_on generalizing s with
    | _ n ih =>
      rcases replaceStep_spec ends with ⟨r, done⟩ | ⟨s', again, ends', less⟩
      · exact ⟨r, .of_inr done⟩
      · obtain ⟨r, returns⟩ := ih _ (eq ▸ less) s' ends' rfl
        exact ⟨r, (returns_iff_of_inl again).mpr returns⟩
  exact general _ ([], buf) ends rfl

/-- A variable whose value refers to the variable. -/
theorem replaceVariables_itself : ∃ r, Returns (replaceStep (fun _ => some "a$A".toList) ['1'])
    ([], "$A\x00\x00\x00\x00".toList) r :=
  replaceVariables_returns _ _ (by decide)

end ExscapeOS.Shell
