import Mathlib.Tactic

/-!
# The column layout of `ls`

`print_entries` of `userspace/ls/ls.c` puts the names into a grid, column by column. The size of the
grid comes from the number of names that are shown, but the loop that fills it goes on as long as
there are names, and does not look again after it has skipped the hidden ones.
-/
namespace ExscapeOS.Ls

open List Option

abbrev Name := List Char

/-- A name is shown with the option `-a`, or if it does not begin with a dot. -/
def shown (optAll : Bool) (name : Name) : Bool := optAll || name.head? != some '.'

def screenWidth : Nat := 80

/-- The length of the longest name, hidden or not, with the sigil. -/
def longest (optSigil : Bool) (names : List Name) : Nat :=
  (names.map List.length).foldl max 0 + if optSigil then 1 else 0

def cols (longest : Nat) : Nat :=
  if screenWidth / (longest + 1) = 0 then 1 else screenWidth / (longest + 1)

def rows (numEntries cols : Nat) : Nat := numEntries / cols + if numEntries % cols = 0 then 0 else 1

/-- The cells in the order in which they are filled. -/
def cells (cols rows : Nat) : List Nat :=
  (List.range cols).flatMap fun col => (List.range rows).map fun row => col + row * cols

/-- One round of the loop that fills the grid, with the names from `i` on, if all indices are
inside. -/
def fillCell (optAll : Bool) (size : Nat) (s : List Name × (Nat → Option Name)) (cell : Nat) :
    Option (List Name × (Nat → Option Name)) :=
  if s.1 = [] then some s
  else
    match s.1.dropWhile fun name => !shown optAll name with
    | [] => none
    | name :: rest =>
      if cell < size then some (rest, Function.update s.2 cell (some name)) else none

variable {optAll optSigil : Bool} {names rest rest' : List Name} {grid grid' : Nat → Option Name}
  {cs : List Nat} {size c r : Nat}

/-- The grid, after the loop. -/
def fillGrid (optAll : Bool) (names : List Name) (c r : Nat) : Option (Nat → Option Name) :=
  ((cells c r).foldlM (fillCell optAll (c * r)) (names, fun _ => none)).map Prod.snd

/-- The names that are to be shown are placed column by column. -/
structure ColumnMajor (shown : List Name) (c r : Nat) (grid : Nat → Option Name) : Prop where
  room : shown.length ≤ c * r
  cell : ∀ col < c, ∀ row < r, grid (col + row * c) = shown[col * r + row]?

/-! ## The cells -/

lemma length_cells (k c r : Nat) : ((List.range k).flatMap fun col =>
    (List.range r).map fun row => col + row * c).length = k * r := by
  simp [length_flatMap]

lemma getElem?_cells {col row : Nat} (hcol : col < c) (hrow : row < r) :
    (cells c r)[col * r + row]? = some (col + row * c) := by
  have general (k : Nat) (lt : col < k) : ((List.range k).flatMap fun col =>
      (List.range r).map fun row => col + row * c)[col * r + row]? = some (col + row * c) := by
    induction k with
    | zero => omega
    | succ k ih =>
      rw [range_succ, flatMap_append]
      rcases (Nat.le_of_lt_succ lt).eq_or_lt with rfl | lt
      · rw [getElem?_append_right (by rw [length_cells]; omega), length_cells]
        simp [hrow]
      · have le := Nat.mul_le_mul_right r (Nat.succ_le_of_lt lt)
        rw [getElem?_append_left (by rw [length_cells]; rw [Nat.succ_mul] at le; omega)]
        exact ih lt
  exact general c hcol

lemma lt_of_mem_cells {cell : Nat} (mem : cell ∈ cells c r) : cell < c * r := by
  simp only [cells, List.mem_flatMap, List.mem_range, List.mem_map] at mem
  obtain ⟨col, hcol, row, hrow, rfl⟩ := mem
  have le := Nat.mul_le_mul_left c (Nat.succ_le_of_lt hrow)
  rw [Nat.mul_succ, Nat.mul_comm c row] at le
  omega

lemma nodup_cells (c r : Nat) : (cells c r).Nodup := by
  rw [cells, nodup_flatMap]
  refine ⟨fun col hcol => nodup_range.map fun row row' eq => ?_, ?_⟩
  · have pos : 0 < c := Nat.zero_lt_of_lt (mem_range.mp hcol)
    exact Nat.eq_of_mul_eq_mul_right pos (Nat.add_left_cancel eq)
  · refine nodup_range.imp_of_mem fun {col col'} hcol hcol' ne cell mem mem' => ne ?_
    obtain ⟨row, -, rfl⟩ := mem_map.mp mem
    obtain ⟨row', -, eq⟩ := mem_map.mp mem'
    have same := congrArg (· % c) eq
    simpa [Nat.mod_eq_of_lt (mem_range.mp hcol), Nat.mod_eq_of_lt (mem_range.mp hcol')]
      using same.symm

/-! ## Filling -/

/-- The last name is shown, if there is a name. -/
def lastShown (p : Name → Bool) (names : List Name) : Bool := names.getLast?.all p

lemma dropWhile_hidden (p : Name → Bool) (ne : rest ≠ []) :
    (rest.dropWhile fun name => !p name) = [] ∧ rest.filter p = [] ∧ lastShown p rest = false ∨
      ∃ name rest', (rest.dropWhile fun name => !p name) = name :: rest' ∧
        rest.filter p = name :: rest'.filter p ∧ lastShown p rest = lastShown p rest' := by
  induction rest with
  | nil => exact absurd rfl ne
  | cons name rest ih =>
    by_cases keep : p name = true
    · refine .inr ⟨name, rest, by simp [keep], by simp [keep], ?_⟩
      cases rest <;> simp [lastShown, keep]
    · cases rest with
      | nil => simp [keep, lastShown]
      | cons next rest => simpa [keep, lastShown] using ih (cons_ne_nil next rest)

/-- The names are written to the cells one after the other. -/
def place (grid : Nat → Option Name) : List Nat → List Name → Nat → Option Name
  | [], _ => grid
  | _ :: _, [] => grid
  | c :: cs, name :: names => place (Function.update grid c (some name)) cs names

@[simp] lemma place_nil : place grid cs [] = grid := by
  cases cs <;> rfl

/-- The loop places the names that are shown. It ends only if the last name is one of them, or all
cells are filled before. -/
lemma foldlM_fillCell (inside : ∀ cell ∈ cs, cell < size) :
    (cs.foldlM (fillCell optAll size) (rest, grid)).map Prod.snd =
      if lastShown (shown optAll) rest = true ∨ cs.length ≤ (rest.filter (shown optAll)).length
        then some (place grid cs (rest.filter (shown optAll))) else none := by
  induction cs generalizing rest grid with
  | nil => simp [place]
  | cons c cs ih =>
    obtain ⟨first, inside⟩ := forall_mem_cons.mp inside
    by_cases ne : rest = []
    · subst ne
      simpa [fillCell, place, lastShown] using @ih [] grid inside
    · rcases dropWhile_hidden (shown optAll) ne with
        ⟨skip, none, last⟩ | ⟨name, rest', skip, eq, last⟩
      · simp [fillCell, ne, skip, none, last]
      · simpa [fillCell, ne, skip, eq, last, first, place] using ih inside

lemma place_of_notMem {cell : Nat} (notMem : cell ∉ cs) : place grid cs names cell = grid cell := by
  fun_induction place grid cs names <;> grind

lemma place_eq (nodup : cs.Nodup) {j cell : Nat} (eq : cs[j]? = some cell) :
    place grid cs names cell = names[j]?.or (grid cell) := by
  fun_induction place grid cs names generalizing j with
  | case1 => cases eq
  | case2 => rfl
  | case3 grid c cs name names ih =>
    obtain ⟨new, nodup⟩ := nodup_cons.mp nodup
    cases j with
    | zero =>
      cases eq
      simp [place_of_notMem new]
    | succ j =>
      have ne : cell ≠ c := fun same => new (same ▸ mem_of_getElem? eq)
      simp [ih nodup eq, ne]

lemma le_mul_rows {n : Nat} (pos : 0 < c) : n ≤ c * rows n c := by
  have div := Nat.div_add_mod n c
  have lt := Nat.mod_lt n pos
  rw [rows, Nat.mul_add]
  split_ifs <;> omega

/-- The grid is filled rightly exactly if the last name is shown, or the shown names fill it. -/
theorem fillGrid_iff (optAll optSigil : Bool) (names : List Name) :
    let visible := names.filter (shown optAll)
    let c := cols (longest optSigil names)
    let r := rows visible.length c
    (∃ grid, fillGrid optAll names c r = some grid ∧ ColumnMajor visible c r grid) ↔
      names.getLast?.all (shown optAll) = true ∨ visible.length = c * r := by
  intro visible c r
  have pos : 0 < c := by
    simp only [c, cols]
    split_ifs with zero
    · exact Nat.one_pos
    · exact Nat.pos_of_ne_zero zero
  have room : visible.length ≤ c * r := le_mul_rows pos
  have inside (cell : Nat) (mem : cell ∈ cells c r) : cell < c * r := lt_of_mem_cells mem
  have fill : fillGrid optAll names c r = if names.getLast?.all (shown optAll) = true ∨
      c * r ≤ visible.length then some (place (fun _ => none) (cells c r) visible) else none := by
    rw [fillGrid, foldlM_fillCell inside, cells, length_cells]
    rfl
  rw [fill, show visible.length = c * r ↔ c * r ≤ visible.length by omega]
  split_ifs with ended
  · refine iff_of_true ⟨_, rfl, room, fun col hcol row hrow => ?_⟩ ended
    rw [place_eq (nodup_cells c r) (getElem?_cells hcol hrow)]
    simp
  · simp [ended]

/-- A name that begins with a minus sign sorts before the hidden ones. -/
def hiddenLast : List Name := ["-a".toList, ".b".toList]

/-- There is room for the name behind the last one. -/
theorem fillGrid_hiddenLast : fillGrid false hiddenLast (cols (longest false hiddenLast))
    (rows (hiddenLast.filter (shown false)).length (cols (longest false hiddenLast))) = none := by
  decide

end ExscapeOS.Ls
