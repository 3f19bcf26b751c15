import ExscapeOS.Kernel.Console.Bounds

/-!
# The console as a terminal

An ideal terminal has a list of lines that only grows, and shows the last 24. A console shows the
same, also in scrollback, as long as the line that comes into view at the bottom is blank.

When the buffer starts at line `n`, the new last line is line `n - 1`, but `scroll` blanks line `n`,
the next one to come into view. At the beginning of the buffer it blanks the right line, and so line
0 is never blanked: after the first round, what is left in it appears on the screen.
-/
namespace ExscapeOS.Consoles

open Lib List Option

/-! ## The ideal terminal -/

/-- The lines that have been written, with `top` lines above the screen. -/
structure Terminal where
  line : Nat → Nat → Cell
  top : Nat
  x : Nat
  y : Nat
  textColor : UInt8
  backColor : UInt8

namespace Terminal

/-- What is on the screen `k` lines further up. -/
def view (t : Terminal) (k row col : Nat) : Cell := t.line (t.top + row - k) col

/-- A blank line is added if the cursor is below the screen. -/
def scroll (t : Terminal) : Terminal :=
  if t.y ≤ 23 then t
  else { t with
    line := Function.update t.line (t.top + 24) fun _ => blank
    top := t.top + 1
    y := 23 }

/-- The character is stored at the cursor. -/
def store (t : Terminal) (cell : Cell) : Terminal :=
  { t with
    line := Function.update t.line (t.top + t.y) (Function.update (t.line (t.top + t.y)) t.x cell) }

def place (t : Terminal) (p : Nat × Nat) : Terminal := { t with x := p.1, y := p.2 }

def putchar (t : Terminal) (c : Int) : Terminal :=
  let moved :=
    if c = 10 then { t with x := 0, y := t.y + 1 }
    else if c = 8 then
      if 0 < t.x then { t with x := t.x - 1 }
      else if 0 < t.y then { t with y := t.y - 1, x := 79 }
      else t
    else if 0x20 ≤ c then
      let t := t.store (Console.glyph t.textColor t.backColor c)
      if t.x + 1 = 80 then { t with y := t.y + 1, x := 0 } else { t with x := t.x + 1 }
    else t
  moved.scroll

/-- What is stored before the cursor moves. -/
def written (t : Terminal) (c : Int) : Terminal :=
  if 0x20 ≤ c then t.store (Console.glyph t.textColor t.backColor c) else t

lemma view_scroll {t : Terminal} {p : Nat × Nat} (below : p.2 = 24) (col : Nat) :
    (t.place p).scroll.view 0 23 col = blank := by
  have lt : ¬ (t.place p).y ≤ 23 := by
    simp only [place]
    omega
  rw [scroll, if_neg lt, view]
  exact congrFun (Function.update_self (t.top + 24) (fun _ => blank) t.line) col

end Terminal

namespace Console

variable {con : Console} {t : Terminal} {c : Int}

/-- The terminal whose lines are those of the console. -/
def terminal (con : Console) : Terminal where
  line i col := window con.buffer bufferSize con.bufferptr (80 * i + col)
  top := 24 * numScrollback
  x := con.x
  y := con.y
  textColor := con.textColor
  backColor := con.backColor

/-- The screen shows what the terminal shows, with the same offset. -/
def Shows (con : Console) (t : Terminal) : Prop :=
  ∀ row < 24, ∀ col < 80, con.videoram (80 * row + col) = t.view con.currentPosition row col

/-! ## States of a console -/

/-- The invariant of a displayed console. The first line of the buffer is blank unless it is line 0.
-/
structure Sound (con : Console) : Prop where
  aligned : con.bufferptr % 80 = 0
  inside : con.bufferptr < bufferSize
  x_le : con.x ≤ 79
  y_le : con.y ≤ 23
  position : con.currentPosition ≤ maxScrollback
  shown : ∀ i < 80 * 24, con.videoram i =
    window con.buffer bufferSize con.bufferptr (80 * (24 * numScrollback - con.currentPosition) + i)
  spare : con.bufferptr ≠ 0 → ∀ i < 80, con.buffer (con.bufferptr + i) = blank

/-- Every line of the buffer but the first is a line of the terminal. -/
structure Refines (con : Console) (t : Terminal) : Prop where
  x_eq : t.x = con.x
  y_eq : t.y = con.y
  text_eq : t.textColor = con.textColor
  back_eq : t.backColor = con.backColor
  top_le : 24 * numScrollback ≤ t.top
  cell : ∀ i, 80 ≤ i → i < bufferSize → window con.buffer bufferSize con.bufferptr i =
    t.line (t.top - 24 * numScrollback + i / 80) (i % 80)

lemma Sound.inBounds (sound : con.Sound) : con.InBounds :=
  ⟨sound.x_le, sound.y_le, sound.position, sound.aligned, sound.inside⟩

lemma sound_boot : boot.Sound where
  aligned := rfl
  inside := inBounds_boot.inside
  x_le := Nat.zero_le _
  y_le := Nat.zero_le _
  position := Nat.zero_le _
  shown _ _ := rfl
  spare h := absurd rfl h

lemma refines_terminal (con : Console) : con.Refines con.terminal where
  x_eq := rfl
  y_eq := rfl
  text_eq := rfl
  back_eq := rfl
  top_le := Nat.le_refl _
  cell i _ _ := by
    simp only [terminal, Nat.sub_self, Nat.zero_add, Nat.div_add_mod]

lemma Sound.shows (sound : con.Sound) (refines : con.Refines t) : con.Shows t := by
  intro row hrow col hcol
  have position := sound.position
  have top := refines.top_le
  unfold maxScrollback at position
  rw [sound.shown _ (by omega), refines.cell _ (by unfold numScrollback at *; omega)
    (by unfold bufferSize; omega), Terminal.view]
  unfold numScrollback at *
  congr 1 <;> omega

/-! ## Scrollback -/

lemma redrawScreen_shown (inside : con.bufferptr < bufferSize)
    (position : con.currentPosition ≤ maxScrollback) : ∀ i < 80 * 24, con.redrawScreen.videoram i =
      window con.buffer bufferSize con.bufferptr
        (80 * (24 * numScrollback - con.currentPosition) + i) := by
  intro i hi
  have visible : con.curVisible =
      con.bufferptr + 80 * (24 * numScrollback - con.currentPosition) := by
    unfold maxScrollback numScrollback at position
    unfold curVisible curScreen numScrollback
    omega
  have fits : 80 * (24 * numScrollback - con.currentPosition) + 80 * 24 ≤ bufferSize := by
    unfold bufferSize
    omega
  simp only [redrawScreen, visible, copy]
  rw [if_pos (by omega), Nat.sub_zero, Nat.zero_add, copyWrapped_eq inside fits hi]

lemma sound_redrawn (aligned : con.bufferptr % 80 = 0) (inside : con.bufferptr < bufferSize)
    (x_le : con.x ≤ 79) (y_le : con.y ≤ 23) (position : con.currentPosition ≤ maxScrollback)
    (spare : con.bufferptr ≠ 0 → ∀ i < 80, con.buffer (con.bufferptr + i) = blank) :
    con.redrawScreen.Sound := by
  have shown := redrawScreen_shown inside position
  generalize copyWrapped con.vramBuffer con.buffer bufferSize (wrap bufferSize con.curVisible)
    (80 * 24) = vramBuffer at *
  generalize copy con.videoram 0 vramBuffer 0 (80 * 24) = videoram at *
  exact ⟨aligned, inside, x_le, y_le, position, shown, spare⟩

lemma refines_redrawn (refines : con.Refines t) : con.redrawScreen.Refines t := by
  generalize copyWrapped con.vramBuffer con.buffer bufferSize (wrap bufferSize con.curVisible)
    (80 * 24) = vramBuffer
  generalize copy con.videoram 0 vramBuffer 0 (80 * 24) = videoram
  exact ⟨refines.x_eq, refines.y_eq, refines.text_eq, refines.back_eq, refines.top_le, refines.cell⟩

lemma Sound.showAt (sound : con.Sound) {position : Nat} (le : position ≤ maxScrollback) :
    (con.showAt position).Sound :=
  sound_redrawn sound.aligned sound.inside sound.x_le sound.y_le le sound.spare

lemma Refines.showAt (refines : con.Refines t) (position : Nat) :
    (con.showAt position).Refines t :=
  refines_redrawn ⟨refines.x_eq, refines.y_eq, refines.text_eq, refines.back_eq, refines.top_le,
    refines.cell⟩

/-- Whatever keys are pressed, the screen shows the lines of the terminal. -/
lemma Sound.shows_moves (sound : con.Sound) (refines : con.Refines t) (moves : List Move) :
    (moves.foldl move con).Shows t := by
  induction moves generalizing con with
  | nil => exact sound.shows refines
  | cons m moves ih =>
    rw [foldl_cons]
    obtain same | ⟨position, le, same⟩ := move_cases sound.position m
    · rw [same]
      exact ih sound refines
    · rw [same]
      exact ih (sound.showAt le) (refines.showAt position)

lemma position_up {k : Nat} (le : con.currentPosition + k ≤ maxScrollback) :
    ((List.replicate k Move.up).foldl move con).currentPosition = con.currentPosition + k := by
  induction k generalizing con with
  | zero => rfl
  | succ k ih =>
    have up : con.move .up = con.showAt (con.currentPosition + 1) := by
      rw [move, target, if_neg (by omega)]
      rfl
    have position : (con.showAt (con.currentPosition + 1)).currentPosition =
        con.currentPosition + 1 := rfl
    rw [replicate_succ, foldl_cons, up, ih (by omega), position]
    omega

/-! ## Characters -/

lemma terminal_putchar_eq (t : Terminal) (c : Int) :
    t.putchar c = ((t.written c).place (cursorAfter c t.x t.y)).scroll := by
  unfold Terminal.putchar Terminal.written cursorAfter
  by_cases newline : c = 10
  · simp [newline, Terminal.place]
  by_cases back : c = 8
  · by_cases right : 0 < t.x <;> by_cases down : 0 < t.y <;>
      simp [back, right, down, Terminal.place]
  by_cases printable : 0x20 ≤ c
  · by_cases last : t.x + 1 = 80 <;>
      simp [newline, back, printable, Terminal.place, Terminal.store, last]
  · simp [newline, back, printable, Terminal.place]

/-- The distance from the start of the buffer to the cursor. -/
def cursorOffset (con : Console) : Nat := 80 * (24 * numScrollback + con.y) + con.x

lemma window_store (sound : con.Sound) (cell : Cell) {i : Nat} (hi : i < bufferSize) :
    window (con.store cell).buffer bufferSize con.bufferptr i =
      if i = con.cursorOffset then cell else window con.buffer bufferSize con.bufferptr i := by
  have x_le := sound.x_le
  have y_le := sound.y_le
  have address : con.curScreen + (con.y * 80 + con.x) = con.bufferptr + con.cursorOffset := by
    unfold curScreen cursorOffset
    omega
  have inside : con.cursorOffset < bufferSize := by
    unfold cursorOffset bufferSize numScrollback
    omega
  have buffer : (con.store cell).buffer =
      Function.update con.buffer (wrap bufferSize (con.bufferptr + con.cursorOffset)) cell := by
    rw [store, address]
  rw [buffer, window_update hi inside]

lemma Sound.first (sound : con.Sound) (buffer : Nat → Cell) {i : Nat} (hi : i < 80) :
    window buffer bufferSize con.bufferptr i = buffer (con.bufferptr + i) := by
  have aligned := sound.aligned
  have inside := sound.inside
  unfold bufferSize numScrollback at *
  rw [window, wrap, if_neg (by omega)]

lemma Sound.store (sound : con.Sound) (cell : Cell) : (con.store cell).Sound where
  aligned := sound.aligned
  inside := sound.inside
  x_le := sound.x_le
  y_le := sound.y_le
  position := sound.position
  shown := by
    intro i hi
    have inside : 80 * (24 * numScrollback - con.currentPosition) + i < bufferSize := by
      unfold bufferSize numScrollback
      omega
    have here : 80 * (24 * numScrollback - con.currentPosition) + i = con.cursorOffset ↔
        con.Displayed ∧ i = con.y * 80 + con.x + 80 * con.currentPosition := by
      unfold cursorOffset Displayed numScrollback
      omega
    have screen : (con.store cell).videoram i = if con.Displayed ∧
        i = con.y * 80 + con.x + 80 * con.currentPosition then cell else con.videoram i := by
      by_cases displayed : con.Displayed
      · simp [Console.store, displayed, Function.update_apply]
      · simp [Console.store, displayed]
    rw [screen, sound.shown i hi]
    exact (if_congr here.symm rfl rfl).trans (window_store sound cell inside).symm
  spare := by
    intro moved i hi
    have apart : i ≠ con.cursorOffset := by
      unfold cursorOffset numScrollback
      omega
    have same := window_store sound cell (i := i) (by unfold bufferSize; omega)
    rw [if_neg apart, sound.first _ hi, sound.first _ hi] at same
    exact same.trans (sound.spare moved i hi)

lemma Refines.store (sound : con.Sound) (refines : con.Refines t) (cell : Cell) :
    (con.store cell).Refines (t.store cell) where
  x_eq := refines.x_eq
  y_eq := refines.y_eq
  text_eq := refines.text_eq
  back_eq := refines.back_eq
  top_le := refines.top_le
  cell := by
    intro i low high
    have x_le := sound.x_le
    have top := refines.top_le
    have here : i = con.cursorOffset ↔
        t.top - 24 * numScrollback + i / 80 = t.top + t.y ∧ i % 80 = t.x := by
      rw [refines.x_eq, refines.y_eq]
      unfold cursorOffset numScrollback at *
      omega
    refine (window_store sound cell high).trans ?_
    rw [refines.cell i low high]
    simp only [here, Terminal.store, Function.update_apply]
    split_ifs <;> simp_all

/-! ## Scrolling -/

variable {p : Nat × Nat}

lemma nextLine_eq (sound : con.Sound) :
    nextLine con.bufferptr = wrap bufferSize (con.bufferptr + 80) := by
  have aligned := sound.aligned
  have inside := sound.inside
  unfold nextLine wrap bufferSize numScrollback at *
  split_ifs <;> omega

/-- The lines move up by one, and the last one is the former first one, unless it is blanked. -/
lemma window_scrolled (sound : con.Sound) {i : Nat} (low : 80 ≤ i) (hi : i < bufferSize) :
    window (fill con.buffer (blankedAt (nextLine con.bufferptr)) 80 blank) bufferSize
        (nextLine con.bufferptr) i =
      if i < bufferSize - 80 then window con.buffer bufferSize con.bufferptr (80 + i)
      else if nextLine con.bufferptr = 0 then blank
      else con.buffer (con.bufferptr + (i - (bufferSize - 80))) := by
  have next := nextLine_eq sound
  have inside := sound.inside
  have aligned := sound.aligned
  obtain ⟨-, small⟩ := nextLine_bounds sound.inBounds
  have old : window con.buffer bufferSize (nextLine con.bufferptr) i =
      if i < bufferSize - 80 then window con.buffer bufferSize con.bufferptr (80 + i)
      else con.buffer (con.bufferptr + (i - (bufferSize - 80))) := by
    rw [next]
    split_ifs with last
    · exact window_wrap inside (by omega)
    · refine congrArg con.buffer ?_
      unfold wrap bufferSize numScrollback at *
      split_ifs <;> omega
  rw [blankedAt_eq]
  generalize nextLine con.bufferptr = start at *
  by_cases zero : start = 0
  · have address : bufferSize - 80 = wrap bufferSize (start + (bufferSize - 80)) := by
      unfold wrap
      rw [zero, if_neg (by omega), Nat.zero_add]
    rw [if_pos zero, address, window_fill hi (by omega) (by omega), ← address, old, if_pos zero]
    by_cases last : i < bufferSize - 80
    · rw [if_neg (by omega), if_pos last, if_pos last]
    · rw [if_pos (by omega), if_neg last]
  · have address : start = wrap bufferSize (start + 0) := by
      unfold wrap
      rw [if_neg (by omega), Nat.add_zero]
    have filled : window (fill con.buffer (wrap bufferSize (start + 0)) 80 blank)
        bufferSize start i = window con.buffer bufferSize start i :=
      (window_fill hi (by omega) (by omega) blank).trans (if_neg (by omega))
    rw [← address, old] at filled
    rw [if_neg zero, if_neg zero, filled]

lemma scroll_below (below : p.2 = 24) : (con.place p).scroll = redrawScreen { con with
    currentPosition := stayBack con.currentPosition
    bufferptr := nextLine con.bufferptr
    buffer := fill con.buffer (blankedAt (nextLine con.bufferptr)) 80 blank
    x := p.1
    y := 23 } := by
  have lt : ¬ (con.place p).y ≤ 23 := by
    simp only [place]
    omega
  exact if_neg lt

lemma Sound.scroll (sound : con.Sound) (hx : p.1 ≤ 79) (hy : p.2 ≤ 24) :
    (con.place p).scroll.Sound := by
  by_cases inside : p.2 ≤ 23
  · have stays : (con.place p).scroll = con.place p := if_pos inside
    rw [stays]
    exact ⟨sound.aligned, sound.inside, hx, inside, sound.position, sound.shown, sound.spare⟩
  · obtain ⟨aligned, small⟩ := nextLine_bounds sound.inBounds
    have position : stayBack con.currentPosition ≤ maxScrollback := by
      unfold stayBack
      split_ifs <;> omega
    have spare (moved : nextLine con.bufferptr ≠ 0) (i : Nat) (hi : i < 80) :
        fill con.buffer (blankedAt (nextLine con.bufferptr)) 80 blank (nextLine con.bufferptr + i) =
          blank := by
      rw [blankedAt_eq, if_neg moved]
      unfold fill
      exact if_pos ⟨Nat.le_add_right _ _, Nat.add_lt_add_left hi _⟩
    have inside : nextLine con.bufferptr < bufferSize := by omega
    rw [scroll_below (by omega)]
    exact sound_redrawn aligned inside hx (Nat.le_refl 23) position spare

def FirstBlank (con : Console) : Prop := ∀ i < 80, con.buffer (con.bufferptr + i) = blank

/-- A blank line comes into view if the first line of the buffer is blank. -/
lemma Refines.scroll (sound : con.Sound) (refines : con.Refines t) (hy : p.2 ≤ 24)
    (fresh : p.2 = 24 → con.FirstBlank) : (con.place p).scroll.Refines (t.place p).scroll := by
  by_cases inside : p.2 ≤ 23
  · have stays : (con.place p).scroll = con.place p := if_pos inside
    have stays' : (t.place p).scroll = t.place p := if_pos inside
    rw [stays, stays']
    exact ⟨rfl, rfl, refines.text_eq, refines.back_eq, refines.top_le, refines.cell⟩
  · have below : p.2 = 24 := by omega
    have scrolls : (t.place p).scroll = { t.place p with
        line := Function.update t.line (t.top + 24) fun _ => blank
        top := t.top + 1
        y := 23 } := if_neg inside
    have top := refines.top_le
    have cells (i : Nat) (low : 80 ≤ i) (high : i < bufferSize) :
        window (fill con.buffer (blankedAt (nextLine con.bufferptr)) 80 blank) bufferSize
            (nextLine con.bufferptr) i =
          Function.update t.line (t.top + 24) (fun _ => blank)
            (t.top + 1 - 24 * numScrollback + i / 80) (i % 80) := by
      rw [window_scrolled sound low high]
      by_cases last : i < bufferSize - 80
      · have other : t.top + 1 - 24 * numScrollback + i / 80 ≠ t.top + 24 := by
          unfold bufferSize at last
          omega
        have row : t.top - 24 * numScrollback + (80 + i) / 80 =
            t.top + 1 - 24 * numScrollback + i / 80 := by omega
        rw [if_pos last, refines.cell (80 + i) (by omega) (by omega),
          Function.update_of_ne other, row, Nat.add_mod_left]
      · have row : t.top + 1 - 24 * numScrollback + i / 80 = t.top + 24 := by
          unfold bufferSize at last high
          omega
        have first : con.buffer (con.bufferptr + (i - (bufferSize - 80))) = blank :=
          fresh below _ (by omega)
        rw [if_neg last, first, ite_self, row, Function.update_self]
    rw [scroll_below below, scrolls]
    exact refines_redrawn ⟨rfl, rfl, refines.text_eq, refines.back_eq, Nat.le_succ_of_le top, cells⟩

/-! ## Text -/

lemma Sound.written (sound : con.Sound) (c : Int) : (con.written c).Sound := by
  unfold Console.written
  split_ifs
  · exact sound.store _
  · exact sound

lemma Refines.written (sound : con.Sound) (refines : con.Refines t) (c : Int) :
    (con.written c).Refines (t.written c) := by
  unfold Console.written Terminal.written
  rw [refines.text_eq, refines.back_eq]
  split_ifs
  · exact refines.store sound _
  · exact refines

lemma written_first (sound : con.Sound) (c : Int) : (con.written c).bufferptr = con.bufferptr ∧
    ∀ i < 80, (con.written c).buffer (con.bufferptr + i) = con.buffer (con.bufferptr + i) := by
  unfold written
  split_ifs
  · refine ⟨rfl, fun i hi => ?_⟩
    have same := window_store sound (glyph con.textColor con.backColor c) (i := i)
      (by unfold bufferSize; omega)
    have apart : i ≠ con.cursorOffset := by
      unfold cursorOffset numScrollback
      omega
    rwa [if_neg apart, sound.first _ hi, sound.first _ hi] at same
  · exact ⟨rfl, fun _ _ => rfl⟩

/-- If the character makes the screen scroll while the buffer starts at 0, its line 0 is blank. -/
def Fresh (con : Console) (c : Int) : Prop :=
  con.bufferptr = 0 → (cursorAfter c con.x con.y).2 = 24 → ∀ i < 80, con.buffer i = blank

lemma Sound.putchar (sound : con.Sound) (c : Int) : (con.putchar c).Sound := by
  obtain ⟨hx, hy⟩ := cursorAfter_le c sound.x_le sound.y_le
  rw [putchar_eq sound.inBounds]
  exact (sound.written c).scroll hx hy

lemma Refines.putchar (sound : con.Sound) (refines : con.Refines t) (fresh : con.Fresh c) :
    (con.putchar c).Refines (t.putchar c) := by
  obtain ⟨-, hy⟩ := cursorAfter_le c sound.x_le sound.y_le
  rw [putchar_eq sound.inBounds, terminal_putchar_eq, refines.x_eq, refines.y_eq]
  refine (refines.written sound c).scroll (sound.written c) hy fun below i hi => ?_
  obtain ⟨start, first⟩ := written_first sound c
  rw [start, first i hi]
  by_cases zero : con.bufferptr = 0
  · rw [zero, Nat.zero_add]
    exact fresh zero below i hi
  · exact sound.spare zero i hi

lemma written_position (con : Console) (c : Int) :
    (con.written c).currentPosition = con.currentPosition := by
  unfold written
  split_ifs
  · rfl
  · rfl

lemma position_putchar (sound : con.Sound) (offset : con.currentPosition = 0) (c : Int) :
    (con.putchar c).currentPosition = 0 := by
  have kept := (written_position con c).trans offset
  rw [putchar_eq sound.inBounds]
  generalize cursorAfter c con.x con.y = p
  by_cases inside : p.2 ≤ 23
  · exact (congrArg currentPosition (if_pos inside)).trans kept
  · have stays : stayBack (con.written c).currentPosition = 0 := by
      rw [stayBack, if_neg (by omega), kept]
    exact (congrArg currentPosition (if_neg inside)).trans stays

/-- Otherwise what was left in line 0 appears in the new last line. -/
lemma not_shows_of_not_fresh (sound : con.Sound) (refines : con.Refines t)
    (offset : con.currentPosition = 0) (stale : ¬ con.Fresh c) :
    ¬ (con.putchar c).Shows (t.putchar c) := by
  simp only [Fresh, not_forall] at stale
  obtain ⟨zero, below, i, hi, left⟩ := stale
  obtain ⟨start, first⟩ := written_first sound c
  have moved : nextLine (con.written c).bufferptr ≠ 0 := by
    unfold nextLine bufferSize
    split_ifs <;> omega
  have line : window
      (fill (con.written c).buffer (blankedAt (nextLine (con.written c).bufferptr)) 80 blank)
      bufferSize (nextLine (con.written c).bufferptr) (80 * (24 * numScrollback) + (1840 + i)) =
      con.buffer i := by
    have last : 80 * (24 * numScrollback) + (1840 + i) = bufferSize - 80 + i := by
      unfold bufferSize
      omega
    rw [last, window_scrolled (sound.written c) (by omega) (by omega), if_neg (by omega),
      if_neg moved, Nat.add_sub_cancel_left, start, first i hi, zero, Nat.zero_add]
  have within : nextLine (con.written c).bufferptr < bufferSize := by
    have := (nextLine_bounds (sound.written c).inBounds).2
    omega
  have stays : stayBack (con.written c).currentPosition = 0 := by
    rw [written_position, offset]
    rfl
  have visible : stayBack (con.written c).currentPosition ≤ maxScrollback := by omega
  have drawn : (con.putchar c).videoram (1840 + i) = con.buffer i := by
    rw [putchar_eq sound.inBounds, scroll_below below,
      redrawScreen_shown within visible (1840 + i) (by omega)]
    rw [stays, Nat.sub_zero]
    exact line
  intro shows
  have same := shows 23 (by omega) i hi
  rw [position_putchar sound offset c, terminal_putchar_eq, refines.x_eq, refines.y_eq,
    Terminal.view_scroll below] at same
  exact left (drawn.symm.trans same)

/-- The screen shows what the terminal shows, whatever keys are pressed, and can be scrolled up. -/
structure Matches (con : Console) (t : Terminal) : Prop where
  shows : ∀ moves : List Move, (moves.foldl move con).Shows t
  back : ∀ k ≤ maxScrollback, ((List.replicate k Move.up).foldl move con).currentPosition = k

lemma Sound.matches (sound : con.Sound) (refines : con.Refines t)
    (offset : con.currentPosition = 0) : con.Matches t where
  shows := sound.shows_moves refines
  back k le := by
    rw [position_up (by omega), offset, Nat.zero_add]

/-- Every character of the text meets the condition. -/
def FreshRun (con : Console) : List Int → Prop
  | [] => True
  | c :: text => con.Fresh c ∧ (con.putchar c).FreshRun text

instance (con : Console) (c : Int) : Decidable (con.Fresh c) := inferInstanceAs (Decidable (_ → _))

instance decidableFreshRun : (con : Console) → (text : List Int) → Decidable (con.FreshRun text)
  | _, [] => inferInstanceAs (Decidable True)
  | con, c :: text =>
    have := decidableFreshRun (con.putchar c) text
    inferInstanceAs (Decidable (_ ∧ _))

lemma freshRun_append (con : Console) (first text : List Int) :
    con.FreshRun (first ++ text) ↔ con.FreshRun first ∧
      (first.foldl putchar con).FreshRun text := by
  induction first generalizing con with
  | nil => simp [FreshRun]
  | cons c first ih =>
    simp only [cons_append, FreshRun, foldl_cons, ih, and_assoc]

lemma Sound.foldl (sound : con.Sound) (text : List Int) :
    (text.foldl Console.putchar con).Sound := by
  induction text generalizing con with
  | nil => exact sound
  | cons c text ih => exact ih (sound.putchar c)

lemma matches_iff_freshRun (sound : con.Sound) (refines : con.Refines t)
    (offset : con.currentPosition = 0) (text : List Int) :
    (∀ written, written <+: text →
      (written.foldl putchar con).Matches (written.foldl Terminal.putchar t)) ↔
        con.FreshRun text := by
  induction text generalizing con t with
  | nil =>
    refine iff_of_true (fun written nil => ?_) trivial
    rw [prefix_nil.mp nil]
    exact sound.matches refines offset
  | cons c text ih =>
    constructor
    · intro all
      have fresh : con.Fresh c := by
        by_contra stale
        have first := all [c] (by simp)
        exact not_shows_of_not_fresh sound refines offset stale (first.shows [])
      refine ⟨fresh, ?_⟩
      rw [← ih (sound.putchar c) (refines.putchar sound fresh) (position_putchar sound offset c)]
      intro written le
      exact all (c :: written) (cons_prefix_cons.mpr ⟨rfl, le⟩)
    · rintro ⟨fresh, rest⟩ written le
      cases written with
      | nil => exact sound.matches refines offset
      | cons d written =>
        obtain ⟨rfl, shorter⟩ := cons_prefix_cons.mp le
        exact (ih (sound.putchar d) (refines.putchar sound fresh)
          (position_putchar sound offset d)).mpr rest written shorter

/-- A console shows what a terminal shows, after every part of a text, exactly if line 0 of the
buffer is blank whenever it comes into view. -/
theorem matches_terminal_iff (con : Console) (sound : con.Sound) (offset : con.currentPosition = 0)
    (text : List Int) : (∀ written, written <+: text →
      (written.foldl putchar con).Matches (written.foldl Terminal.putchar con.terminal)) ↔
      con.FreshRun text :=
  matches_iff_freshRun sound (refines_terminal con) offset text

/-- A text that makes the console scroll for the first time. -/
def firstScroll : List Int := List.replicate 24 10 ++ [65]

theorem matches_terminal_firstScroll :
    (firstScroll.foldl putchar boot).Matches (firstScroll.foldl Terminal.putchar boot.terminal) :=
  (matches_terminal_iff boot sound_boot rfl firstScroll).mpr (by decide +kernel) _ prefix_rfl

/-- A newline in the last line. Line 0 of the buffer is not blanked. -/
lemma newline_bottom (sound : con.Sound) (bottom : con.y = 23) :
    (con.putchar 10).bufferptr = nextLine con.bufferptr ∧ (con.putchar 10).y = 23 ∧
      ∀ i < 80, (con.putchar 10).buffer i = con.buffer i := by
  have below : (cursorAfter 10 con.x con.y).2 = 24 := by
    rw [bottom]
    rfl
  have same : con.written 10 = con := rfl
  rw [putchar_eq sound.inBounds, scroll_below below, same]
  refine ⟨rfl, rfl, fun i hi => ?_⟩
  have apart : 80 ≤ blankedAt (nextLine con.bufferptr) := by
    have := (nextLine_bounds sound.inBounds).1
    rw [blankedAt_eq]
    unfold bufferSize
    split_ifs <;> omega
  have outside : ¬ (blankedAt (nextLine con.bufferptr) ≤ i ∧
      i < blankedAt (nextLine con.bufferptr) + 80) := by omega
  have kept : fill con.buffer (blankedAt (nextLine con.bufferptr)) 80 blank i = con.buffer i := by
    unfold fill
    exact if_neg outside
  exact kept

lemma newlines_bottom (sound : con.Sound) (bottom : con.y = 23) {n : Nat}
    (fits : con.bufferptr + 80 * n ≤ bufferSize) :
    ((List.replicate n 10).foldl putchar con).bufferptr =
        (if con.bufferptr + 80 * n = bufferSize then 0 else con.bufferptr + 80 * n) ∧
      ((List.replicate n 10).foldl putchar con).y = 23 ∧
      ∀ i < 80, ((List.replicate n 10).foldl putchar con).buffer i = con.buffer i := by
  have inside := sound.inside
  induction n with
  | zero => exact ⟨(if_neg (by omega)).symm, bottom, fun _ _ => rfl⟩
  | succ n ih =>
    obtain ⟨start, last, kept⟩ := ih (by omega)
    obtain ⟨start', last', kept'⟩ := newline_bottom (sound.foldl (List.replicate n 10)) last
    rw [replicate_succ', foldl_append, foldl_cons, foldl_nil]
    refine ⟨?_, last', fun i hi => (kept' i hi).trans (kept i hi)⟩
    rw [start', start, if_neg (by omega), nextLine]
    by_cases full : con.bufferptr + 80 * (n + 1) = bufferSize
    · rw [if_pos full, if_pos (by omega)]
    · rw [if_neg full, if_neg (by omega)]
      omega

/-- The letter A in the first line that has come into view appears again in the last line, 3624
lines later. -/
theorem stale_line_appears : ¬ ∀ written, written <+: firstScroll ++ List.replicate 3624 10 →
    (written.foldl putchar boot).Matches (written.foldl Terminal.putchar boot.terminal) := by
  rw [matches_iff_freshRun sound_boot (refines_terminal boot) rfl, replicate_succ',
    ← append_assoc, freshRun_append, foldl_append]
  have state : (firstScroll.foldl putchar boot).y = 23 ∧
      (firstScroll.foldl putchar boot).bufferptr = 80 ∧
      (firstScroll.foldl putchar boot).buffer 0 = 0x741 := by decide +kernel
  have sound := sound_boot.foldl firstScroll
  generalize firstScroll.foldl putchar boot = con at state sound
  obtain ⟨bottom, start, letter⟩ := state
  have size : bufferSize = 80 + 80 * 3623 := by
    unfold bufferSize numScrollback
    rfl
  obtain ⟨start', bottom', kept⟩ := newlines_bottom sound bottom (n := 3623) (by omega)
  rw [if_pos (by omega)] at start'
  rintro ⟨-, fresh, -⟩
  have blank' := fresh start' (by rw [bottom']; rfl) 0 (by omega)
  rw [kept 0 (by omega), letter] at blank'
  exact absurd blank' (by decide)

end Console

end ExscapeOS.Consoles
