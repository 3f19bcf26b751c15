import Mathlib.Control.Monad.Writer
import ExscapeOS.Kernel.Console.Basic

/-!
# Inside the buffers

The cursor stays on the screen, the visible part in the scrollback, and the start of the circular
buffer at the beginning of a line. So every address that the console computes, with its different
ways to go around the end of the buffer, is inside the buffer or the video memory.

There are several consoles. When one that is not displayed scrolls, the displayed one is drawn
again.
-/
namespace ExscapeOS.Consoles

open Lib

namespace Console

variable {con : Console}

structure InBounds (con : Console) : Prop where
  x_le : con.x ≤ 79
  y_le : con.y ≤ 23
  position : con.currentPosition ≤ maxScrollback
  aligned : con.bufferptr % 80 = 0
  inside : con.bufferptr < bufferSize

lemma sizes : numScrollback = 150 ∧ maxScrollback = 3599 ∧ bufferSize = 289920 := by
  unfold maxScrollback bufferSize numScrollback
  decide

lemma inBounds_boot : boot.InBounds :=
  ⟨Nat.zero_le _, Nat.zero_le _, Nat.zero_le _, rfl, show 0 < bufferSize by rw [sizes.2.2]; decide⟩

lemma target_le (le : con.currentPosition ≤ maxScrollback) {m : Move} {position : Nat}
    (moves : con.target m = some position) : position ≤ maxScrollback := by
  cases m <;> grind [target]

lemma move_cases (le : con.currentPosition ≤ maxScrollback) (m : Move) :
    con.move m = con ∨ ∃ position ≤ maxScrollback, con.move m = con.showAt position := by
  unfold move
  cases moves : con.target m with
  | none => exact .inl rfl
  | some position => exact .inr ⟨position, target_le le moves, rfl⟩

/-- Where the cursor goes, before the screen is scrolled. -/
def cursorAfter (c : Int) (x y : Nat) : Nat × Nat :=
  if c = 10 then (0, y + 1)
  else if c = 8 then if 0 < x then (x - 1, y) else if 0 < y then (79, y - 1) else (x, y)
  else if 0x20 ≤ c then if x + 1 = 80 then (0, y + 1) else (x + 1, y)
  else (x, y)

lemma cursorAfter_le (c : Int) {x y : Nat} (hx : x ≤ 79) (hy : y ≤ 23) :
    (cursorAfter c x y).1 ≤ 79 ∧ (cursorAfter c x y).2 ≤ 24 := by
  unfold cursorAfter
  split_ifs <;> constructor <;> dsimp only <;> omega

def place (con : Console) (p : Nat × Nat) : Console := { con with x := p.1, y := p.2 }

/-- What is stored before the cursor moves. -/
def written (con : Console) (c : Int) : Console :=
  if 0x20 ≤ c then con.store (glyph con.textColor con.backColor c) else con

lemma putchar_eq (bounded : con.InBounds) (c : Int) :
    con.putchar c = ((con.written c).place (cursorAfter c con.x con.y)).scroll := by
  have same : { con with y := min con.y 23, x := min con.x 79 } = con := by
    rw [Nat.min_eq_left bounded.y_le, Nat.min_eq_left bounded.x_le]
  unfold putchar written cursorAfter
  rw [same]
  by_cases newline : c = 10
  · simp [newline, place]
  by_cases back : c = 8
  · by_cases right : 0 < con.x <;> by_cases down : 0 < con.y <;> simp [back, right, down, place]
  by_cases printable : 0x20 ≤ c
  · by_cases last : con.x + 1 = 80 <;> simp [newline, back, printable, place, store, last]
  · simp [newline, back, printable, place]

lemma nextLine_bounds (bounded : con.InBounds) :
    nextLine con.bufferptr % 80 = 0 ∧ nextLine con.bufferptr + 80 ≤ bufferSize := by
  have aligned := bounded.aligned
  have inside := bounded.inside
  unfold nextLine bufferSize numScrollback at *
  split_ifs <;> omega

/-- The line that is blanked is the last one if the buffer starts at 0, and otherwise the first one.
-/
lemma blankedAt_eq (start : Nat) :
    blankedAt start = if start = 0 then bufferSize - 80 else start := by
  unfold blankedAt bufferSize numScrollback
  dsimp only
  split_ifs <;> omega

end Console

/-! ## Accesses -/

/-- An access to `count` cells from `start` on, in the buffer of a console, or in both `videoram`
and `vram_buffer`. -/
inductive Access where
  | buffer (start count : Int)
  | screen (start count : Int)

def Access.Inside : Access → Prop
  | buffer start count => 0 ≤ start ∧ 0 ≤ count ∧ start + count ≤ bufferSize
  | screen start count => 0 ≤ start ∧ 0 ≤ count ∧ start + count ≤ 80 * 24

lemma inside_buffer {start count : Int} : (Access.buffer start count).Inside ↔
    0 ≤ start ∧ 0 ≤ count ∧ start + count ≤ bufferSize := Iff.rfl

lemma inside_screen {start count : Int} : (Access.screen start count).Inside ↔
    0 ≤ start ∧ 0 ≤ count ∧ start + count ≤ 80 * 24 := Iff.rfl

/-- A computation with the accesses that it makes. -/
abbrev Traced : Type → Type := Writer (List Access)

namespace Traced

variable {α β : Type} {P : α → Prop} {Q : β → Prop}

/-- The result has a property, and every access is inside. -/
def Safe (P : α → Prop) (t : Traced α) : Prop := P t.run.1 ∧ ∀ a ∈ t.run.2, a.Inside

lemma Safe.pure {a : α} (h : P a) : Safe P (Pure.pure a) := ⟨h, nofun⟩

lemma Safe.bind {t : Traced α} {f : α → Traced β} (first : Safe P t)
    (next : ∀ a, P a → Safe Q (f a)) : Safe Q (t >>= f) :=
  ⟨(next _ first.1).1, List.forall_mem_append.mpr ⟨first.2, (next _ first.1).2⟩⟩

lemma Safe.tell {a : Access} {f : PUnit → Traced β} (inside : a.Inside) (next : Safe Q (f ⟨⟩)) :
    Safe Q (MonadWriter.tell [a] >>= f) :=
  ⟨next.1, List.forall_mem_cons.mpr ⟨inside, next.2⟩⟩

end Traced

open MonadWriter (tell)

namespace Console

/-- `memcpy(vram_buffer + target, buffer + source, count)` -/
def draw (con : Console) (target source count : Int) : Traced Console := do
  tell [.buffer source count]
  tell [.screen target count]
  return { con with
    vramBuffer := copy con.vramBuffer target.toNat con.buffer source.toNat count.toNat }

/-- An address beyond the end is taken from the beginning of the buffer on. -/
def wrapAddress (address : Int) : Int :=
  if bufferSize ≤ address then address - bufferSize else address

/-- A screen is copied from `curVis` on, in two parts at the end of the buffer. -/
def drawFrom (con : Console) (curVis : Int) : Traced Console :=
  if bufferSize ≤ curVis + 80 * 24 then do
    let copied := bufferSize - curVis
    let con ← con.draw 0 curVis copied
    con.draw copied 0 (80 * 24 - copied)
  else con.draw 0 curVis (80 * 24)

/-- `redraw_screen` -/
def tracedRedraw (con : Console) : Traced Console := do
  let con ← con.drawFrom (wrapAddress (con.curScreen - 80 * con.currentPosition))
  tell [.screen 0 (80 * 24)]
  return { con with videoram := copy con.videoram 0 con.vramBuffer 0 (80 * 24) }

/-- The character is stored at the cursor, and on the screen if the console is displayed. -/
def tracedStore (con : Console) (displayed : Bool) (cell : Cell) : Traced Console := do
  let offset := con.y * 80 + con.x
  let address := wrapAddress (con.curScreen + offset)
  let stored := { con with buffer := Function.update con.buffer address.toNat cell }
  tell [.buffer address 1]
  if displayed ∧ con.Displayed then
    let sbOffset := 80 * con.currentPosition
    tell [.screen (offset + sbOffset) 1]
    return { stored with
      videoram := Function.update con.videoram (offset + sbOffset) cell
      vramBuffer := Function.update con.vramBuffer (offset + sbOffset) cell }
  return stored

/-- `putchar` up to the call of `scroll` -/
def tracedType (con : Console) (displayed : Bool) (c : Int) : Traced Console := do
  if 0x20 ≤ c then
    let con := { con with y := min con.y 23, x := min con.x 79 }
    let con ← con.tracedStore displayed (glyph con.textColor con.backColor c)
    return con.place (cursorAfter c con.x con.y)
  return con.place (cursorAfter c con.x con.y)

end Console

/-! ## The operations -/

/-- All consoles, and which one is displayed. -/
structure System where
  console : Nat → Console
  current : Nat

/-- The operations on console `i`. A task whose console is displayed also writes to the screen. -/
inductive Op where
  | putchar (i : Nat) (displayed : Bool) (c : Int)
  | cursorLeft (i : Nat)
  | cursorRight (i : Nat)
  | setCursor (i : Nat) (x y : Int)
  /-- The end of `clrscr`, after it has printed 23 newlines. -/
  | clear (i : Nat) (displayed : Bool)
  | scrollback (m : Console.Move)
  /-- `console_switch` -/
  | switch (i : Nat)

def clrscr (i : Nat) (displayed : Bool) : List Op :=
  List.replicate 23 (.putchar i displayed 10) ++ [.clear i displayed]

namespace System

variable (s : System)

def set (i : Nat) (con : Console) : System :=
  { s with console := Function.update s.console i con }

/-- `redraw_screen` draws the console that is displayed. -/
def redraw : Traced System := do
  return s.set s.current (← (s.console s.current).tracedRedraw)

/-- `scroll` for a task of console `i` -/
def scroll (i : Nat) : Traced System := do
  let con := s.console i
  if con.y ≤ 23 then return s
  tell [.buffer (Console.blankedAt (Console.nextLine con.bufferptr)) 80]
  redraw (s.set i con.advance)

/-- An operation with its accesses. -/
def exec : Op → Traced System
  | .putchar i displayed c => do
    let con ← (s.console i).tracedType displayed c
    scroll (s.set i con) i
  -- `cursor_left`
  | .cursorLeft i =>
    let con := s.console i
    if con.x ≠ 0 then return s.set i { con with x := con.x - 1 } else return s
  -- `cursor_right`
  | .cursorRight i =>
    let con := s.console i
    if con.x < 79 then return s.set i { con with x := con.x + 1 }
    else scroll (s.set i { con with x := 0, y := con.y + 1 }) i
  -- `set_cursor`
  | .setCursor i x y =>
    if x < 0 ∨ 79 < x then return s
    else if y < 0 ∨ 23 < y then return s
    else return s.set i { s.console i with x := x.toNat, y := y.toNat }
  | .clear i displayed => do
    let con := { s.console i with x := 0, y := 0 }
    if displayed then
      tell [.screen 0 (80 * 24)]
      return s.set i { con with
        vramBuffer := fill con.vramBuffer 0 (80 * 24) blank
        videoram := fill con.videoram 0 (80 * 24) blank }
    return s.set i con
  | .scrollback m =>
    match (s.console s.current).target m with
    | none => return s
    | some position =>
      redraw (s.set s.current { s.console s.current with currentPosition := position })
  | .switch i => if i = s.current then return s else redraw { s with current := i }

def step (op : Op) : System := (s.exec op).run.1

def accesses (op : Op) : List Access := (s.exec op).run.2

end System

/-! ## Safety -/

open Traced

namespace Console

variable {con : Console}

lemma draw_safe (bounded : con.InBounds) {target source count : Int}
    (read : (Access.buffer source count).Inside) (write : (Access.screen target count).Inside) :
    Safe InBounds (con.draw target source count) :=
  .tell read (.tell write (.pure { bounded with }))

lemma wrapAddress_inside (address : Int) (ge : 0 ≤ address) (lt : address < 2 * bufferSize) :
    0 ≤ wrapAddress address ∧ wrapAddress address < bufferSize := by
  unfold wrapAddress
  split_ifs <;> omega

lemma drawFrom_safe (bounded : con.InBounds) {curVis : Int}
    (inside : 0 ≤ curVis ∧ curVis < bufferSize) : Safe InBounds (con.drawFrom curVis) := by
  have size := sizes.2.2
  unfold drawFrom
  split_ifs
  · refine .bind (draw_safe bounded ?_ ?_) fun con bounded => draw_safe bounded ?_ ?_ <;>
      simp only [inside_buffer, inside_screen] <;> omega
  · refine draw_safe bounded ?_ ?_ <;> simp only [inside_buffer, inside_screen] <;> omega

lemma tracedRedraw_safe (bounded : con.InBounds) : Safe InBounds con.tracedRedraw := by
  have inside := bounded.inside
  have position := bounded.position
  obtain ⟨scroll, most, size⟩ := sizes
  unfold tracedRedraw curScreen
  exact .bind (drawFrom_safe bounded (wrapAddress_inside _ (by omega) (by omega)))
    fun con bounded => .tell ⟨by decide, by decide, by decide⟩ (.pure { bounded with })

lemma tracedStore_safe (bounded : con.InBounds) (displayed : Bool) (cell : Cell) :
    Safe InBounds (con.tracedStore displayed cell) := by
  have ⟨x_le, y_le, _, _, inside⟩ := bounded
  obtain ⟨scroll, -, size⟩ := sizes
  unfold tracedStore curScreen
  have address := wrapAddress_inside (↑(con.bufferptr + 80 * 24 * numScrollback) +
    ↑(con.y * 80 + con.x)) (by omega) (by omega)
  refine .tell (by rw [inside_buffer]; omega) ?_
  dsimp only
  split_ifs with both
  · obtain ⟨-, near, row⟩ := both
    exact .tell (by rw [inside_screen]; omega) (.pure { bounded with })
  · exact .pure { bounded with }

/-- Before the screen is scrolled, the cursor may be below it. -/
lemma tracedType_safe (bounded : con.InBounds) (displayed : Bool) (c : Int) :
    Safe (fun con => ({ con with y := 23 } : Console).InBounds) (con.tracedType displayed c) := by
  have placed (con : Console) (bounded : con.InBounds) : Safe _ _ :=
    Safe.pure (P := fun con : Console => ({ con with y := 23 } : Console).InBounds)
      (a := con.place (cursorAfter c con.x con.y))
      { bounded with
        x_le := (cursorAfter_le c bounded.x_le bounded.y_le).1
        y_le := Nat.le_refl 23 }
  unfold tracedType
  rw [Nat.min_eq_left bounded.y_le, Nat.min_eq_left bounded.x_le]
  split_ifs
  · exact .bind (tracedStore_safe bounded displayed _) placed
  · exact placed con bounded

/-- The line that is blanked is inside, and the cursor is back on the screen. -/
lemma advance_bounds (below : ({ con with y := 23 } : Console).InBounds) :
    con.advance.InBounds ∧ (Access.buffer (blankedAt (nextLine con.bufferptr)) 80).Inside := by
  obtain ⟨aligned, inside⟩ := nextLine_bounds below
  have blanked : blankedAt (nextLine con.bufferptr) + 80 ≤ bufferSize := by
    rw [blankedAt_eq]
    split_ifs
    · have size := sizes.2.2
      omega
    · exact inside
  have position : stayBack con.currentPosition ≤ maxScrollback := by
    unfold stayBack
    split_ifs
    · exact Nat.min_le_right _ _
    · exact below.position
  have before : nextLine con.bufferptr < bufferSize := Nat.lt_of_lt_of_le (by simp) inside
  exact ⟨⟨below.x_le, Nat.le_refl 23, position, aligned, before⟩,
    by omega, by omega, by exact_mod_cast blanked⟩

/-! The results are those of the functions that make no trace. -/

lemma toNat_wrapAddress (i : Nat) : (wrapAddress i).toNat = wrap bufferSize i := by
  unfold wrapAddress wrap
  split_ifs <;> omega

lemma run_tracedRedraw (bounded : con.InBounds) : con.tracedRedraw.run.1 = con.redrawScreen := by
  have position := bounded.position
  have inside := bounded.inside
  obtain ⟨scroll, most, size⟩ := sizes
  have visible : (con.curScreen : Int) - 80 * con.currentPosition = con.curVisible := by
    unfold curVisible curScreen
    omega
  obtain ⟨ge, lt⟩ := wrapAddress_inside con.curVisible (by omega)
    (by unfold curVisible curScreen; omega)
  have address := toNat_wrapAddress con.curVisible
  unfold tracedRedraw drawFrom redrawScreen copyWrapped
  rw [visible, ← address]
  generalize wrapAddress con.curVisible = curVis at ge lt
  obtain ⟨curVis, rfl⟩ := Int.eq_ofNat_of_zero_le ge
  by_cases wraps : (bufferSize : Int) ≤ curVis + 80 * 24
  · have wraps' : bufferSize ≤ curVis + 80 * 24 := by omega
    have first : ((bufferSize : Int) - curVis).toNat = bufferSize - curVis := by omega
    have second : (80 * 24 - ((bufferSize : Int) - curVis)).toNat =
      80 * 24 - (bufferSize - curVis) := by
      omega
    simp only [wraps, wraps', if_true, Int.toNat_natCast]
    rw [← second, ← first]
    rfl
  · have whole : ¬ bufferSize ≤ curVis + 80 * 24 := by omega
    simp only [wraps, whole, if_false, Int.toNat_natCast]
    rfl

lemma run_tracedStore (cell : Cell) : (con.tracedStore true cell).run.1 = con.store cell := by
  have address := toNat_wrapAddress (con.curScreen + (con.y * 80 + con.x))
  unfold tracedStore store
  rw [Int.natCast_add] at address
  by_cases displayed : con.Displayed
  · simp only [displayed, and_self, if_true, ← address]
    rfl
  · simp only [displayed, and_false, if_false, ← address]
    rfl

lemma run_tracedType (bounded : con.InBounds) (c : Int) :
    (con.tracedType true c).run.1 = (con.written c).place (cursorAfter c con.x con.y) := by
  unfold tracedType written
  rw [Nat.min_eq_left bounded.y_le, Nat.min_eq_left bounded.x_le]
  split_ifs
  · have stored := @run_tracedStore con (glyph con.textColor con.backColor c)
    exact congrArg (fun con' => place con' (cursorAfter c con'.x con'.y)) stored
  · rfl

end Console

namespace System

variable {s : System}

def Bounded (s : System) : Prop := ∀ i, (s.console i).InBounds

lemma Bounded.set (bounded : s.Bounded) (i : Nat) {con : Console} (h : con.InBounds) :
    (s.set i con).Bounded := by
  intro j
  by_cases same : j = i
  · subst same
    simpa [System.set] using h
  · simpa [System.set, same] using bounded j

lemma redraw_safe (bounded : s.Bounded) : Safe Bounded s.redraw :=
  .bind (Console.tracedRedraw_safe (bounded _)) fun _ drawn => .pure (bounded.set _ drawn)

lemma set_console (i : Nat) (con : Console) : (s.set i con).console i = con :=
  Function.update_self ..

lemma set_set (i : Nat) (con con' : Console) : (s.set i con).set i con' = s.set i con' := by
  simp [System.set]

lemma scroll_safe (bounded : s.Bounded) (i : Nat) {con : Console}
    (below : ({ con with y := 23 } : Console).InBounds) :
    Safe Bounded ((s.set i con).scroll i) := by
  obtain ⟨advanced, blanked⟩ := Console.advance_bounds below
  unfold scroll
  simp only [set_console, set_set]
  split_ifs with low
  · exact .pure (bounded.set i { below with y_le := low })
  · exact .tell blanked (redraw_safe (bounded.set i advanced))

/-- One operation keeps the bounds, and all its accesses are inside. -/
lemma exec_safe (bounded : s.Bounded) (op : Op) : Safe Bounded (s.exec op) := by
  cases op with
  | putchar i displayed c =>
    exact .bind (Console.tracedType_safe (bounded i) displayed c) fun _ below =>
      scroll_safe bounded i below
  | cursorLeft i =>
    simp only [exec]
    split_ifs
    · exact .pure (bounded.set i { bounded i with
        x_le := Nat.le_trans (Nat.sub_le ..) (bounded i).x_le })
    · exact .pure bounded
  | cursorRight i =>
    simp only [exec]
    split_ifs with right
    · exact .pure (bounded.set i { bounded i with x_le := right })
    · exact scroll_safe bounded i { bounded i with x_le := Nat.zero_le _, y_le := Nat.le_refl 23 }
  | setCursor i x y =>
    simp only [exec]
    split_ifs
    · exact .pure bounded
    · exact .pure bounded
    · exact .pure (bounded.set i { bounded i with
        x_le := by dsimp only; omega
        y_le := by dsimp only; omega })
  | clear i displayed =>
    have home : ({ s.console i with x := 0, y := 0 } : Console).InBounds :=
      { bounded i with x_le := Nat.zero_le _, y_le := Nat.zero_le _ }
    simp only [exec]
    split_ifs
    · exact .tell ⟨by decide, by decide, by decide⟩ (.pure (bounded.set i { home with }))
    · exact .pure (bounded.set i home)
  | scrollback m =>
    simp only [exec]
    split
    · exact .pure bounded
    · rename_i position moves
      exact redraw_safe (bounded.set _
        { bounded _ with position := Console.target_le (bounded _).position moves })
  | switch i =>
    simp only [exec]
    split_ifs
    · exact .pure bounded
    · exact redraw_safe bounded

lemma step_putchar (bounded : s.Bounded) (c : Int) :
    (s.step (.putchar s.current true c)).console s.current = (s.console s.current).putchar c := by
  have typed := Console.run_tracedType (bounded s.current) c
  have below := (Console.tracedType_safe (bounded s.current) true c).1
  rw [Console.putchar_eq (bounded _), ← typed]
  change ((s.set _ ((s.console s.current).tracedType true c).run.1).scroll _).run.1.console _ = _
  generalize ((s.console s.current).tracedType true c).run.1 = con at below
  unfold scroll Console.scroll
  simp only [set_console, set_set]
  split_ifs
  · exact set_console ..
  · rw [← Console.run_tracedRedraw (Console.advance_bounds below).1]
    have drawn := set_console (s := s) s.current con.advance
    exact (set_console ..).trans (congrArg (fun con : Console => con.tracedRedraw.run.1) drawn)

/-- After any operations, every console and every access of the next operation is in bounds. -/
theorem run_in_bounds (bounded : ∀ i, (s.console i).InBounds) (ops : List Op) :
    (∀ i, ((ops.foldl step s).console i).InBounds) ∧
      ∀ op, ∀ a ∈ (ops.foldl step s).accesses op, a.Inside := by
  have all : (ops.foldl step s).Bounded := by
    induction ops generalizing s with
    | nil => exact bounded
    | cons op ops ih => exact ih (exec_safe bounded op).1
  exact ⟨all, fun op => (exec_safe all op).2⟩

theorem run_in_bounds_boot :
    (∀ i, (((clrscr 0 true).foldl step ⟨fun _ => .boot, 0⟩).console i).InBounds) ∧
      ∀ op, ∀ a ∈ ((clrscr 0 true).foldl step ⟨fun _ => .boot, 0⟩).accesses op, a.Inside :=
  run_in_bounds (s := ⟨fun _ => .boot, 0⟩) (fun _ => Console.inBounds_boot) (clrscr 0 true)

end System

end ExscapeOS.Consoles
