import ExscapeOS.Lib.Circular

/-!
# The console

A console keeps the screen and the lines above it in one circular buffer of 151 screens
(`console.c`) that starts at `bufferptr`. The screen is the last 24 lines; what is visible begins
`current_position` lines further up. The model is a console that is displayed, so that output also
goes to the video memory. Addresses are offsets in cells from the beginning of the buffer.
-/
namespace ExscapeOS.Consoles

open Lib

/-- A character with its colours. -/
abbrev Cell : Type := UInt16

/-- Grey on black, space. -/
def blank : Cell := 0x720

@[irreducible] def numScrollback : Nat := 150
/-- The number of lines. -/
@[irreducible] def maxScrollback : Nat := 24 * numScrollback - 1
/-- `CONSOLE_BUFFER_SIZE`, the number of characters. -/
@[irreducible] def bufferSize : Nat := 80 * 24 * (numScrollback + 1)

structure Console where
  buffer : Nat → Cell
  bufferptr : Nat
  /-- How many lines have we scrolled back? -/
  currentPosition : Nat
  x : Nat
  y : Nat
  textColor : UInt8
  backColor : UInt8
  /-- The copy that is used when the screen is drawn. -/
  vramBuffer : Nat → Cell
  videoram : Nat → Cell

namespace Console

def curScreen (con : Console) : Nat := con.bufferptr + 80 * 24 * numScrollback

def curVisible (con : Console) : Nat := con.curScreen - 80 * con.currentPosition

def redrawScreen (con : Console) : Console :=
  let curVis := wrap bufferSize con.curVisible
  let vramBuffer := copyWrapped con.vramBuffer con.buffer bufferSize curVis (80 * 24)
  { con with vramBuffer := vramBuffer, videoram := copy con.videoram 0 vramBuffer 0 (80 * 24) }

/-- The start of the buffer one line further on. -/
def nextLine (bufferptr : Nat) : Nat :=
  if bufferSize ≤ bufferptr + 80 then 0 else bufferptr + 80

/-- The address passed to `memsetw`, under the comment "Blank the last line on screen". -/
def blankedAt (bufferptr : Nat) : Nat :=
  let curScreen := bufferptr + 80 * 24 * numScrollback
  if curScreen + 80 * 23 + 80 ≤ bufferSize then curScreen + 80 * 23
  else curScreen + 80 * 23 + 80 - bufferSize

/-- In scrollback, a new line moves the visible part one line further back. -/
def stayBack (position : Nat) : Nat :=
  if position ≠ 0 then min (position + 1) maxScrollback else position

/-- The console is scrolled, but not drawn yet. -/
def advance (con : Console) : Console :=
  let bufferptr := nextLine con.bufferptr
  { con with
    currentPosition := stayBack con.currentPosition
    bufferptr := bufferptr
    buffer := fill con.buffer (blankedAt bufferptr) 80 blank
    y := 23 }

def scroll (con : Console) : Console := if con.y ≤ 23 then con else con.advance.redrawScreen

/-- A character in the colours of the console. -/
def glyph (textColor backColor : UInt8) (c : Int) : Cell :=
  UInt16.ofNat (c.toNat % 256) ||| (backColor.toUInt16 <<< 12 ||| textColor.toUInt16 <<< 8)

/-- The line of the cursor is on the screen, possibly in scrollback. -/
def Displayed (con : Console) : Prop :=
  con.currentPosition < 24 ∧ con.y < 24 - con.currentPosition

instance (con : Console) : Decidable con.Displayed := inferInstanceAs (Decidable (_ ∧ _))

/-- The character is stored at the cursor, in the buffer and on the screen. -/
def store (con : Console) (cell : Cell) : Console :=
  let offset := con.y * 80 + con.x
  let sbOffset := 80 * con.currentPosition
  let update (ram : Nat → Cell) :=
    if con.Displayed then Function.update ram (offset + sbOffset) cell else ram
  { con with
    buffer := Function.update con.buffer (wrap bufferSize (con.curScreen + offset)) cell
    videoram := update con.videoram
    vramBuffer := update con.vramBuffer }

/-- `putchar`, for a console that is displayed. -/
def putchar (con : Console) (c : Int) : Console :=
  let moved :=
    if c = 10 then { con with x := 0, y := con.y + 1 }
    else if c = 8 then
      if 0 < con.x then { con with x := con.x - 1 }
      else if 0 < con.y then { con with y := con.y - 1, x := 79 }
      else con
    else if 0x20 ≤ c then
      let con := { con with y := min con.y 23, x := min con.x 79 }
      let con := con.store (glyph con.textColor con.backColor c)
      if con.x + 1 = 80 then { con with y := con.y + 1, x := 0 } else { con with x := con.x + 1 }
    else con
  moved.scroll

/-- The part of the buffer that is `position` lines up becomes visible. -/
def showAt (con : Console) (position : Nat) : Console :=
  redrawScreen { con with currentPosition := position }

/-- The keys that move the visible part. -/
inductive Move where
  | up
  | pgup
  | down
  | pgdown
  | reset

/-- The position that a key moves to, if the function does not return at once. -/
def target (con : Console) : Move → Option Nat
  | .up => if maxScrollback ≤ con.currentPosition then none else some (con.currentPosition + 1)
  | .pgup =>
    if maxScrollback ≤ con.currentPosition then none
    else if maxScrollback ≤ con.currentPosition + 24 then some maxScrollback
    else some (con.currentPosition + 24)
  | .down => if con.currentPosition = 0 then none else some (con.currentPosition - 1)
  | .pgdown =>
    if con.currentPosition = 0 then none
    else if con.currentPosition < 24 then some 0
    else some (con.currentPosition - 24)
  | .reset => some 0

/-- `scrollback_up`, `_pgup`, `_down`, `_pgdown` and `_reset` -/
def move (con : Console) (m : Move) : Console := (con.target m).elim con con.showAt

/-- The kernel's console after `init_video`. -/
def boot : Console where
  buffer _ := blank
  bufferptr := 0
  currentPosition := 0
  x := 0
  y := 0
  textColor := 7
  backColor := 0
  vramBuffer _ := blank
  videoram _ := blank

end Console

end ExscapeOS.Consoles
