import Mathlib.Data.List.DropRight
import MobileTerminal.Cells
import MobileTerminal.MarginsConfine
import MobileTerminal.Position

/-!
# What the terminal is for

`Display` is the terminal as a user sees it: a grid of characters with a cursor
and margins, the tab stops and character sets, the picture put aside for the
alternate screen, and the rows that have left the screen. There is no ring, no
pointer, no flag of what has to be drawn, and no number that can overflow; no
operation can fail. Column `width` of a row is the mark of a row that goes on in
the next one. Colours are not part of it, and no operation needs them.

Each token has its meaning here (`putToken`), as has a mode that is set or reset
(`setMode`); the token that a fetch hands over first sets modes and is then
executed (`execute`). None of these definitions is a translation. They say what
the tokens are for, in terms of moving rows, moving columns and clearing, and
where the code takes a shortcut that is not always right, as in `setNewLine`
below the region, they say what the token should do.

The modules that follow show that the screen does what the display does, for
single tokens, for runs and for streams of bytes, each under the conditions the
code needs.
-/

namespace MobileTerminal

/-- What a token reads and writes, the cells apart. -/
structure Controls where
  width : Int
  height : Int
  cursorX : Int
  cursorY : Int
  saveCursorX : Int
  saveCursorY : Int
  scrollTop : Int
  scrollBottom : Int
  tabStop : Block Bool
  charset : Block Bool
  saveCharset : Block Bool
  soundBell : Bool
  maxScrollbackLines : Int
  printToAnsi : Bool
  printToAnsiString : Option (List UniChar)
  printPending : Bool
  newWidth : Int
  newHeight : Int
  originMode : Bool
  columnMode : Bool
  allowColumnMode : Bool
  /-- the character set in use, and the one DECSC has saved -/
  shift : Int
  saveShift : Int

structure Display extends Controls where
  cell : Int → Int → UniChar
  /-- the picture that mode 47 has put aside -/
  saved : Option (Int → Int → UniChar)
  scrollback : List (List UniChar)

namespace Display

/-! ## Scrolling -/

/-- The characters of row `y`, with its mark. -/
def row (d : Display) (y : Int) : List UniChar :=
  (List.range (d.width + 1).toNat).map fun x : Nat => d.cell y x

def FullMargins (d : Display) : Prop := d.scrollTop = 0 ∧ d.scrollBottom = d.height - 1

instance (d : Display) : Decidable d.FullMargins := inferInstanceAs (Decidable (_ ∧ _))

/-- The rows between the margins move up. Only a screen without margins keeps the row that
leaves it. -/
def scrollUp (d : Display) : Display :=
  { d with
    cell := Cells.deleteRows d.scrollTop d.scrollBottom 1 0 d.cell
    scrollback := if d.FullMargins then
        (d.scrollback ++ [d.row 0]).rtake d.maxScrollbackLines.toNat
      else d.scrollback }

def scrollDown (d : Display) : Display :=
  { d with cell := Cells.insertRows d.scrollTop d.scrollBottom 1 0 d.cell }

/-- One row down; in the last row of the region, what is above moves up. -/
def newLine (d : Display) : Display :=
  if d.cursorY = d.scrollBottom then d.scrollUp
  else { d with cursorY := min (d.cursorY + 1) (d.height - 1) }

def reverseIndex (d : Display) : Display :=
  if d.cursorY = d.scrollTop then d.scrollDown
  else { d with cursorY := max (d.cursorY - 1) 0 }

/-! ## Text -/

def place (d : Display) (c : UniChar) : Display :=
  { d with cell := Cells.put d.cursorY d.cursorX (if c = 0xffff then 0x23 else c) d.cell }

/-- A character, and the cursor behind it. Behind the last column the row is marked and the
text goes on in the next one. -/
def putChar (d : Display) (c : UniChar) : Display :=
  if d.cursorX + 1 < d.width then { d.place c with cursorX := d.cursorX + 1 }
  else newLine { d.place c with
    cell := Cells.put d.cursorY d.width 1 (d.place c).cell, cursorX := 0 }

theorem putChar_of_lt {d : Display} (h : d.cursorX + 1 < d.width) (c : UniChar) :
    d.putChar c = { d.place c with cursorX := d.cursorX + 1 } := if_pos h

theorem putChar_of_ge {d : Display} (h : ¬d.cursorX + 1 < d.width) (c : UniChar) :
    d.putChar c = newLine { d.place c with
      cell := Cells.put d.cursorY d.width 1 (d.place c).cell, cursorX := 0 } := if_neg h

/-- The characters a string is shown as. -/
def shownChars (F : Foundation) (string : List UniChar) (ascii : Bool) (d : Display) :
    List UniChar :=
  if ascii then (if d.charset.cell d.shift then string.map charmap else string)
  else (F.precomposedStringWithCanonicalMapping string).filter (!Screen.isZeroWidth ·)

def printString (string : List UniChar) (d : Display) : Display :=
  { d with printToAnsiString := if string = [] then d.printToAnsiString
                                else d.printToAnsiString.map (· ++ string) }

def putString (F : Foundation) (string : List UniChar) (ascii : Bool) (d : Display) : Display :=
  if d.printToAnsi then d.printString string
  else if string = [] then d
  else (d.shownChars F string ascii).foldl putChar d

/-! ## Control characters -/

/-- The next tab stop, or the last column. -/
def nextStop (d : Display) : Int :=
  match (List.range d.width.toNat).find? fun x : Nat => d.cursorX < x && d.tabStop.cell x with
  | some x => x
  | none => d.width - 1

def lineFeed (d : Display) : Display :=
  { (if d.printToAnsi then d.printString [0x0a] else d.newLine) with cursorX := 0 }

def deleteCharacters (n : Int) (d : Display) : Display :=
  { d with cell := Cells.deleteColumns d.cursorY d.cursorX d.width n 0 d.cell }

def putControl (code : Nat) (d : Display) : Display :=
  match code with
  | 7 => { d with soundBell := true }
  | 8 => { d with cursorX := max (d.cursorX - 1) 0 }
  | 9 => { d with cursorX := d.nextStop }
  | 10 => d.lineFeed
  | 11 => d.lineFeed
  | 12 => d.lineFeed
  | 13 => { d with cursorX := 0 }
  | 255 => d.deleteCharacters 1
  | _ => d

/-! ## Erasing -/

def eraseInDisplay (p : Int) (d : Display) : Display :=
  if p = 1 then { d with cell := Cells.fillTo d.cursorY d.cursorX 0 d.cell }
  else if p = 2 then { d with cell := fun _ _ => 0 }
  else { d with cell := Cells.fillFrom d.cursorY d.cursorX 0 d.cell }

def eraseInLine (p : Int) (d : Display) : Display :=
  if p = 0 then { d with cell := Cells.fill d.cursorY d.cursorX d.width 0 d.cell }
  else if p = 1 then { d with cell := Cells.fill d.cursorY 0 (d.cursorX + 1) 0 d.cell }
  else if p = 2 then { d with cell := Cells.fill d.cursorY 0 d.width 0 d.cell }
  else d

def eraseCharacters (n : Int) (d : Display) : Display :=
  { d with cell := Cells.fill d.cursorY d.cursorX (min (d.cursorX + n) d.width) 0 d.cell }

def insertBlank (n : Int) (d : Display) : Display :=
  { d with cell := Cells.insertColumns d.cursorY d.cursorX d.width n 0 d.cell }

def insertLines (n : Int) (d : Display) : Display :=
  { d with cell := Cells.insertRows d.cursorY d.scrollBottom n 0 d.cell }

def deleteLines (n : Int) (d : Display) : Display :=
  { d with cell := Cells.deleteRows d.cursorY d.scrollBottom n 0 d.cell }

def alignmentDisplay (d : Display) : Display :=
  { d with cell := fun _ x => if x < d.width then 0x45 else 0 }

/-! ## The cursor -/

/-- The nearest column or row there is. -/
def clamp (limit pos : Int) : Int := max 0 (min (limit - 1) pos)

def cursorTo (x y : Int) (d : Display) : Display :=
  { d with cursorX := clamp d.width x, cursorY := clamp d.height y }

/-- Row and column count from 1; in origin mode rows count from the top margin. -/
def cursorToXY (x y : Int) (d : Display) : Display :=
  d.cursorTo (x - 1) (if d.originMode then y - 1 + d.scrollTop else y - 1)

/-- A cursor that is not above the region stays in it. -/
def cursorUp (n : Int) (d : Display) : Display :=
  { d with cursorY := max (if d.scrollTop ≤ d.cursorY then d.scrollTop else 0)
                          (d.cursorY - max n 1) }

def cursorDown (n : Int) (d : Display) : Display :=
  { d with cursorY := min (if d.cursorY ≤ d.scrollBottom then d.scrollBottom else d.height - 1)
                          (d.cursorY + max n 1) }

def saveCursor (d : Display) : Display :=
  { d with saveCursorX := d.cursorX, saveCursorY := d.cursorY, saveCharset := d.charset }

def restoreCursor (d : Display) : Display :=
  { d with cursorX := d.saveCursorX, cursorY := d.saveCursorY, charset := d.saveCharset }

def setTopBottom (p0 p1 : Int) (d : Display) : Display :=
  let top := if p0 = 0 then 0 else p0 - 1
  let bottom := if p1 = 0 then d.height - 1 else p1 - 1
  if 0 ≤ top ∧ top ≤ bottom ∧ bottom < d.height then
    { d with scrollTop := top, scrollBottom := bottom, cursorX := 0
             cursorY := if d.originMode then top else 0 }
  else d

/-! ## Tokens -/

def setTabStop (v : Bool) (d : Display) : Display :=
  { d with tabStop := d.tabStop.set d.cursorX v }

def designate (i : Int) (code : UInt8) (d : Display) : Display :=
  { d with charset := d.charset.set i (code = 0x30) }

def printAnsi (p : Int) (d : Display) : Display :=
  if p = 4 then { d with printPending := true }
  else if p = 5 then { d with printToAnsiString := some [], printToAnsi := true }
  else { d with printToAnsiString := none, printToAnsi := false, printPending := true }

def putToken (F : Foundation) (tok : VT100TCC) (d : Display) : Display :=
  let p0 := tok.csi.p.cell 0
  let p1 := tok.csi.p.cell 1
  match tok.type with
  | .string => d.putString F tok.string false
  | .asciiString => d.putString F tok.string true
  | .cc code => d.putControl code
  | .cub => { d with cursorX := max 0 (d.cursorX - max p0 1) }
  | .cud => d.cursorDown p0
  | .cuf => { d with cursorX := min (d.width - 1) (d.cursorX + max p0 1) }
  | .cup => d.cursorToXY p1 p0
  | .cuu => d.cursorUp p0
  | .decaln => d.alignmentDisplay
  | .decrc => d.restoreCursor
  | .decsc => d.saveCursor
  | .decstbm => d.setTopBottom p0 p1
  | .ed => d.eraseInDisplay p0
  | .el => d.eraseInLine p0
  | .hts => d.setTabStop true
  | .hvp => d.cursorToXY p1 p0
  | .nel => newLine { d with cursorX := 0 }
  | .ind => d.newLine
  | .ri => d.reverseIndex
  | .scs0 => d.designate 0 tok.code
  | .scs1 => d.designate 1 tok.code
  | .scs2 => d.designate 2 tok.code
  | .scs3 => d.designate 3 tok.code
  | .tbc =>
      if p0 = 3 then { d with tabStop := Block.alloc tabWindow false }
      else if p0 = 0 then d.setTabStop false
      else d
  | .decset | .decrst =>
      if p0 = 3 ∧ d.allowColumnMode then
        { d with newWidth := if d.columnMode then 132 else 80, newHeight := d.height }
      else d
  | .cha => { d with cursorX := clamp d.width (p0 - 1) }
  | .vpa => d.cursorToXY (d.cursorX + 1) p0
  | .vpr => d.cursorToXY (d.cursorX + 1) (p0 + d.cursorY + 1)
  | .ech => d.eraseCharacters p0
  | .print => d.printAnsi p0
  | .insblnk => d.insertBlank p0
  | .insln => d.insertLines p0
  | .delch => d.deleteCharacters p0
  | .delln => d.deleteLines p0
  | .su => scrollUp^[p0.toNat] d
  | .sd => scrollDown^[p0.toNat] d
  | _ => d

/-! ## Modes -/

/-- Mode 47: the picture is put aside, and comes back once. -/
def swap (mode : Bool) (d : Display) : Display :=
  if mode then { d with saved := some d.cell }
  else match d.saved with
    | none => d
    | some cell => { d with cell := cell, saved := none }

def setPrivateMode (p : Int) (mode : Bool) (d : Display) : Display :=
  match p with
  | 3 => { d with columnMode := mode }
  | 6 => { d with originMode := mode }
  | 40 => { d with allowColumnMode := mode }
  | 47 => d.swap mode
  | _ => d

def setMode (tok : VT100TCC) (d : Display) : Display :=
  match tok.type with
  | .decset => d.setPrivateMode (tok.csi.p.cell 0) true
  | .decrst => d.setPrivateMode (tok.csi.p.cell 0) false
  | .cc 15 => { d with shift := 0 }
  | .cc 14 => { d with shift := 1 }
  | .decrc => { d with shift := d.saveShift }
  | .decsc => { d with saveShift := d.shift }
  | _ => d

/-- A token that is fetched sets its mode and is executed. -/
def execute (F : Foundation) (d : Display) (tok : VT100TCC) : Display :=
  (d.setMode tok).putToken F tok

end Display

end MobileTerminal
