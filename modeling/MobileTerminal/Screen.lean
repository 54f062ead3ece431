import MobileTerminal.Terminal

/-!
# `VT100Screen`: the buffer and the operations on it

`buffer_lines` is one block of `max_scrollback_lines + HEIGHT` lines, each of
`WIDTH` cells and one cell more whose character marks a wrapped line. Pointers
into it are offsets in cells from its start, so the arithmetic of the source is
the arithmetic here. The block is a ring: `screen_top` and `scrollback_top` are
the lines at which the visible rows and the scrollback begin.

A row is looked up in two ways, from `screen_top` by an index into the screen
and from `scrollback_top` by an index into everything a reader can scroll to,
and both come down to `_getLineAtIndex:fromLine:`, which asserts that the index
is not negative and wraps around at most once.

The dirty map is a second block, of flags, with one byte for each cell of the
screen. Its writes are not checked in the source. In the model a write that
misses the map only sets `stray`, so that the cells can be studied without the
flags, and the results about the flags say when nothing strays.

`malloc` and `realloc` succeed; what a new block holds before it is written is
`fresh`. Each operation reads the terminal it belongs to as its first argument.
The lock and the log are left out.
-/

namespace MobileTerminal

/-! ## The dirty map -/

/-- The flags `dirty` points to. A write that misses the map hits a byte that
belongs to nothing in the model: it only sets `stray`. -/
structure DirtyMap where
  size : Int
  flag : Int → Bool
  stray : Bool

namespace DirtyMap

def alloc (n : Int) : DirtyMap := ⟨n, fun _ => false, false⟩

/-- `dirty[i] = 1` -/
def set (d : DirtyMap) (i : Int) : DirtyMap :=
  { d with flag := fun j => if j = i then true else d.flag j
           stray := d.stray || !decide (0 ≤ i ∧ i < d.size) }

/-- `memset(dirty + i, v, n)`; a negative `n` is a huge unsigned length. -/
def fill (d : DirtyMap) (v : Bool) (i n : Int) : Res DirtyMap :=
  if n < 0 then .error .badLength
  else .ok { d with flag := fun j => if i ≤ j ∧ j < i + n then v else d.flag j
                    stray := d.stray || !decide (n = 0 ∨ 0 ≤ i ∧ i + n ≤ d.size) }

/-- `memmove(dirty + i, dirty + k, n)` -/
def move (d : DirtyMap) (i k n : Int) : Res DirtyMap :=
  if n < 0 then .error .badLength
  else .ok { d with flag := fun j => if i ≤ j ∧ j < i + n then d.flag (k + (j - i)) else d.flag j
                    stray := d.stray ||
                      !decide (n = 0 ∨ 0 ≤ i ∧ i + n ≤ d.size ∧ 0 ≤ k ∧ k + n ≤ d.size) }

end DirtyMap

/-! ## The state -/

/-- `VT100Screen` -/
structure Screen where
  width : Int
  height : Int
  cursorX : Int
  cursorY : Int
  saveCursorX : Int
  saveCursorY : Int
  scrollTop : Int
  scrollBottom : Int
  tabStop : Block Bool
  charset : Block Bool
  saveCharset : Block Bool
  soundBell : Bool
  bufferLines : Block ScreenChar
  dirty : DirtyMap
  /-- `default_line`, `none` for `NULL` -/
  defaultLine : Option (Block ScreenChar)
  tempBuffer : Option (Block ScreenChar)
  lastBufferLine : Int
  screenTop : Int
  scrollbackTop : Int
  defaultBgCode : Int
  defaultFgCode : Int
  defaultLineWidth : Int
  dynamicScrollbackSize : Bool
  maxScrollbackLines : Int
  currentScrollbackLines : Int
  printToAnsi : Bool
  printToAnsiString : Option (List UniChar)
  newWidth : Int
  newHeight : Int
  printPending : Bool
  /-- the `VT100` object has made itself the refresh delegate -/
  hasRefreshDelegate : Bool
  /-- what a cell of a new block holds -/
  fresh : ScreenChar

namespace Screen

def realWidth (s : Screen) : Int := s.width + 1

/-- `max_scrollback_lines + HEIGHT` -/
def totalHeight (s : Screen) : Int := s.maxScrollbackLines + s.height

/-! ## Dirty flags -/

def touch (i : Int) (s : Screen) : Screen := { s with dirty := s.dirty.set i }

def dirtyFill (v : Bool) (i n : Int) (s : Screen) : Res Screen := do
  let d ← s.dirty.fill v i n
  .ok { s with dirty := d }

def resetDirty (s : Screen) : Res Screen := s.dirtyFill false 0 (s.width * s.height)

/-- `[refreshDelegate refresh]`: the `VT100` object clears the flags after its
own delegate has drawn. -/
def refresh (s : Screen) : Res Screen :=
  if s.hasRefreshDelegate then s.resetDirty else .ok s

def setDirty (s : Screen) : Res Screen := do
  let s ← s.dirtyFill true 0 (s.width * s.height)
  s.refresh

/-! ## Lines -/

/-- `incrementLinePointer`; the second component is `*wrap`. -/
def incrementLinePointer (currentLine maxLines lineWidth : Int) : Int × Bool :=
  let lineWidth := lineWidth + 1
  let nextLine := currentLine + lineWidth
  if nextLine ≥ lineWidth * maxLines then (0, true) else (nextLine, false)

/-- The address `_getLineAtIndex:fromLine:` computes. -/
def lineFrom (s : Screen) (anIndex aLine : Int) : Int :=
  let theLine := aLine + anIndex * s.realWidth
  if theLine > s.lastBufferLine then theLine - s.lastBufferLine - s.realWidth else theLine

def getLineAtIndexFromLine (anIndex aLine : Int) (s : Screen) : Res Int := do
  nsAssert .lineOffset (0 ≤ anIndex)
  .ok (s.lineFrom anIndex aLine)

def getLineAtIndex (theIndex : Int) (s : Screen) : Res Int := do
  nsAssert .lineIndex (0 ≤ theIndex)
  s.getLineAtIndexFromLine theIndex
    (if s.maxScrollbackLines = 0 then s.screenTop else s.scrollbackTop)

def getLineAtScreenIndex (theIndex : Int) (s : Screen) : Res Int :=
  s.getLineAtIndexFromLine theIndex s.screenTop

def numberOfLines (s : Screen) : Int :=
  (if s.currentScrollbackLines > s.maxScrollbackLines then s.maxScrollbackLines
    else s.currentScrollbackLines) + s.height

/-- A line `_getDefaultLineWithWidth:` builds: the mark cell gets a character
but no colours. -/
def newDefaultLine (fgCode bgCode : Int) (fresh : ScreenChar) (width : Int) : Block ScreenChar :=
  ⟨width + 1, fun i => if i < width then blankCell fgCode bgCode else { fresh with ch := 0 }⟩

/-- Build a default line and keep it. The kept codes are of type `char`. -/
def buildDefaultLine (fgCode bgCode width : Int) (s : Screen) : Screen × Block ScreenChar :=
  let line := newDefaultLine fgCode bgCode s.fresh width
  ({ s with defaultLine := some line, defaultFgCode := cchar fgCode,
            defaultBgCode := cchar bgCode, defaultLineWidth := width }, line)

/-- `_getDefaultLineWithWidth:` for the given colour codes. -/
def getDefaultLine (fgCode bgCode width : Int) (s : Screen) : Screen × Block ScreenChar :=
  match s.defaultLine with
  | some line =>
      if s.defaultFgCode = fgCode ∧ s.defaultBgCode = bgCode ∧ width ≤ s.defaultLineWidth then
        (s, line)
      else s.buildDefaultLine fgCode bgCode width
  | none => s.buildDefaultLine fgCode bgCode width

def getDefaultLineWithWidth (t : Terminal) (width : Int) (s : Screen) :
    Screen × Block ScreenChar :=
  s.getDefaultLine t.foregroundColorCode t.backgroundColorCode width

/-! ## Writing cells -/

def storeCell (a : Int) (c : ScreenChar) (s : Screen) : Res Screen := do
  let b ← s.bufferLines.store a c
  .ok { s with bufferLines := b }

/-- `line[x].ch = ch` -/
def storeCh (a : Int) (ch : UniChar) (s : Screen) : Res Screen := do
  let c ← s.bufferLines.load a
  s.storeCell a { c with ch := ch }

/-- `memcpy` and `memmove` of `n` cells inside `buffer_lines`. -/
def moveCells (target source n : Int) (s : Screen) : Res Screen := do
  let b ← s.bufferLines.copy target s.bufferLines source n
  .ok { s with bufferLines := b }

/-- `memcpy` of one line inside `buffer_lines`. -/
def copyLine (target source : Int) (s : Screen) : Res Screen :=
  s.moveCells target source s.realWidth

/-- `memcpy(line, defaultLine, REAL_WIDTH * sizeof(screen_char_t))` -/
def clearLine (target : Int) (line : Block ScreenChar) (s : Screen) : Res Screen := do
  let b ← s.bufferLines.copy target line 0 s.realWidth
  .ok { s with bufferLines := b }

/-- `memcpy(line, [self _getDefaultLineWithWidth: WIDTH], REAL_WIDTH * sizeof(screen_char_t))` -/
def setDefaultLine (t : Terminal) (target : Int) (s : Screen) : Res Screen :=
  let aDefaultLine := s.getDefaultLineWithWidth t s.width
  aDefaultLine.1.clearLine target aDefaultLine.2

/-- `for (k = 0; k < n; k++)` make cell `a + k` blank in the terminal's colours. -/
def blankCells (t : Terminal) (a : Int) (n : Nat) (s : Screen) : Res Screen :=
  forUp (fun k s => s.storeCell (a + k) t.blank) 0 n s

end Screen

end MobileTerminal
