import MobileTerminal.ScreenOps

/-!
# `resizeWidth:height:`

The rows are copied one logical line at a time into a new ring. `Reflow` is the
state the copy loops share: the new buffer `bl`, the line `c2` that is being
filled, `new_scrollback_top`, the row counter `y2` and the flag `wrapped`.

There are three branches for a line: the width stays and one row is copied, the
width grows and the rows of a logical line are filled up from the next ones, or
it shrinks and they are broken. The two loops over columns differ in what they
do with NULs at the end of a row, and they are two definitions. Everything after
the copy loops, from the reassignment of the pointers to the cursor, is
`install`.

The loops that follow wrap marks (`while (c1[WIDTH].ch)` and `do .. while (1)`)
take fuel. `2 * total_height + 2` rounds are enough: each round reads the next
row, and the row with index `2 * total_height` lies outside the buffer wherever
the ring starts. So a loop that would run forever in the source stops on that
access here, and a loop that completes is not cut short.

`init` of `VT100Screen` is at the end, since it shares the code that clears a
buffer.
-/

namespace MobileTerminal

structure Reflow where
  bl : Block ScreenChar
  c2 : Int
  newScrollbackTop : Int
  y2 : Int
  wrapped : Bool

namespace Reflow

/-- Move on to the next line of the new ring. -/
def nextRow (newTotalHeight width : Int) (r : Reflow) : Reflow :=
  let top := if r.wrapped then
      (Screen.incrementLinePointer r.newScrollbackTop newTotalHeight width).1
    else r.newScrollbackTop
  let next := Screen.incrementLinePointer r.c2 newTotalHeight width
  { r with newScrollbackTop := top, c2 := next.1, wrapped := r.wrapped || next.2
           y2 := if next.2 then 0 else r.y2 + 1 }

/-- `c2[width].ch = ch` -/
def setMark (width : Int) (ch : UniChar) (r : Reflow) : Res Reflow := do
  let c ← r.bl.load (r.c2 + width)
  let bl ← r.bl.store (r.c2 + width) { c with ch := ch }
  .ok { r with bl := bl }

/-- The line is full: mark it as wrapped and go on in the next one. -/
def wrapRow (newTotalHeight width : Int) (r : Reflow) : Res Reflow := do
  let r ← r.setMark width 1
  (r.nextRow newTotalHeight width).setMark width 0

def putAt (x2 : Int) (c : ScreenChar) (r : Reflow) : Res Reflow := do
  let bl ← r.bl.store (r.c2 + x2) c
  .ok { r with bl := bl }

/-- `c2[x2] = c`, on a new row when `x2` has reached the width. The second
component is the next `x2`. -/
def placeCell (newTotalHeight width x2 : Int) (c : ScreenChar) (r : Reflow) :
    Res (Reflow × Int) :=
  if x2 ≥ width then do
    let r ← r.wrapRow newTotalHeight width
    let r ← r.putAt 0 c
    .ok (r, 1)
  else do
    let r ← r.putAt x2 c
    .ok (r, x2 + 1)

/-- `memcpy(c2, c1, n * sizeof(screen_char_t))` -/
def copyFrom (src : Block ScreenChar) (c1 n : Int) (r : Reflow) : Res Reflow := do
  let bl ← r.bl.copy r.c2 src c1 n
  .ok { r with bl := bl }

/-- `if (x2<width) memcpy(c2+x2, defaultLine, (width-x2)*sizeof(screen_char_t))` -/
def padRow (width x2 : Int) (defaultLine : Block ScreenChar) (r : Reflow) : Res Reflow :=
  if x2 < width then do
    let bl ← r.bl.copy (r.c2 + x2) defaultLine 0 (width - x2)
    .ok { r with bl := bl }
  else .ok r

end Reflow

namespace Screen

/-- How many of the `n` cells from `a` on are NUL before the first that is not. -/
def countNul (b : Block ScreenChar) (a : Int) : Nat → Res Nat
  | 0 => .ok 0
  | n + 1 => do
      let c ← b.load a
      if c.ch = 0 then do
        let k ← countNul b (a + 1) n
        .ok (k + 1)
      else .ok 0

/-- `for(;HEIGHT>CURSOR_Y+1;HEIGHT--)`: at most `k` blank rows from row
`height - 1` upwards are cut off. -/
def trimHeight (s : Screen) : Nat → Int → Res Int
  | 0, height => .ok height
  | k + 1, height => do
      let aLine ← s.getLineAtScreenIndex (height - 1)
      let i ← countNul s.bufferLines aLine s.width.toNat
      if i < s.width.toNat then .ok height else trimHeight s k (height - 1)

/-- The `for` over `x1` of the widening branch: `k` cells of the line `c1` from
`x1` on, up to where only NULs and no wrap mark follow. -/
def copyWider (s : Screen) (newTotalHeight width c1 : Int) :
    Nat → Int → Reflow → Int → Res (Reflow × Int)
  | 0, _, r, x2 => .ok (r, x2)
  | k + 1, x1, r, x2 => do
      let n ← countNul s.bufferLines (c1 + x1) (s.width + 1 - x1).toNat
      if x1 + n > s.width then .ok (r, x2)
      else do
        let c ← s.bufferLines.load (c1 + x1)
        let (r, x2) ← r.placeCell newTotalHeight width x2 c
        copyWider s newTotalHeight width c1 k (x1 + 1) r x2

/-- `while (c1[WIDTH].ch)` of the widening branch. The result is the reflow, the
last row read and `x2`. -/
def widerRows (s : Screen) (newTotalHeight width : Int) :
    Nat → Int → Int → Reflow → Int → Res (Reflow × Int × Int)
  | 0, _, _, _, _ => .error .diverges
  | fuel + 1, y1, c1, r, x2 => do
      let mark ← s.bufferLines.load (c1 + s.width)
      if mark.ch ≠ 0 then do
        let c1 ← s.getLineAtIndex (y1 + 1)
        let (r, x2) ← copyWider s newTotalHeight width c1 s.width.toNat 0 r x2
        widerRows s newTotalHeight width fuel (y1 + 1) c1 r x2
      else .ok (r, y1, x2)

/-- The `for` over `x1` of the narrowing branch. -/
def copyNarrower (s : Screen) (newTotalHeight width c1 : Int) :
    Nat → Int → Reflow → Int → Res (Reflow × Int)
  | 0, _, r, x2 => .ok (r, x2)
  | k + 1, x1, r, x2 => do
      let n ← countNul s.bufferLines (c1 + x1) (s.width - x1).toNat
      let ends ← (if x1 + n ≥ s.width then do
          let mark ← s.bufferLines.load (c1 + s.width)
          .ok (decide (mark.ch = 0))
        else .ok false)
      if ends then .ok (r, x2)
      else do
        let c ← s.bufferLines.load (c1 + x1)
        let (r, x2) ← r.placeCell newTotalHeight width x2 c
        copyNarrower s newTotalHeight width c1 k (x1 + 1) r x2

/-- `do .. while (1)` of the narrowing branch. -/
def narrowerRows (s : Screen) (newTotalHeight width : Int) :
    Nat → Int → Int → Int → Reflow → Int → Res (Reflow × Int × Int)
  | 0, _, _, _, _, _ => .error .diverges
  | fuel + 1, y1, c1, x1, r, x2 => do
      let (r, x2) ← copyNarrower s newTotalHeight width c1 (s.width - x1).toNat x1 r x2
      let mark ← s.bufferLines.load (c1 + s.width)
      if mark.ch ≠ 0 then do
        let c1 ← s.getLineAtIndex (y1 + 1)
        narrowerRows s newTotalHeight width fuel (y1 + 1) c1 0 r x2
      else .ok (r, y1, x2)

/-- The rounds that the wrap marks can take. -/
def rowFuel (s : Screen) : Nat := (2 * s.totalHeight).toNat + 2

/-- The branch `WIDTH < width`, for the logical line that starts at row `y1`. The
second component is the last row read. -/
def copyLineWider (s : Screen) (newTotalHeight width : Int) (defaultLine : Block ScreenChar)
    (fuel : Nat) (y1 c1 : Int) (r : Reflow) : Res (Reflow × Int) := do
  let r ← r.copyFrom s.bufferLines c1 s.width
  let r ← r.setMark width 0
  let (r, y1, x2) ← widerRows s newTotalHeight width fuel y1 c1 r s.width
  let r ← r.padRow width x2 defaultLine
  .ok (r, y1)

/-- The branch `WIDTH > width`. -/
def copyLineNarrower (s : Screen) (newTotalHeight width : Int) (defaultLine : Block ScreenChar)
    (fuel : Nat) (y1 c1 : Int) (r : Reflow) : Res (Reflow × Int) := do
  let r ← r.copyFrom s.bufferLines c1 width
  let r ← r.setMark width 0
  let (r, y1, x2) ← narrowerRows s newTotalHeight width fuel y1 c1 width r width
  let r ← r.padRow width x2 defaultLine
  .ok (r, y1)

/-- The body of `for(y2=y1=0; ..)`: one row, or one logical line, from row `y1`
on. -/
def copyLogicalLine (s : Screen) (newTotalHeight width : Int) (defaultLine : Block ScreenChar)
    (fuel : Nat) (y1 : Int) (r : Reflow) : Res (Reflow × Int) := do
  let c1 ← s.getLineAtIndex y1
  let (r, y1) ← (if s.width = width then do
      let r ← r.copyFrom s.bufferLines c1 s.realWidth
      .ok (r, y1)
    else if s.width < width then s.copyLineWider newTotalHeight width defaultLine fuel y1 c1 r
    else s.copyLineNarrower newTotalHeight width defaultLine fuel y1 c1 r)
  .ok (r.nextRow newTotalHeight width, y1)

/-- `for(y2=y1=0; y1<current_scrollback_lines+HEIGHT; y1++)` -/
def copyRows (s : Screen) (newTotalHeight width : Int) (defaultLine : Block ScreenChar)
    (fuel : Nat) : Nat → Int → Reflow → Res Reflow
  | 0, _, _ => .error .diverges
  | k + 1, y1, r =>
      if y1 < s.currentScrollbackLines + s.height then do
        let (r, y1) ← copyLogicalLine s newTotalHeight width defaultLine fuel y1 r
        copyRows s newTotalHeight width defaultLine fuel k (y1 + 1) r
      else .ok r

/-- `for(;y2 < new_total_height; y2++)`: the rest of the new buffer becomes
default lines. -/
def fillRest (newTotalHeight width : Int) (defaultLine : Block ScreenChar) (r : Reflow) :
    Res (Block ScreenChar) := do
  let (_, bl) ← forUp (fun _ ((c2 : Int), (bl : Block ScreenChar)) => do
    let bl ← bl.copy c2 defaultLine 0 (width + 1)
    .ok ((incrementLinePointer c2 newTotalHeight width).1, bl))
    r.y2 (newTotalHeight - r.y2).toNat (r.c2, r.bl)
  .ok bl

/-- Where the rows end up: `current_scrollback_lines` and `CURSOR_Y`. -/
def newPosition (maxScrollbackLines height : Int) (r : Reflow) : Int × Int :=
  if maxScrollbackLines > 0 then
    if r.wrapped then (maxScrollbackLines, height - 1)
    else if r.y2 ≤ height then (0, r.y2 - 1)
    else (r.y2 - height, height - 1)
  else (0, if r.wrapped then height - 1 else r.y2 - 1)

/-- `screen_top` in the new buffer. -/
def newScreenTop (newTotalHeight width scrollbackTop currentScrollbackLines : Int) : Int :=
  let lastBufferLine := (newTotalHeight - 1) * (width + 1)
  let screenTop := scrollbackTop + currentScrollbackLines * (width + 1)
  if screenTop > lastBufferLine then screenTop - lastBufferLine - width - 1 else screenTop

/-- Everything after the copy loops up to `setDirty`: reassign the pointers and
adjust the cursor. -/
def install (newTotalHeight width height : Int) (r : Reflow) (bl : Block ScreenChar)
    (s : Screen) : Screen :=
  let position := newPosition s.maxScrollbackLines height r
  { s with
    bufferLines := bl
    scrollbackTop := r.newScrollbackTop
    lastBufferLine := (newTotalHeight - 1) * (width + 1)
    currentScrollbackLines := position.1
    screenTop := newScreenTop newTotalHeight width r.newScrollbackTop position.1
    width := width
    height := height
    scrollTop := 0
    scrollBottom := height - 1
    cursorX := if s.cursorX ≥ width then width - 1 else s.cursorX
    saveCursorX := if s.saveCursorX ≥ width then width - 1 else s.saveCursorX
    cursorY := if position.2 ≥ height then height - 1 else position.2
    saveCursorY := if s.saveCursorY ≥ height then height - 1 else s.saveCursorY
    tempBuffer := none
    dirty := { DirtyMap.alloc (height * width) with stray := s.dirty.stray } }

/-- The copy loops over a screen whose empty trailing rows are cut off. -/
def reflow (s : Screen) (newTotalHeight width : Int) (defaultLine : Block ScreenChar)
    (fuel : Nat) : Res Reflow :=
  copyRows s newTotalHeight width defaultLine fuel
    ((s.currentScrollbackLines + s.height).toNat + 1) 0
    { bl := Block.alloc (newTotalHeight * (width + 1)) s.fresh
      c2 := 0, newScrollbackTop := 0, y2 := 0, wrapped := false }

def resizeWidth (t : Terminal) (width height : Int) (s : Screen) : Res Screen :=
  if s.width = 0 ∨ s.height = 0 ∨ width = s.width ∧ height = s.height then .ok s
  else do
    -- determine how many empty trailing lines there are on screen
    let trimmed ← s.trimHeight (s.height - (s.cursorY + 1)).toNat s.height
    let fuel := s.rowFuel
    let newTotalHeight := s.maxScrollbackLines + height
    let defaultLine := getDefaultLineWithWidth t width { s with height := trimmed }
    let s := defaultLine.1
    let r ← s.reflow newTotalHeight width defaultLine.2 fuel
    -- set the rest of new buffer (if any) to default line
    let bl ← (if r.wrapped then .ok r.bl else fillRest newTotalHeight width defaultLine.2 r)
    let s ← setDirty (s.install newTotalHeight width height r bl)
    s.refresh

def defaultTotalHeight : Int := defaultTerminalHeight + defaultScrollback

/-- What `init` and `initScreenWithWidth:Height:` of `VT100Screen` set before they
clear the lines of the screen. -/
def uncleared (fresh : ScreenChar) (tabs : Block Bool) : Screen where
  width := defaultTerminalWidth
  height := defaultTerminalHeight
  cursorX := 0
  cursorY := 0
  saveCursorX := 0
  saveCursorY := 0
  scrollTop := 0
  scrollBottom := defaultTerminalHeight - 1
  tabStop := tabs
  charset := Block.alloc 4 false
  saveCharset := Block.alloc 4 false
  soundBell := false
  bufferLines := Block.alloc (defaultTotalHeight * (defaultTerminalWidth + 1)) fresh
  dirty := DirtyMap.alloc 0
  defaultLine := none
  tempBuffer := none
  lastBufferLine := (defaultTotalHeight - 1) * (defaultTerminalWidth + 1)
  screenTop := 0
  scrollbackTop := 0
  defaultBgCode := 0
  defaultFgCode := 0
  defaultLineWidth := defaultTerminalWidth
  dynamicScrollbackSize := false
  maxScrollbackLines := defaultScrollback
  currentScrollbackLines := 0
  printToAnsi := false
  printToAnsiString := none
  newWidth := 0
  newHeight := 0
  printPending := false
  hasRefreshDelegate := false
  fresh := fresh

/-- `init` of `VT100Screen`, with `initScreenWithWidth:Height:`. The terminal is
not set yet, so its colour codes are those of `nil`. -/
def init (fresh : ScreenChar) : Res Screen := do
  let tabs ← forUp (fun k (tabs : Block Bool) => tabs.store (k * tabSize) true)
    1 ((tabWindow.toNat - 1) / tabSize) (Block.alloc tabWindow false)
  let s := uncleared fresh tabs
  let aDefaultLine := s.getDefaultLine 0 0 s.width
  let s ← forUp (fun i s => do
    let aLine ← s.getLineAtIndexFromLine i 0
    s.clearLine aLine aDefaultLine.2) 0 s.height.toNat aDefaultLine.1
  setDirty { s with dirty := DirtyMap.alloc (s.height * s.width) }

end Screen

end MobileTerminal
