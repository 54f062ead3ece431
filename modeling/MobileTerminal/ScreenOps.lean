import MobileTerminal.Screen

/-!
# The token handlers of `VT100Screen.m`

One definition for each method that a token reaches, in the order of the source,
and `putToken:` over them. Every definition keeps the order of the reads and
writes of its method, because a method that stops half-way has done the first
half.

The methods come in families, and the shared parts are definitions of their own
under the words of the source: the row moves of `scrollUp`, `scrollDown`,
`insertLines:` and `deleteLines:` (`moveRegionUp`, `moveRowsDown` and the like,
which choose between one `memmove` and a loop over lines), the cells of one row
(`moveCells`, `blankCells`), and the clamps (`clampCells`, `clampLines`,
`clampPos`, `atLeastOne`). Where a member of a family compares in another way
than the others, it has kept its own comparison.

Three things to keep in mind. `setNewLine` and `scrollUp` call each other, which
is one definition and one equation here (`setNewLine_eq_scrollUp`). After LF, VT
and FF the `break` is commented out in the source, so the cursor also goes to
column 0 (`lineFeed`). And `cursorUp:` and `cursorDown:` clamp to a margin only
when the cursor is on the inner side of it.
-/

namespace MobileTerminal

namespace Screen

/-! ## Clearing and the alternate buffer -/

def clearScreen (t : Terminal) (s : Screen) : Res Screen := do
  let aDefaultLine := s.getDefaultLineWithWidth t s.width
  let s ← forUp (fun i s => do
    let aLine ← s.getLineAtScreenIndex i
    s.clearLine aLine aDefaultLine.2) 0 s.height.toNat aDefaultLine.1
  setDirty { s with cursorX := 0, cursorY := 0 }

/-- `if (max_scrollback_lines)` of `clearScrollbackBuffer`. -/
def dropScrollback (t : Terminal) (s : Screen) : Res Screen :=
  if s.maxScrollbackLines ≠ 0 then do
    let aDefaultLine := s.getDefaultLineWithWidth t s.width
    let s ← forUp (fun i s => do
      let aLine ← s.getLineAtIndex i
      s.clearLine aLine aDefaultLine.2) 0 s.currentScrollbackLines.toNat aDefaultLine.1
    .ok { s with currentScrollbackLines := 0, scrollbackTop := s.screenTop }
  else .ok s

def clearScrollbackBuffer (t : Terminal) (s : Screen) : Res Screen := do
  let s ← s.dropScrollback t
  let s ← s.setDirty
  s.refresh

def clearBuffer (t : Terminal) (s : Screen) : Res Screen := do
  let s ← s.clearScreen t
  s.clearScrollbackBuffer t

/-- The number of visible lines that lie at the start of the buffer because the
screen wraps there; not positive when it does not. -/
def wrappedLines (s : Screen) : Int := s.screenTop / s.realWidth - s.maxScrollbackLines

def saveBuffer (s : Screen) : Res Screen := do
  let size := s.realWidth * s.height
  let n := s.wrappedLines
  let temp := Block.alloc size s.fresh
  let temp ← (if n ≤ 0 then temp.copy 0 s.bufferLines s.screenTop size
    else do
      let temp ← temp.copy 0 s.bufferLines s.screenTop ((s.height - n) * s.realWidth)
      temp.copy ((s.height - n) * s.realWidth) s.bufferLines 0 (n * s.realWidth))
  .ok { s with tempBuffer := some temp }

def restoreBuffer (s : Screen) : Res Screen :=
  match s.tempBuffer with
  | none => .ok s
  | some temp => do
      let n := s.wrappedLines
      let b ← (if n ≤ 0 then s.bufferLines.copy s.screenTop temp 0 (s.realWidth * s.height)
        else do
          let b ← s.bufferLines.copy s.screenTop temp 0 ((s.height - n) * s.realWidth)
          b.copy 0 temp ((s.height - n) * s.realWidth) (n * s.realWidth))
      let s ← setDirty { s with bufferLines := b }
      .ok { s with tempBuffer := none }

/-! ## Scrolling and line feeds -/

/-- `_addLineToScrollback`; the first component is `lost_oldest_line`. -/
def addLineToScrollback (s : Screen) : Bool × Screen :=
  if s.maxScrollbackLines > 0 then
    let s := { s with currentScrollbackLines := s.currentScrollbackLines + 1 }
    if s.currentScrollbackLines > s.maxScrollbackLines then
      if s.dynamicScrollbackSize ∧ s.maxScrollbackLines < maxScrollback then
        -- scrollback area is full; add more
        let total := s.maxScrollbackLines + defaultScrollback + s.height
        (false, { s with
          maxScrollbackLines := s.maxScrollbackLines + defaultScrollback
          bufferLines := { s.bufferLines with size := total * s.realWidth }
          scrollbackTop := 0
          lastBufferLine := (total - 1) * s.realWidth
          screenTop := (s.currentScrollbackLines - 1) * s.realWidth })
      else
        -- scrollback area is full; lose oldest line
        (true, { s with
          scrollbackTop := (incrementLinePointer s.scrollbackTop s.totalHeight s.width).1
          currentScrollbackLines := s.maxScrollbackLines })
    else (false, s)
  else (false, s)

/-- The assertions at the head of `scrollUp` and `scrollDown`. -/
def scrollAsserts (s : Screen) : Res Unit := do
  nsAssert .scrollTop (0 ≤ s.scrollTop ∧ s.scrollTop < s.height)
  nsAssert .scrollBottom (0 ≤ s.scrollBottom ∧ s.scrollBottom < s.height)
  nsAssert .scrollOrder (s.scrollTop ≤ s.scrollBottom)

/-- `SCROLL_TOP == 0 && SCROLL_BOTTOM == HEIGHT - 1` -/
def FullMargins (s : Screen) : Prop := s.scrollTop = 0 ∧ s.scrollBottom = s.height - 1

instance (s : Screen) : Decidable s.FullMargins := inferInstanceAs (Decidable (_ ∧ _))

/-- Everything between `SCROLL_TOP` and `SCROLL_BOTTOM` is dirty. -/
def dirtyRegion (s : Screen) : Res Screen :=
  s.dirtyFill true (s.scrollTop * s.width) ((s.scrollBottom - s.scrollTop + 1) * s.width)

/-- Move the rows below `SCROLL_TOP` one row up. -/
def moveRegionUp (s : Screen) : Res Screen := do
  let sourceLine ← s.getLineAtScreenIndex s.scrollTop
  let targetLine ← s.getLineAtScreenIndex s.scrollBottom
  if sourceLine < targetLine then
    -- screen area is not wrapped; direct memmove
    s.moveCells (s.screenTop + s.scrollTop * s.realWidth)
      (s.screenTop + (s.scrollTop + 1) * s.realWidth)
      ((s.scrollBottom - s.scrollTop) * s.realWidth)
  else
    -- screen area is wrapped; copy line by line
    forUp (fun i s => do
      let sourceLine ← s.getLineAtScreenIndex (i + 1)
      let targetLine ← s.getLineAtScreenIndex i
      s.copyLine targetLine sourceLine)
      s.scrollTop (s.scrollBottom - s.scrollTop).toNat s

/-- `scrollUp` for margins that are not the full screen. -/
def scrollUpRegion (t : Terminal) (s : Screen) : Res Screen :=
  if s.scrollTop < s.scrollBottom then do
    let s ← s.moveRegionUp
    let targetLine ← s.getLineAtScreenIndex s.scrollBottom
    let s ← s.setDefaultLine t targetLine
    s.dirtyRegion
  else .ok s

/-- The part of `setNewLine` that tries to add the top line to the scroll area. -/
def keepTopLine (s : Screen) : Res Screen :=
  if s.maxScrollbackLines > 0 then
    let added := s.addLineToScrollback
    if added.1 then added.2.setDirty
    else do
      let s := added.2
      let d ← s.dirty.move 0 s.width (s.width * (s.height - 1))
      dirtyFill true (s.width * (s.height - 1)) s.width { s with dirty := d }
  else s.setDirty

/-- `setNewLine`. Its last branch is `scrollUp`, which then does not come back
here (`setNewLine_eq_scrollUp`). -/
def setNewLine (t : Terminal) (s : Screen) : Res Screen :=
  if s.cursorY < s.scrollBottom ∨ s.cursorY < s.height - 1 ∧ s.cursorY > s.scrollBottom then
    let s := { s with cursorY := s.cursorY + 1 }
    .ok (if s.cursorX < s.width then s.touch (s.cursorY * s.width + s.cursorX) else s)
  else if s.FullMargins then do
    let totalHeight := s.totalHeight
    let s ← s.keepTopLine
    let s := { s with screenTop := (incrementLinePointer s.screenTop totalHeight s.width).1 }
    -- set last screen line default
    let aLine ← s.getLineAtScreenIndex (s.height - 1)
    s.setDefaultLine t aLine
  else do
    s.scrollAsserts
    s.scrollUpRegion t

def scrollUp (t : Terminal) (s : Screen) : Res Screen := do
  s.scrollAsserts
  if s.FullMargins then s.setNewLine t else s.scrollUpRegion t

theorem setNewLine_eq_scrollUp (t : Terminal) (s : Screen)
    (hy : ¬(s.cursorY < s.scrollBottom ∨ s.cursorY < s.height - 1 ∧ s.cursorY > s.scrollBottom))
    (hm : ¬s.FullMargins) : s.setNewLine t = s.scrollUp t := by
  simp only [setNewLine, scrollUp, if_neg hy, if_neg hm]

/-- Move the rows above `SCROLL_BOTTOM` one row down. -/
def moveRegionDown (s : Screen) : Res Screen :=
  if s.scrollTop < s.scrollBottom then do
    let sourceLine ← s.getLineAtScreenIndex s.scrollTop
    let targetLine ← s.getLineAtScreenIndex s.scrollBottom
    if sourceLine < targetLine then
      -- screen area is not wrapped; direct memmove
      s.moveCells (s.screenTop + (s.scrollTop + 1) * s.realWidth)
        (s.screenTop + s.scrollTop * s.realWidth)
        ((s.scrollBottom - s.scrollTop) * s.realWidth)
    else
      -- screen area is wrapped; move line by line
      forDown (fun i s => do
        let sourceLine ← s.getLineAtScreenIndex i
        let targetLine ← s.getLineAtScreenIndex (i + 1)
        s.copyLine targetLine sourceLine)
        (s.scrollBottom - 1) (s.scrollBottom - s.scrollTop).toNat s
  else .ok s

def scrollDown (t : Terminal) (s : Screen) : Res Screen := do
  s.scrollAsserts
  let s ← s.moveRegionDown
  let targetLine ← s.getLineAtScreenIndex s.scrollTop
  let s ← s.setDefaultLine t targetLine
  s.dirtyRegion

/-! ## Text -/

/-- `padString`: the zero-width characters are dropped. -/
def isZeroWidth (c : UniChar) : Bool :=
  c = 0xfeff || c = 0x200b || c = 0x200c || c = 0x200d

/-- The cells `setString:ascii:` is about to place. -/
def stringCells (F : Foundation) (t : Terminal) (string : List UniChar) (ascii : Bool)
    (s : Screen) : Res (List ScreenChar) := do
  let chars ← (if ascii then do
      let graphics ← s.charset.load t.charset
      .ok (if graphics then string.map charmap else string)
    else .ok ((F.precomposedStringWithCanonicalMapping string).filter (!isZeroWidth ·)))
  .ok (chars.map fun c =>
    { ch := c, bgColor := cuint t.backgroundColorCode, fgColor := cuint t.foregroundColorCode })

/-- The cursor moves on by one column; both positions are dirty. -/
def stepRight (s : Screen) : Screen :=
  let s := s.touch (s.cursorY * s.width + s.cursorX)
  let s := { s with cursorX := s.cursorX + 1 }
  s.touch (s.cursorY * s.width + s.cursorX)

/-- The line is full: mark it as wrapped and go on in the next one. -/
def wrapToNextLine (t : Terminal) (s : Screen) : Res Screen := do
  let s := { s with cursorX := 0 }
  let aLine ← s.getLineAtScreenIndex s.cursorY
  let s ← s.storeCh (aLine + s.width) 1
  s.setNewLine t

/-- One round of the placement loop of `setString:ascii:`. -/
def putCell (t : Terminal) (c : ScreenChar) (s : Screen) : Res Screen := do
  let c := if c.ch = 0xffff then { c with ch := 0x23 } else c
  let aLine ← s.getLineAtScreenIndex s.cursorY
  let s ← s.storeCell (aLine + s.cursorX) c
  if s.stepRight.cursorX ≥ s.stepRight.width then s.stepRight.wrapToNextLine t
  else .ok s.stepRight

def setString (F : Foundation) (t : Terminal) (string : List UniChar) (ascii : Bool)
    (s : Screen) : Res Screen :=
  if string.length < 1 then .ok s
  else do
    let buffer ← s.stringCells F t string ascii
    buffer.foldlM (fun s c => s.putCell t c) s

def printStringToAnsi (aString : List UniChar) (s : Screen) : Screen :=
  if aString.length > 0 then
    { s with printToAnsiString := s.printToAnsiString.map (· ++ aString) }
  else s

/-! ## Editing a line -/

/-- `if (n+CURSOR_X>WIDTH) n=WIDTH-CURSOR_X` -/
def clampCells (n : Int) (s : Screen) : Int :=
  if cint (n + s.cursorX) > s.width then s.width - s.cursorX else n

def deleteCharacters (t : Terminal) (n : Int) (s : Screen) : Res Screen :=
  if 0 ≤ s.cursorX ∧ s.cursorX < s.width ∧ 0 ≤ s.cursorY ∧ s.cursorY < s.height then do
    let n := s.clampCells n
    let aLine ← s.getLineAtScreenIndex s.cursorY
    let s ← (if n < s.width then
        s.moveCells (aLine + s.cursorX) (aLine + s.cursorX + n) (s.width - s.cursorX - n)
      else .ok s)
    let s ← s.blankCells t (aLine + (s.width - n)) n.toNat
    s.dirtyFill true (s.cursorY * s.width + s.cursorX) (s.width - s.cursorX)
  else .ok s

def backSpace (s : Screen) : Screen :=
  if s.cursorX > 0 then { s with cursorX := s.cursorX - 1 } else s

/-- `for(;!tabStop[CURSOR_X]&&CURSOR_X<WIDTH; CURSOR_X++);` -/
def skipToTab (tabStop : Block Bool) (width : Int) : Nat → Int → Res Int
  | 0, _ => .error .diverges
  | k + 1, x => do
      let stop ← tabStop.load x
      if !stop ∧ x < width then skipToTab tabStop width k (x + 1) else .ok x

def setTab (s : Screen) : Res Screen := do
  let x := s.cursorX + 1
  let x ← skipToTab s.tabStop s.width ((s.width - x).toNat + 1) x
  .ok { s with cursorX := if x ≥ s.width then s.width - 1 else x }

def insertBlank (t : Terminal) (n : Int) (s : Screen) : Res Screen :=
  if s.cursorX ≥ s.width then .ok s
  else do
    let n := s.clampCells n
    let aLine ← s.getLineAtScreenIndex s.cursorY
    let s ← s.moveCells (aLine + s.cursorX + n) (aLine + s.cursorX) (s.width - s.cursorX - n)
    let s ← s.blankCells t (aLine + s.cursorX) n.toNat
    s.dirtyFill true (s.cursorY * s.width + s.cursorX) (s.width - s.cursorX)

/-- The token `ANSICSI_ECH`. -/
def eraseCharacters (t : Terminal) (n : Int) (s : Screen) : Res Screen :=
  if s.cursorX < s.width then do
    let j := s.clampCells n
    let aLine ← s.getLineAtScreenIndex s.cursorY
    let s ← s.blankCells t (aLine + s.cursorX) j.toNat
    s.dirtyFill true (s.width * s.cursorY + s.cursorX) j
  else .ok s

/-! ## Erasing -/

/-- From `(x1, y1)` up to, not including, `(x2, y2)`. -/
structure Span where
  x1 : Int
  y1 : Int
  x2 : Int
  y2 : Int

/-- The span `eraseInDisplay:` clears. -/
def eraseSpan (p : Int) (s : Screen) : Span :=
  if p = 1 then
    { x1 := 0, y1 := 0, x2 := if s.cursorX < s.width then s.cursorX + 1 else s.width
      y2 := s.cursorY }
  else if p = 2 then { x1 := 0, y1 := 0, x2 := 0, y2 := s.height }
  else { x1 := s.cursorX, y1 := s.cursorY, x2 := 0, y2 := s.height }

/-- `for(i = idx1, aScreenChar = screen_top + idx1; i < idx2; i++, aScreenChar++)`.
The loop carries `aScreenChar` beside the screen. -/
def eraseLoop (t : Terminal) (idx1 idx2 : Int) (s : Screen) : Res (Int × Screen) :=
  let bufferEnd := s.totalHeight * s.realWidth
  forUp (fun _ (aScreenChar, s) => do
    let aScreenChar := if aScreenChar ≥ bufferEnd then 0 else aScreenChar
    let s ← storeCell aScreenChar t.blank s
    .ok (aScreenChar + 1, s)) idx1 (idx2 - idx1).toNat (s.screenTop + idx1, s)

def eraseInDisplay (t : Terminal) (p : Int) (s : Screen) : Res Screen := do
  let q := s.eraseSpan p
  let erased ← s.eraseLoop t (q.y1 * s.realWidth + q.x1) (q.y2 * s.realWidth + q.x2)
  let s := erased.2
  s.dirtyFill true (q.y1 * s.width + q.x1) ((q.y2 - q.y1) * s.width + (q.x2 - q.x1))

def eraseInLine (t : Terminal) (p : Int) (s : Screen) : Res Screen := do
  let x1 := if p = 0 then s.cursorX else 0
  let x2 := if p = 1 then (if s.cursorX < s.width then s.cursorX + 1 else s.width)
    else if p = 2 ∨ p = 0 then s.width
    else 0
  let aLine ← s.getLineAtScreenIndex s.cursorY
  let s ← s.blankCells t (aLine + x1) (x2 - x1).toNat
  s.dirtyFill true (s.cursorY * s.width + x1) (x2 - x1)

/-- The token `VT100CSI_DECALN`. -/
def alignmentDisplay (t : Terminal) (s : Screen) : Res Screen := do
  let s ← forUp (fun i s => do
    let aLine ← s.getLineAtScreenIndex i
    let s ← forUp (fun j s => s.storeCell (aLine + j) { t.blank with ch := 0x45 })
      0 s.width.toNat s
    s.storeCh (aLine + s.width) 0) 0 s.height.toNat s
  s.setDirty

/-! ## Moving the cursor -/

/-- `n > 0 ? n : 1` -/
def atLeastOne (n : Int) : Int := if n > 0 then n else 1

def cursorLeft (n : Int) (s : Screen) : Screen :=
  let x := cint (s.cursorX - atLeastOne n)
  let x := if x < 0 then 0 else x
  let s := if 0 ≤ x ∧ x < s.width then { s with cursorX := x } else s
  s.touch (s.cursorY * s.width + s.cursorX)

def cursorRight (n : Int) (s : Screen) : Screen :=
  let x := cint (s.cursorX + atLeastOne n)
  let x := if x ≥ s.width then s.width - 1 else x
  let s := if 0 ≤ x ∧ x < s.width then { s with cursorX := x } else s
  s.touch (s.cursorY * s.width + s.cursorX)

def cursorUp (n : Int) (s : Screen) : Screen :=
  let y := cint (s.cursorY - atLeastOne n)
  let s := { s with cursorY :=
    if s.cursorY ≥ s.scrollTop then (if y < s.scrollTop then s.scrollTop else y) else y }
  if s.cursorX < s.width then s.touch (s.cursorY * s.width + s.cursorX) else s

def cursorDown (n : Int) (s : Screen) : Screen :=
  let y := cint (s.cursorY + atLeastOne n)
  let s := { s with cursorY :=
    if s.cursorY ≤ s.scrollBottom then (if y > s.scrollBottom then s.scrollBottom else y) else y }
  if s.cursorX < s.width then s.touch (s.cursorY * s.width + s.cursorX) else s

/-- The column or row `cursorToX:` and `cursorToX:Y:` settle on. -/
def clampPos (pos limit : Int) : Int :=
  if pos < 0 then 0 else if pos ≥ limit then limit - 1 else pos

def cursorToX (x : Int) (s : Screen) : Screen :=
  let s := { s with cursorX := clampPos (cint (x - 1)) s.width }
  s.touch (s.cursorY * s.width + s.cursorX)

def cursorToXY (t : Terminal) (x y : Int) (s : Screen) : Screen :=
  let yPos := cint (y - 1)
  let yPos := if t.originMode then cint (yPos + s.scrollTop) else yPos
  let s := { s with cursorX := clampPos (cint (x - 1)) s.width
                    cursorY := clampPos yPos s.height }
  s.touch (s.cursorY * s.width + s.cursorX)

/-- `saveCursorPosition`. The lower clamp of the row lets `HEIGHT` itself pass. -/
def saveCursorPosition (s : Screen) : Screen :=
  let x := if s.cursorX < 0 then 0 else s.cursorX
  let x := if x ≥ s.width then s.width - 1 else x
  let y := if s.cursorY < 0 then 0 else s.cursorY
  let y := if y ≥ s.height then s.height else y
  { s with cursorX := x, cursorY := y, saveCursorX := x, saveCursorY := y
           saveCharset := s.charset }

def restoreCursorPosition (s : Screen) : Res Screen := do
  let s := { s with cursorX := s.saveCursorX, cursorY := s.saveCursorY
                    charset := s.saveCharset }
  nsAssert .restoreX (0 ≤ s.cursorX ∧ s.cursorX < s.width)
  nsAssert .restoreY (0 ≤ s.cursorY ∧ s.cursorY < s.height)
  .ok s

def setTopBottom (t : Terminal) (p0 p1 : Int) (s : Screen) : Screen :=
  let top := if p0 = 0 then 0 else p0 - 1
  let bottom := if p1 = 0 then s.height - 1 else p1 - 1
  if 0 ≤ top ∧ top < s.height ∧ 0 ≤ bottom ∧ bottom < s.height ∧ bottom ≥ top then
    { s with scrollTop := top, scrollBottom := bottom, cursorX := 0
             cursorY := if t.originMode then top else 0 }
  else s

/-- The token `VT100CSI_IND`. -/
def index (t : Terminal) (s : Screen) : Res Screen :=
  if s.cursorY = s.scrollBottom then s.scrollUp t
  else
    let y := s.cursorY + 1
    .ok { s with cursorY := if y ≥ s.height then s.height - 1 else y }

/-- The token `VT100CSI_RI`. -/
def reverseIndex (t : Terminal) (s : Screen) : Res Screen :=
  if s.cursorY = s.scrollTop then s.scrollDown t
  else
    let y := s.cursorY - 1
    .ok { s with cursorY := if y < 0 then 0 else y }

/-! ## Inserting and deleting lines -/

/-- `clear the n lines` of `insertLines:` and `deleteLines:`, from row `y` on. -/
def clearRows (line : Block ScreenChar) (y : Int) (n : Nat) (s : Screen) : Res Screen :=
  forUp (fun i s => do
    let aLine ← s.getLineAtScreenIndex (cint (y + i))
    s.clearLine aLine line) 0 n s

/-- The number of rows `insertLines:` and `deleteLines:` move. -/
def numLinesMoved (n : Int) (s : Screen) : Int := cint (s.scrollBottom - cint (s.cursorY + n))

/-- `if (n+CURSOR_Y>SCROLL_BOTTOM) n=SCROLL_BOTTOM-CURSOR_Y+1` -/
def clampLines (n : Int) (s : Screen) : Int :=
  if cint (n + s.cursorY) > s.scrollBottom then s.scrollBottom - s.cursorY + 1 else n

/-- The first `if` of `insertLines:`; it starts from the lower end. -/
def moveRowsDown (n : Int) (s : Screen) : Res Screen :=
  if cint (n + s.cursorY) ≤ s.scrollBottom then
    forDown (fun i s => do
      let sourceLine ← s.getLineAtScreenIndex (cint (s.cursorY + i))
      let targetLine ← s.getLineAtScreenIndex (cint (s.cursorY + i + n))
      s.copyLine targetLine sourceLine) (s.numLinesMoved n) (s.numLinesMoved n + 1).toNat s
  else .ok s

/-- The first `if` of `deleteLines:`. -/
def moveRowsUp (n : Int) (s : Screen) : Res Screen :=
  if cint (n + s.cursorY) ≤ s.scrollBottom then
    forUp (fun i s => do
      let sourceLine ← s.getLineAtScreenIndex (cint (s.cursorY + i + n))
      let targetLine ← s.getLineAtScreenIndex (cint (s.cursorY + i))
      s.copyLine targetLine sourceLine) 0 (s.numLinesMoved n + 1).toNat s
  else .ok s

def insertLines (t : Terminal) (n : Int) (s : Screen) : Res Screen := do
  let s ← s.moveRowsDown n
  let n := s.clampLines n
  let aDefaultLine := s.getDefaultLineWithWidth t s.width
  let s ← aDefaultLine.1.clearRows aDefaultLine.2 s.cursorY n.toNat
  s.dirtyFill true (s.cursorY * s.width) ((s.scrollBottom - s.cursorY + 1) * s.width)

def deleteLines (t : Terminal) (n : Int) (s : Screen) : Res Screen := do
  let s ← s.moveRowsUp n
  let n := s.clampLines n
  let aDefaultLine := s.getDefaultLineWithWidth t s.width
  let s ← aDefaultLine.1.clearRows aDefaultLine.2 (s.scrollBottom - n + 1) n.toNat
  s.dirtyFill true (s.cursorY * s.width) ((s.scrollBottom - s.cursorY + 1) * s.width)

/-! ## Tab stops, printing and charsets -/

def clearTabStop (s : Screen) : Screen :=
  { s with tabStop := Block.alloc tabWindow false }

/-- `if (CURSOR_X<WIDTH) tabStop[CURSOR_X]=v` -/
def markTab (v : Bool) (s : Screen) : Res Screen :=
  if s.cursorX < s.width then do
    let tabs ← s.tabStop.store s.cursorX v
    .ok { s with tabStop := tabs }
  else .ok s

/-- The token `ANSICSI_PRINT`. -/
def printAnsi (p : Int) (s : Screen) : Screen :=
  if p = 4 then { s with printPending := true }
  else if p = 5 then { s with printToAnsiString := some [], printToAnsi := true }
  else { s with printToAnsiString := none, printToAnsi := false, printPending := true }

/-- `charset[i] = (token.u.code == '0')` -/
def designate (i : Int) (code : UInt8) (s : Screen) : Screen :=
  { s with charset := s.charset.set i (code = 0x30) }

/-! ## `putToken:` -/

/-- A text token, on the screen or to the printer. -/
def putString (F : Foundation) (t : Terminal) (string : List UniChar) (ascii : Bool)
    (s : Screen) : Res Screen :=
  if s.printToAnsi then .ok (s.printStringToAnsi string) else s.setString F t string ascii

/-- The tokens LF, VT and FF: the `break` after the line feed is commented out in
the source, so a carriage return follows. -/
def lineFeed (t : Terminal) (s : Screen) : Res Screen := do
  let s ← (if s.printToAnsi then .ok (s.printStringToAnsi [0x0a]) else s.setNewLine t)
  .ok { s with cursorX := 0 }

def setBell (s : Screen) : Screen := { s with soundBell := true }

/-- The control characters of `putToken:`. -/
def putControl (t : Terminal) (code : Nat) (s : Screen) : Res Screen :=
  match code with
  | 7 => .ok s.setBell
  | 8 => .ok s.backSpace
  | 9 => s.setTab
  | 10 => s.lineFeed t
  | 11 => s.lineFeed t
  | 12 => s.lineFeed t
  | 13 => .ok { s with cursorX := 0 }
  | 255 => s.deleteCharacters t 1
  | _ => .ok s

/-- The `switch` of `putToken:`. `STRICT_ANSI_MODE` only changes the terminal and
is handled by `VT100.putToken`. -/
def dispatch (F : Foundation) (t : Terminal) (tok : VT100TCC) (s : Screen) : Res Screen := do
  let p0 := tok.csi.p.cell 0
  let p1 := tok.csi.p.cell 1
  match tok.type with
  | .string => s.putString F t tok.string false
  | .asciiString => s.putString F t tok.string true
  | .cc code => s.putControl t code
  | .cub => .ok (s.cursorLeft p0)
  | .cud => .ok (s.cursorDown p0)
  | .cuf => .ok (s.cursorRight p0)
  | .cup => .ok (s.cursorToXY t p1 p0)
  | .cuu => .ok (s.cursorUp p0)
  | .decaln => s.alignmentDisplay t
  | .decrc => s.restoreCursorPosition
  | .decsc => .ok s.saveCursorPosition
  | .decstbm => .ok (s.setTopBottom t p0 p1)
  | .ed => s.eraseInDisplay t p0
  | .el => s.eraseInLine t p0
  | .hts => s.markTab true
  | .hvp => .ok (s.cursorToXY t p1 p0)
  | .nel => index t { s with cursorX := 0 }
  | .ind => s.index t
  | .ri => s.reverseIndex t
  | .scs0 => .ok (s.designate 0 tok.code)
  | .scs1 => .ok (s.designate 1 tok.code)
  | .scs2 => .ok (s.designate 2 tok.code)
  | .scs3 => .ok (s.designate 3 tok.code)
  | .tbc =>
      if p0 = 3 then .ok s.clearTabStop
      else if p0 = 0 then s.markTab false
      else .ok s
  | .decset | .decrst =>
      .ok (if p0 = 3 ∧ t.allowColumnMode then
        { s with newWidth := if t.columnMode then 132 else 80, newHeight := s.height }
      else s)
  | .cha => .ok (s.cursorToX p0)
  | .vpa => .ok (s.cursorToXY t (s.cursorX + 1) p0)
  | .vpr => .ok (s.cursorToXY t (s.cursorX + 1) (cint (p0 + s.cursorY + 1)))
  | .ech => s.eraseCharacters t p0
  | .print => .ok (s.printAnsi p0)
  | .insblnk => s.insertBlank t p0
  | .insln => s.insertLines t p0
  | .delch => s.deleteCharacters t p0
  | .delln => s.deleteLines t p0
  | .su => forUp (fun _ s => s.scrollUp t) 0 p0.toNat s
  | .sd => forUp (fun _ s => s.scrollDown t) 0 p0.toNat s
  | _ => .ok s

/-- `putToken:`: after the token the old cursor position is dirty. -/
def putToken (F : Foundation) (t : Terminal) (tok : VT100TCC) (s : Screen) : Res Screen := do
  let s' ← s.dispatch F t tok
  .ok (if s.cursorX ≠ s'.cursorX ∨ s.cursorY ≠ s'.cursorY then
    s'.touch (s.cursorY * s'.width + s.cursorX)
  else s')

end Screen

end MobileTerminal
