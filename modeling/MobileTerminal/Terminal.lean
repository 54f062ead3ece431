import MobileTerminal.Types

/-!
# `VT100Terminal`: modes, attributes and the input stream

The state of `VT100Terminal.m`, the colour codes it hands to the screen, the
attribute half of a control sequence (`setCharAttr:`) and the byte queue
(`putStreamData:`). The decoders and `setMode:`, which also work on the screen,
come later.

`STREAM` is a block with a length of its own (`totalStreamLength`); the bytes
that have arrived end at `current_stream_length`, and those already read end at
`streamOffset`. The decoders see a list (`pending`), which is what lies between
the two; the fields are kept because the source resets them in different places.

An attribute is an `int` that is 0 or 1, and a colour code is a number with the
flags `boldMask`, `underMask` and `blinkMask` added to it. That the additions do
not overflow, and that the flags can be told from the colour, are results about
runs, not assumptions of the model.
-/

namespace MobileTerminal

inductive MouseMode where
  | none | normal | hilite | buttonMotion | allMotion
deriving DecidableEq, Repr

def standardStreamSize : Int := 100000

def fgColorCodeDefault : Int := 0x100
def bgColorCodeDefault : Int := 0x101
def boldMask : Int := 0x200
def blinkMask : Int := 0x400
def underMask : Int := 0x800

/-- `VT100Terminal`. `stream` is the block `STREAM` points to. -/
structure Terminal where
  encoding : Encoding
  stream : Block UInt8
  currentStreamLength : Int
  totalStreamLength : Int
  streamOffset : Int
  lineMode : Bool
  cursorMode : Bool
  ansiMode : Bool
  columnMode : Bool
  scrollMode : Bool
  screenMode : Bool
  originMode : Bool
  wraparoundMode : Bool
  autorepeatMode : Bool
  interlaceMode : Bool
  keypadMode : Bool
  insertMode : Bool
  charset : Int
  xon : Bool
  mouseMode : MouseMode
  fgColorcode : Int
  bgColorcode : Int
  bold : Int
  under : Int
  blink : Int
  reversed : Int
  highlight : Int
  saveBold : Int
  saveUnder : Int
  saveBlink : Int
  saveReversed : Int
  saveHighlight : Int
  saveCharset : Int
  strictAnsiMode : Bool
  allowColumnMode : Bool

namespace Terminal

def init : Terminal where
  encoding := nsAsciiStringEncoding
  stream := Block.alloc standardStreamSize 0
  currentStreamLength := 0
  totalStreamLength := standardStreamSize
  streamOffset := 0
  lineMode := false
  cursorMode := false
  ansiMode := false
  columnMode := false
  scrollMode := false
  screenMode := false
  originMode := false
  wraparoundMode := true
  autorepeatMode := false
  interlaceMode := false
  keypadMode := false
  insertMode := false
  charset := 0
  xon := true
  mouseMode := .none
  fgColorcode := fgColorCodeDefault
  bgColorcode := bgColorCodeDefault
  bold := 0
  under := 0
  blink := 0
  reversed := 0
  highlight := 0
  saveBold := 0
  saveUnder := 0
  saveBlink := 0
  saveReversed := 0
  saveHighlight := 0
  saveCharset := 0
  strictAnsiMode := false
  allowColumnMode := true

/-! ## Colour codes -/

def foregroundColorCode (t : Terminal) : Int :=
  let attrs := t.bold * boldMask + t.under * underMask + t.blink * blinkMask
  if t.fgColorcode.tmod 256 > 7 then
    cint ((if t.reversed ≠ 0 then t.bgColorcode else t.fgColorcode) + attrs)
  else
    cint ((if t.reversed ≠ 0 then t.bgColorcode
      else t.fgColorcode + (if t.highlight ≠ 0 then 1 else t.bold) * 8) + attrs)

def backgroundColorCode (t : Terminal) : Int :=
  if t.reversed ≠ 0 then t.fgColorcode else t.bgColorcode

/-- The blank cell in the terminal's current colours. -/
def blank (t : Terminal) : ScreenChar :=
  blankCell t.foregroundColorCode t.backgroundColorCode

/-! ## Character attributes -/

def allOff (t : Terminal) : Terminal :=
  { t with bold := 0, under := 0, blink := 0, reversed := 0, highlight := 0,
           fgColorcode := fgColorCodeDefault, bgColorcode := bgColorCodeDefault }

/-- One round of the `switch` in `setCharAttr:`. Attributes 38 and 48 do nothing
here: the three-parameter form is taken before. -/
def charAttr (n : Int) (t : Terminal) : Terminal :=
  if n = 0 then t.allOff
  else if n = 1 then { t with bold := 1 }
  else if n = 22 then { t with bold := 0 }
  else if n = 4 then { t with under := 1 }
  else if n = 24 then { t with under := 0 }
  else if n = 5 then { t with blink := 1 }
  else if n = 25 then { t with blink := 0 }
  else if n = 7 then { t with reversed := 1 }
  else if n = 27 then { t with reversed := 0 }
  else if n = 39 then { t with fgColorcode := fgColorCodeDefault }
  else if n = 49 then { t with bgColorcode := bgColorCodeDefault }
  else if n = 38 ∨ n = 48 then t
  else if 30 ≤ n ∧ n ≤ 37 then { t with fgColorcode := n - 30, highlight := 0 }
  else if 40 ≤ n ∧ n ≤ 47 then { t with bgColorcode := n - 40, highlight := 0 }
  else if 90 ≤ n ∧ n ≤ 97 then { t with fgColorcode := n - 90, highlight := 1 }
  else if 100 ≤ n ∧ n ≤ 107 then { t with bgColorcode := n - 100, highlight := 1 }
  else t

/-- The loop of `setCharAttr:` from index `i` on. A 256-colour triple is the whole sequence,
so it ends the loop (`i = 2`); it is taken only at index 0 of exactly three numbers. -/
def setCharAttrFrom (csi : CSIParam) : Nat → Int → Terminal → Res Terminal
  | 0, _, t => .ok t
  | k + 1, i, t => do
      let n ← csi.p.load i
      let colour256 ← (if (n = 38 ∨ n = 48) ∧ csi.count = 3 ∧ i = 0 then do
          let p1 ← csi.p.load 1
          .ok (decide (p1 = 5))
        else .ok false)
      if colour256 then do
        let c ← csi.p.load 2
        .ok (if n = 38 then { t with fgColorcode := c } else { t with bgColorcode := c })
      else setCharAttrFrom csi k (i + 1) (t.charAttr n)

def setCharAttr (tok : VT100TCC) (t : Terminal) : Res Terminal :=
  if tok.type = .sgr then
    if tok.csi.count = 0 then .ok t.allOff
    else setCharAttrFrom tok.csi tok.csi.count.toNat 0 t
  else .ok t

/-! ## The stream -/

/-- The bytes `getNextToken` sees: `datalen` bytes from `STREAM + streamOffset` on.
The offset never passes the length (`Terminal.Wf`). -/
def pending (t : Terminal) : List UInt8 :=
  t.stream.slice t.streamOffset (t.currentStreamLength - t.streamOffset).toNat

/-- Make room for `length` more bytes. -/
def reserve (length : Int) (t : Terminal) : Terminal :=
  if t.currentStreamLength + length > t.totalStreamLength then
    let n := (length + t.currentStreamLength).tdiv standardStreamSize
    let total := t.totalStreamLength + n * standardStreamSize
    { t with totalStreamLength := total, stream := { t.stream with size := total } }
  else t

def putStreamData (data : List UInt8) (t : Terminal) : Res Terminal := do
  let length : Int := data.length
  let t := t.reserve length
  let stream ← t.stream.copy t.currentStreamLength (Block.ofList data 0) 0 length
  let n := t.currentStreamLength + length
  .ok { t with stream := stream, currentStreamLength := n
               streamOffset := if n = 0 then 0 else t.streamOffset }

/-- `streamOffset += n` -/
def skip (n : Nat) (t : Terminal) : Terminal := { t with streamOffset := t.streamOffset + n }

/-- The stream as `getNextToken` leaves it when nothing is pending. -/
def emptyStream (t : Terminal) : Terminal :=
  let t : Terminal := { t with streamOffset := 0, currentStreamLength := 0 }
  if t.totalStreamLength ≥ standardStreamSize * 2 then
    { t with totalStreamLength := standardStreamSize,
             stream := { t.stream with size := standardStreamSize } }
  else t

end Terminal

end MobileTerminal
