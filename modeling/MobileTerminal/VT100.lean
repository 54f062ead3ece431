import MobileTerminal.Resize
import MobileTerminal.Decode
import MobileTerminal.Lts

/-!
# The `VT100` object and its runs

`VT100.m` ties a terminal to a screen. `getNextToken` and `setMode:` belong to
`VT100Terminal.m` but work on both, so they come here.

A run of the object is a run of the transition system `Step`: a call of
`readInputStream:` puts its bytes into the stream, then fetches and executes
tokens until the terminal asks it to wait; the other calls happen between such
calls. The phase of a configuration says where in this a run stands, and a token
that has been fetched and not yet executed is part of it.

`readInputStream_run` shows that a completed call is a path of this system, so
that what holds in every reachable state holds after every call and after every
token. Results about runs are stated for `Reachable` where they ask nothing of
the steps but positive sizes, and for a guard of their own where they do.

Only tokens that a fetch delivers are executed in a run. Results about
`processToken` on an arbitrary token ask for what a fetch guarantees of it.
-/

namespace MobileTerminal

structure VT100 where
  terminal : Terminal
  screen : Screen

namespace VT100

/-! ## Modes -/

/-- `setMode:` for `DECSET` and `DECRST`. -/
def setPrivateMode (p : Int) (mode : Bool) (v : VT100) : Res VT100 :=
  let t := v.terminal
  match p with
  | 20 => .ok { v with terminal := { t with lineMode := mode } }
  | 1 => .ok { v with terminal := { t with cursorMode := mode } }
  | 2 => .ok { v with terminal := { t with ansiMode := mode } }
  | 3 => .ok { v with terminal := { t with columnMode := mode } }
  | 4 => .ok { v with terminal := { t with scrollMode := mode } }
  | 5 => do
      let s ← v.screen.setDirty
      .ok { terminal := { t with screenMode := mode }, screen := s }
  | 6 => .ok { v with terminal := { t with originMode := mode } }
  | 7 => .ok { v with terminal := { t with wraparoundMode := mode } }
  | 8 => .ok { v with terminal := { t with autorepeatMode := mode } }
  | 9 => .ok { v with terminal := { t with interlaceMode := mode } }
  | 40 => .ok { v with terminal := { t with allowColumnMode := mode } }
  | 47 => do
      let s ← (if mode then v.screen.saveBuffer else v.screen.restoreBuffer)
      .ok { v with screen := s }
  | 1000 => .ok { v with terminal := { t with mouseMode := if mode then .normal else .none } }
  | 1002 =>
      .ok { v with terminal := { t with mouseMode := if mode then .buttonMotion else .none } }
  | 1003 => .ok { v with terminal := { t with mouseMode := if mode then .allMotion else .none } }
  | _ => .ok v

def setMode (tok : VT100TCC) (v : VT100) : Res VT100 :=
  let t := v.terminal
  let p0 := tok.csi.p.cell 0
  match tok.type with
  | .decset => v.setPrivateMode p0 true
  | .decrst => v.setPrivateMode p0 false
  | .sm => .ok (if p0 = 4 then { v with terminal := { t with insertMode := true } } else v)
  | .rm => .ok (if p0 = 4 then { v with terminal := { t with insertMode := false } } else v)
  | .deckpam => .ok { v with terminal := { t with keypadMode := true } }
  | .deckpnm => .ok { v with terminal := { t with keypadMode := false } }
  | .cc 15 => .ok { v with terminal := { t with charset := 0 } }
  | .cc 14 => .ok { v with terminal := { t with charset := 1 } }
  | .cc 17 => .ok { v with terminal := { t with xon := true } }
  | .cc 19 => .ok { v with terminal := { t with xon := false } }
  | .decrc => .ok { v with terminal := { t with
      bold := t.saveBold, under := t.saveUnder, blink := t.saveBlink,
      reversed := t.saveReversed, highlight := t.saveHighlight, charset := t.saveCharset } }
  | .decsc => .ok { v with terminal := { t with
      saveBold := t.bold, saveUnder := t.under, saveBlink := t.blink,
      saveReversed := t.reversed, saveHighlight := t.highlight, saveCharset := t.charset } }
  | _ => .ok v

def setCharAttr (tok : VT100TCC) (v : VT100) : Res VT100 := do
  let t ← v.terminal.setCharAttr tok
  .ok { v with terminal := t }

/-! ## Tokens -/

/-- `streamOffset += rmlen` under its assertion. -/
def advance (rmlen : Nat) (v : VT100) : Res VT100 :=
  if rmlen > 0 then do
    nsAssert .streamLength
      (v.terminal.currentStreamLength ≥ v.terminal.streamOffset + rmlen)
    .ok { v with terminal := v.terminal.skip rmlen }
  else .ok v

/-- The bytes from `STREAM + streamOffset` on become `bytes`. -/
def overwritePending (bytes : List UInt8) (v : VT100) : VT100 :=
  let t := v.terminal
  let stream := t.stream.paste t.streamOffset (Block.ofList bytes 0) 0 bytes.length
  { v with terminal := { t with stream := stream } }

def getNextToken (F : Foundation) (v : VT100) : Res (VT100TCC × VT100) :=
  match v.terminal.pending with
  | [] => .ok ({ type := .cc 0 }, { v with terminal := v.terminal.emptyStream })
  | b :: rest =>
      let datap := b :: rest
      if isAsciiText b then do
        let (tok, rmlen) := decodeAsciiString F datap
        let v ← v.advance rmlen
        .ok (tok, v)
      else if b ≤ 0x1f then do
        let (tok, rmlen, s) ← decodeControl v.terminal datap v.screen
        let v ← setMode tok { v with screen := s }
        let v ← v.setCharAttr tok
        let v ← v.advance rmlen
        .ok (tok, v)
      else if isString b v.terminal.encoding then do
        let (tok, rmlen, bytes) := decodeString F datap v.terminal.encoding
        let v := v.overwritePending bytes
        if tok.type ≠ .wait ∧ rmlen = 0 then do
          let v ← v.advance 1
          .ok ({ type := .unknownChar, code := b }, v)
        else do
          let v ← v.advance rmlen
          .ok (tok, v)
      else do
        let v ← v.advance 1
        .ok ({ type := .unknownChar, code := b }, v)

/-- `[screen putToken:token]` -/
def putToken (F : Foundation) (tok : VT100TCC) (v : VT100) : Res VT100 := do
  let s ← v.screen.putToken F v.terminal tok
  let t := v.terminal
  .ok { screen := s
        terminal := if tok.type = .strictAnsiMode then
            { t with strictAnsiMode := !t.strictAnsiMode }
          else t }

/-- The body of the token loop: skipped and unsupported tokens are only logged. -/
def processToken (F : Foundation) (tok : VT100TCC) (v : VT100) : Res VT100 :=
  if tok.type = .skip ∨ tok.type = .notSupport then .ok v else v.putToken F tok

/-! ## The interface -/

def init (fresh : ScreenChar) : Res VT100 := do
  let terminal := { Terminal.init with encoding := nsUtf8StringEncoding }
  let screen ← Screen.init fresh
  let screen ← screen.resizeWidth terminal kDefaultWidth kDefaultHeight
  .ok { terminal := terminal, screen := { screen with hasRefreshDelegate := true } }

def putStreamData (data : List UInt8) (v : VT100) : Res VT100 := do
  let t ← v.terminal.putStreamData data
  .ok { v with terminal := t }

def refresh (v : VT100) : Res VT100 := do
  let s ← v.screen.refresh
  .ok { v with screen := s }

/-- The token loop of `readInputStream:`. -/
def tokenLoop (F : Foundation) : Nat → VT100 → Res VT100
  | 0, _ => .error .diverges
  | fuel + 1, v => do
      let (tok, v) ← v.getNextToken F
      if tok.stops then v.refresh
      else do
        let v ← v.processToken F tok
        tokenLoop F fuel v

/-- `readInputStream:`. Each token that does not end the loop takes at least one
byte, so one round more than there are bytes is enough. -/
def readInputStream (F : Foundation) (data : List UInt8) (v : VT100) : Res VT100 := do
  let v ← v.putStreamData data
  tokenLoop F (v.terminal.pending.length + 1) v

def setScreenSize (width height : Int) (v : VT100) : Res VT100 := do
  let s ← v.screen.resizeWidth v.terminal width height
  .ok { v with screen := s }

def screenSize (v : VT100) : Int × Int := (v.screen.width, v.screen.height)

def clearScreen (v : VT100) : Res VT100 := do
  let s ← v.screen.clearBuffer v.terminal
  .ok { v with screen := s }

def bufferForRow (row : Int) (v : VT100) : Res Int := v.screen.getLineAtIndex row

def numberOfRows (v : VT100) : Int := v.screen.numberOfLines

/-- What a client reads: the cells of every row, with the mark. -/
def readRows (v : VT100) : Res (List (List ScreenChar)) :=
  (List.range v.numberOfRows.toNat).mapM fun (i : Nat) => do
    let line ← v.bufferForRow i
    .ok (v.screen.bufferLines.slice line v.screen.realWidth.toNat)

/-! ## Runs -/

/-- Where a run stands: between calls, in the token loop, or with a token that
is about to be executed. -/
inductive Phase where
  | idle
  | reading
  | deliver (tok : VT100TCC)

inductive Event where
  | put (data : List UInt8)
  | next
  | exec
  | setScreenSize (width height : Int)
  | clearScreen

abbrev Config := Phase × VT100

/-- The transitions of a run: bytes arrive, a token is fetched, the loop stops because the
terminal waits, a fetched token is executed, or a client sets the size or clears the
screen between two calls. -/
inductive Step (F : Foundation) : Config → Event → Config → Prop where
  | put {v v' : VT100} {data : List UInt8} (h : v.putStreamData data = .ok v') :
      Step F (.idle, v) (.put data) (.reading, v')
  | token {v v' : VT100} {tok : VT100TCC} (h : v.getNextToken F = .ok (tok, v'))
      (hs : tok.stops = false) : Step F (.reading, v) .next (.deliver tok, v')
  | stop {v v' v'' : VT100} {tok : VT100TCC} (h : v.getNextToken F = .ok (tok, v'))
      (hs : tok.stops = true) (hr : v'.refresh = .ok v'') :
      Step F (.reading, v) .next (.idle, v'')
  | exec {v v' : VT100} {tok : VT100TCC} (h : v.processToken F tok = .ok v') :
      Step F (.deliver tok, v) .exec (.reading, v')
  | setScreenSize {v v' : VT100} {width height : Int}
      (h : v.setScreenSize width height = .ok v') :
      Step F (.idle, v) (.setScreenSize width height) (.idle, v')
  | clearScreen {v v' : VT100} (h : v.clearScreen = .ok v') :
      Step F (.idle, v) .clearScreen (.idle, v')

/-- A new `VT100` object. -/
def Initial (c : Config) : Prop := ∃ fresh v, init fresh = .ok v ∧ c = (.idle, v)

/-- The calls a client makes: sizes are positive. -/
def SizesPositive (_ : Config) : Event → Prop
  | .setScreenSize width height => 1 ≤ width ∧ IsInt width ∧ 1 ≤ height ∧ IsInt height
  | _ => True

/-- The configurations a run reaches whose calls set positive sizes; the bytes are any, and so
is the order of the calls. -/
def Reachable (F : Foundation) : Config → Prop := Reach Initial (Step F) SizesPositive

theorem tokenLoop_run {F : Foundation} {fuel : Nat} {v v' : VT100}
    (h : tokenLoop F fuel v = .ok v') :
    Path (Step F) SizesPositive (.reading, v) (.idle, v') := by
  induction fuel generalizing v with
  | zero => cases h
  | succ fuel ih =>
      obtain ⟨⟨tok, v₁⟩, h₁, h₂⟩ := bind_eq_ok.mp h
      by_cases hs : tok.stops = true
      · simp only [hs, if_true] at h₂
        exact Path.step (e := .next) (.stop h₁ hs h₂) trivial (.refl _)
      · simp only [hs] at h₂
        obtain ⟨v₂, h₃, h₄⟩ := bind_eq_ok.mp h₂
        exact Path.step (e := .next) (.token h₁ (by simpa using hs)) trivial
          (Path.step (e := .exec) (.exec h₃) trivial (ih h₄))

/-- A completed call of `readInputStream:` is a path of the transition system. -/
theorem readInputStream_run {F : Foundation} {data : List UInt8} {v v' : VT100}
    (h : readInputStream F data v = .ok v') :
    Path (Step F) SizesPositive (.idle, v) (.idle, v') := by
  obtain ⟨v₁, h₁, h₂⟩ := bind_eq_ok.mp h
  exact Path.step (e := .put data) (.put h₁) trivial (tokenLoop_run h₂)

theorem init_reachable {F : Foundation} {fresh : ScreenChar} {v : VT100}
    (h : init fresh = .ok v) : Reachable F (.idle, v) :=
  .init ⟨fresh, v, h, rfl⟩

theorem Reachable.readInputStream {F : Foundation} {data : List UInt8} {v v' : VT100}
    (hr : Reachable F (.idle, v)) (h : VT100.readInputStream F data v = .ok v') :
    Reachable F (.idle, v') :=
  Reach.path hr (readInputStream_run h)

end VT100

end MobileTerminal
