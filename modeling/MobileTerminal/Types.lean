import Mathlib.Algebra.Ring.Int.Defs
import MobileTerminal.Block

/-!
# Cells, tokens and constants

The data the terminal and the screen share (`VT100Types.h`, the constants of
`VT100Terminal.h` and of `VT100Screen.m`, `charmaps.h`): cells, tokens,
encodings, and the assertions of the source by name.

C's `int` is `Int`. Where the code adds or multiplies numbers that come from the
input, the sum goes through `cint`, which wraps to 32 bits; sizes and addresses
of buffers that `malloc` has returned are not wrapped. The distinction is
deliberate: a parameter of a control sequence can be any number, so that
`CURSOR_Y + n` may become negative, while a buffer that overflows an `int` could
not have been allocated.

A handler is a function into `Res`, which either completes or names the fault
that stops it: one of the assertions in `Site`, an access outside a block, or a
loop that does not end. What Foundation does with a string of bytes is a
parameter (`Foundation`), because its decoders are not part of the source; the
only facts about it that results use are `Foundation.AsciiExact`, what the
documentation of the ASCII encoding says, and its weaker half, that such a
string is not `nil`.

The fields of `VT100TCC` follow the union of the source, but side by side: which
of them belongs to a token is told by its `type`.
-/

namespace MobileTerminal

/-! ## C integers -/

/-- Signed 32-bit wrap-around: what a sum or product of two `int`s is on the machines the
program is built for. -/
def cint (n : Int) : Int := (n + 2 ^ 31) % 2 ^ 32 - 2 ^ 31

/-- Conversion to `unsigned int`. -/
def cuint (n : Int) : Int := n % 2 ^ 32

/-- Conversion to (signed) `char`. -/
def cchar (n : Int) : Int := (n + 128) % 256 - 128

/-- The values of an `int`. -/
def IsInt (n : Int) : Prop := -2 ^ 31 ≤ n ∧ n < 2 ^ 31

theorem cint_isInt (n : Int) : IsInt (cint n) := by
  unfold IsInt cint
  omega

theorem cint_of_isInt {n : Int} (h : IsInt n) : cint n = n := by
  unfold IsInt at h
  unfold cint
  omega

/-! ## Faults of this program -/

/-- The `NSParameterAssert`s that input can reach, one constructor for each place in the
source. Results about a family of them are stated through a predicate on faults. -/
inductive Site where
  /-- `theIndex >= 0` in `getLineAtIndex:` -/
  | lineIndex
  /-- `anIndex >= 0` in `_getLineAtIndex:fromLine:` -/
  | lineOffset
  | restoreX
  | restoreY
  | scrollTop
  | scrollBottom
  | scrollOrder
  /-- `current_stream_length >= streamOffset + rmlen` in `getNextToken` -/
  | streamLength
deriving DecidableEq, Repr

abbrev Res (α : Type) := Except (Fault Site) α

/-- `NSParameterAssert`. -/
def nsAssert (site : Site) (p : Prop) [Decidable p] : Res Unit :=
  if p then .ok () else .error (.assertion site)

theorem nsAssert_eq_ok {site : Site} {p : Prop} [Decidable p] {u : Unit} :
    nsAssert site p = .ok u ↔ p := by
  unfold nsAssert
  split
  · rename_i h
    simp [h]
  · rename_i h
    simp [h]

theorem nsAssert_pos {site : Site} {p : Prop} [Decidable p] (h : p) :
    nsAssert site p = .ok () := if_pos h

/-! ## Cells -/

abbrev UniChar := UInt16

/-- `screen_char_t` -/
structure ScreenChar where
  ch : UniChar
  bgColor : Int
  fgColor : Int
deriving DecidableEq, Repr

/-- A NUL cell in the colours of the given codes: what clearing, scrolling and a default line
put into a cell. -/
def blankCell (fgCode bgCode : Int) : ScreenChar :=
  { ch := 0, bgColor := cuint bgCode, fgColor := cuint fgCode }

def defaultTerminalWidth : Int := 80
def defaultTerminalHeight : Int := 24
def kDefaultWidth : Int := 80
def kDefaultHeight : Int := 25
def maxScrollback : Int := 100000
def defaultScrollback : Int := 1000
def tabSize : Nat := 8
def tabWindow : Int := 300

/-- `charmap[0x5f .. 0x7e]`: the VT100 graphics characters. -/
def graphicsChars : List UniChar :=
  [0x00a0,
   0x25c6, 0x2592, 0x2409, 0x240c, 0x240d, 0x240a, 0x00b0, 0x00b1,
   0x2424, 0x240b, 0x2518, 0x2510, 0x250c, 0x2514, 0x253c, 0x23ba,
   0x23bb, 0x2500, 0x23bc, 0x23bd, 0x251c, 0x2524, 0x2534, 0x252c,
   0x2502, 0x2264, 0x2265, 0x03c0, 0x2260, 0x00a3, 0x00b7]

/-- The table `charmap`, the identity outside `0x5f .. 0x7e`. Its 256 entries
are only looked up for ASCII characters. -/
def charmap (c : UniChar) : UniChar :=
  if 0x5f ≤ c ∧ c ≤ 0x7e then graphicsChars.getD (c.toNat - 0x5f) c else c

/-! ## Encodings and Foundation -/

abbrev Encoding := Nat

def nsAsciiStringEncoding : Encoding := 1
def nsUtf8StringEncoding : Encoding := 4

def isGBEncoding (e : Encoding) : Bool :=
  e = 0x80000019 || e = 0x80000421 || e = 0x80000631 || e = 0x80000632 || e = 0x80000930

def isBig5Encoding (e : Encoding) : Bool :=
  e = 0x80000002 || e = 0x80000423 || e = 0x80000931 || e = 0x80000a03 || e = 0x80000a06

def isJPEncoding (e : Encoding) : Bool :=
  e = 0x80000001 || e = 0x8 || e = 0x15

def isSJISEncoding (e : Encoding) : Bool :=
  e = 0x80000628 || e = 0x80000a01

def isKREncoding (e : Encoding) : Bool :=
  e = 0x80000422 || e = 0x80000003 || e = 0x80000840 || e = 0x80000940

/-- What the program takes from `NSString`: for an encoding and some bytes either the string
or `nil`. A string is its UTF-16 code units, as `getCharacters:` copies them. -/
structure Foundation where
  /-- `initWithBytes:length:encoding:`, `none` for `nil` -/
  initWithBytes : List UInt8 → Encoding → Option (List UniChar)
  precomposedStringWithCanonicalMapping : List UniChar → List UniChar

/-- The ASCII encoding turns each byte of `0x20 .. 0x7f` into the character of
that number. -/
def Foundation.AsciiExact (F : Foundation) : Prop :=
  ∀ bytes : List UInt8, (∀ b ∈ bytes, 0x20 ≤ b ∧ b ≤ 0x7f) →
    F.initWithBytes bytes nsAsciiStringEncoding = some (bytes.map UInt8.toUInt16)

/-- A Foundation whose every encoding is Latin-1. It stands for the real one wherever a run on
given bytes is shown, and all of these bytes are ASCII. -/
def Foundation.latin1 : Foundation where
  initWithBytes bytes _ := some (bytes.map UInt8.toUInt16)
  precomposedStringWithCanonicalMapping s := s

theorem Foundation.latin1_asciiExact : Foundation.latin1.AsciiExact :=
  fun _ _ => rfl

/-! ## Tokens -/

/-- The `type` of a `VT100TCC`. A control byte that starts no sequence is its
own type (`cc`); `cc 0` is `VT100CC_NULL`, the answer on an empty stream. -/
inductive TokenType where
  | cc (code : Nat)
  | wait | notSupport | skip | string | asciiString | unknownChar
  | decset | decrst
  | cub | cud | cuf | cup | cuu | da | decaln | decid | deckpam | deckpnm | decll
  | decrc | decreptparm | decreqtparm | decsc | decstbm | dectst | dsr | ed | el
  | hts | hvp | ind | nel | ri | ris | rm | scs0 | scs1 | scs2 | scs3 | sgr | sm | tbc
  | insblnk | insln | delch | delln | windowSize | windowSizePixel | windowPos
  | iconify | deiconify | raise | lower | su | sd
  | cha | vpa | vpr | ech | print
  | strictAnsiMode
deriving DecidableEq, Repr

def csiParamMax : Int := 16

/-- `CSIParam` of `VT100Terminal.m`; `cmd` is `0` until the final byte is seen
and `0xff` for a sequence that is not understood. -/
structure CSIParam where
  p : Block Int
  count : Int
  cmd : Nat
  question : Bool
  modifier : Int

/-- `CSIParam param={{0},0}` -/
def CSIParam.zero : CSIParam :=
  { p := Block.alloc csiParamMax 0, count := 0, cmd := 0, question := false, modifier := 0 }

/-- `VT100TCC`. The arms of the union `u` are separate fields; only the one that
belongs to `type` is meaningful. -/
structure VT100TCC where
  type : TokenType
  string : List UniChar := []
  code : UInt8 := 0
  csi : CSIParam := CSIParam.zero

/-- `token.type != VT100_WAIT && token.type != VT100CC_NULL` fails: the token
loop of `readInputStream:` ends. -/
def VT100TCC.stops (tok : VT100TCC) : Bool := tok.type = .wait || tok.type = .cc 0

end MobileTerminal
