import MobileTerminal.ScreenOps

/-!
# The decoders of `VT100Terminal.m`

`getCSIParam`, `decode_csi`, `decode_other`, `decode_control`, the decoders of
the multi-byte encodings, `decode_ascii_string` and `decode_string`. A decoder
gets the pending bytes as a list (`datap`, `datalen`) and answers a token and
`rmlen`, the number of bytes the token takes. The decoders that overwrite bytes
of the stream with `#` also return the bytes they leave.

`getCSIParam` is not a pure scanner: a control character inside a sequence is
executed on the screen while the parameters are read, so `csiLoop` carries the
screen along. Its fuel is the number of bytes. A token of length 0 is
`VT100_WAIT`, whatever it is otherwise, which is why a sequence that ends
without a command waits.

The multi-byte decoders share one loop (`stringLoop`) and differ in what a round
does (`StringStep`): take some bytes, stop, wait for more, or give up on the
byte at hand. Each decoder keeps its own step under its own name, with the
ranges as the source has them, including the places where it looks at a byte
that has not arrived.
-/

namespace MobileTerminal

def escByte : UInt8 := 0x1b

/-- `UNKNOWN` -/
def unknownByte : UInt8 := 0x23

def isDigit (b : UInt8) : Bool := 0x30 ≤ b && b ≤ 0x39

/-- `isalpha`, in the C locale -/
def isAlpha (b : UInt8) : Bool := 0x41 ≤ b && b ≤ 0x5a || 0x61 ≤ b && b ≤ 0x7a

def isCSI : List UInt8 → Bool
  | c0 :: c1 :: _ => c0 = escByte && c1 = 0x5b
  | _ => false

/-! ## Control sequences -/

/-- The inner loop over the digits of a parameter. -/
def scanNumber (n : Int) : List UInt8 → Int × List UInt8
  | [] => (n, [])
  | b :: bs =>
      if isDigit b then scanNumber (cint (n * 10 + (b.toNat - 0x30))) bs else (n, b :: bs)

/-- The control characters that `getCSIParam` executes in the middle of a
sequence; `none` for a byte it does not recognize. -/
def csiControl (t : Terminal) (code : Nat) (s : Screen) : Option (Res Screen) :=
  match code with
  | 5 => some (.ok s)
  | 7 => some (.ok s.setBell)
  | 8 => some (.ok s.backSpace)
  | 9 => some s.setTab
  | 10 => some (s.setNewLine t)
  | 11 => some (s.setNewLine t)
  | 12 => some (s.setNewLine t)
  | 13 => some (.ok (s.cursorToXY t 1 s.cursorY))
  | 14 => some (.ok s)
  | 15 => some (.ok s)
  | 17 => some (.ok s)
  | 19 => some (.ok s)
  | 24 => some (.ok s)
  | 26 => some (.ok s)
  | 255 => some (s.deleteCharacters t 1)
  | _ => none

/-- A number is read: it is kept while there is room, and counted in any case. -/
def CSIParam.addNumber (n : Int) (param : CSIParam) : CSIParam :=
  { param with p := if param.count < csiParamMax then param.p.set param.count n else param.p
               count := param.count + 1 }

/-- A separator is read: a parameter that was left blank is counted here. -/
def CSIParam.addBlank (numeric : Bool) (param : CSIParam) : CSIParam :=
  if numeric then param else { param with count := param.count + 1 }

/-- The scanning loop of `getCSIParam`. `k` bytes are behind it and `numeric` is
`readNumericParameter`. Each round takes a byte, so the fuel never runs out before the
data. `unrecognized` ends the loop in the round that sets it; after a separator it does so
without setting `cmd`. After `'` and `&` one more byte is taken whatever it is, and even
if it has not arrived. -/
def csiLoop (t : Terminal) :
    Nat → List UInt8 → Bool → Nat → CSIParam → Screen → Res (Nat × CSIParam × Screen)
  | 0, _, _, k, param, s => .ok (k, param, s)
  | _ + 1, [], _, k, param, s => .ok (k, param, s)
  | fuel + 1, b :: bs, numeric, k, param, s =>
      if isDigit b then
        let (n, rest) := scanNumber (b.toNat - 0x30) bs
        csiLoop t fuel rest true (k + 1 + (bs.length - rest.length)) (param.addNumber n) s
      else if b = 0x3b then
        let param := param.addBlank numeric
        if param.count ≥ csiParamMax then .ok (k + 1, param, s)
        else csiLoop t fuel bs false (k + 1) param s
      else if isAlpha b || b = 0x40 then .ok (k + 1, { param with cmd := b.toNat }, s)
      else if b = 0x27 then .ok (k + 2, { param with cmd := 0xff }, s)
      else if b = 0x26 then .ok (k + 2, { param with cmd := 0xff }, s)
      else match csiControl t b.toNat s with
        | some r => do
            let s ← r
            csiLoop t fuel bs numeric (k + 1) param s
        | none => .ok (k, { param with cmd := 0xff }, s)

/-- What `getCSIParam` starts its loop with: the parameters after the optional
prefix, the bytes left and the number of bytes passed. -/
def csiPrefix (datap : List UInt8) : CSIParam × List UInt8 × Nat :=
  let param := { CSIParam.zero with p := Block.alloc csiParamMax (-1) }
  match datap.drop 2 with
  | 0x3f :: rest => ({ param with question := true }, rest, 3)
  | 0x3e :: rest => ({ param with modifier := 0x3e }, rest, 3)
  | rest => (param, rest, 2)

/-- `getCSIParam`, for a `datap` that starts with `ESC [`. The first component is
the number of bytes scanned. -/
def getCSIParam (t : Terminal) (datap : List UInt8) (s : Screen) :
    Res (Nat × CSIParam × Screen) :=
  let (param, rest, k) := csiPrefix datap
  csiLoop t rest.length rest false k param s

/-- `SET_PARAM_DEFAULT` -/
def CSIParam.setDefault (n d : Int) (param : CSIParam) : Res CSIParam := do
  let v ← param.p.load n
  let p ← param.p.store n (if v < 0 then d else v)
  .ok { param with p := p, count := if param.count > n + 1 then param.count else n + 1 }

/-- A token type whose first parameter defaults to `d`. -/
def CSIParam.default1 (type : TokenType) (d : Int) (param : CSIParam) :
    Res (TokenType × CSIParam) := do
  let param ← param.setDefault 0 d
  .ok (type, param)

/-- A token type with a default for each of two parameters. -/
def CSIParam.default2 (type : TokenType) (n d n' d' : Int) (param : CSIParam) :
    Res (TokenType × CSIParam) := do
  let param ← param.setDefault n d
  let param ← param.setDefault n' d'
  .ok (type, param)

/-- The window operations of `CSI t`. -/
def windowOp (param : CSIParam) : Res (TokenType × CSIParam) := do
  let op ← param.p.load 0
  match op with
  | 8 => param.default2 .windowSize 1 0 2 0
  | 3 => param.default2 .windowPos 1 0 2 0
  | 4 => param.default2 .windowSizePixel 1 0 2 0
  | 2 => .ok (.iconify, param)
  | 1 => .ok (.deiconify, param)
  | 5 => .ok (.raise, param)
  | 6 => .ok (.lower, param)
  | _ => .ok (.notSupport, param)

/-- The `switch (param.cmd)` of `decode_csi` without a question mark. -/
def csiCommand (height : Int) (param : CSIParam) : Res (TokenType × CSIParam) :=
  match Char.ofNat param.cmd with
  | 'D' => param.default1 .cub 1
  | 'B' => param.default1 .cud 1
  | 'C' => param.default1 .cuf 1
  | 'A' => param.default1 .cuu 1
  | 'H' => param.default2 .cup 0 1 1 1
  | 'c' => param.default1 .da 0
  | 'q' => param.default1 .decll 0
  | 'x' => .ok (if param.count = 1 then .decreqtparm else .decreptparm, param)
  | 'r' => param.default2 .decstbm 0 1 1 height
  | 'y' => .ok (if param.count = 2 then .dectst else .notSupport, param)
  | 'n' => param.default1 .dsr 0
  | 'J' => param.default1 .ed 0
  | 'K' => param.default1 .el 0
  | 'f' => param.default2 .hvp 0 1 1 1
  | 'l' => .ok (.rm, param)
  | 'm' => do
      let param ← forUp (fun i param => CSIParam.setDefault i 0 param) 0 param.count.toNat param
      .ok (.sgr, param)
  | 'h' => .ok (.sm, param)
  | 'g' => param.default1 .tbc 0
  | '@' => param.default1 .insblnk 1
  | 'L' => param.default1 .insln 1
  | 'P' => param.default1 .delch 1
  | 'M' => param.default1 .delln 1
  | 't' => windowOp param
  | 'S' => param.default1 .su 1
  | 'T' => if param.count < 2 then param.default1 .sd 1 else .ok (.notSupport, param)
  | 'G' => param.default1 .cha 1
  | 'd' => param.default1 .vpa 1
  | 'e' => param.default1 .vpr 1
  | 'X' => param.default1 .ech 1
  | 'i' => param.default1 .print 0
  | _ => .ok (.notSupport, param)

/-- The `switch (param.cmd)` of `decode_csi` after a question mark. -/
def csiPrivate (param : CSIParam) : Res (TokenType × CSIParam) :=
  match Char.ofNat param.cmd with
  | 'h' => param.default1 .decset 0
  | 'l' => param.default1 .decrst 0
  | _ => .ok (.notSupport, param)

def decodeCsi (t : Terminal) (datap : List UInt8) (s : Screen) :
    Res (VT100TCC × Nat × Screen) := do
  let (paramlen, param, s) ← getCSIParam t datap s
  if param.cmd = 0xff then .ok ({ type := .unknownChar }, paramlen, s)
  else if paramlen > 0 ∧ param.cmd > 0 then do
    let (type, param) ← (if param.question then csiPrivate param else csiCommand s.height param)
    .ok ({ type := type, csi := param }, paramlen, s)
  else .ok ({ type := .wait }, 0, s)

/-! ## Other escape sequences and control characters -/

/-- `ESC` and a byte that waits for one more. -/
def threeByte (type : UInt8 → TokenType) (c2 : Option UInt8) : VT100TCC × Nat :=
  match c2 with
  | none => ({ type := .wait }, 0)
  | some c => ({ type := type c, code := c }, 3)

/-- `decode_other`, for the bytes after `ESC` -/
def decodeOther (c1 : UInt8) (c2 : Option UInt8) : VT100TCC × Nat :=
  match Char.ofNat c1.toNat with
  | '#' => threeByte (fun c => if c = 0x38 then .decaln else .notSupport) c2
  | '=' => ({ type := .deckpam }, 2)
  | '>' => ({ type := .deckpnm }, 2)
  | '<' => ({ type := .strictAnsiMode }, 2)
  | '(' => threeByte (fun _ => .scs0) c2
  | ')' => threeByte (fun _ => .scs1) c2
  | '*' => threeByte (fun _ => .scs2) c2
  | '+' => threeByte (fun _ => .scs3) c2
  | '8' => ({ type := .decrc }, 2)
  | '7' => ({ type := .decsc }, 2)
  | 'D' => ({ type := .ind }, 2)
  | 'E' => ({ type := .nel }, 2)
  | 'H' => ({ type := .hts }, 2)
  | 'M' => ({ type := .ri }, 2)
  | 'Z' => ({ type := .decid }, 2)
  | 'c' => ({ type := .ris }, 2)
  | _ => ({ type := .notSupport }, 2)

def decodeControl (t : Terminal) (datap : List UInt8) (s : Screen) :
    Res (VT100TCC × Nat × Screen) :=
  if isCSI datap then decodeCsi t datap s
  else match datap with
    | [] => .ok ({ type := .wait }, 0, s)
    | b :: rest =>
        if b = 0 then .ok ({ type := .skip }, (datap.takeWhile (· = 0)).length, s)
        else if b = escByte then
          match rest with
          | [] => .ok ({ type := .wait }, 0, s)
          | c1 :: rest' =>
              let (tok, rmlen) := decodeOther c1 rest'.head?
              .ok (tok, rmlen, s)
        else .ok ({ type := .cc b.toNat }, 1, s)

/-! ## Strings -/

def utf8Reqbyte (f : UInt8) : Nat :=
  if f < 0x80 then 1
  else if f &&& 0xe0 = 0xc0 then 2
  else if f &&& 0xf0 = 0xe0 then 3
  else if f &&& 0xf8 = 0xf0 then 4
  else if f &&& 0xfc = 0xf8 then 5
  else if f &&& 0xfe = 0xfc then 6
  else 0

def isEuccn (c : UInt8) : Bool := 0x81 ≤ c && c ≤ 0xfe
def isBig5 (c : UInt8) : Bool := 0xa1 ≤ c && c ≤ 0xfe
def isSjisKanji (c : UInt8) : Bool := 0x81 ≤ c && c ≤ 0x9f || 0xe0 ≤ c && c ≤ 0xef
def isEuckr (c : UInt8) : Bool := 0xa1 ≤ c && c ≤ 0xfe

def isString (code : UInt8) (encoding : Encoding) : Bool :=
  if encoding = nsUtf8StringEncoding then 0x80 ≤ code
  else if isGBEncoding encoding then isEuccn code
  else if isBig5Encoding encoding then isBig5 code
  else if isJPEncoding encoding then
    code = 0x8e || code = 0x8f || 0xa1 ≤ code && code ≤ 0xfe
  else if isSJISEncoding encoding then 0x80 ≤ code
  else if isKREncoding encoding then isEuckr code
  else 0x20 ≤ code

/-- One round of a decoding loop. -/
inductive StringStep where
  | stop
  /-- pass over a character of `n` bytes -/
  | take (n : Nat)
  /-- overwrite one byte with `#` and pass over it -/
  | unknown

/-- The loop the decoders share, over the bytes passed and the bytes ahead. A
round looks at the first byte of the buffer, as it is by then, and at the bytes
ahead. -/
def stringLoop (step : UInt8 → List UInt8 → StringStep) :
    Nat → List UInt8 → List UInt8 → List UInt8 × List UInt8
  | 0, done, ahead => (done, ahead)
  | fuel + 1, done, ahead =>
      match step ((done ++ ahead).headD 0) ahead with
      | .stop => (done, ahead)
      | .take n => stringLoop step fuel (done ++ ahead.take n) (ahead.drop n)
      | .unknown => stringLoop step fuel (done ++ [unknownByte]) (ahead.drop 1)

/-- `decode_utf8`. The length announced is that of the first byte of the whole
buffer (`*datap`), not of the byte at hand. -/
def utf8Step (first : UInt8) : List UInt8 → StringStep
  | [] => .stop
  | b :: bs =>
      if 0x80 ≤ b then
        let reqbyte := utf8Reqbyte first
        if reqbyte > 0 then
          if (b :: bs).length ≥ reqbyte then .take reqbyte else .stop
        else .unknown
      else .stop

/-- `decode_euccn` -/
def euccnStep (_ : UInt8) : List UInt8 → StringStep
  | b :: c :: _ =>
      if isEuccn b then
        if 0x40 ≤ c && c ≤ 0x7e || 0x80 ≤ c && c ≤ 0xfe then .take 2 else .unknown
      else .stop
  | _ => .stop

/-- `decode_big5` -/
def big5Step (_ : UInt8) : List UInt8 → StringStep
  | b :: c :: _ =>
      if isBig5 b then
        if 0x40 ≤ c && c ≤ 0x7e || 0xa1 ≤ c && c ≤ 0xfe then .take 2 else .unknown
      else .stop
  | _ => .stop

/-- `decode_euc_jp` -/
def eucJpStep (_ : UInt8) : List UInt8 → StringStep
  | [] => .stop
  | b :: bs =>
      let len := (b :: bs).length
      if len > 1 && b = 0x8e then .take 2
      else if len > 2 && b = 0x8f then .take 3
      else if len > 1 && 0xa1 ≤ b && b ≤ 0xfe then .take 2
      else .stop

/-- `decode_sjis` -/
def sjisStep (_ : UInt8) : List UInt8 → StringStep
  | [] => .stop
  | b :: bs =>
      if isSjisKanji b && (b :: bs).length > 1 then .take 2
      else if 0x80 ≤ b then .take 1
      else .stop

/-- `decode_euckr` -/
def euckrStep (_ : UInt8) : List UInt8 → StringStep
  | b :: _ :: _ => if isEuckr b then .take 2 else .stop
  | _ => .stop

/-- `decode_other_enc` -/
def otherEncStep (_ : UInt8) : List UInt8 → StringStep
  | b :: _ => if 0x80 ≤ b then .take 1 else .stop
  | _ => .stop

/-- The choice of decoder in `decode_string`. -/
def stringStep (encoding : Encoding) : UInt8 → List UInt8 → StringStep :=
  if encoding = nsUtf8StringEncoding then utf8Step
  else if isGBEncoding encoding then euccnStep
  else if isBig5Encoding encoding then big5Step
  else if isJPEncoding encoding then eucJpStep
  else if isSJISEncoding encoding then sjisStep
  else if isKREncoding encoding then euckrStep
  else otherEncStep

/-- `for(i=rmlen-1;i>=0&&!string;i--)`: bytes become `#` from the end on until
Foundation accepts them. `nil` ends up as the empty string, which no handler
tells from it. -/
def replaceUnknown (F : Foundation) (encoding : Encoding) :
    Nat → List UInt8 → List UInt8 × List UniChar
  | 0, bytes => (bytes, [])
  | i + 1, bytes =>
      let bytes := bytes.set i unknownByte
      match F.initWithBytes bytes encoding with
      | some string => (bytes, string)
      | none => replaceUnknown F encoding i bytes

/-- `decode_string`; the last component is the buffer it leaves. -/
def decodeString (F : Foundation) (datap : List UInt8) (encoding : Encoding) :
    VT100TCC × Nat × List UInt8 :=
  let (done, ahead) := stringLoop (stringStep encoding) datap.length [] datap
  if done.length = 0 then ({ type := .wait }, 0, datap)
  else match F.initWithBytes done encoding with
    | some string => ({ type := .string, string := string }, done.length, done ++ ahead)
    | none =>
        let (done, string) := replaceUnknown F encoding done.length done
        ({ type := .string, string := string }, done.length, done ++ ahead)

/-- `*p>=0x20 && *p<=0x7f` -/
def isAsciiText (b : UInt8) : Bool := 0x20 ≤ b && b ≤ 0x7f

def decodeAsciiString (F : Foundation) (datap : List UInt8) : VT100TCC × Nat :=
  let text := datap.takeWhile isAsciiText
  let type := if text.length = 0 then TokenType.wait else .asciiString
  match F.initWithBytes text nsAsciiStringEncoding with
  | some string => ({ type := type, string := string }, text.length)
  | none => ({ type := .unknownChar, code := datap.headD 0 }, 0)

end MobileTerminal
