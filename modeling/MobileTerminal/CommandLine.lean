import MobileTerminal.Types

/-!
# The command line of `MTView.m`

The line a user edits is kept twice: as a C string in `_textBuffer` and as the
index `_textBufferIdx` of its end. Typing writes at the index and moves it on;
the other handlers do not agree with that. `deleteBackward` clears the byte at
the index before it moves back, so the character stays; the arrows leave the
index at the last character of the line they recall instead of behind it.

`edit` is the line as the events mean it. The buffer holds it, and a newline
stores and runs it, exactly as long as these handlers find nothing to delete or to
recall and the line fits the buffer (`command_line_iff`).

A thread that has been started has read and cleared the buffer before the next
event. What is echoed, the completion of file names and what a command does are
left out.

Strings are lists of bytes. The C string in the buffer becomes an `NSString` when
the line is stored and when it is run, and there is none for bytes that are not
UTF-8: then the handler fails. A character typed as more than one byte leaves
its first byte alone in the buffer, so a line with such a character is lost, and
the theorems are about characters of ASCII. `length` counts the units of UTF-16,
of which a line of ASCII has as many as bytes.
-/

namespace MobileTerminal

/-- Conversion to `NSUInteger`. -/
def nsuint (n : Int) : Int := n % 2 ^ 64

def textBufferSize : Nat := 1024

/-- The variables behind the command line. -/
structure CommandLine where
  textBuffer : Block UInt8
  textBufferIdx : Int
  commandHistory : List (List UInt8)
  historyIndex : Int
  historyMax : Int
  /-- the strings that command threads have read, the oldest first -/
  ran : List (List UInt8)

inductive CommandLine.Event where
  | insertText (ch : UInt8)
  | deleteBackward
  | upArrow
  | downArrow
  | newline
deriving DecidableEq, Repr

namespace CommandLine

/-- `initWithCoder:` -/
def init : CommandLine where
  textBuffer := Block.alloc textBufferSize 0
  textBufferIdx := 0
  commandHistory := []
  historyIndex := 0
  historyMax := 0
  ran := []

/-! ## Strings

The conversions between C strings and `NSString`, as far as the handlers use
them. A string is its bytes; that it has characters shows in its length and in
the test that there is such a string at all. -/

/-- The bytes from `a` on up to the NUL that ends them. -/
def cString (b : Block UInt8) : Nat → Int → Res (List UInt8)
  | 0, _ => .error .diverges
  | k + 1, a => do
      let c ← b.load a
      if c = 0 then .ok []
      else do
        let rest ← cString b k (a + 1)
        .ok (c :: rest)

/-- The C string in `_textBuffer`. A byte past the end of the buffer is out of bounds, so
the fuel never runs out. -/
def string (c : CommandLine) : Res (List UInt8) := cString c.textBuffer (textBufferSize + 1) 0

/-- What UTF-8 asks of the bytes behind a first byte: as many as there are ranges, each in
its range. -/
def utf8Tail (b : UInt8) : Option (List (UInt8 × UInt8)) :=
  if b < 0x80 then some []
  else if 0xc2 ≤ b && b ≤ 0xdf then some [(0x80, 0xbf)]
  else if b = 0xe0 then some [(0xa0, 0xbf), (0x80, 0xbf)]
  else if b = 0xed then some [(0x80, 0x9f), (0x80, 0xbf)]
  else if 0xe1 ≤ b && b ≤ 0xef then some [(0x80, 0xbf), (0x80, 0xbf)]
  else if b = 0xf0 then some [(0x90, 0xbf), (0x80, 0xbf), (0x80, 0xbf)]
  else if 0xf1 ≤ b && b ≤ 0xf3 then some [(0x80, 0xbf), (0x80, 0xbf), (0x80, 0xbf)]
  else if b = 0xf4 then some [(0x80, 0x8f), (0x80, 0xbf), (0x80, 0xbf)]
  else none

/-- The bytes are UTF-8 behind a character of which these bytes are missing. -/
def isUtf8From : List (UInt8 × UInt8) → List UInt8 → Bool
  | [], [] => true
  | _ :: _, [] => false
  | [], b :: bs =>
      match utf8Tail b with
      | none => false
      | some tail => isUtf8From tail bs
  | (low, high) :: tail, b :: bs => low ≤ b && b ≤ high && isUtf8From tail bs

def isUtf8 (s : List UInt8) : Bool := isUtf8From [] s

/-- `[NSString stringWithUTF8String:s]` -/
def stringWithUTF8String (s : List UInt8) : Option (List UInt8) :=
  if isUtf8 s then some s else none

/-- `[s length]`: a character of four bytes is a pair of surrogates, counted with its first
two, and any other one counts once. -/
def nsLength : List UInt8 → Nat
  | [] => 0
  | b :: bs =>
      if 0xf0 ≤ b then
        match bs with
        | [] => 1
        | _ :: bs => 2 + nsLength bs
      else (if b < 0x80 || 0xc0 ≤ b then 1 else 0) + nsLength bs

/-- `[NSString stringWithUTF8String:_textBuffer]`, for a reader that fails on `nil`. -/
def readLine (c : CommandLine) : Res (List UInt8) := do
  let s ← c.string
  match stringWithUTF8String s with
  | some line => .ok line
  | none => .error .outOfBounds

def strcpy (s : List UInt8) (b : Block UInt8) : Res (Block UInt8) :=
  b.copy 0 (Block.ofList (s ++ [0]) 0) 0 (s.length + 1)

/-- `[commandHistory insertObject:s atIndex:i]`; an index beyond the end is an exception. -/
def insertObject (s : List UInt8) (i : Int) (history : List (List UInt8)) :
    Res (List (List UInt8)) :=
  if 0 ≤ i ∧ i ≤ history.length then .ok (history.insertIdx i.toNat s)
  else .error .outOfBounds

/-- `commandHistory[i]` -/
def objectAtIndex (i : Int) (history : List (List UInt8)) : Res (List UInt8) :=
  if 0 ≤ i then
    match history[i.toNat]? with
    | some s => .ok s
    | none => .error .outOfBounds
  else .error .outOfBounds

/-! ## Handlers -/

/-- `insertText:` with a text other than a newline: its first byte is stored. -/
def insertText (ch : UInt8) (c : CommandLine) : Res CommandLine := do
  let b ← c.textBuffer.store c.textBufferIdx ch
  .ok { c with textBuffer := b, textBufferIdx := nsuint (c.textBufferIdx + 1) }

def deleteBackward (c : CommandLine) : Res CommandLine :=
  if c.textBufferIdx > 0 then do
    let b ← c.textBuffer.store c.textBufferIdx 0
    .ok { c with textBuffer := b, textBufferIdx := nsuint (c.textBufferIdx - 1) }
  else .ok c

/-- The part `upArrow` and `downArrow` share, with the new `_historyIndex`. -/
def recallEntry (i : Int) (c : CommandLine) : Res CommandLine := do
  let s ← objectAtIndex i c.commandHistory
  let b ← strcpy s c.textBuffer
  let idx := nsuint (nsLength s - 1)
  let b ← b.store (nsuint (idx + 1)) 0
  .ok { c with historyIndex := i, textBuffer := b, textBufferIdx := idx }

def upArrow (c : CommandLine) : Res CommandLine :=
  if c.historyIndex > 0 then c.recallEntry (c.historyIndex - 1) else .ok c

def downArrow (c : CommandLine) : Res CommandLine :=
  if c.historyIndex < cint (c.historyMax - 1) then c.recallEntry (cint (c.historyIndex + 1)) else .ok c

/-- The function `processCommand`, up to where the command starts: the thread reads the
buffer and clears it. Without a line it has no array to write `argv[1]` to. -/
def readCommand (c : CommandLine) : Res CommandLine := do
  let s ← c.readLine
  .ok { c with textBuffer := Block.alloc textBufferSize 0, ran := c.ran ++ [s] }

/-- The method `processCommand`; `insertObject:atIndex:` does not take `nil`. -/
def processCommand (c : CommandLine) : Res CommandLine := do
  let s ← c.readLine
  let history ← insertObject s c.historyIndex c.commandHistory
  let c ← readCommand { c with commandHistory := history }
  let i := cint (c.historyIndex + 1)
  .ok { c with textBufferIdx := 0, historyIndex := i, historyMax := i }

def handle (c : CommandLine) : Event → Res CommandLine
  | .insertText ch => c.insertText ch
  | .deleteBackward => c.deleteBackward
  | .upArrow => c.upArrow
  | .downArrow => c.downArrow
  | .newline => c.processCommand

/-! ## The edited line

What the user means: a line to which typing adds, from which deleting removes,
and which an arrow replaces. -/

/-- The entry that is recalled, if the history has one at `i`. -/
def entryOr (c : CommandLine) (i : Int) (line : List UInt8) : List UInt8 :=
  (c.commandHistory[i.toNat]?).getD line

/-- What an event makes of the line. An arrow replaces it when there is an entry to
recall. -/
def edit (c : CommandLine) (line : List UInt8) : Event → List UInt8
  | .insertText ch => line ++ [ch]
  | .deleteBackward => line.dropLast
  | .upArrow => if c.historyIndex > 0 then c.entryOr (c.historyIndex - 1) line else line
  | .downArrow =>
      if c.historyIndex < cint (c.historyMax - 1) then c.entryOr (cint (c.historyIndex + 1)) line
      else line
  | .newline => []

/-- Buffer and index hold the line. -/
structure Shows (c : CommandLine) (line : List UInt8) : Prop where
  string_eq : c.string = .ok line
  idx_eq : c.textBufferIdx = line.length
  idx_lt : c.textBufferIdx < textBufferSize

/-- The line is what has been stored and run. -/
def Runs (c : CommandLine) (line : List UInt8) (c' : CommandLine) : Prop :=
  c'.commandHistory = c.commandHistory.insertIdx c.historyIndex.toNat line ∧
    c'.ran = c.ran ++ [line]

/-- After every event buffer and index hold the edited line, and every newline runs it. -/
def KeepsLine : CommandLine → List UInt8 → List Event → Prop
  | _, _, [] => True
  | c, line, e :: events => ∃ c', c.handle e = .ok c' ∧ Shows c' (edit c line e) ∧
      (e = .newline → Runs c line c') ∧ KeepsLine c' (edit c line e) events

/-- Nothing is deleted or recalled, and there is room for what is typed. -/
def Harmless (c : CommandLine) (line : List UInt8) : Event → Prop
  | .insertText _ => line.length + 1 < textBufferSize
  | .deleteBackward => line = []
  | .upArrow => ¬c.historyIndex > 0
  | .downArrow => ¬c.historyIndex < cint (c.historyMax - 1)
  | .newline => 0 ≤ c.historyIndex

instance : ∀ (c : CommandLine) (line : List UInt8) (e : Event), Decidable (Harmless c line e)
  | _, line, .insertText _ => inferInstanceAs (Decidable (line.length + 1 < textBufferSize))
  | _, line, .deleteBackward => inferInstanceAs (Decidable (line = []))
  | c, _, .upArrow => inferInstanceAs (Decidable (¬c.historyIndex > 0))
  | c, _, .downArrow => inferInstanceAs (Decidable (¬c.historyIndex < cint (c.historyMax - 1)))
  | c, _, .newline => inferInstanceAs (Decidable (0 ≤ c.historyIndex))

/-- Every event of the run is harmless where it is handled. -/
def AllHarmless : CommandLine → List UInt8 → List Event → Prop
  | _, _, [] => True
  | c, line, e :: events => Harmless c line e ∧
      ∀ c', c.handle e = .ok c' → AllHarmless c' (edit c line e) events

def Printable (events : List Event) : Prop :=
  ∀ ch, Event.insertText ch ∈ events → 0x20 ≤ ch ∧ ch ≤ 0x7e

/-! ## Characters of ASCII -/

/-- A character of ASCII that a C string can hold. -/
def IsAscii (ch : UInt8) : Prop := ch ≠ 0 ∧ ch < 0x80

instance (ch : UInt8) : Decidable (IsAscii ch) := inferInstanceAs (Decidable (_ ∧ _))

theorem isUtf8_ascii {s : List UInt8} (h : ∀ ch ∈ s, IsAscii ch) : isUtf8 s = true := by
  rw [isUtf8]
  induction s with
  | nil => rfl
  | cons ch s ih =>
      have hlt := (h ch List.mem_cons_self).2
      rw [isUtf8From, utf8Tail, if_pos hlt]
      exact ih fun c hc => h c (List.mem_cons_of_mem ch hc)

theorem nsLength_ascii {s : List UInt8} (h : ∀ ch ∈ s, IsAscii ch) : nsLength s = s.length := by
  induction s with
  | nil => rfl
  | cons ch s ih =>
      have hlt := (h ch List.mem_cons_self).2
      have hnot : ¬0xf0 ≤ ch := by
        simp only [UInt8.le_iff_toNat_le, UInt8.lt_iff_toNat_lt, UInt8.reduceToNat] at hlt ⊢
        omega
      have hunit : (ch < 0x80 || 0xc0 ≤ ch) = true := by simp [hlt]
      rw [nsLength.eq_def]
      simp only [if_neg hnot, hunit, if_true, List.length_cons,
        ih fun c hc => h c (List.mem_cons_of_mem ch hc)]
      omega

/-- Whatever the bytes are, there are no more units than bytes. -/
theorem nsLength_le (s : List UInt8) : nsLength s ≤ s.length := by
  fun_induction nsLength s with
  | case1 => exact Nat.le_refl 0
  | case2 b hb => exact Nat.le_refl 1
  | case3 b hb c bs ih =>
      simp only [List.length_cons]
      omega
  | case4 b bs hb ih =>
      rw [List.length_cons]
      split <;> omega

/-! ## One event -/

variable {c c' : CommandLine} {line : List UInt8}

theorem readLine_eq (h : c.string = .ok line) (hline : isUtf8 line = true) :
    c.readLine = .ok line := by
  rw [readLine, h, ok_bind, stringWithUTF8String, if_pos hline]

/-- A string that stands in the buffer is read back. -/
theorem cString_eq {b : Block UInt8} {k : Nat} {a : Int} (ha : 0 ≤ a)
    (hcell : ∀ i : Nat, b.cell (a + i) = line.getD i 0) (hnul : ∀ ch ∈ line, ch ≠ 0)
    (hend : a + line.length < b.size) (hk : line.length < k) : cString b k a = .ok line := by
  induction line generalizing k a with
  | nil =>
      obtain ⟨k, rfl⟩ := Nat.exists_eq_add_of_lt hk
      have h0 : b.cell a = 0 := by simpa using hcell 0
      rw [List.length_nil, Nat.zero_add, cString,
        Block.load_of_lt ha (by simpa using hend), ok_bind, h0]
      rfl
  | cons ch line ih =>
      obtain ⟨k, rfl⟩ : ∃ k', k = k' + 1 := ⟨k - 1, by omega⟩
      simp only [List.length_cons, Int.natCast_add, Int.natCast_one] at hend hk
      have h0 : b.cell a = ch := by simpa using hcell 0
      have hrest : cString b k (a + 1) = .ok line := by
        refine ih (by omega) (fun i => ?_) (fun x hx => hnul x (List.mem_cons_of_mem ch hx))
          (by omega) (by omega)
        rw [Int.add_assoc, Int.add_comm 1]
        simpa using hcell (i + 1)
      rw [cString, Block.load_of_lt ha (by omega), ok_bind, h0,
        if_neg (hnul ch (List.mem_cons_self ..)), hrest]
      rfl

/-- What holds as long as every event was harmless. -/
structure Typed (c : CommandLine) (line : List UInt8) : Prop where
  size : c.textBuffer.size = textBufferSize
  cell : ∀ i : Nat, c.textBuffer.cell i = line.getD i 0
  ascii : ∀ ch ∈ line, IsAscii ch
  idx : c.textBufferIdx = line.length
  room : line.length < textBufferSize
  index : 0 ≤ c.historyIndex → c.historyIndex = c.commandHistory.length
  isInt : IsInt c.historyIndex
  max : c.historyMax = c.historyIndex

theorem Typed.string_eq (h : c.Typed line) : c.string = .ok line := by
  refine cString_eq (Int.le_refl 0) (fun i => ?_) (fun ch hch => (h.ascii ch hch).1) ?_ ?_
  · rw [Int.zero_add]
    exact h.cell i
  · have := h.room
    rw [h.size]
    omega
  · have := h.room
    omega

theorem Typed.readLine_eq (h : c.Typed line) : c.readLine = .ok line :=
  CommandLine.readLine_eq h.string_eq (isUtf8_ascii h.ascii)

theorem Typed.shows (h : c.Typed line) : c.Shows line := by
  refine ⟨h.string_eq, h.idx, ?_⟩
  rw [h.idx]
  exact Int.ofNat_lt.mpr h.room

theorem init_typed : init.Typed [] where
  size := rfl
  cell := fun _ => rfl
  ascii := fun _ h => by cases h
  idx := rfl
  room := by decide
  index := fun _ => rfl
  isInt := ⟨by decide, by decide⟩
  max := rfl

theorem Typed.store_ok (h : c.Typed line) (ch : UInt8) :
    (c.textBuffer.store c.textBufferIdx ch : Res _) =
      .ok (c.textBuffer.set c.textBufferIdx ch) := by
  have hroom := h.room
  refine Block.store_of_lt ch ?_ ?_
  · rw [h.idx]
    omega
  · rw [h.idx, h.size]
    omega

theorem Typed.insertText (h : c.Typed line) {ch : UInt8} (hch : IsAscii ch)
    (hroom : line.length + 1 < textBufferSize) :
    ∃ c', c.insertText ch = .ok c' ∧ c'.Typed (line ++ [ch]) := by
  have hsize : textBufferSize = 1024 := rfl
  refine ⟨_, by rw [CommandLine.insertText, h.store_ok]; rfl, ?_⟩
  refine { h with size := h.size, cell := ?_, ascii := ?_, idx := ?_, room := ?_ }
  · intro i
    rw [h.idx]
    simp only [Block.set, Int.natCast_inj]
    split
    · rename_i hi
      simp [hi]
    · rename_i hi
      rw [h.cell i, List.getD_eq_getElem?_getD, List.getD_eq_getElem?_getD,
        List.getElem?_append]
      split
      · rfl
      · rw [List.getElem?_eq_none (by omega), List.getElem?_eq_none (by simp; omega)]
  · intro x hx
    obtain hx | hx := List.mem_append.mp hx
    · exact h.ascii x hx
    · rw [List.mem_singleton.mp hx]
      exact hch
  · simp only [h.idx, nsuint, List.length_append, List.length_singleton]
    omega
  · rw [List.length_append, List.length_singleton]
    exact hroom

theorem Typed.processCommand (h : c.Typed line) (hindex : 0 ≤ c.historyIndex) :
    ∃ c', c.processCommand = .ok c' ∧ c'.Typed [] ∧ Runs c line c' := by
  have hi := h.index hindex
  have hinsert : insertObject line c.historyIndex c.commandHistory =
      .ok (c.commandHistory.insertIdx c.historyIndex.toNat line) :=
    if_pos ⟨hindex, by omega⟩
  have hread : readCommand { c with
        commandHistory := c.commandHistory.insertIdx c.historyIndex.toNat line } =
      .ok { c with
        commandHistory := c.commandHistory.insertIdx c.historyIndex.toNat line
        textBuffer := Block.alloc textBufferSize 0, ran := c.ran ++ [line] } := by
    rw [readCommand, show readLine { c with
      commandHistory := c.commandHistory.insertIdx c.historyIndex.toNat line } = .ok line from
      h.readLine_eq]
    rfl
  refine ⟨_, by rw [CommandLine.processCommand, h.readLine_eq, ok_bind, hinsert, ok_bind, hread];
                rfl, ?_, rfl, rfl⟩
  have hlen : (c.commandHistory.insertIdx c.historyIndex.toNat line).length =
      c.commandHistory.length + 1 := by
    rw [List.length_insertIdx, if_pos (by omega)]
  have hint := h.isInt
  refine ⟨rfl, fun _ => rfl, fun _ h => (by cases h), rfl, by decide, ?_, cint_isInt _, rfl⟩
  simp only [hlen]
  unfold IsInt at hint
  unfold cint
  omega

theorem Typed.handle (h : c.Typed line) {e : Event}
    (hprint : ∀ ch, e = .insertText ch → IsAscii ch) (he : Harmless c line e) :
    ∃ c', c.handle e = .ok c' ∧ c'.Typed (edit c line e) ∧ (e = .newline → Runs c line c') := by
  cases e with
  | insertText ch =>
      obtain ⟨c', hok, h'⟩ := h.insertText (hprint ch rfl) he
      exact ⟨c', hok, h', nofun⟩
  | deleteBackward =>
      have hline : line = [] := he
      subst hline
      have hidx : ¬c.textBufferIdx > 0 := by
        rw [h.idx]
        simp
      exact ⟨c, if_neg hidx, h, nofun⟩
  | upArrow =>
      refine ⟨c, if_neg he, ?_, nofun⟩
      rw [edit, if_neg he]
      exact h
  | downArrow =>
      refine ⟨c, if_neg he, ?_, nofun⟩
      rw [edit, if_neg he]
      exact h
  | newline =>
      obtain ⟨c', hok, h', hruns⟩ := h.processCommand he
      exact ⟨c', hok, h', fun _ => hruns⟩

/-- The index of a recalled entry is one short. -/
theorem recallEntry_not_shows {i : Int} (hok : c.recallEntry i = .ok c') :
    ¬Shows c' (c.entryOr i line) := by
  intro hshows
  obtain ⟨entry, hentry, hok⟩ := bind_eq_ok.mp hok
  obtain ⟨b, -, hok⟩ := bind_eq_ok.mp hok
  obtain ⟨b', -, hok⟩ := bind_eq_ok.mp hok
  have hidx : c'.textBufferIdx = nsuint (nsLength entry - 1) := by
    cases hok
    rfl
  have heq : c.entryOr i line = entry := by
    unfold objectAtIndex at hentry
    split at hentry
    · split at hentry
      · rename_i hget
        cases hentry
        rw [entryOr, hget]
        rfl
      · cases hentry
    · cases hentry
  have hsize : textBufferSize = 1024 := rfl
  have hlen := hshows.idx_eq
  have hlt := hshows.idx_lt
  have hle := nsLength_le entry
  rw [hidx, nsuint] at hlt
  rw [heq, hidx, nsuint] at hlen
  omega

theorem Typed.handle_harmful (h : c.Typed line) {e : Event} (he : ¬Harmless c line e)
    (hok : c.handle e = .ok c') : ¬Shows c' (edit c line e) := by
  have hsize : textBufferSize = 1024 := rfl
  have hroom := h.room
  cases e with
  | insertText ch =>
      intro hshows
      have hlt := hshows.idx_lt
      have hlen := hshows.idx_eq
      have hfull : ¬line.length + 1 < textBufferSize := he
      rw [edit, List.length_append, List.length_singleton] at hlen
      omega
  | deleteBackward =>
      intro hshows
      have hne : line ≠ [] := he
      have hpos : 0 < line.length := List.length_pos_iff.mpr hne
      have hidx : c.textBufferIdx > 0 := by
        rw [h.idx]
        omega
      rw [CommandLine.handle, CommandLine.deleteBackward, if_pos hidx, h.store_ok] at hok
      cases hok
      -- the byte behind the line is NUL already
      have hstring : string { c with
          textBuffer := c.textBuffer.set c.textBufferIdx 0
          textBufferIdx := nsuint (c.textBufferIdx - 1) } = .ok line := by
        refine cString_eq (Int.le_refl 0) (fun i => ?_) (fun ch hch => (h.ascii ch hch).1) ?_
          (by omega)
        · rw [Int.zero_add, h.idx]
          simp only [Block.set, Int.natCast_inj]
          split
          · rename_i hi
            simp [hi]
          · exact h.cell i
        · simp only [Block.set_size, h.size]
          omega
      have hsame := Except.ok.inj (hstring.symm.trans hshows.string_eq)
      have hlen := congrArg List.length hsame
      rw [edit, List.length_dropLast] at hlen
      omega
  | upArrow =>
      have hup : c.historyIndex > 0 := Classical.not_not.mp he
      rw [CommandLine.handle, CommandLine.upArrow, if_pos hup] at hok
      rw [edit, if_pos hup]
      exact recallEntry_not_shows hok
  | downArrow =>
      have hdown : c.historyIndex < cint (c.historyMax - 1) := Classical.not_not.mp he
      rw [CommandLine.handle, CommandLine.downArrow, if_pos hdown] at hok
      rw [edit, if_pos hdown]
      exact recallEntry_not_shows hok
  | newline =>
      have hneg : ¬0 ≤ c.historyIndex := he
      rw [CommandLine.handle, CommandLine.processCommand, h.readLine_eq, ok_bind, insertObject,
        if_neg (fun hi => hneg hi.1)] at hok
      cases hok

/-! ## Runs -/

theorem Typed.keepsLine_iff {events : List Event} (h : c.Typed line)
    (hprint : ∀ ch, Event.insertText ch ∈ events → IsAscii ch) :
    KeepsLine c line events ↔ AllHarmless c line events := by
  induction events generalizing c line with
  | nil => exact Iff.rfl
  | cons e events ih =>
      have hrest : ∀ ch, Event.insertText ch ∈ events → IsAscii ch :=
        fun ch hch => hprint ch (List.mem_cons_of_mem e hch)
      have hhead : ∀ ch, e = .insertText ch → IsAscii ch :=
        fun ch hch => hprint ch (by rw [hch]; exact List.mem_cons_self ..)
      constructor
      · rintro ⟨c', hok, hshows, -, hkeeps⟩
        have he : Harmless c line e := by
          by_contra he
          exact h.handle_harmful he hok hshows
        refine ⟨he, fun c'' hok' => ?_⟩
        obtain rfl : c' = c'' := Except.ok.inj (hok.symm.trans hok')
        obtain ⟨c₁, hok₁, htyped, -⟩ := h.handle hhead he
        obtain rfl : c₁ = c' := Except.ok.inj (hok₁.symm.trans hok)
        exact (ih htyped hrest).mp hkeeps
      · rintro ⟨he, hall⟩
        obtain ⟨c', hok, htyped, hruns⟩ := h.handle hhead he
        exact ⟨c', hok, htyped.shows, hruns, (ih htyped hrest).mpr (hall c' hok)⟩

/-- The command line that runs is the one that was typed exactly when every event of the run
is harmless. The events are any texts of one printable character, deletions, arrows and
newlines; one that is not harmless shows at once, in the buffer or in its index. -/
theorem command_line_iff {events : List Event} (hprint : Printable events) :
    KeepsLine init [] events ↔ AllHarmless init [] events := by
  refine init_typed.keepsLine_iff fun ch hch => ?_
  have hrange := hprint ch hch
  simp only [UInt8.le_iff_toNat_le, UInt8.reduceToNat] at hrange
  refine ⟨fun hzero => ?_, ?_⟩
  · rw [hzero] at hrange
    exact absurd hrange.1 (by decide)
  · simp only [UInt8.lt_iff_toNat_lt, UInt8.reduceToNat]
    omega

/-- `ls` and a newline: what runs is `ls`. -/
theorem ls_runs : Printable [.insertText 0x6c, .insertText 0x73, .newline] ∧
    KeepsLine init [] [.insertText 0x6c, .insertText 0x73, .newline] := by
  have hprint : Printable [.insertText 0x6c, .insertText 0x73, .newline] := by
    intro ch hch
    simp only [List.mem_cons, Event.insertText.injEq, List.not_mem_nil, or_false,
      reduceCtorEq] at hch
    rcases hch with rfl | rfl <;> decide
  refine ⟨hprint, (command_line_iff hprint).mpr ⟨by decide, fun c₁ h₁ => ?_⟩⟩
  cases h₁
  refine ⟨by decide, fun c₂ h₂ => ?_⟩
  cases h₂
  exact ⟨by decide, fun c₃ _ => trivial⟩

/-- `ab`, a deletion and a newline: the command that runs is `ab`, not `a`. -/
theorem deleted_character_runs : Printable
      [.insertText 0x61, .insertText 0x62, .deleteBackward, .newline] ∧
    ¬KeepsLine init [] [.insertText 0x61, .insertText 0x62, .deleteBackward, .newline] := by
  constructor
  · intro ch hch
    simp only [List.mem_cons, Event.insertText.injEq, List.not_mem_nil, or_false,
      reduceCtorEq] at hch
    rcases hch with rfl | rfl <;> decide
  · rintro ⟨c₁, h₁, -, -, c₂, h₂, -, -, c₃, h₃, -, -, c₄, h₄, -, hruns, -⟩
    cases h₁
    cases h₂
    cases h₃
    cases h₄
    have hran := (hruns rfl).2
    cases hran

end CommandLine

end MobileTerminal
