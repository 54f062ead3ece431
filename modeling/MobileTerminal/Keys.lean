import Mathlib.Data.Nat.Digits.Lemmas
import MobileTerminal.CommandLine
import MobileTerminal.CsiTable

/-!
# What a key prints

`CommandLine` follows the buffer; here each key also has the bytes that its handler
prints, and the tab key is there. They are all a user sees: nothing draws `_textBuffer`.

The buffer holds what has been typed, and after a deletion the deleted character as well:
it goes only when the next one is typed over it, or with the next deletion. So what a
newline runs is known for whole sessions in which nothing is recalled (`session_runs`),
where the thread of each line has read and cleared the buffer before the next key.

Keys and file names are ASCII there. `tab` copies the bytes of a name between two lengths
that count UTF-16, and a prefix is a prefix of bytes here; for names that are not ASCII the
comparison of composed characters in `hasPrefix:` is left out.
-/

namespace MobileTerminal

/-! ## `printf` -/

/-- The digits of a number. -/
def digitBytes (n : Nat) : List UInt8 :=
  if n = 0 then [0x30] else (Nat.digits 10 n).reverse.map fun d => UInt8.ofNat (0x30 + d)

/-- `%i` -/
def printInt (n : Int) : List UInt8 :=
  if n < 0 then 0x2d :: digitBytes n.natAbs else digitBytes n.natAbs

theorem ofNat_digit {d : Nat} (h : d < 10) : (UInt8.ofNat (0x30 + d)).toNat = 0x30 + d := by
  rw [UInt8.toNat_ofNat']
  omega

theorem digitBytes_isDigit (n : Nat) : ∀ b ∈ digitBytes n, isDigit b = true := by
  intro b hb
  unfold digitBytes at hb
  split at hb
  · rw [List.mem_singleton.mp hb]
    rfl
  · obtain ⟨d, hd, rfl⟩ := List.mem_map.mp hb
    have hlt : d < 10 := Nat.digits_lt_base (by decide) (List.mem_reverse.mp hd)
    simp only [isDigit, Bool.and_eq_true, decide_eq_true_eq, UInt8.le_iff_toNat_le,
      ofNat_digit hlt, UInt8.reduceToNat]
    omega

theorem digitBytes_ne (n : Nat) : digitBytes n ≠ [] := by
  unfold digitBytes
  split
  · exact List.cons_ne_nil _ _
  · rename_i hn
    exact mt List.map_eq_nil_iff.mp
      (mt List.reverse_eq_nil_iff.mp (Nat.digits_ne_nil_iff_ne_zero.mpr hn))

/-- A number that has been printed is read again. -/
theorem decimal_digitBytes (n : Nat) : decimal (digitBytes n) = n := by
  have hdigits : ∀ ds : List Nat, (∀ d ∈ ds, d < 10) →
      decimal (ds.reverse.map fun d => UInt8.ofNat (0x30 + d)) = (Nat.ofDigits 10 ds : Nat) := by
    intro ds hds
    induction ds with
    | nil => rfl
    | cons d ds ih =>
        have hd := hds d List.mem_cons_self
        have hrest := ih fun e he => hds e (List.mem_cons_of_mem d he)
        rw [decimal, decimalFrom] at hrest ⊢
        rw [List.reverse_cons, List.map_append, List.foldl_append, hrest, List.map_singleton,
          List.foldl_cons, List.foldl_nil, ofNat_digit hd, Nat.ofDigits_cons]
        push_cast
        ring
  unfold digitBytes
  split
  · rename_i hn
    rw [hn]
    rfl
  · rw [hdigits _ fun d hd => Nat.digits_lt_base (by decide) hd, Nat.ofDigits_digits]

/-- `printf` with nothing but a format; a conversion takes an argument that is not there. -/
def format : List UInt8 → Res (List UInt8)
  | [] => .ok []
  | b :: rest =>
      if b = 0x25 then
        match rest with
        | [] => .error .outOfBounds
        | c :: rest =>
            if c = 0x25 then do
              let out ← format rest
              .ok (0x25 :: out)
            else .error .outOfBounds
      else do
        let out ← format rest
        .ok (b :: out)

theorem format_eq {s : List UInt8} (h : ∀ b ∈ s, b ≠ 0x25) : format s = .ok s := by
  induction s with
  | nil => rfl
  | cons b s ih =>
      rw [format.eq_def]
      simp only
      rw [if_neg (h b List.mem_cons_self), ih fun c hc => h c (List.mem_cons_of_mem b hc)]
      rfl

namespace CommandLine

/-! ## Completion -/

/-- `[tb componentsSeparatedByString:@" "].lastObject` -/
def lastComponent (s : List UInt8) : List UInt8 := ((s.splitOn 0x20).getLast?).getD []

/-- `hasPrefix:`; nothing has the empty prefix. -/
def hasPrefix (p item : List UInt8) : Bool := !p.isEmpty && p.isPrefixOf item

/-- What `tab` appends: of the first name that goes on like the last component, the bytes
from the length of the one on up to the length of the other. -/
def completion (dirContents : List (List UInt8)) (s : List UInt8) : List UInt8 :=
  match dirContents.find? (hasPrefix (lastComponent s)) with
  | some item => (item.take (nsLength item)).drop (nsLength (lastComponent s))
  | none => []

/-! ## Keys -/

/-- The keys that edit a line: a text of one byte other than a newline, and `tab` with the
names it finds. -/
inductive Key where
  | insertText (ch : UInt8)
  | deleteBackward
  | upArrow
  | downArrow
  | tab (dirContents : List (List UInt8))
deriving DecidableEq, Repr

/-- `upArrow` and `downArrow`: the line is erased, the cursor goes back, and the entry is
the format that is printed. -/
def recallLine (i : Int) (c : CommandLine) : Res (List UInt8 × CommandLine) := do
  let c' ← c.recallEntry i
  let s ← c'.string
  let out ← format s
  let back := printInt (cint (nsuint (c.textBufferIdx + 1)))
  .ok ([0x1b, 0x5b, 0x32, 0x4b] ++ ([0x1b, 0x5b] ++ back ++ [0x44]) ++ out, c')

/-- `tab`; without a line `hasPrefix:` is asked for the prefix `nil`, if there is a name to
ask. -/
def tab (dirContents : List (List UInt8)) (c : CommandLine) : Res (List UInt8 × CommandLine) := do
  let s ← c.string
  match stringWithUTF8String s with
  | none => if dirContents = [] then .ok ([], c) else .error .outOfBounds
  | some tb => do
      let c' ← (completion dirContents tb).foldlM (fun c ch => c.insertText ch) c
      .ok (completion dirContents tb, c')

/-- What a key prints, and what it leaves. -/
def press (c : CommandLine) : Key → Res (List UInt8 × CommandLine)
  | .insertText ch => do
      let c' ← c.insertText ch
      .ok ([ch], c')
  | .deleteBackward => do
      let c' ← c.deleteBackward
      .ok (if c.textBufferIdx > 0 then [0x08, 0x20, 0x08] else [], c')
  | .upArrow => if c.historyIndex > 0 then c.recallLine (c.historyIndex - 1) else .ok ([], c)
  | .downArrow =>
      if c.historyIndex < cint (c.historyMax - 1) then c.recallLine (cint (c.historyIndex + 1))
      else .ok ([], c)
  | .tab dirContents => c.tab dirContents

def pressAll : List Key → CommandLine → Res (List UInt8 × CommandLine)
  | [], c => .ok ([], c)
  | k :: keys, c => do
      let (out, c) ← c.press k
      let (rest, c) ← pressAll keys c
      .ok (out ++ rest, c)

/-- The keys of a line and a newline. -/
def enter (keys : List Key) (c : CommandLine) : Res CommandLine := do
  let (_, c) ← pressAll keys c
  c.processCommand

def session (lines : List (List Key)) (c : CommandLine) : Res CommandLine :=
  lines.foldlM (fun c keys => enter keys c) c

/-! ## A line and the character deleted from it

The buffer holds more than the line: a deleted character stays until the next
one is typed or deleted. `Kept` is a line with that character, and keys act on
it without a buffer. -/

structure Kept where
  line : List UInt8
  /-- the character that was deleted last, while nothing has been typed over it -/
  stale : List UInt8
deriving DecidableEq, Repr

namespace Kept

def empty : Kept := ⟨[], []⟩

/-- What the buffer holds. -/
def text (k : Kept) : List UInt8 := k.line ++ k.stale

def insert (k : Kept) (ch : UInt8) : Kept := ⟨k.line ++ [ch], []⟩

def press (k : Kept) : Key → Kept
  | .insertText ch => k.insert ch
  | .deleteBackward =>
      match k.line.getLast? with
      | none => k
      | some ch => ⟨k.line.dropLast, [ch]⟩
  | .tab dirContents => (completion dirContents k.text).foldl insert k
  | .upArrow => k
  | .downArrow => k

/-- The keys that type ASCII, delete, or complete from names in ASCII, where the line has
room. -/
def Admits (k : Kept) : Key → Prop
  | .insertText ch => (IsAscii ch ∧ ch ≠ 0x0a) ∧ k.line.length + 1 < textBufferSize
  | .deleteBackward => True
  | .tab dirContents => (∀ name ∈ dirContents, ∀ ch ∈ name, IsAscii ch) ∧
      k.line.length + (completion dirContents k.text).length < textBufferSize
  | .upArrow => False
  | .downArrow => False

instance (k : Kept) : ∀ key, Decidable (k.Admits key)
  | .insertText _ => inferInstanceAs (Decidable (_ ∧ _))
  | .deleteBackward => .isTrue trivial
  | .tab _ => inferInstanceAs (Decidable (_ ∧ _))
  | .upArrow => .isFalse id
  | .downArrow => .isFalse id

def AdmitsAll : Kept → List Key → Prop
  | _, [] => True
  | k, key :: keys => k.Admits key ∧ AdmitsAll (k.press key) keys

instance : ∀ (k : Kept) (keys : List Key), Decidable (k.AdmitsAll keys)
  | _, [] => .isTrue trivial
  | k, key :: keys =>
      have : Decidable ((k.press key).AdmitsAll keys) := instDecidableAdmitsAll (k.press key) keys
      inferInstanceAs (Decidable (k.Admits key ∧ AdmitsAll (k.press key) keys))

end Kept

/-- What a newline runs after these keys. -/
def command (keys : List Key) : List UInt8 := (keys.foldl Kept.press Kept.empty).text

/-- What has been stored and run. -/
def past (c : CommandLine) : List (List UInt8) × List (List UInt8) := (c.commandHistory, c.ran)

/-- The buffer holds the text, and the index is behind the line. -/
structure Holds (c₀ c : CommandLine) (k : Kept) : Prop where
  typed : Typed { c with textBufferIdx := k.text.length } k.text
  idx : c.textBufferIdx = k.line.length
  single : k.stale.length ≤ 1
  past_eq : c.past = c₀.past
  index_eq : c.historyIndex = c₀.historyIndex

variable {c₀ c : CommandLine} {k : Kept}

theorem Typed.holds (h : c.Typed []) : Holds c c Kept.empty := by
  refine ⟨?_, h.idx, Nat.zero_le 1, rfl, rfl⟩
  rw [show ((Kept.empty.text.length : Nat) : Int) = c.textBufferIdx from h.idx.symm]
  exact h

theorem Holds.string_eq (h : Holds c₀ c k) : c.string = .ok k.text := h.typed.string_eq

theorem Holds.store (h : Holds c₀ c k) (k' : Kept) (b : UInt8) (hsingle : k'.stale.length ≤ 1)
    (hascii : ∀ ch ∈ k'.text, IsAscii ch) (hroom : k'.text.length < textBufferSize)
    (hline : k.line.length < textBufferSize)
    (hcell : ∀ i : Nat, (if i = k.line.length then b else k.text.getD i 0) = k'.text.getD i 0) :
    ∃ buffer, (c.textBuffer.store c.textBufferIdx b : Res _) = .ok buffer ∧
      Holds c₀ { c with textBuffer := buffer, textBufferIdx := k'.line.length } k' := by
  refine ⟨c.textBuffer.set c.textBufferIdx b, Block.store_of_lt b ?_ ?_, ?_, rfl, hsingle,
    h.past_eq, h.index_eq⟩
  · rw [h.idx]
    exact Int.natCast_nonneg _
  · rw [h.idx, show c.textBuffer.size = textBufferSize from h.typed.size]
    exact Int.ofNat_lt.mpr hline
  · refine { h.typed with size := h.typed.size, cell := fun i => ?_, ascii := hascii
                          idx := rfl, room := hroom }
    have hi := h.typed.cell i
    rw [← hcell i, ← hi, h.idx]
    simp only [Block.set, Int.natCast_inj]

theorem Holds.insertText (h : Holds c₀ c k) {ch : UInt8} (hch : IsAscii ch)
    (hroom : k.line.length + 1 < textBufferSize) :
    ∃ c', c.insertText ch = .ok c' ∧ Holds c₀ c' (k.insert ch) := by
  have hsingle := h.single
  have hascii : ∀ x ∈ (k.insert ch).text, IsAscii x := by
    intro x hx
    simp only [Kept.insert, Kept.text, List.append_nil, List.mem_append, List.mem_singleton] at hx
    rcases hx with hx | rfl
    · exact h.typed.ascii x (List.mem_append_left _ hx)
    · exact hch
  have hcell : ∀ i : Nat, (if i = k.line.length then ch else k.text.getD i 0) =
      (k.insert ch).text.getD i 0 := by
    intro i
    -- the stale character, if there is one, is the one that is replaced
    simp only [Kept.text, Kept.insert, List.append_nil]
    split
    · rename_i hi
      simp [hi]
    · rename_i hi
      by_cases hlt : i < k.line.length
      · rw [List.getD_append _ _ _ _ hlt, List.getD_append _ _ _ _ hlt]
      · rw [List.getD_eq_default _ _ (by rw [List.length_append]; omega),
          List.getD_eq_default _ _ (by rw [List.length_append, List.length_singleton]; omega)]
  obtain ⟨buffer, hstore, h'⟩ := h.store (k.insert ch) ch (Nat.zero_le 1) hascii
    (by simpa [Kept.text, Kept.insert] using hroom) (by omega) hcell
  refine ⟨_, by rw [CommandLine.insertText, hstore]; rfl, ?_⟩
  have hidx : nsuint (c.textBufferIdx + 1) = ((k.insert ch).line.length : Nat) := by
    have hsize : textBufferSize = 1024 := rfl
    simp only [h.idx, nsuint, Kept.insert, List.length_append, List.length_singleton]
    omega
  rw [hidx]
  exact h'

theorem Holds.deleteBackward (h : Holds c₀ c k) :
    ∃ c', c.deleteBackward = .ok c' ∧ Holds c₀ c' (k.press .deleteBackward) := by
  have hsingle := h.single
  have hroom := h.typed.room
  rw [Kept.text, List.length_append] at hroom
  rcases List.eq_nil_or_concat' k.line with hnil | ⟨line, ch, hline⟩
  · refine ⟨c, if_neg ?_, ?_⟩
    · rw [h.idx, hnil]
      decide
    · simp only [Kept.press, hnil, List.getLast?_nil]
      exact h
  · have hpress : k.press .deleteBackward = ⟨line, [ch]⟩ := by
      simp only [Kept.press, hline, List.getLast?_concat, List.dropLast_concat]
    have hlen : k.line.length = line.length + 1 := by
      rw [hline, List.length_append, List.length_singleton]
    have hpos : c.textBufferIdx > 0 := by
      rw [h.idx]
      omega
    have htext : Kept.text ⟨line, [ch]⟩ = k.line := hline.symm
    have hcell : ∀ i : Nat, (if i = k.line.length then 0 else k.text.getD i 0) =
        (Kept.text ⟨line, [ch]⟩).getD i 0 := by
      intro i
      rw [htext]
      split
      · rename_i hi
        rw [List.getD_eq_default _ _ (by omega)]
      · rename_i hi
        by_cases hlt : i < k.line.length
        · rw [Kept.text, List.getD_append _ _ _ _ hlt]
        · rw [Kept.text, List.getD_eq_default _ _ (by rw [List.length_append]; omega),
            List.getD_eq_default _ _ (by omega)]
    have hascii : ∀ x ∈ Kept.text ⟨line, [ch]⟩, IsAscii x := by
      rw [htext]
      exact fun x hx => h.typed.ascii x (List.mem_append_left _ hx)
    obtain ⟨buffer, hstore, h'⟩ := h.store ⟨line, [ch]⟩ 0 (Nat.le_refl 1) hascii
      (by rw [htext]; omega) (by omega) hcell
    refine ⟨_, by rw [CommandLine.deleteBackward, if_pos hpos, hstore]; rfl, ?_⟩
    have hidx : nsuint (c.textBufferIdx - 1) = (line.length : Nat) := by
      have hsize : textBufferSize = 1024 := rfl
      rw [h.idx, nsuint]
      omega
    rw [hidx, hpress]
    exact h'

theorem Holds.insertAll (h : Holds c₀ c k) {s : List UInt8} (hs : ∀ ch ∈ s, IsAscii ch)
    (hroom : k.line.length + s.length < textBufferSize) :
    ∃ c', s.foldlM (fun c ch => c.insertText ch) c = .ok c' ∧
      Holds c₀ c' (s.foldl Kept.insert k) := by
  induction s generalizing c k with
  | nil => exact ⟨c, rfl, h⟩
  | cons ch s ih =>
      rw [List.length_cons] at hroom
      obtain ⟨c₁, hok, h₁⟩ := h.insertText (hs ch List.mem_cons_self) (by omega)
      obtain ⟨c', hrest, h'⟩ := ih h₁ (fun x hx => hs x (List.mem_cons_of_mem ch hx)) (by
        simp only [Kept.insert, List.length_append, List.length_singleton]
        omega)
      exact ⟨c', by rw [List.foldlM_cons, hok]; exact hrest, h'⟩

/-- What is completed from names in ASCII is ASCII. -/
theorem completion_ascii {dirContents : List (List UInt8)}
    (h : ∀ name ∈ dirContents, ∀ ch ∈ name, IsAscii ch) (s : List UInt8) :
    ∀ ch ∈ completion dirContents s, IsAscii ch := by
  intro ch hch
  unfold completion at hch
  split at hch
  · rename_i item hfind
    exact h item (List.mem_of_find?_eq_some hfind) ch
      (List.mem_of_mem_take (List.mem_of_mem_drop hch))
  · cases hch

/-- A key does to the buffer what it does to the line. -/
theorem Holds.press (h : Holds c₀ c k) {key : Key} (hkey : k.Admits key) :
    ∃ out c', c.press key = .ok (out, c') ∧ Holds c₀ c' (k.press key) := by
  cases key with
  | insertText ch =>
      obtain ⟨c', hok, h'⟩ := h.insertText hkey.1.1 hkey.2
      exact ⟨_, c', by rw [CommandLine.press, hok]; rfl, h'⟩
  | deleteBackward =>
      obtain ⟨c', hok, h'⟩ := h.deleteBackward
      exact ⟨_, c', by rw [CommandLine.press, hok]; rfl, h'⟩
  | tab dirContents =>
      obtain ⟨c', hok, h'⟩ := h.insertAll (completion_ascii hkey.1 k.text) hkey.2
      refine ⟨completion dirContents k.text, c', ?_, h'⟩
      rw [CommandLine.press, tab, h.string_eq, ok_bind, stringWithUTF8String,
        if_pos (isUtf8_ascii h.typed.ascii)]
      simp only [hok]
      rfl
  | upArrow => exact hkey.elim
  | downArrow => exact hkey.elim

theorem Holds.pressAll (h : Holds c₀ c k) {keys : List Key} (hkeys : k.AdmitsAll keys) :
    ∃ out c', pressAll keys c = .ok (out, c') ∧ Holds c₀ c' (keys.foldl Kept.press k) := by
  induction keys generalizing c k with
  | nil => exact ⟨[], c, rfl, h⟩
  | cons key keys ih =>
      obtain ⟨out, c₁, hok, h₁⟩ := h.press hkeys.1
      obtain ⟨rest, c', hrest, h'⟩ := ih h₁ hkeys.2
      refine ⟨out ++ rest, c', ?_, h'⟩
      rw [CommandLine.pressAll, hok, ok_bind]
      simp only [hrest]
      rfl

theorem command_ascii {keys : List Key} (hkeys : Kept.empty.AdmitsAll keys) :
    ∀ ch ∈ command keys, IsAscii ch := by
  obtain ⟨out, c', -, h⟩ := init_typed.holds.pressAll hkeys
  exact h.typed.ascii

theorem processCommand_idx (c : CommandLine) (n : Int) :
    processCommand { c with textBufferIdx := n } = c.processCommand := by
  unfold CommandLine.processCommand
  have hline : readLine { c with textBufferIdx := n } = c.readLine := rfl
  rw [hline]
  cases hs : c.readLine with
  | error e => rfl
  | ok s =>
      simp only [ok_bind]
      cases insertObject s c.historyIndex c.commandHistory with
      | error e => rfl
      | ok history =>
          simp only [ok_bind, readCommand]
          have hread : ∀ m, readLine { c with textBufferIdx := m, commandHistory := history } =
              .ok s := fun _ => hs
          rw [hread n, show readLine { c with commandHistory := history } = .ok s from hs]
          rfl

theorem Holds.processCommand (h : Holds c₀ c k) (hindex : 0 ≤ c₀.historyIndex) :
    ∃ c', c.processCommand = .ok c' ∧ c'.Typed [] ∧ Runs c₀ k.text c' ∧
      c'.historyIndex = cint (c₀.historyIndex + 1) := by
  obtain ⟨hhistory, hran⟩ := Prod.mk.inj h.past_eq
  obtain ⟨c', hok, htyped, hstored, hruns⟩ := h.typed.processCommand (by rwa [h.index_eq])
  have hok' : c.processCommand = .ok c' := (processCommand_idx c _).symm.trans hok
  refine ⟨c', hok', htyped, ⟨?_, ?_⟩, ?_⟩
  · rw [hstored, ← hhistory, ← h.index_eq]
  · rw [hruns, ← hran]
  · -- the thread reads the buffer and leaves the index alone
    obtain ⟨s, -, hok⟩ := bind_eq_ok.mp hok'
    obtain ⟨history, -, hok⟩ := bind_eq_ok.mp hok
    obtain ⟨c₁, hread, hok⟩ := bind_eq_ok.mp hok
    obtain ⟨s', -, hread⟩ := bind_eq_ok.mp hread
    cases hread
    cases hok
    exact congrArg (fun i => cint (i + 1)) h.index_eq

theorem enter_command (h : c.Typed []) (hindex : 0 ≤ c.historyIndex) {keys : List Key}
    (hkeys : Kept.empty.AdmitsAll keys) :
    ∃ c', enter keys c = .ok c' ∧ c'.Typed [] ∧ Runs c (command keys) c' ∧
      c'.historyIndex = cint (c.historyIndex + 1) := by
  obtain ⟨out, c₁, hkeys, h₁⟩ := h.holds.pressAll hkeys
  obtain ⟨c', hok, hrest⟩ := h₁.processCommand hindex
  exact ⟨c', by rw [enter, hkeys]; exact hok, hrest⟩

/-! ## Sessions -/

/-- After lines that have run and are stored, in their order. -/
structure Ran (c : CommandLine) (commands : List (List UInt8)) : Prop where
  typed : c.Typed []
  ran_eq : c.ran = commands
  stored : c.commandHistory = commands
  index_eq : c.historyIndex = commands.length

theorem Ran.enter {commands : List (List UInt8)} (h : c.Ran commands) {keys : List Key}
    (hkeys : Kept.empty.AdmitsAll keys) (hcount : commands.length + 1 < 2 ^ 31) :
    ∃ c', enter keys c = .ok c' ∧ c'.Ran (commands ++ [command keys]) := by
  have hindex := h.index_eq
  obtain ⟨c', hok, htyped, ⟨hstored, hran⟩, hnext⟩ := enter_command h.typed (by omega) hkeys
  refine ⟨c', hok, htyped, ?_, ?_, ?_⟩
  · rw [hran, h.ran_eq]
  · rw [hstored, h.stored, hindex, Int.toNat_natCast, List.insertIdx_length_self]
  · rw [hnext, hindex, List.length_append, List.length_singleton, cint]
    omega

theorem session_ran {commands : List (List UInt8)} (h : c.Ran commands) {lines : List (List Key)}
    (hlines : ∀ keys ∈ lines, Kept.empty.AdmitsAll keys)
    (hcount : commands.length + lines.length < 2 ^ 31) :
    ∃ c', session lines c = .ok c' ∧ c'.Ran (commands ++ lines.map command) := by
  induction lines generalizing c commands with
  | nil =>
      rw [List.map_nil, List.append_nil]
      exact ⟨c, rfl, h⟩
  | cons keys lines ih =>
      rw [List.length_cons] at hcount
      obtain ⟨c₁, hok, h₁⟩ := h.enter (hlines keys List.mem_cons_self) (by omega)
      obtain ⟨c', hrest, h'⟩ := ih h₁ (fun l hl => hlines l (List.mem_cons_of_mem keys hl)) (by
        rw [List.length_append, List.length_singleton]
        omega)
      refine ⟨c', ?_, ?_⟩
      · rw [session, List.foldlM_cons, hok]
        exact hrest
      · rw [List.append_assoc] at h'
        exact h'

/-- Every line of a session is stored and run in its turn as its keys have left it: what has
been typed and completed, less what has been deleted, and the last deleted character if
nothing was typed after it. The keys type ASCII, delete or complete names in ASCII, and
the thread of each line has read and cleared the buffer before the next key. -/
theorem session_runs {lines : List (List Key)}
    (hlines : ∀ keys ∈ lines, Kept.empty.AdmitsAll keys) (hcount : lines.length < 2 ^ 31) :
    ∃ c', session lines init = .ok c' ∧ c'.ran = lines.map command ∧
      c'.commandHistory = lines.map command := by
  have hinit : init.Ran [] := ⟨init_typed, rfl, rfl, rfl⟩
  obtain ⟨c', hok, h⟩ := session_ran hinit hlines (by rwa [List.length_nil, Nat.zero_add])
  exact ⟨c', hok, h.ran_eq, h.stored⟩

/-- `ab` with `b` deleted, and `c` completed to `cd` with an `x` replaced by `y`. -/
theorem deleted_session_runs : ∃ c', session
      [[.insertText 0x61, .insertText 0x62, .deleteBackward],
       [.insertText 0x63, .tab [[0x61], [0x63, 0x64]], .insertText 0x78, .deleteBackward,
        .insertText 0x79]] init = .ok c' ∧
    c'.ran = [[0x61, 0x62], [0x63, 0x64, 0x79]] := by
  have hlines : ∀ keys ∈ ([[.insertText 0x61, .insertText 0x62, .deleteBackward],
      [.insertText 0x63, .tab [[0x61], [0x63, 0x64]], .insertText 0x78, .deleteBackward,
       .insertText 0x79]] : List (List Key)), Kept.empty.AdmitsAll keys := by
    decide +kernel
  obtain ⟨c', hok, hran, -⟩ := session_runs hlines (by decide)
  exact ⟨c', hok, hran.trans (by decide)⟩

end CommandLine

end MobileTerminal
