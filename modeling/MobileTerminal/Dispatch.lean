import MobileTerminal.EntryPoint
import MobileTerminal.Keys
import MobileTerminal.ShowsClear

/-!
# What a line runs

The function `processCommand` of `MTView.m` takes a line apart at its blanks and
looks at the first part: `cd`, `clear`, `help` and `pwd` it does itself, a path
and the name of a file in `bin` are called. The parts go to the file as its
`argv`, an array of copies that ends with `NULL`.

Nothing of a line of ASCII is lost on this way, blanks at its ends and double
ones included (`command_passes`), so a file is called with the words that were
typed (`words_called`). `cd` alone compares a `NULL` with `~`, and bytes that
are not UTF-8 make no string: there are no parts then, and `argv[1]` is written
behind a `NULL`.

What a command does is a list of actions. What stands around it, the directory,
the resource path, the files and the names in `bin`, is an `Environment` of any
kind; what the files do when they are called is not part of it.

The last theorem goes the whole way, from the keys of a session over the buffer,
the line and its words to the call of the entry point of a loaded file, with the
addresses of the copied words as its arguments.
-/

namespace MobileTerminal

/-- What a command finds around it. -/
structure Environment where
  /-- the names in `bin` -/
  builtinCommands : List (List UInt8)
  resourcePath : List UInt8
  documentPath : List UInt8
  /-- `getcwd` -/
  currentDirectory : List UInt8
  /-- `stringByAppendingPathComponent:` -/
  appendingPath : List UInt8 → List UInt8 → List UInt8

/-- What a command does, in this order; what comes after a call is done when it returns. -/
inductive Action where
  | chdir (path : List UInt8)
  | printf (out : List UInt8)
  | callEntryPointOfImage (path : List UInt8) (argc : Int) (argv : Block (Option (List UInt8)))

/-- `getArray`: a copy of each object and a `NULL`. -/
def getArray (objects : List (List UInt8)) : Res (Block (Option (List UInt8))) := do
  let array ← forUp (fun i (array : Block (Option (List UInt8))) => do
    let object ← CommandLine.objectAtIndex i objects
    array.store i (some object)) 0 objects.length (Block.alloc (objects.length + 1) none)
  array.store objects.length none

/-- `argv`; a single component is followed by a `NULL` once more. -/
def arguments (components : List (List UInt8)) : Res (Block (Option (List UInt8))) := do
  let argv ← getArray components
  if components.length ≤ 1 then argv.store 1 none else .ok argv

namespace Environment

def cdName : List UInt8 := [0x63, 0x64]

def clearName : List UInt8 := [0x63, 0x6c, 0x65, 0x61, 0x72]

def helpName : List UInt8 := [0x68, 0x65, 0x6c, 0x70]

def pwdName : List UInt8 := [0x70, 0x77, 0x64]

def binName : List UInt8 := [0x62, 0x69, 0x6e]

/-- `cd`: `strcmp` reads the first argument. -/
def changeDirectory (e : Environment) (name : List UInt8) (argv : Block (Option (List UInt8))) :
    Res (List Action) :=
  if name = cdName then do
    match ← argv.load 1 with
    | none => .error .outOfBounds
    | some arg => .ok [.chdir (if arg = [0x7e] then e.documentPath else arg)]
  else .ok []

/-- The files that are called for a name. -/
def files (e : Environment) (name : List UInt8) : List (List UInt8) :=
  (if CommandLine.hasPrefix [0x2f] name || CommandLine.hasPrefix [0x2e] name then
    if CommandLine.hasPrefix [0x2e] name then
      [e.appendingPath e.currentDirectory (name.drop 1)]
    else [name]
  else []) ++
  (if name ∈ e.builtinCommands then
    [e.appendingPath (e.appendingPath e.resourcePath binName) name]
  else [])

/-- What `clear`, `help` and `pwd` print. -/
def printed (e : Environment) (name : List UInt8) : List (List UInt8) :=
  (if name = clearName then [VT100.clearBytes] else []) ++
  (if name = helpName then [[0x0a].intercalate e.builtinCommands ++ [0x0a]] else []) ++
  (if name = pwdName then [e.currentDirectory ++ [0x0a]] else [])

/-- The function `processCommand`, from where it has read the line. -/
def processCommand (e : Environment) (line : List UInt8) : Res (List Action) :=
  match CommandLine.stringWithUTF8String line with
  | none => .error .outOfBounds
  | some line => do
      let components := line.splitOn 0x20
      let argc : Int := if components.length ≤ 1 then 1 else components.length
      let argv ← arguments components
      let name ← CommandLine.objectAtIndex 0 components
      let directory ← e.changeDirectory name argv
      .ok (directory ++ (e.printed name).map .printf ++
        (e.files name).map fun path => .callEntryPointOfImage path argc argv)

end Environment

/-! ## The array -/

/-- The words, and a `NULL` behind them. -/
structure Argv (words : List (List UInt8)) (array : Block (Option (List UInt8))) : Prop where
  size_eq : array.size = words.length + 1
  cell : ∀ i : Nat, i ≤ words.length → array.cell i = words[i]?

theorem objectAtIndex_eq {objects : List (List UInt8)} {i : Nat} (hi : i < objects.length) :
    CommandLine.objectAtIndex i objects = .ok objects[i] := by
  rw [CommandLine.objectAtIndex, if_pos (Int.natCast_nonneg i), Int.toNat_natCast,
    List.getElem?_eq_getElem hi]

theorem getArray_argv (words : List (List UInt8)) :
    ∃ array, getArray words = .ok array ∧ Argv words array := by
  have hloop := forUp_total (ε := Fault Site)
    (f := fun i (array : Block (Option (List UInt8))) => do
      let object ← CommandLine.objectAtIndex i words
      array.store i (some object))
    (P := fun i array => array.size = words.length + 1 ∧
      ∀ j : Nat, (j : Int) < i → array.cell j = words[j]?)
    0 words.length (s := Block.alloc (words.length + 1) none) ?_ ?_
  · obtain ⟨array, hok, hsize, hcell⟩ := hloop
    refine ⟨array.set words.length none, ?_, hsize, fun i hi => ?_⟩
    · rw [getArray, hok, ok_bind]
      exact Block.store_of_lt none (Int.natCast_nonneg _) (by omega)
    · rcases Nat.lt_or_eq_of_le hi with hlt | rfl
      · rw [Block.set]
        exact (if_neg (by omega)).trans (hcell i (by omega))
      · rw [Block.set_cell_self, List.getElem?_eq_none (Nat.le_refl _)]
  · rintro i array hi hi' ⟨hsize, hcell⟩
    obtain ⟨k, rfl⟩ := Int.eq_ofNat_of_zero_le hi
    have hk : k < words.length := by omega
    refine ⟨array.set k (some words[k]), ?_, hsize, fun j hj => ?_⟩
    · rw [objectAtIndex_eq hk, ok_bind]
      exact Block.store_of_lt _ hi (by omega)
    · by_cases hjk : j = k
      · rw [hjk, Block.set_cell_self, List.getElem?_eq_getElem hk]
      · rw [Block.set]
        exact (if_neg (by omega)).trans (hcell j (by omega))
  · exact ⟨rfl, fun j hj => by omega⟩

theorem Argv.store_null {words : List (List UInt8)} {array : Block (Option (List UInt8))}
    (h : Argv words array) (hwords : words.length = 1) :
    ∃ array', (array.store 1 none : Res _) = .ok array' ∧ Argv words array' := by
  have hsize := h.size_eq
  refine ⟨array.set 1 none, Block.store_of_lt none Int.one_nonneg (by omega), hsize,
    fun i hi => ?_⟩
  by_cases h1 : i = 1
  · subst h1
    rw [show ((1 : Nat) : Int) = 1 from rfl, Block.set_cell_self,
      List.getElem?_eq_none (by omega)]
  · rw [Block.set]
    exact (if_neg (by omega)).trans (h.cell i hi)

theorem arguments_argv {words : List (List UInt8)} (hwords : words ≠ []) :
    ∃ argv, arguments words = .ok argv ∧ Argv words argv := by
  obtain ⟨array, hget, hargv⟩ := getArray_argv words
  have hpos := List.length_pos_iff.mpr hwords
  rw [arguments, hget, ok_bind]
  split
  · exact hargv.store_null (by omega)
  · exact ⟨array, rfl, hargv⟩

theorem Argv.slice_eq {words : List (List UInt8)} {array : Block (Option (List UInt8))}
    (h : Argv words array) :
    array.slice 0 array.size.toNat = words.map some ++ [none] := by
  have hsize := h.size_eq
  refine List.ext_getElem ?_ fun i hi hi' => ?_
  · rw [Block.slice_length, List.length_append, List.length_map, List.length_singleton]
    omega
  · rw [Block.slice_length] at hi
    rw [Block.slice_getElem, Int.zero_add, h.cell i (by omega)]
    by_cases hlt : i < words.length
    · rw [List.getElem_append_left (by rwa [List.length_map]), List.getElem_map,
        List.getElem?_eq_getElem hlt]
    · rw [List.getElem_append_right (by rw [List.length_map]; omega), List.getElem_singleton,
        List.getElem?_eq_none (by omega)]

theorem splitOn_apart (line : List UInt8) (b : UInt8) : ∀ word ∈ line.splitOn b, b ∉ word := by
  induction line with
  | nil =>
      intro word hword
      rw [List.splitOn_nil, List.mem_singleton] at hword
      rw [hword]
      exact List.not_mem_nil
  | cons c line ih =>
      intro word hword
      rw [List.splitOn_cons_eq_if_modifyHead] at hword
      split at hword
      · rcases List.mem_cons.mp hword with rfl | hword
        · exact List.not_mem_nil
        · exact ih word hword
      · rename_i hne
        obtain ⟨first, rest, hsplit⟩ := List.exists_cons_of_ne_nil (List.splitOn_ne_nil b line)
        rw [hsplit, List.modifyHead_cons] at hword
        rw [hsplit] at ih
        rcases List.mem_cons.mp hword with rfl | hword
        · rw [List.mem_cons, not_or]
          exact ⟨fun h => hne (beq_iff_eq.mpr h.symm), ih first List.mem_cons_self⟩
        · exact ih word (List.mem_cons_of_mem first hword)

/-! ## A command -/

/-- A program that is called gets the words of the line. -/
def Action.Passes (line : List UInt8) : Action → Prop
  | .callEntryPointOfImage _ argc argv => ∃ words : List (List UInt8),
      words ≠ [] ∧ (∀ word ∈ words, 0x20 ∉ word) ∧ [0x20].intercalate words = line ∧
      argc = words.length ∧ argv.slice 0 argv.size.toNat = words.map some ++ [none]
  | _ => True

namespace Environment

/-- The words of a line go to the files for the first one; `cd` needs a second one. -/
theorem processCommand_eq (e : Environment) {name : List UInt8} {words : List (List UInt8)}
    {line : List UInt8} (hascii : ∀ ch ∈ line, CommandLine.IsAscii ch)
    (hline : line.splitOn 0x20 = name :: words) :
    (name = cdName ∧ words = [] ∧ e.processCommand line = .error .outOfBounds) ∨
    ¬(name = cdName ∧ words = []) ∧ ∃ directory argv, e.processCommand line =
        .ok (directory ++ (e.printed name).map .printf ++ (e.files name).map fun path =>
          .callEntryPointOfImage path (name :: words).length argv) ∧
      (∀ a ∈ directory, ∃ path, a = .chdir path) ∧ Argv (name :: words) argv := by
  have hargc : (if (name :: words).length ≤ 1 then (1 : Int) else (name :: words).length) =
      (name :: words).length := by
    rw [List.length_cons]
    split <;> omega
  obtain ⟨argv, harguments, hargv⟩ := arguments_argv (List.cons_ne_nil name words)
  have hname : CommandLine.objectAtIndex 0 (name :: words) = .ok name := rfl
  have hload : (argv.load 1 : Res (Option (List UInt8))) = .ok words[0]? := by
    have hsize := hargv.size_eq
    have hcell := hargv.cell 1 (by rw [List.length_cons]; omega)
    rw [List.length_cons] at hsize
    rw [Block.load_of_lt Int.one_nonneg (by omega)]
    exact congrArg _ hcell
  have hcommand : e.processCommand line = (do
      let directory ← e.changeDirectory name argv
      .ok (directory ++ (e.printed name).map .printf ++ (e.files name).map fun path =>
        .callEntryPointOfImage path (name :: words).length argv)) := by
    rw [processCommand, CommandLine.stringWithUTF8String,
      if_pos (CommandLine.isUtf8_ascii hascii)]
    simp only [hline, harguments, ok_bind, hargc, hname]
  rw [hcommand]
  by_cases hcd : name = cdName
  · rw [changeDirectory, if_pos hcd, hload, ok_bind]
    cases words with
    | nil => exact .inl ⟨hcd, rfl, rfl⟩
    | cons arg words =>
        refine .inr ⟨fun h => (by cases h.2), _, argv, rfl, fun a ha => ?_, hargv⟩
        exact ⟨_, List.mem_singleton.mp ha⟩
  · rw [changeDirectory, if_neg hcd, ok_bind]
    exact .inr ⟨fun h => hcd h.1, [], argv, rfl, fun a ha => (by cases ha), hargv⟩

/-- `cd` on its own is the only line of ASCII that fails. Whatever else is run, a file that
is called has the whole line in its arguments: joined with blanks they are the line again. -/
theorem command_passes (e : Environment) {line : List UInt8}
    (hascii : ∀ ch ∈ line, CommandLine.IsAscii ch) :
    (line = cdName ∧ e.processCommand line = .error .outOfBounds) ∨
    line ≠ cdName ∧ ∃ actions, e.processCommand line = .ok actions ∧
      ∀ a ∈ actions, a.Passes line := by
  obtain ⟨name, words, hline⟩ := List.exists_cons_of_ne_nil (List.splitOn_ne_nil 0x20 line)
  have hjoined : [0x20].intercalate (name :: words) = line := by
    rw [← hline]
    exact List.intercalate_splitOn 0x20
  rcases e.processCommand_eq hascii hline with
    ⟨hcd, hnil, hfault⟩ | ⟨hcd, directory, argv, hok, hdir, hargv⟩
  · refine .inl ⟨?_, hfault⟩
    rw [← hjoined, hnil, hcd, List.intercalate_singleton]
  · refine .inr ⟨fun hline' => hcd ?_, _, hok, fun a ha => ?_⟩
    · rw [hline', show cdName.splitOn 0x20 = [cdName] by decide +kernel] at hline
      obtain ⟨h, h'⟩ := List.cons.inj hline
      exact ⟨h.symm, h'.symm⟩
    · rcases List.mem_append.mp ha with ha | ha
      · rcases List.mem_append.mp ha with ha | ha
        · obtain ⟨path, rfl⟩ := hdir a ha
          trivial
        · obtain ⟨out, -, rfl⟩ := List.mem_map.mp ha
          trivial
      · obtain ⟨path, -, rfl⟩ := List.mem_map.mp ha
        exact ⟨name :: words, List.cons_ne_nil _ _, hline ▸ splitOn_apart line 0x20, hjoined, rfl,
          hargv.slice_eq⟩

end Environment

/-- `bin` with `ls` in it. -/
def lsEnvironment : Environment where
  builtinCommands := [[0x6c, 0x73]]
  resourcePath := [0x2f, 0x61]
  documentPath := [0x2f, 0x64]
  currentDirectory := [0x2f, 0x64]
  appendingPath path name := path ++ 0x2f :: name

/-- `ls -l`, with two blanks between the words. -/
theorem ls_passes : ∃ actions, lsEnvironment.processCommand [0x6c, 0x73, 0x20, 0x20, 0x2d, 0x6c] =
      .ok actions ∧ actions.length = 1 ∧
    ∀ a ∈ actions, a.Passes [0x6c, 0x73, 0x20, 0x20, 0x2d, 0x6c] := by
  have hascii : ∀ ch ∈ ([0x6c, 0x73, 0x20, 0x20, 0x2d, 0x6c] : List UInt8),
      CommandLine.IsAscii ch := by simp [CommandLine.IsAscii]
  rcases lsEnvironment.command_passes hascii with ⟨hcd, -⟩ | ⟨-, actions, hok, hpasses⟩
  · exact absurd hcd (by decide)
  · have hcalls : (lsEnvironment.processCommand [0x6c, 0x73, 0x20, 0x20, 0x2d, 0x6c]).map
        List.length = .ok 1 := by decide +kernel
    rw [hok] at hcalls
    exact ⟨actions, hok, Except.ok.inj hcalls, hpasses⟩

/-! ## From the keys to the program

The session stores and runs the line, `processCommand` makes words of it, and
the file is found among the images that are loaded. -/

section

variable {w : Nat} {p : Interpose.Process w}

/-- A pointer of `argv`. -/
def pointer (strdup : Nat → List UInt8 → BitVec w) (i : Nat) : Option (List UInt8) → BitVec w
  | some word => strdup i word
  | none => 0

/-- What a call of a file comes to; `strdup` tells where the copy of each argument is. -/
def Action.outcome (p : Interpose.Process w) (strdup : Nat → List UInt8 → BitVec w) :
    Action → Option (Interpose.Outcome w)
  | .callEntryPointOfImage path argc argv => some (Interpose.callEntryPointOfImage p path argc
      ((argv.slice 0 argv.size.toNat).mapIdx (pointer strdup)))
  | _ => none

/-- The file is loaded, and its first `LC_MAIN` is command `k`. -/
structure Loaded (p : Interpose.Process w) (path : List UInt8) (image : Interpose.Image w)
    (k : Nat) : Prop where
  opens : ∃ handle, p.dlopen path = some handle ∧ p.dlsym (some handle) = some image.header
  image_eq : p.image path = some image
  lt : k < Interpose.ncmds p.memory image.header
  main : Interpose.cmd p.memory (image.command p.memory k) = Interpose.lcMain
  first : ∀ j < k, Interpose.cmd p.memory (image.command p.memory j) ≠ Interpose.lcMain

variable {path : List UInt8} {image : Interpose.Image w} {k : Nat}

theorem Loaded.called (h : Loaded p path image k) (argc : Int) (argv : List (BitVec w)) :
    (Interpose.callEntryPointOfImage p path argc argv).called = some ⟨image.header +
      BitVec.ofNat w (Interpose.entryoff p.memory (image.command p.memory k)), argc, argv⟩ := by
  obtain ⟨handle, hopen, hsym⟩ := h.opens
  exact Interpose.call_image hopen h.image_eq hsym
    (Interpose.searchCommands_main h.lt h.main h.first)

theorem Argv.pointers {words : List (List UInt8)} {array : Block (Option (List UInt8))}
    (h : Argv words array) (strdup : Nat → List UInt8 → BitVec w) :
    (array.slice 0 array.size.toNat).mapIdx (pointer strdup) = words.mapIdx strdup ++ [0] := by
  rw [h.slice_eq, List.mapIdx_concat]
  congr 1
  refine List.ext_getElem (by simp) fun i hi hi' => ?_
  rw [List.getElem_mapIdx, List.getElem_map, List.getElem_mapIdx]
  rfl

/-- Whatever lines have been entered before: when the keys of a line leave words between
blanks and the first one names a file in `bin`, the newline calls the `main` of that file
once and nothing else, with these words and a `NULL` as its arguments. -/
theorem words_called (strdup : Nat → List UInt8 → BitVec w) {e : Environment}
    {lines : List (List CommandLine.Key)} {keys : List CommandLine.Key}
    (hlines : ∀ keys ∈ lines, CommandLine.Kept.empty.AdmitsAll keys)
    (hkeys : CommandLine.Kept.empty.AdmitsAll keys) (hcount : lines.length + 1 < 2 ^ 31)
    {name : List UInt8} {words : List (List UInt8)}
    (hline : CommandLine.command keys = [0x20].intercalate (name :: words))
    (hwords : ∀ word ∈ name :: words, 0x20 ∉ word)
    (hcd : ¬(name = Environment.cdName ∧ words = []))
    (hslash : CommandLine.hasPrefix [0x2f] name = false)
    (hdot : CommandLine.hasPrefix [0x2e] name = false) (hbuiltin : name ∈ e.builtinCommands)
    (hloaded : Loaded p (e.appendingPath (e.appendingPath e.resourcePath Environment.binName) name)
      image k) :
    ∃ c' actions outcome, CommandLine.session (lines ++ [keys]) CommandLine.init = .ok c' ∧
      c'.ran = lines.map CommandLine.command ++ [CommandLine.command keys] ∧
      e.processCommand (CommandLine.command keys) = .ok actions ∧
      actions.filterMap (Action.outcome p strdup) = [outcome] ∧
      outcome.called = some ⟨image.header +
          BitVec.ofNat w (Interpose.entryoff p.memory (image.command p.memory k)),
        (name :: words).length, (name :: words).mapIdx strdup ++ [0]⟩ := by
  have hinit : CommandLine.init.Ran [] := ⟨CommandLine.init_typed, rfl, rfl, rfl⟩
  have hall : ∀ line ∈ lines ++ [keys], CommandLine.Kept.empty.AdmitsAll line := by
    intro line hmem
    rcases List.mem_append.mp hmem with hmem | hmem
    · exact hlines line hmem
    · rw [List.mem_singleton.mp hmem]
      exact hkeys
  obtain ⟨c', hsession, hran⟩ := CommandLine.session_ran hinit hall (by
    rw [List.length_nil, List.length_append, List.length_singleton]
    omega)
  have hsplit : (CommandLine.command keys).splitOn 0x20 = name :: words := by
    rw [hline]
    exact List.splitOn_intercalate 0x20 hwords (List.cons_ne_nil name words)
  have hascii := CommandLine.command_ascii hkeys
  rcases e.processCommand_eq hascii hsplit with
    ⟨hname, hnil, -⟩ | ⟨-, directory, argv, hok, hdir, hargv⟩
  · exact absurd ⟨hname, hnil⟩ hcd
  have hfiles : e.files name =
      [e.appendingPath (e.appendingPath e.resourcePath Environment.binName) name] := by
    rw [Environment.files, hslash, hdot, if_neg (by decide), if_pos hbuiltin]
    rfl
  have hquiet : directory.filterMap (Action.outcome p strdup) = [] := by
    refine List.filterMap_eq_nil_iff.mpr fun a ha => ?_
    obtain ⟨path, rfl⟩ := hdir a ha
    rfl
  have hprinted :
      ((e.printed name).map Action.printf).filterMap (Action.outcome p strdup) = [] := by
    refine List.filterMap_eq_nil_iff.mpr fun a ha => ?_
    obtain ⟨out, -, rfl⟩ := List.mem_map.mp ha
    rfl
  refine ⟨c', _, _, hsession, ?_, hok, ?_, hloaded.called _ _⟩
  · rw [hran.ran_eq, List.nil_append, List.map_append]
    rfl
  · rw [List.filterMap_append, List.filterMap_append, hquiet, hprinted, hfiles]
    simp only [List.map_singleton, List.filterMap_cons, List.filterMap_nil, Action.outcome,
      hargv.pointers, List.nil_append]

end

/-- `/a/bin/ls`, loaded at `0x1000` with its `LC_MAIN` at the offset 64. -/
def lsProcess : Interpose.Process 64 :=
  { Interpose.withMain with
    images := [⟨[0x2f, 0x61, 0x2f, 0x62, 0x69, 0x6e, 0x2f, 0x6c, 0x73], 0x1000⟩] }

/-- `ls -l`, after a line with `pwd`. -/
theorem ls_called : ∃ c' actions outcome, CommandLine.session
      ([[.insertText 0x70, .insertText 0x77, .insertText 0x64]] ++
        [[.insertText 0x6c, .insertText 0x73, .insertText 0x20, .insertText 0x2d,
          .insertText 0x6c]]) CommandLine.init = .ok c' ∧
    c'.ran = [[0x70, 0x77, 0x64], [0x6c, 0x73, 0x20, 0x2d, 0x6c]] ∧
    lsEnvironment.processCommand [0x6c, 0x73, 0x20, 0x2d, 0x6c] = .ok actions ∧
    actions.filterMap (Action.outcome lsProcess fun i _ => BitVec.ofNat 64 (0x2000 + i)) =
      [outcome] ∧
    outcome.called = some ⟨0x1040, 2, [0x2000, 0x2001, 0]⟩ := by
  have hloaded : Loaded lsProcess
      (lsEnvironment.appendingPath
        (lsEnvironment.appendingPath lsEnvironment.resourcePath Environment.binName) [0x6c, 0x73])
      ⟨[0x2f, 0x61, 0x2f, 0x62, 0x69, 0x6e, 0x2f, 0x6c, 0x73], 0x1000⟩ 0 :=
    ⟨⟨1, rfl, rfl⟩, rfl, by decide +kernel, by decide +kernel,
      fun j hj => absurd hj (Nat.not_lt_zero j)⟩
  have hlines : ∀ line ∈ [[CommandLine.Key.insertText 0x70, .insertText 0x77, .insertText 0x64]],
      CommandLine.Kept.empty.AdmitsAll line := by decide +kernel
  have hkeys : CommandLine.Kept.empty.AdmitsAll [.insertText 0x6c, .insertText 0x73,
      .insertText 0x20, .insertText 0x2d, .insertText 0x6c] := by decide +kernel
  have hline : CommandLine.command [.insertText 0x6c, .insertText 0x73, .insertText 0x20,
      .insertText 0x2d, .insertText 0x6c] =
        [0x20].intercalate ([0x6c, 0x73] :: [[0x2d, 0x6c]]) := by decide +kernel
  obtain ⟨c', actions, outcome, hsession, hran, hok, hone, hcalled⟩ :=
    words_called (fun i _ => BitVec.ofNat 64 (0x2000 + i)) (e := lsEnvironment) hlines hkeys
      (by decide) hline (by decide +kernel) (by decide +kernel) (by decide +kernel)
      (by decide +kernel) (by decide +kernel) hloaded
  exact ⟨c', actions, outcome, hsession, hran, hok, hone, hcalled⟩

end MobileTerminal
