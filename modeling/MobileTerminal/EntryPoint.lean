import Mathlib.Tactic.Common

/-!
# Running a program inside the process

There is no `exec` on the device, so `Interpose.m` puts `my_execve` in the place
of `execv`: it loads the file with `dlopen`, looks for the image among those
that are loaded and for its `LC_MAIN` command, and calls the address that this
command gives.

The flag that tells whether the search succeeded is set when the name matches
already. So for an image that has no `LC_MAIN` the offset stays 0, and the first
byte of the Mach-O header is called (`callsMain_iff`).

An address has `w` bits. What is not in this repository is given: the memory,
the list of images, what `dlopen` and `dlsym` answer and what a called function
returns. `Outcome` is what can be observed: the call that is made, if any, and
the return code.

The two loops of the search have a lemma for each way they end: with an
`LC_MAIN` found, with none in the image, and with no image of that name.
`my_execve` then calls what the search has found, with the arguments counted up
to the null pointer (`myExecve_callsMain`).
-/

namespace MobileTerminal

namespace Interpose

/-- A file that is loaded: its path and where its header is. -/
structure Image (w : Nat) where
  name : List UInt8
  header : BitVec w

/-- The process, after `dlopen` has been called. -/
structure Process (w : Nat) where
  memory : BitVec w → UInt8
  images : List (Image w)
  dlopen : List UInt8 → Option (BitVec w)
  /-- `_mh_execute_header` of a handle; none when `dlerror` has something to say. -/
  dlsym : Option (BitVec w) → Option (BitVec w)
  binary : BitVec w → Int → List (BitVec w) → Int

/-- A call of `binary_main`. -/
structure Call (w : Nat) where
  address : BitVec w
  argc : Int
  argv : List (BitVec w)
deriving DecidableEq, Repr

structure Outcome (w : Nat) where
  called : Option (Call w)
  returnCode : Int
deriving DecidableEq, Repr

/-! ## Reading a Mach-O header -/

def mhMagic64 : Nat := 0xfeedfacf

def lcMain : Nat := 0x80000028

section

variable {w : Nat}

/-- An integer of `n` bytes, the lowest one first. -/
def load (memory : BitVec w → UInt8) (a : BitVec w) : Nat → Nat
  | 0 => 0
  | n + 1 => (memory a).toNat + 256 * load memory (a + 1) n

def magic (memory : BitVec w → UInt8) (header : BitVec w) : Nat := load memory header 4

def ncmds (memory : BitVec w → UInt8) (header : BitVec w) : Nat := load memory (header + 16) 4

def cmd (memory : BitVec w → UInt8) (command : BitVec w) : Nat := load memory command 4

def cmdsize (memory : BitVec w → UInt8) (command : BitVec w) : Nat := load memory (command + 4) 4

def entryoff (memory : BitVec w → UInt8) (command : BitVec w) : Nat := load memory (command + 8) 8

/-- `sizeof(struct mach_header_64)` or `sizeof(struct mach_header)`. -/
def headerSize (memory : BitVec w → UInt8) (header : BitVec w) : BitVec w :=
  if magic memory header = mhMagic64 then 32 else 28

/-! ## The search -/

/-- The variables of the search. -/
structure Search where
  entryoff : Nat := 0
  didFind : Bool := false

/-- The loop over the load commands. `i < header->ncmds > 0` is `i < header->ncmds`. -/
def searchCommands (memory : BitVec w → UInt8) : Nat → BitVec w → Search → Search
  | 0, _, st => st
  | n + 1, command, st =>
      if cmd memory command = lcMain then
        { st with entryoff := entryoff memory command, didFind := true }
      else searchCommands memory n (command + BitVec.ofNat w (cmdsize memory command)) st

/-- The loop over the images. -/
def searchImages (memory : BitVec w → UInt8) (path : List UInt8) :
    List (Image w) → Search → Search
  | [], st => st
  | image :: images, st =>
      if image.name = path then
        let st := { st with didFind := true }
        let st := searchCommands memory (ncmds memory image.header)
          (image.header + headerSize memory image.header) st
        if st.didFind then st else searchImages memory path images st
      else searchImages memory path images st

def callEntryPointOfImage (p : Process w) (path : List UInt8) (argc : Int)
    (argv : List (BitVec w)) : Outcome w :=
  let handle := p.dlopen path
  let err := handle.isNone
  let st := searchImages p.memory path p.images {}
  if st.didFind then
    match p.dlsym handle with
    | none => ⟨none, -1⟩
    | some address =>
        if err then ⟨none, -1⟩
        else
          let address := address + BitVec.ofNat w st.entryoff
          ⟨some ⟨address, argc, argv⟩, p.binary address argc argv⟩
  else ⟨none, -1⟩

/-- The loop of `my_execve` that counts the arguments. -/
def countArgs : List (BitVec w) → Nat
  | [] => 0
  | arg :: argv => if arg ≠ 0 then countArgs argv + 1 else 0

def myExecve (p : Process w) (path : List UInt8) (argv : List (BitVec w)) : Outcome w :=
  callEntryPointOfImage p path (countArgs argv) argv

theorem countArgs_eq {args : List (BitVec w)} (h : ∀ arg ∈ args, arg ≠ 0)
    (rest : List (BitVec w)) : countArgs (args ++ 0 :: rest) = args.length := by
  induction args with
  | nil => rfl
  | cons arg args ih =>
      have hrest := ih fun a ha => h a (List.mem_cons_of_mem _ ha)
      rw [List.cons_append, countArgs, if_pos (h arg List.mem_cons_self), hrest]
      rfl

/-! ## What is to be called -/

/-- Where command `k` is: each `cmdsize` tells where the next command starts. -/
def commandAt (memory : BitVec w → UInt8) (command : BitVec w) : Nat → BitVec w
  | 0 => command
  | k + 1 => commandAt memory (command + BitVec.ofNat w (cmdsize memory command)) k

/-- Load command `k` of an image. -/
def Image.command (memory : BitVec w → UInt8) (image : Image w) (k : Nat) : BitVec w :=
  commandAt memory (image.header + headerSize memory image.header) k

/-- The image has an `LC_MAIN` among its commands. -/
def Image.HasMain (memory : BitVec w → UInt8) (image : Image w) : Prop :=
  ∃ k < ncmds memory image.header, cmd memory (image.command memory k) = lcMain

/-- The first image of that name. -/
def Process.image (p : Process w) (path : List UInt8) : Option (Image w) :=
  p.images.find? fun image => decide (image.name = path)

/-- Nothing but the entry point that the first image of that name has is called. -/
structure CallsMain (p : Process w) (path : List UInt8) (argc : Int) (argv : List (BitVec w))
    (outcome : Outcome w) : Prop where
  absent : p.image path = none → outcome = ⟨none, -1⟩
  main : ∀ image k, p.image path = some image → k < ncmds p.memory image.header →
    cmd p.memory (image.command p.memory k) = lcMain →
    (∀ j < k, cmd p.memory (image.command p.memory j) ≠ lcMain) →
    outcome.called = some ⟨image.header +
      BitVec.ofNat w (entryoff p.memory (image.command p.memory k)), argc, argv⟩
  noMain : ∀ image, p.image path = some image → ¬image.HasMain p.memory →
    outcome = ⟨none, -1⟩

/-! ## The loops -/

variable {memory : BitVec w → UInt8} {path : List UInt8} {st : Search}

theorem searchCommands_main {n k : Nat} {command : BitVec w} (hk : k < n)
    (hmain : cmd memory (commandAt memory command k) = lcMain)
    (hfirst : ∀ j < k, cmd memory (commandAt memory command j) ≠ lcMain) :
    searchCommands memory n command st =
      ⟨entryoff memory (commandAt memory command k), true⟩ := by
  induction n generalizing command k with
  | zero => omega
  | succ n ih =>
      cases k with
      | zero =>
          have hmain : cmd memory command = lcMain := hmain
          rw [searchCommands, if_pos hmain]
          rfl
      | succ k =>
          have hother : cmd memory command ≠ lcMain := hfirst 0 (Nat.succ_pos k)
          rw [searchCommands, if_neg hother]
          exact ih (by omega) hmain fun j hj => hfirst (j + 1) (by omega)

theorem searchCommands_none {n : Nat} {command : BitVec w}
    (h : ∀ k < n, cmd memory (commandAt memory command k) ≠ lcMain) :
    searchCommands memory n command st = st := by
  induction n generalizing command with
  | zero => rfl
  | succ n ih =>
      have hother : cmd memory command ≠ lcMain := h 0 (Nat.succ_pos n)
      rw [searchCommands, if_neg hother]
      exact ih fun k hk => h (k + 1) (by omega)

/-- A command that is not `LC_MAIN` leaves the flag alone. -/
theorem searchCommands_didFind {n : Nat} {command : BitVec w} (h : st.didFind = true) :
    (searchCommands memory n command st).didFind = true := by
  induction n generalizing command with
  | zero => exact h
  | succ n ih =>
      rw [searchCommands]
      split
      · rfl
      · exact ih

theorem searchImages_absent {images : List (Image w)}
    (h : images.find? (fun image => decide (image.name = path)) = none) :
    searchImages memory path images st = st := by
  induction images with
  | nil => rfl
  | cons image images ih =>
      rw [List.find?_cons] at h
      split at h
      · cases h
      next hname =>
        rw [searchImages, if_neg (of_decide_eq_false hname)]
        exact ih h

/-- The search ends with the first image of that name. -/
theorem searchImages_first {images : List (Image w)} {image : Image w}
    (h : images.find? (fun image => decide (image.name = path)) = some image) :
    searchImages memory path images st =
      searchCommands memory (ncmds memory image.header)
        (image.header + headerSize memory image.header) { st with didFind := true } := by
  induction images with
  | nil => cases h
  | cons first images ih =>
      rw [List.find?_cons] at h
      split at h
      next hname =>
        cases h
        rw [searchImages, if_pos (of_decide_eq_true hname)]
        exact if_pos (searchCommands_didFind rfl)
      next hname =>
        rw [searchImages, if_neg (of_decide_eq_false hname)]
        exact ih h

/-! ## The call -/

variable {p : Process w} {argc : Int} {argv : List (BitVec w)} {image : Image w}

theorem call_absent (h : p.image path = none) :
    callEntryPointOfImage p path argc argv = ⟨none, -1⟩ := by
  have hsearch : searchImages p.memory path p.images {} = {} := searchImages_absent h
  simp only [callEntryPointOfImage, hsearch]
  rfl

/-- An image of that name is called, wherever the search left the offset. -/
theorem call_image {handle : BitVec w} (hopen : p.dlopen path = some handle)
    (himage : p.image path = some image) (hsym : p.dlsym (some handle) = some image.header)
    {off : Nat} (hsearch : searchCommands p.memory (ncmds p.memory image.header)
      (image.header + headerSize p.memory image.header) ⟨0, true⟩ = ⟨off, true⟩) :
    (callEntryPointOfImage p path argc argv).called =
      some ⟨image.header + BitVec.ofNat w off, argc, argv⟩ := by
  have hfound : searchImages p.memory path p.images {} = ⟨off, true⟩ :=
    (searchImages_first himage).trans hsearch
  simp only [callEntryPointOfImage, hopen, hsym, hfound]
  rfl

/-- With an `LC_MAIN` in the image, only a real entry point is called. -/
theorem CallsMain.of_hasMain {handle : BitVec w} (hopen : p.dlopen path = some handle)
    (hsym : ∀ image, p.image path = some image → p.dlsym (some handle) = some image.header)
    (hmain : ∀ image, p.image path = some image → image.HasMain p.memory) :
    CallsMain p path argc argv (callEntryPointOfImage p path argc argv) := by
  refine ⟨call_absent, fun image k himage hk hcmd hfirst => ?_, fun image himage hnone => ?_⟩
  · exact call_image hopen himage (hsym image himage) (searchCommands_main hk hcmd hfirst)
  · exact absurd (hmain image himage) hnone

/-- Only a real entry point is called exactly if the image, when there is one, has an
`LC_MAIN`. When there is no image of that name, nothing is called. The header may be one
of 32 or 64 bits, and the load commands may stand anywhere in a memory of any contents. -/
theorem callsMain_iff {handle : BitVec w} (hopen : p.dlopen path = some handle)
    (hsym : ∀ image, p.image path = some image → p.dlsym (some handle) = some image.header) :
    CallsMain p path argc argv (callEntryPointOfImage p path argc argv) ↔
      ∀ image, p.image path = some image → image.HasMain p.memory := by
  constructor
  · intro hcalls image himage
    by_contra hnone
    have hsearch : searchCommands p.memory (ncmds p.memory image.header)
        (image.header + headerSize p.memory image.header) ⟨0, true⟩ = ⟨0, true⟩ :=
      searchCommands_none fun k hk hmain => hnone ⟨k, hk, hmain⟩
    have hcalled : (callEntryPointOfImage p path argc argv).called =
        some ⟨image.header + BitVec.ofNat w 0, argc, argv⟩ :=
      call_image hopen himage (hsym image himage) hsearch
    rw [hcalls.noMain image himage hnone] at hcalled
    cases hcalled
  · intro hmain
    exact .of_hasMain hopen hsym hmain

/-- So a program that calls `execv` has the `main` of the file called with its arguments,
counted up to the first `NULL`. -/
theorem myExecve_callsMain {handle : BitVec w} (hopen : p.dlopen path = some handle)
    (hsym : ∀ image, p.image path = some image → p.dlsym (some handle) = some image.header)
    (hmain : ∀ image, p.image path = some image → image.HasMain p.memory)
    {args : List (BitVec w)} (hargs : ∀ arg ∈ args, arg ≠ 0) (rest : List (BitVec w)) :
    CallsMain p path args.length (args ++ 0 :: rest) (myExecve p path (args ++ 0 :: rest)) := by
  rw [myExecve, countArgs_eq hargs]
  exact .of_hasMain hopen hsym hmain

end

/-! ## Two files -/

/-- A file at `0x1000` with a 64-bit header and one command. -/
def oneCommand (cmd : List UInt8) : Process 64 where
  memory a := ([0xcf, 0xfa, 0xed, 0xfe] ++ List.replicate 12 0 ++ [1, 0, 0, 0] ++
    List.replicate 12 0 ++ cmd).getD (a - 0x1000).toNat 0
  images := [⟨[0x6c, 0x73], 0x1000⟩]
  dlopen _ := some 1
  dlsym _ := some 0x1000
  binary _ _ _ := 0

/-- `LC_MAIN` with the offset 64. -/
def withMain : Process 64 :=
  oneCommand ([0x28, 0, 0, 0x80, 24, 0, 0, 0, 64] ++ List.replicate 15 0)

def withoutMain : Process 64 :=
  oneCommand ([0x1b, 0, 0, 0, 24, 0, 0, 0] ++ List.replicate 16 0)

theorem withMain_called : CallsMain withMain [0x6c, 0x73] 0 []
    (callEntryPointOfImage withMain [0x6c, 0x73] 0 []) := by
  have hopen : withMain.dlopen [0x6c, 0x73] = some 1 := rfl
  refine (callsMain_iff hopen fun image himage => ?_).mpr fun image himage => ?_
  · cases himage
    rfl
  · cases himage
    exact ⟨0, by decide, by decide⟩

/-- The file with `LC_UUID` alone: its header itself is called, as the offset has stayed 0. -/
theorem withoutMain_header_called :
    callEntryPointOfImage withoutMain [0x6c, 0x73] 0 [] = ⟨some ⟨0x1000, 0, []⟩, 0⟩ ∧
      ¬CallsMain withoutMain [0x6c, 0x73] 0 []
        (callEntryPointOfImage withoutMain [0x6c, 0x73] 0 []) := by
  have hcall : callEntryPointOfImage withoutMain [0x6c, 0x73] 0 [] =
      ⟨some ⟨0x1000, 0, []⟩, 0⟩ := by
    decide
  refine ⟨hcall, fun hcalls => ?_⟩
  have hnone : ¬Image.HasMain withoutMain.memory ⟨[0x6c, 0x73], 0x1000⟩ := by
    unfold Image.HasMain
    decide
  have hnothing := hcalls.noMain ⟨[0x6c, 0x73], 0x1000⟩ rfl hnone
  rw [hcall] at hnothing
  cases hnothing

end Interpose

end MobileTerminal
