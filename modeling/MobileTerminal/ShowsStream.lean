import MobileTerminal.ShowsRun
import MobileTerminal.Tokens

/-!
# Streams and displays

Every screen shows a display, the one that can be read off it (`display`), and a
run of tokens does to it what the tokens say (`run_display`). So does a stream
of bytes, however it is cut (`feed_display`), with the bytes of an unfinished
sequence left pending. Here the refinement is complete: at one end the calls of
`readInputStream:` on whatever pieces arrive, at the other a fold over tokens
that cannot fail.

For streams the three parts are put together: the tokens of legible bytes can be
written down beforehand, reading the bytes is executing them, and cutting the
bytes makes no difference but for the dirty flags, which a display does not
have.

Screens that show the same display look alike (`LooksLike`), wherever their rows
lie in the ring. The relation is stated without a display, by controls,
characters and rows, so that it can be checked on two screens directly.
-/

namespace MobileTerminal

variable {F : Foundation} {t t' : Terminal}

namespace Screen

variable {s s' : Screen} {d : Display}

def display (t : Terminal) (s : Screen) : Display where
  toControls := s.controls t
  cell y x := (s.visibleCell y x).ch
  saved := s.tempBuffer.map fun temp y x => (temp.cell (y * s.realWidth + x)).ch
  scrollback := s.scrollbackRows.map text

theorem shows_display (t : Terminal) (s : Screen) : Shows t s (s.display t) where
  controls := rfl
  cells _ _ _ _ _ _ := rfl
  saved := by
    unfold display
    cases s.tempBuffer with
    | none => exact Option.Rel.none
    | some temp => exact Option.Rel.some fun _ _ _ _ _ _ => rfl
  scrollback := rfl

theorem Shows.sameButDirty (h : Shows t s d) (hs : s.SameButDirty s') : Shows t s' d := by
  obtain ⟨dirty, rfl⟩ := hs
  exact ⟨h.controls, h.cells, h.saved, h.scrollback⟩

/-- The same characters are put aside. -/
def SameAside (s s' : Screen) : Prop :=
  Option.Rel (fun temp temp' : Block ScreenChar =>
      ∀ y x, 0 ≤ y → y < s.height → 0 ≤ x → x ≤ s.width →
        (temp'.cell (y * s'.realWidth + x)).ch = (temp.cell (y * s.realWidth + x)).ch)
    s.tempBuffer s'.tempBuffer

theorem SameAside.keeps {u u' : Screen} (h : SameAside s s') (hu : Keeps s u) (hu' : Keeps s' u') :
    SameAside u u' := by
  unfold SameAside realWidth at h ⊢
  rw [hu.temp_eq, hu'.temp_eq, hu.height_eq, hu.width_eq, hu'.width_eq]
  exact h

/-- Two screens with the same controls, the same characters in view and put aside, and the
same rows of characters behind. -/
structure LooksLike (t : Terminal) (s : Screen) (t' : Terminal) (s' : Screen) : Prop where
  controls : s'.controls t' = s.controls t
  cells : ∀ y x, 0 ≤ y → y < s.height → 0 ≤ x → x ≤ s.width →
    (s'.visibleCell y x).ch = (s.visibleCell y x).ch
  saved : SameAside s s'
  scrollback : s'.scrollbackRows.map text = s.scrollbackRows.map text

theorem LooksLike.shows (h : LooksLike t s t' s') : Shows t' s' (s.display t) where
  controls := h.controls
  cells y x hy hy' hx hx' := by
    have hheight : s'.height = s.height := congrArg Controls.height h.controls
    have hwidth : s'.width = s.width := congrArg Controls.width h.controls
    exact h.cells y x hy (hheight ▸ hy') hx (hwidth ▸ hx')
  saved := by
    have hheight : s'.height = s.height := congrArg Controls.height h.controls
    have hwidth : s'.width = s.width := congrArg Controls.width h.controls
    have hsaved := h.saved
    unfold SameAside at hsaved
    unfold display
    cases htemp : s.tempBuffer with
    | none =>
        rw [htemp] at hsaved
        cases hsaved' : s'.tempBuffer with
        | none => exact Option.Rel.none
        | some temp' =>
            rw [hsaved'] at hsaved
            cases hsaved
    | some temp =>
        rw [htemp] at hsaved
        cases hsaved' : s'.tempBuffer with
        | none =>
            rw [hsaved'] at hsaved
            cases hsaved
        | some temp' =>
            rw [hsaved'] at hsaved
            obtain ⟨hcells⟩ := hsaved
            refine Option.Rel.some fun y x hy hy' hx hx' => ?_
            exact hcells y x hy (hheight ▸ hy') hx (hwidth ▸ hx')
  scrollback := h.scrollback

/-- What is put aside is part of what is shown. -/
theorem Shows.sameAside {d' : Display} (h : Shows t s d) (h' : Shows t' s' d')
    (hsaved : d'.saved = d.saved) (hwidth : d'.width = d.width) (hheight : d'.height = d.height) :
    SameAside s s' := by
  have hheight : s'.height = s.height := by rw [← h'.height, hheight, h.height]
  have hwidth : s'.width = s.width := by rw [← h'.width, hwidth, h.width]
  have hleft := h.saved
  have hright := h'.saved
  rw [hsaved] at hright
  unfold SameAside
  revert hleft hright
  generalize s.tempBuffer = temp, s'.tempBuffer = temp', d.saved = g
  intro hleft hright
  cases hleft with
  | none =>
      cases hright
      exact Option.Rel.none
  | some hcells =>
      obtain ⟨hcells'⟩ := hright
      refine Option.Rel.some fun y x hy hy' hx hx' => ?_
      rw [hcells y x hy hy' hx hx', hcells' y x hy (hheight ▸ hy') hx (hwidth ▸ hx')]

theorem Shows.looksLike (h : Shows t s d) (h' : Shows t' s' d) : LooksLike t s t' s' where
  controls := h'.controls.trans h.controls.symm
  cells y x hy hy' hx hx' := by
    have hheight : s'.height = s.height := h'.height.symm.trans h.height
    have hwidth : s'.width = s.width := h'.width.symm.trans h.width
    rw [h.cells y x hy hy' hx hx', h'.cells y x hy (hheight ▸ hy') hx (hwidth ▸ hx')]
  saved := h.sameAside h' rfl rfl rfl
  scrollback := h'.scrollback.trans h.scrollback.symm

end Screen

namespace VT100

variable {u v v' : VT100} {d : Display} {toks : List VT100TCC} {bytes : List UInt8}

def display (v : VT100) : Display := v.screen.display v.terminal

theorem displays_display (h : v.Wf) : v.Displays v.display := ⟨h, Screen.shows_display _ _⟩

theorem Displays.sameState (h : u.Displays d) (hsame : SameState u v) (hv : v.Wf) :
    v.Displays d := by
  refine ⟨hv, (shows_other h.2 ?_).sameButDirty hsame.screen⟩
  obtain ⟨stream, len, total, off, hmodes⟩ := hsame.modes
  rw [hmodes]
  rfl

/-! ## Runs of tokens -/

/-- A run of tokens completes, and does to what is shown what the tokens say. The hypothesis
is that each token finds what it needs in the state the tokens before it have led to; the
result is about the end of the run and thereby, applied to the parts of the run, about
every state on the way. -/
theorem run_display (h : v.Wf) (hrun : Guarded (execute F) Admits v toks) :
    Refines Displays (toks.foldlM (execute F) v) (toks.foldl (Display.execute F) v.display) :=
  run_shows (displays_display h) hrun

/-- A new object with margins: the second and the third row. -/
theorem region_set : ∃ v v', VT100.init ⟨0, 0, 0⟩ = .ok v ∧
    v.readInputStream Foundation.latin1 setMarginsBytes = .ok v' ∧ v'.Wf ∧
    v'.display.cursorY = 0 ∧ v'.display.scrollTop = 1 ∧ v'.display.scrollBottom = 2 ∧
    v'.screen.RegionInFront := by
  obtain ⟨v, hv, ht, hs⟩ := init_fresh ⟨0, 0, 0⟩
  obtain ⟨v', hv', hd, -, hwf, -, -⟩ := readInputStream_setMargins (F := Foundation.latin1)
    (init_wf hv) (by rw [ht]; rfl) (by rw [hs.height_eq]; decide) (by rw [ht]; rfl)
  refine ⟨v, v', hv, hv', hwf, hd.cursor_eq.2, hd.margins_eq.1, hd.margins_eq.2, ?_⟩
  have hmax := (init_wf hv).screen.max_pos
  have hheight := hs.height_eq
  have hrows : 3 ≤ kDefaultHeight.toNat := by decide
  have hT : v.screen.totalHeight = v.screen.maxScrollbackLines + v.screen.height := rfl
  have hplace : v'.screen.topLine = 0 ∧ v'.screen.totalHeight = v.screen.totalHeight := by
    obtain ⟨⟨b, d, line, fg, bg, w, -, -, heq⟩, -⟩ := hd
    rw [heq]
    exact ⟨hs.top_eq, rfl⟩
  rw [Screen.RegionInFront, hplace.1, hplace.2, hd.margins_eq.1]
  show (0 : Int) + 1 < _
  omega

/-- Above margins in the rows 1 and 2: an `a` is printed, and a carriage return goes back to
the start of the row. -/
theorem margins_run_display : ∃ v v' u, VT100.init ⟨0, 0, 0⟩ = .ok v ∧
    v.readInputStream Foundation.latin1 setMarginsBytes = .ok v' ∧
    [textToken [0x61], { type := .cc 13 }].foldlM (execute Foundation.latin1) v' = .ok u ∧
    u.Displays ([textToken [0x61], { type := .cc 13 }].foldl
      (Display.execute Foundation.latin1) v'.display) := by
  obtain ⟨v, v', hv, hv', hwf, hy, htop, hbottom, hfront⟩ := region_set
  have hm := hwf.screen.margins
  have hroom : v'.screen.OnScreen ∧ v'.screen.RoomForText := by
    have hy : v'.screen.cursorY = 0 := hy
    have htop : v'.screen.scrollTop = 1 := htop
    have hbottom : v'.screen.scrollBottom = 2 := hbottom
    exact ⟨⟨by omega, by omega⟩, Or.inr ⟨by omega, hfront, by omega⟩⟩
  have hrun : Guarded (execute Foundation.latin1) Admits v'
      [textToken [0x61], { type := .cc 13 }] :=
    .cons ⟨rfl, by decide, fun _ => hroom⟩ fun _ _ =>
      .cons ⟨rfl, by decide, trivial⟩ fun _ _ => .nil
  obtain ⟨u, hu, hshows⟩ := run_display hwf hrun
  exact ⟨v, v', u, hv, hv', hu, hshows⟩

/-! ## Streams -/

/-- The tokens of a legible stream have parameters in range; what they need is what the
screen needs. -/
theorem Guarded_proper (hproper : ∀ tok ∈ toks, tok.Proper)
    (hrun : Guarded (execute F) (fun v tok => v.screen.Admits tok) v toks) :
    Guarded (execute F) Admits v toks := by
  induction hrun with
  | nil => exact .nil
  | @cons v tok toks hadmits _ ih =>
      have htok := hproper tok (List.mem_cons_self ..)
      exact .cons ⟨htok.size, htok.count, hadmits⟩ fun v₁ h₁ =>
        ih v₁ h₁ fun tok' htok' => hproper tok' (List.mem_cons_of_mem tok htok')

/-- When the tokens of a stream can be executed, reading it does that. -/
theorem readInputStream_executes (hF : F.AsciiExact) (h : v.Wf) (hempty : v.terminal.pending = [])
    (hlegible : Legible bytes)
    (hrun : (tokensOf v.screen.height bytes).foldlM (execute F) v = .ok u) :
    ∃ v', v.readInputStream F bytes = .ok v' ∧ Rest (unfinished v.screen.height bytes) u v' := by
  have hread := readInputStream_tokens hF h hempty hlegible
  rw [hrun] at hread
  cases hok : v.readInputStream F bytes with
  | error e =>
      rw [hok] at hread
      cases hread
  | ok v' =>
      rw [hok] at hread
      exact ⟨v', rfl, hread⟩

theorem feed_wf {chunks : List (List UInt8)} (h : v.Wf) (hok : feed F chunks v = .ok v') :
    v'.Wf :=
  foldlM_inv (P := Wf) (fun _ _ _ hwf hread => readInputStream_wf hwf hread) h hok

theorem feed_executes (hF : F.AsciiExact) (h : v.Wf) (hempty : v.terminal.pending = [])
    (hlegible : Legible bytes)
    (hrun : (tokensOf v.screen.height bytes).foldlM (execute F) v = .ok u)
    {chunk : List UInt8} {chunks : List (List UInt8)}
    (hchunks : (chunk :: chunks).flatten = bytes) :
    ∃ v', feed F (chunk :: chunks) v = .ok v' ∧ Rest (unfinished v.screen.height bytes) u v' := by
  obtain ⟨u', hu', hrest⟩ := readInputStream_executes hF h hempty hlegible hrun
  rw [List.flatten_cons] at hchunks
  have hfeed := feed_cons hF h chunk chunks
    (by rw [hempty, List.nil_append, hchunks]; exact hlegible.ascii)
    (by rw [hempty, List.nil_append, hchunks]; exact hlegible.clean)
  rw [hchunks, hu'] at hfeed
  cases hok : feed F (chunk :: chunks) v with
  | error e =>
      rw [hok] at hfeed
      cases hfeed
  | ok v' =>
      rw [hok] at hfeed
      have halike : Alike v' u' := hfeed
      exact ⟨v', rfl, hrest.toSameState.trans halike.toSameState.symm, hrest.left, feed_wf h hok,
        halike.pending_eq.symm.trans hrest.pending_eq⟩

/-- What is read is shown. -/
theorem readInputStream_display (hF : F.AsciiExact) (h : v.Wf) (hempty : v.terminal.pending = [])
    (hlegible : Legible bytes) (hrun : Guarded (execute F) (fun v tok => v.screen.Admits tok) v
      (tokensOf v.screen.height bytes)) :
    Refines (fun v' d => v'.Displays d ∧ v'.terminal.pending = unfinished v.screen.height bytes)
      (v.readInputStream F bytes)
      ((tokensOf v.screen.height bytes).foldl (Display.execute F) v.display) := by
  have hguard := Guarded_proper (tokens_proper hlegible _) hrun
  obtain ⟨u, hu, hshows⟩ := run_shows (displays_display h) hguard
  obtain ⟨v', hok, hrest⟩ := readInputStream_executes hF h hempty hlegible hu
  exact ⟨v', hok, hshows.sameState hrest.toSameState hrest.right, hrest.pending_eq⟩

/-- What is fed in chunks is shown. -/
theorem feed_display (hF : F.AsciiExact) (h : v.Wf) (hempty : v.terminal.pending = [])
    (hlegible : Legible bytes) (hrun : Guarded (execute F) (fun v tok => v.screen.Admits tok) v
      (tokensOf v.screen.height bytes)) {chunk : List UInt8} {chunks : List (List UInt8)}
    (hchunks : (chunk :: chunks).flatten = bytes) :
    Refines (fun v' d => v'.Displays d ∧ v'.terminal.pending = unfinished v.screen.height bytes)
      (feed F (chunk :: chunks) v)
      ((tokensOf v.screen.height bytes).foldl (Display.execute F) v.display) := by
  have hguard := Guarded_proper (tokens_proper hlegible _) hrun
  obtain ⟨u, hu, hshows⟩ := run_shows (displays_display h) hguard
  obtain ⟨v', hok, hrest⟩ := feed_executes hF h hempty hlegible hu hchunks
  exact ⟨v', hok, hshows.sameState hrest.toSameState hrest.right, hrest.pending_eq⟩

end VT100

end MobileTerminal
