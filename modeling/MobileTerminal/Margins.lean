import MobileTerminal.Asserts
import MobileTerminal.Sequence

/-!
# Margins and columns

`SCROLL_TOP <= SCROLL_BOTTOM`, the column and the saved column stay inside the
screen in every run, whatever bytes arrive. The code relies on this without ever
repairing it: `scrollUp` and `scrollDown` assert it at their head, and
`restoreCursorPosition` asserts that the saved column is one of the screen.

Nothing new has to be proved about the handlers for it. The margins and both
columns are part of the well-formedness `Screen.Wf`, which the modules on the
handlers have shown to be kept, and `Avoids` says of each handler which
assertions it cannot trip. What is left is to carry this from a token to the
loop over tokens (`tokenLoop_avoids`) and from there to a whole call.

The row of the cursor is another matter: it does leave the screen, and the
module on it says when.
-/

namespace MobileTerminal

variable {F : Foundation} {bad : Fault Site → Prop}

/-- The assertions at the head of `scrollUp` and `scrollDown`, and the one of
`restoreCursorPosition` on the column. -/
def isMarginFault : Fault Site → Prop
  | .assertion .scrollTop => True
  | .assertion .scrollBottom => True
  | .assertion .scrollOrder => True
  | .assertion .restoreX => True
  | _ => False

/-- The margins and the two columns are those of rows and columns of the screen. The column
may be `WIDTH`, which is where it stands after the last cell of a line has been written.
-/
structure Screen.MarginsOk (s : Screen) : Prop where
  margins : 0 ≤ s.scrollTop ∧ s.scrollTop ≤ s.scrollBottom ∧ s.scrollBottom < s.height
  column : 0 ≤ s.cursorX ∧ s.cursorX < s.width
  saved_column : 0 ≤ s.saveCursorX ∧ s.saveCursorX < s.width

namespace VT100

variable {v : VT100}

theorem refresh_avoids (v : VT100) : Avoids bad v.refresh :=
  Avoids.bind (Screen.refresh_avoids _) fun _ _ => .ok _

theorem putStreamData_avoids {data : List UInt8} (v : VT100) : Avoids bad (v.putStreamData data) :=
  Avoids.bind (Avoids.bind (Block.copy_avoids _ _ _ _ _) fun _ _ => .ok _) fun _ _ => .ok _

/-- A property of well-formed states that every token keeps also keeps the token
loop from tripping the assertions it guards. -/
theorem tokenLoop_avoids {P : VT100 → Prop} (hd : ¬bad .diverges)
    (hnext : ∀ v, P v → Avoids bad (v.getNextToken F))
    (hput : ∀ v tok v', P v → v.getNextToken F = .ok (tok, v') →
      Avoids bad (v'.processToken F tok))
    (hkeep : ∀ v tok v' v'', P v → v.getNextToken F = .ok (tok, v') →
      v'.processToken F tok = .ok v'' → P v'')
    {fuel : Nat} (h : P v) : Avoids bad (tokenLoop F fuel v) := by
  induction fuel generalizing v with
  | zero => exact .diverges hd
  | succ fuel ih =>
      refine Avoids.bind (hnext v h) fun q hq => ?_
      obtain ⟨tok, v₁⟩ := q
      refine .ite (fun _ => refresh_avoids v₁) fun _ => ?_
      exact Avoids.bind (hput v tok v₁ h hq) fun v₂ h₂ => ih (hkeep v tok v₁ v₂ h hq h₂)

theorem getNextToken_avoids_margins (h : v.Wf) : Avoids isMarginFault (v.getNextToken F) :=
  getNextToken_avoids (fun _ => h.screen) (by simp [isMarginFault]) (by simp [isMarginFault])
    (by simp [isMarginFault]) (by simp [isMarginFault])

theorem processToken_avoids_margins (h : v.Wf) (tok : VT100TCC) :
    Avoids isMarginFault (v.processToken F tok) :=
  processToken_avoids (fun _ => h.screen) (by simp [isMarginFault])

theorem readInputStream_avoids_margins (h : v.Wf) (data : List UInt8) :
    Avoids isMarginFault (v.readInputStream F data) := by
  refine Avoids.bind (putStreamData_avoids v) fun v₁ h₁ => ?_
  exact tokenLoop_avoids (P := Wf) id (fun _ h => getNextToken_avoids_margins h)
    (fun _ tok _ h hq => processToken_avoids_margins (getNextToken_wf h hq) tok)
    (fun _ _ _ _ h hq hok => processToken_wf (getNextToken_wf h hq) hok) (putStreamData_wf h h₁)

/-- Margins and columns are valid in every state a run reaches, after every token
and between the calls, and no token and no call trips an assertion about them. -/
theorem reachable_margins {c : Config} (h : Reachable F c) :
    c.2.screen.MarginsOk ∧
      Avoids isMarginFault (c.2.getNextToken F) ∧
      (∀ tok, Avoids isMarginFault (c.2.processToken F tok)) ∧
      (∀ data, Avoids isMarginFault (c.2.readInputStream F data)) ∧
      (∀ width height, Avoids isMarginFault (c.2.setScreenSize width height)) ∧
      Avoids isMarginFault c.2.clearScreen := by
  have hwf := reachable_wf h
  refine ⟨⟨hwf.screen.margins, hwf.screen.column, hwf.screen.saved_column⟩,
    getNextToken_avoids_margins hwf, processToken_avoids_margins hwf,
    readInputStream_avoids_margins hwf, fun width height => ?_, ?_⟩
  · refine Avoids.bind (Screen.resizeWidth_avoids id ?_) fun _ _ => .ok _
    simp [isMarginFault]
  · exact Avoids.bind (Screen.clearBuffer_avoids _) fun _ _ => .ok _

/-- After a text and `ESC [ 2 ; 3 r` on a new object. -/
theorem text_margins : ∃ v v₁ v₂, VT100.init ⟨0, 0, 0⟩ = .ok v ∧
    v.readInputStream Foundation.latin1 textBytes = .ok v₁ ∧
    v₁.readInputStream Foundation.latin1 setMarginsBytes = .ok v₂ ∧
    (v₂.screen.scrollTop = 1 ∧ v₂.screen.scrollBottom = 2) ∧ v₂.screen.MarginsOk ∧
    (∀ data, Avoids isMarginFault (v₂.readInputStream Foundation.latin1 data)) ∧
    ∀ width height, Avoids isMarginFault (v₂.setScreenSize width height) := by
  obtain ⟨v, v₁, v₂, hv, h₁, h₂, -, hm, -⟩ :=
    init_text_setMargins Foundation.latin1_asciiExact ⟨0, 0, 0⟩
  have hreach := ((init_reachable hv).readInputStream h₁).readInputStream h₂
  obtain ⟨hok, -, -, hread, hsize, -⟩ := reachable_margins hreach
  exact ⟨v, v₁, v₂, hv, h₁, h₂, hm, hok, hread, hsize⟩

end VT100

end MobileTerminal
