import MobileTerminal.Sgr

/-!
# SGR sequences with several items

A user of the terminal thinks of an SGR sequence as a list of items, each of
which does what it does on its own. Two things in the code stand against that.

`setCharAttr:` takes `38;5;c` for a 256-colour item only when the sequence holds
nothing else. In a longer sequence the three numbers are read one by one: `38`
does nothing, `5` starts blinking, and `c` is whatever attribute has that
number. So a sequence of several items does what the items do one by one exactly
when, for every field, this reading ends with the same value (`sgr_items_iff`).
Sequences without 256-colour items are always among them, but there are others:
a later item may overwrite what the wrong reading has set.

A parameter left blank is 0, except at the end, where it is not counted. So a
sequence does what it does with zeros for its blanks exactly when its last
blank, if it has one, makes no difference (`sgr_blanks_iff`).

Both are statements about lists of writes, of which the last to a field wins;
bytes and the scan of them do not occur in the proofs.
-/

namespace MobileTerminal

variable {F : Foundation}

/-! ## Items

What an item sets when it is taken whole, against what it sets when each of its
numbers stands for itself. -/

/-- An SGR item, by its parameters: an attribute number, or `38;5;c` or `48;5;c`. -/
structure SgrItem where
  params : List (List UInt8)
  digits : IsParams params
  filled : ∀ p ∈ params, p ≠ []
  shape : (∃ n, params.map sgrNumber = [n] ∧ n ≠ 38 ∧ n ≠ 48) ∨
    ∃ k c, params.map sgrNumber = [k, 5, c] ∧ (k = 38 ∨ k = 48)

namespace SgrItem

def numbers (item : SgrItem) : List Int := item.params.map sgrNumber

/-- What the item sets when it is taken whole. -/
def writes (item : SgrItem) : Attr → Option Int := sgrWrites item.numbers

/-- What the item sets when each of its numbers stands for itself. -/
def separateWrites (item : SgrItem) : Attr → Option Int := lastWrite attrWrites item.numbers

theorem length_cases (item : SgrItem) : item.params.length = 1 ∨ item.params.length = 3 := by
  rcases item.shape with ⟨n, h, -⟩ | ⟨k, c, h, -⟩
  · exact Or.inl (by simpa using congrArg List.length h)
  · exact Or.inr (by simpa using congrArg List.length h)

theorem params_ne (item : SgrItem) : item.params ≠ [] := by
  intro h
  have := item.length_cases
  simp [h] at this

theorem length_le (item : SgrItem) : item.params.length ≤ 16 := by
  have := item.length_cases
  omega

/-- An item that starts with `38` or `48` is a colour. -/
theorem head_cases (item : SgrItem) {n : Int} {ns : List Int} (h : item.numbers = n :: ns) :
    ns = [] ∧ n ≠ 38 ∧ n ≠ 48 ∨ ns.length = 2 := by
  rcases item.shape with ⟨m, hm, h38, h48⟩ | ⟨k, c, hkc, -⟩
  · obtain ⟨rfl, rfl⟩ := List.cons.inj (h.symm.trans hm)
    exact Or.inl ⟨rfl, h38, h48⟩
  · obtain ⟨rfl, rfl⟩ := List.cons.inj (h.symm.trans hkc)
    exact Or.inr rfl

/-- The item of one attribute number. -/
def single (p : List UInt8) (hne : p ≠ []) (hdigits : ∀ b ∈ p, isDigit b = true)
    (hnumber : sgrNumber p ≠ 38 ∧ sgrNumber p ≠ 48) : SgrItem where
  params := [p]
  digits := by simpa [IsParams] using hdigits
  filled := by simpa using hne
  shape := Or.inl ⟨sgrNumber p, rfl, hnumber⟩

/-- Where several items do what they do one by one. -/
def Composes (a : Attr → Int) : List SgrItem → Prop
  | [] => a = attrOff
  | [_] => True
  | items => ∀ k, (lastWrite separateWrites items k).getD (a k) = (lastWrite writes items k).getD (a k)

end SgrItem

theorem sgrNumbers_filled {params : List (List UInt8)} (h : ∀ p ∈ params, p ≠ []) :
    sgrNumbers params = params.map sgrNumber := by
  have hlast : params.getLast? ≠ some [] := fun hlast => h [] (List.mem_of_getLast? hlast) rfl
  rw [sgrNumbers, if_neg hlast]

/-- With two items or more the numbers never are one 256-colour item. -/
theorem not_colour256 {item item' : SgrItem} {items : List SgrItem} :
    isColour256 ((item :: item' :: items).flatMap SgrItem.numbers) = false := by
  obtain ⟨n, ns, hn⟩ := List.exists_cons_of_ne_nil (show item.numbers ≠ [] by
    simpa [SgrItem.numbers] using item.params_ne)
  obtain ⟨m, ms, hm⟩ := List.exists_cons_of_ne_nil (show item'.numbers ≠ [] by
    simpa [SgrItem.numbers] using item'.params_ne)
  rw [List.flatMap_cons, List.flatMap_cons, hn, hm]
  rcases item.head_cases hn with ⟨rfl, h38, h48⟩ | hlen
  · -- the first number is no `38` and no `48`
    unfold isColour256
    split
    · rename_i heq
      obtain ⟨rfl, -⟩ := List.cons.inj heq
      simp [h38, h48]
    · rfl
  · -- there are more than three numbers
    obtain ⟨a, b, rfl⟩ := List.length_eq_two.mp hlen
    unfold isColour256
    split
    · rename_i heq
      simp at heq
    · rfl

namespace VT100

variable {v : VT100}

theorem feedSgr_items (h : v.Wf) (hempty : v.terminal.pending = []) (items : List SgrItem) :
    ∃ v', v.feedSgr F (items.map SgrItem.params) = .ok v' ∧
      v'.terminal.attr = overwriteAll SgrItem.writes items v.terminal.attr := by
  have hrun : ∀ params ∈ items.map SgrItem.params, IsParams params ∧ params.length ≤ 16 := by
    intro params hmem
    obtain ⟨item, -, rfl⟩ := List.mem_map.mp hmem
    exact ⟨item.digits, item.length_le⟩
  obtain ⟨v', h', -, -, hattr⟩ := feedSgr_attr (F := F) h hempty hrun
  refine ⟨v', h', ?_⟩
  rw [hattr, overwriteAll, List.foldl_map]
  simp only [sgrNumbers_filled (SgrItem.filled _)]
  rfl

/-- What one sequence with all items does, and what a sequence for each item does. -/
theorem sgr_items (h : v.Wf) (hempty : v.terminal.pending = []) (items : List SgrItem)
    (hlen : (items.flatMap SgrItem.params).length ≤ 16) :
    ∃ v₁ v₂, v.readInputStream F (csiSequence [] (items.flatMap SgrItem.params) sgrByte) = .ok v₁ ∧
      v.feedSgr F (items.map SgrItem.params) = .ok v₂ ∧
      v₁.terminal.attr =
        overwrite (sgrWrites (items.flatMap SgrItem.numbers)) v.terminal.attr ∧
      v₂.terminal.attr = overwriteAll SgrItem.writes items v.terminal.attr := by
  have hdigits : IsParams (items.flatMap SgrItem.params) := by
    intro p hp
    obtain ⟨item, -, hp⟩ := List.mem_flatMap.mp hp
    exact item.digits p hp
  have hfilled : ∀ p ∈ items.flatMap SgrItem.params, p ≠ [] := by
    intro p hp
    obtain ⟨item, -, hp⟩ := List.mem_flatMap.mp hp
    exact item.filled p hp
  obtain ⟨v₁, h₁, -, -, hattr₁, -⟩ := readInputStream_sgr (F := F) h hempty hdigits hlen
  obtain ⟨v₂, h₂, hattr₂⟩ := feedSgr_items (F := F) h hempty items
  refine ⟨v₁, v₂, h₁, h₂, ?_, hattr₂⟩
  rw [hattr₁, sgrNumbers_filled hfilled, List.map_flatMap]
  rfl

/-- A sequence of several items has the effect of the items one by one exactly when they
compose. Both sides are read by the terminal, the items in one sequence of at most 16
parameters and each item in a sequence of its own; that the calls complete is part of the
result. -/
theorem sgr_items_iff (h : v.Wf) (hempty : v.terminal.pending = []) (items : List SgrItem)
    (hlen : (items.flatMap SgrItem.params).length ≤ 16) :
    ∃ v₁ v₂, v.readInputStream F (csiSequence [] (items.flatMap SgrItem.params) sgrByte) = .ok v₁ ∧
      v.feedSgr F (items.map SgrItem.params) = .ok v₂ ∧
      (v₁.terminal.attr = v₂.terminal.attr ↔ SgrItem.Composes v.terminal.attr items) := by
  obtain ⟨v₁, v₂, h₁, h₂, hattr₁, hattr₂⟩ := sgr_items (F := F) h hempty items hlen
  refine ⟨v₁, v₂, h₁, h₂, ?_⟩
  rw [hattr₁, hattr₂]
  match items with
  | [] =>
      -- `ESC [ m` is all attributes off
      have hoff : overwrite (sgrWrites []) v.terminal.attr = attrOff := rfl
      rw [List.flatMap_nil, hoff]
      exact eq_comm
  | [item] =>
      rw [List.flatMap_cons, List.flatMap_nil, List.append_nil]
      exact iff_of_true rfl trivial
  | item :: item' :: items =>
      have hne : (item :: item' :: items).flatMap SgrItem.numbers ≠ [] := by
        simp [SgrItem.numbers, item.params_ne]
      rw [sgrWrites, if_neg hne, not_colour256, if_neg (by simp), funext_iff]
      refine forall_congr' fun k => ?_
      rw [overwrite, lastWrite_flatMap, overwriteAll_apply]
      rfl

def boldItem : SgrItem :=
  .single [0x31] (by simp) (by simp [isDigit]) (by simp [sgrNumber, decimal, decimalFrom, cint])

def blueItem : SgrItem :=
  .single [0x34, 0x34] (by simp) (by simp [isDigit])
    (by simp [sgrNumber, decimal, decimalFrom, cint])

/-- The foreground is colour 196. -/
def redItem : SgrItem where
  params := [[0x33, 0x38], [0x35], [0x31, 0x39, 0x36]]
  digits := by simp [IsParams, isDigit]
  filled := by simp
  shape := Or.inr
    ⟨38, 196, by simp [sgrNumber, decimal, decimalFrom, cint], by decide⟩

theorem boldItem_numbers : boldItem.numbers = [1] := by
  show [sgrNumber [0x31]] = [1]
  simp [sgrNumber, decimal, decimalFrom, cint]

theorem blueItem_numbers : blueItem.numbers = [44] := by
  show [sgrNumber [0x34, 0x34]] = [44]
  simp [sgrNumber, decimal, decimalFrom, cint]

theorem redItem_numbers : redItem.numbers = [38, 5, 196] := by
  simp [redItem, SgrItem.numbers, sgrNumber, decimal, decimalFrom, cint]

/-- `ESC [ 1 ; 4 4 m` on a new object: bold on a blue background, as with two sequences. -/
theorem init_bold_blue : ∃ v v₁ v₂, VT100.init ⟨0, 0, 0⟩ = .ok v ∧
    v.readInputStream Foundation.latin1
      (csiSequence [] ([boldItem, blueItem].flatMap SgrItem.params) sgrByte) = .ok v₁ ∧
    v.feedSgr Foundation.latin1 ([boldItem, blueItem].map SgrItem.params) = .ok v₂ ∧
    v₁.terminal.attr = v₂.terminal.attr := by
  obtain ⟨v, hv, ht, -⟩ := init_fresh ⟨0, 0, 0⟩
  have hempty : v.terminal.pending = [] := by
    rw [ht]
    rfl
  obtain ⟨v₁, v₂, h₁, h₂, hiff⟩ := sgr_items_iff (F := Foundation.latin1) (init_wf hv) hempty
    [boldItem, blueItem] (by decide)
  refine ⟨v, v₁, v₂, hv, h₁, h₂, hiff.mpr ?_⟩
  intro k
  simp only [lastWrite, SgrItem.separateWrites, SgrItem.writes, boldItem_numbers,
    blueItem_numbers]
  cases k <;> rfl

/-- `ESC [ 1 ; 3 8 ; 5 ; 1 9 6 m` on a new object starts blinking and leaves the
foreground as it was. -/
theorem init_bold_red : ∃ v v₁ v₂, VT100.init ⟨0, 0, 0⟩ = .ok v ∧
    v.readInputStream Foundation.latin1
      (csiSequence [] ([boldItem, redItem].flatMap SgrItem.params) sgrByte) = .ok v₁ ∧
    v.feedSgr Foundation.latin1 ([boldItem, redItem].map SgrItem.params) = .ok v₂ ∧
    v₁.terminal.blink = 1 ∧ v₁.terminal.fgColorcode = fgColorCodeDefault ∧
    v₂.terminal.blink = 0 ∧ v₂.terminal.fgColorcode = 196 ∧
    v₁.terminal.attr ≠ v₂.terminal.attr := by
  obtain ⟨v, hv, ht, -⟩ := init_fresh ⟨0, 0, 0⟩
  have hempty : v.terminal.pending = [] := by
    rw [ht]
    rfl
  obtain ⟨v₁, v₂, h₁, h₂, hattr₁, hattr₂⟩ := sgr_items (F := Foundation.latin1) (init_wf hv)
    hempty [boldItem, redItem] (by decide)
  simp only [List.flatMap_cons, List.flatMap_nil, boldItem_numbers, redItem_numbers, ht] at hattr₁
  simp only [overwriteAll, List.foldl_cons, List.foldl_nil, SgrItem.writes, boldItem_numbers,
    redItem_numbers, ht] at hattr₂
  have hblink₁ : v₁.terminal.blink = 1 := congrFun hattr₁ .blink
  have hfg₁ : v₁.terminal.fgColorcode = fgColorCodeDefault := congrFun hattr₁ .fg
  have hblink₂ : v₂.terminal.blink = 0 := congrFun hattr₂ .blink
  have hfg₂ : v₂.terminal.fgColorcode = 196 := congrFun hattr₂ .fg
  refine ⟨v, v₁, v₂, hv, h₁, h₂, hblink₁, hfg₁, hblink₂, hfg₂, fun heq => ?_⟩
  have hblink : v₁.terminal.blink = v₂.terminal.blink := congrFun heq .blink
  rw [hblink₁, hblink₂] at hblink
  cases hblink

end VT100

/-! ## Blanks -/

/-- Every blank is written as a zero. -/
def zeroFilled (params : List (List UInt8)) : List (List UInt8) :=
  params.map fun p => if p = [] then [0x30] else p

/-- Where it makes no difference that a last blank after the numbers `ns` is not counted:
all attributes are off already, or, where the blank would complete a 256-colour item, the
terminal blinks and has the colour 0 already. -/
def BlankHarmless (a : Attr → Int) (ns : List Int) : Prop :=
  if ns = [38, 5] then a .blink = 1 ∧ a .fg = 0
  else if ns = [48, 5] then a .blink = 1 ∧ a .bg = 0
  else ∀ k, (sgrWrites ns k).getD (a k) = attrOff k

/-- Every blank is read as a zero. -/
def BlanksAreZero (a : Attr → Int) (params : List (List UInt8)) : Prop :=
  params.getLast? = some [] →
    params.length = 1 ∨ BlankHarmless a (params.dropLast.map sgrNumber)

theorem IsParams.zeroFilled {params : List (List UInt8)} (hp : IsParams params) :
    IsParams (zeroFilled params) := by
  intro p hmem
  obtain ⟨q, hq, rfl⟩ := List.mem_map.mp hmem
  split
  · simp [isDigit]
  · exact hp q hq

theorem sgrNumbers_zeroFilled (params : List (List UInt8)) :
    sgrNumbers (zeroFilled params) = params.map sgrNumber := by
  rw [sgrNumbers_filled, zeroFilled, List.map_map]
  · refine List.map_congr_left fun p _ => ?_
    by_cases hp : p = []
    · subst hp
      simp [sgrNumber, decimal, decimalFrom]
    · simp [hp]
  · intro p hmem
    obtain ⟨q, -, rfl⟩ := List.mem_map.mp hmem
    by_cases hq : q = []
    · simp [hq]
    · simp [hq]

/-- A zero after other numbers switches all attributes off, unless it completes a
256-colour item. -/
theorem sgrWrites_zero {ns : List Int} (h38 : ns ≠ [38, 5]) (h48 : ns ≠ [48, 5]) :
    sgrWrites (ns ++ [0]) = fun k => some (attrOff k) := by
  have hnot : isColour256 (ns ++ [0]) = false := by
    unfold isColour256
    split
    · rename_i k c heq
      have hsplit : ns ++ [0] = [k, 5] ++ [c] := heq
      have hns : ns = [k, 5] := List.append_inj_left' hsplit rfl
      have hk38 : k ≠ 38 := fun hk => h38 (by rw [hns, hk])
      have hk48 : k ≠ 48 := fun hk => h48 (by rw [hns, hk])
      simp [hk38, hk48]
    · rfl
  funext k
  rw [sgrWrites, if_neg (by simp), hnot, if_neg (by simp), lastWrite_append]
  cases k <;> rfl

/-- What a last blank does, and what a zero in its place does. -/
theorem blank_iff {ns : List Int} (a : Attr → Int) :
    overwrite (sgrWrites ns) a = overwrite (sgrWrites (ns ++ [0])) a ↔
      ns = [] ∨ BlankHarmless a ns := by
  unfold BlankHarmless
  split
  · subst ns
    constructor
    · intro heq
      exact Or.inr ⟨(congrFun heq .blink).symm, congrFun heq .fg⟩
    · rintro (hnil | ⟨hblink, hfg⟩)
      · cases hnil
      · funext k
        cases k with
        | blink => exact hblink.symm
        | fg => exact hfg
        | _ => rfl
  · split
    · subst ns
      constructor
      · intro heq
        exact Or.inr ⟨(congrFun heq .blink).symm, congrFun heq .bg⟩
      · rintro (hnil | ⟨hblink, hbg⟩)
        · cases hnil
        · funext k
          cases k with
          | blink => exact hblink.symm
          | bg => exact hbg
          | _ => rfl
    · rename_i h38 h48
      rw [sgrWrites_zero h38 h48, funext_iff]
      constructor
      · exact Or.inr
      · rintro (rfl | hoff)
        · exact fun _ => rfl
        · exact hoff

namespace VT100

variable {v : VT100}

theorem sgr_blanks (h : v.Wf) (hempty : v.terminal.pending = []) {params : List (List UInt8)}
    (hp : IsParams params) (hlen : params.length ≤ 16) :
    ∃ v₁ v₂, v.readInputStream F (csiSequence [] params sgrByte) = .ok v₁ ∧
      v.readInputStream F (csiSequence [] (zeroFilled params) sgrByte) = .ok v₂ ∧
      v₁.terminal.attr = overwrite (sgrWrites (sgrNumbers params)) v.terminal.attr ∧
      v₂.terminal.attr = overwrite (sgrWrites (params.map sgrNumber)) v.terminal.attr := by
  obtain ⟨v₁, h₁, -, -, hattr₁, -⟩ := readInputStream_sgr (F := F) h hempty hp hlen
  obtain ⟨v₂, h₂, -, -, hattr₂, -⟩ := readInputStream_sgr (F := F) h hempty hp.zeroFilled
    (by simpa [zeroFilled] using hlen)
  rw [sgrNumbers_zeroFilled] at hattr₂
  exact ⟨v₁, v₂, h₁, h₂, hattr₁, hattr₂⟩

/-- A sequence has the effect it has with zeros for its blanks exactly when its last blank, if
it has one, makes no difference. Blanks before the last parameter are always read as
zeros. -/
theorem sgr_blanks_iff (h : v.Wf) (hempty : v.terminal.pending = []) {params : List (List UInt8)}
    (hp : IsParams params) (hne : params ≠ []) (hlen : params.length ≤ 16) :
    ∃ v₁ v₂, v.readInputStream F (csiSequence [] params sgrByte) = .ok v₁ ∧
      v.readInputStream F (csiSequence [] (zeroFilled params) sgrByte) = .ok v₂ ∧
      (v₁.terminal.attr = v₂.terminal.attr ↔ BlanksAreZero v.terminal.attr params) := by
  obtain ⟨v₁, v₂, h₁, h₂, hattr₁, hattr₂⟩ := sgr_blanks (F := F) h hempty hp hlen
  refine ⟨v₁, v₂, h₁, h₂, ?_⟩
  obtain ⟨ps, last, rfl⟩ : ∃ ps last, params = ps ++ [last] :=
    ⟨params.dropLast, params.getLast hne, (List.dropLast_append_getLast hne).symm⟩
  rw [hattr₁, hattr₂, sgrNumbers_concat, BlanksAreZero, List.getLast?_concat,
    List.dropLast_concat]
  by_cases hlast : last = []
  · subst hlast
    have hone : (ps ++ [[]]).length = 1 ↔ ps.map sgrNumber = [] := by simp
    have hzero : (ps ++ [[]]).map sgrNumber = ps.map sgrNumber ++ [0] := by
      simp [sgrNumber, decimal, decimalFrom, cint]
    rw [if_pos rfl, hzero, blank_iff, hone]
    simp
  · rw [if_neg hlast]
    exact iff_of_true rfl fun h => absurd (Option.some.inj h) hlast

/-- `ESC [ ; 4 m` on a new object: the blank switches all attributes off, as a zero does, and
the text is underlined. -/
theorem init_blank_first : ∃ v v₁ v₂, VT100.init ⟨0, 0, 0⟩ = .ok v ∧
    v.readInputStream Foundation.latin1 (csiSequence [] [[], [0x34]] sgrByte) = .ok v₁ ∧
    v.readInputStream Foundation.latin1 (csiSequence [] (zeroFilled [[], [0x34]]) sgrByte) =
      .ok v₂ ∧
    v₁.terminal.attr = v₂.terminal.attr := by
  obtain ⟨v, hv, ht, -⟩ := init_fresh ⟨0, 0, 0⟩
  have hempty : v.terminal.pending = [] := by
    rw [ht]
    rfl
  have hp : IsParams [[], [0x34]] := by simp [IsParams, isDigit]
  obtain ⟨v₁, v₂, h₁, h₂, hiff⟩ := sgr_blanks_iff (F := Foundation.latin1) (init_wf hv) hempty hp
    (by simp) (by simp)
  exact ⟨v, v₁, v₂, hv, h₁, h₂, hiff.mpr fun hlast => by simp at hlast⟩

/-- `ESC [ 1 ; m` on a new object is bold, and `ESC [ 1 ; 0 m` is not. -/
theorem init_blank_last : ∃ v v₁ v₂, VT100.init ⟨0, 0, 0⟩ = .ok v ∧
    v.readInputStream Foundation.latin1 (csiSequence [] [[0x31], []] sgrByte) = .ok v₁ ∧
    v.readInputStream Foundation.latin1 (csiSequence [] (zeroFilled [[0x31], []]) sgrByte) =
      .ok v₂ ∧
    v₁.terminal.bold = 1 ∧ v₂.terminal.bold = 0 ∧ v₁.terminal.attr ≠ v₂.terminal.attr := by
  obtain ⟨v, hv, ht, -⟩ := init_fresh ⟨0, 0, 0⟩
  have hempty : v.terminal.pending = [] := by
    rw [ht]
    rfl
  have hp : IsParams [[0x31], []] := by simp [IsParams, isDigit]
  obtain ⟨v₁, v₂, h₁, h₂, hattr₁, hattr₂⟩ := sgr_blanks (F := Foundation.latin1) (init_wf hv)
    hempty hp (by simp)
  have hns : sgrNumbers [[0x31], []] = [1] := by
    simp [sgrNumbers, sgrNumber, decimal, decimalFrom, cint]
  have hns' : [[0x31], []].map sgrNumber = [1, 0] := by
    simp [sgrNumber, decimal, decimalFrom, cint]
  rw [hns, ht] at hattr₁
  rw [hns', ht] at hattr₂
  have hbold₁ : v₁.terminal.bold = 1 := congrFun hattr₁ .bold
  have hbold₂ : v₂.terminal.bold = 0 := congrFun hattr₂ .bold
  refine ⟨v, v₁, v₂, hv, h₁, h₂, hbold₁, hbold₂, fun heq => ?_⟩
  have hbold : v₁.terminal.bold = v₂.terminal.bold := congrFun heq .bold
  rw [hbold₁, hbold₂] at hbold
  cases hbold

end VT100

end MobileTerminal
