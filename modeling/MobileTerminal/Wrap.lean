import Mathlib.Algebra.Ring.Nat
import Mathlib.Data.List.DropRight
import Mathlib.Tactic.Common

/-!
# Wrapped text

A row is a list of cells with one cell more at its end, the mark: the text of a
row whose mark is not NUL goes on in the next row. Rows joined by their marks
form a logical line (`logicalLines`). The text of a logical line is what its
rows hold, without the NULs that end its last row (`lineText`).

Two relations say how a text comes to stand in rows. `Rewraps` is what it means
to lay a text out in rows of another width: every row but the last is full and
marked, and what the last one does not need is NUL. `Prints` is what printing
makes of a text: a row that is full is marked and the next one begun at once, so
that a text that fills its rows exactly leaves an empty row behind it. Both
determine the rows up to their NULs, and a printed text is read back by
`Prints.read` and `read_lines`.

The last row of a list of rows may be marked although nothing follows it.
`Closed` is the absence of that, and what is said about the lines that start
within some rows (`linesBefore`) needs it only where a line is cut off.

Cells are of any type; `nul` says which of them are NUL. The width is a
parameter of the relations and not of the rows, since rows of two widths meet in
a resize.
-/

namespace MobileTerminal

namespace Wrap

variable {α : Type} (nul : α → Bool)

/-- The text of the row goes on in the next one. -/
def marked (row : List α) : Bool := row.getLast?.any fun c => !nul c

/-- All cells, or when nothing follows them those up to the last that is not NUL. -/
def keepText (more : Bool) (cells : List α) : List α :=
  if more then cells else cells.rdropWhile nul

/-- What a row adds to the text of its logical line. -/
def rowText (row : List α) : List α := keepText nul (marked nul row) row.dropLast

/-- The rows up to the first one that is not marked. -/
def firstLine : List (List α) → List (List α)
  | [] => []
  | row :: rows => if marked nul row then row :: firstLine rows else [row]

/-- Rows grouped along their marks. -/
def logicalLines : List (List α) → List (List (List α))
  | [] => []
  | row :: rows =>
      if marked nul row then
        match logicalLines rows with
        | [] => [[row]]
        | line :: lines => (row :: line) :: lines
      else [row] :: logicalLines rows

def lineText (line : List (List α)) : List α := line.flatMap (rowText nul)

/-- The lines that start within the first `n` rows. The last of them may run on behind the row
`n - 1`, and then it counts as a whole. -/
def linesBefore : Nat → List (List (List α)) → List (List (List α))
  | _, [] => []
  | n, line :: lines => if n = 0 then [] else line :: linesBefore (n - line.length) lines

/-- A text in rows of `w` cells: every row but the last is full and marked, what is left of
the last one is NUL. The empty text takes one row. -/
inductive Rewraps (w : Nat) : List α → List (List α) → Prop where
  | last {text row : List α} (hlen : row.length = w + 1) (hfit : text.length ≤ w)
      (hrow : row.take text.length = text)
      (hrest : ∀ c ∈ row.dropLast.drop text.length, nul c = true)
      (hmark : marked nul row = false) : Rewraps w text [row]
  | full {text row : List α} {rows : List (List α)} (hlen : row.length = w + 1)
      (hlong : w < text.length) (hrow : row.dropLast = text.take w)
      (hmark : marked nul row = true) (hrows : Rewraps w (text.drop w) rows) :
      Rewraps w text (row :: rows)

/-- A text as it is printed in rows of `w` cells: a row that is full is marked and
the next one begun at once. -/
inductive Prints (w : Nat) : List α → List (List α) → Prop where
  | last {text row : List α} (hlen : row.length = w + 1) (hfit : text.length < w)
      (hrow : row.take text.length = text) (hrest : ∀ c ∈ row.drop text.length, nul c = true) :
      Prints w text [row]
  | full {text row : List α} {rows : List (List α)} (hlen : row.length = w + 1)
      (hlong : w ≤ text.length) (hrow : row.dropLast = text.take w)
      (hmark : marked nul row = true) (hrows : Prints w (text.drop w) rows) :
      Prints w text (row :: rows)

/-- The last row is not marked: the last logical line ends with it. -/
def Closed (rows : List (List α)) : Prop := ∀ row ∈ rows.getLast?, marked nul row = false

variable {nul} {w n : Nat} {row text cur : List α} {rows full : List (List α)}

/-! ## Trailing cells -/

theorem rdropWhile_cons (p : α → Bool) (c : α) (cs : List α) :
    (c :: cs).rdropWhile p = if (c :: cs).all p then [] else c :: cs.rdropWhile p := by
  induction cs using List.reverseRecOn with
  | nil => simp [List.rdropWhile_singleton]
  | append_singleton cs d ih =>
      rw [← List.cons_append, List.rdropWhile_concat, List.rdropWhile_concat, ih]
      cases hd : p d <;> simp [hd]

theorem rdropWhile_append_of_ne_nil (p : α → Bool) (l : List α) {l' : List α}
    (h : l'.rdropWhile p ≠ []) : (l ++ l').rdropWhile p = l ++ l'.rdropWhile p := by
  induction l with
  | nil => rfl
  | cons c l ih =>
      have hall : ((c :: l) ++ l').all p = false := by
        by_contra hc
        rw [Bool.not_eq_false, List.all_append, Bool.and_eq_true] at hc
        exact h (List.rdropWhile_eq_nil_iff.mpr (by simpa using hc.2))
      rw [List.cons_append] at hall ⊢
      rw [rdropWhile_cons, hall, ih]
      rfl

theorem rdropWhile_append_of_eq_nil (p : α → Bool) (l : List α) {l' : List α}
    (h : l'.rdropWhile p = []) : (l ++ l').rdropWhile p = l.rdropWhile p := by
  induction l' using List.reverseRecOn with
  | nil => simp
  | append_singleton l' d ih =>
      have hall : ∀ c ∈ l' ++ [d], p c = true := List.rdropWhile_eq_nil_iff.mp h
      rw [← List.append_assoc, List.rdropWhile_concat_pos _ _ _ (hall d (by simp))]
      exact ih (List.rdropWhile_eq_nil_iff.mpr fun c hc => hall c (by simp [hc]))

/-- What is cut off behind the first `a` elements. -/
theorem rdropWhile_drop_length (p : α → Bool) (l : List α) {a : Nat} (ha : a ≤ l.length) :
    max a (l.rdropWhile p).length = a + ((l.drop a).rdropWhile p).length := by
  have hlen : (l.take a).length = a := by
    rw [List.length_take]
    omega
  conv_lhs => rw [← List.take_append_drop a l]
  by_cases hnil : (l.drop a).rdropWhile p = []
  · have hle := (List.rdropWhile_prefix p (l.take a)).length_le
    rw [rdropWhile_append_of_eq_nil p _ hnil, hnil, List.length_nil]
    omega
  · rw [rdropWhile_append_of_ne_nil p _ hnil, List.length_append, hlen]
    omega

theorem keepText_cons (more : Bool) (c : α) (cs : List α) :
    keepText nul more (c :: cs) =
      if more = false ∧ (c :: cs).all nul then [] else c :: keepText nul more cs := by
  cases more with
  | true => rfl
  | false => simpa [keepText] using rdropWhile_cons nul c cs

/-- A text that keeps its first `n` cells whatever they are differs from the
trimmed one only when it ends there, by NULs. -/
theorem keepText_split (nul : α → Bool) (more : Bool) (cells : List α) (n : Nat) :
    ∃ nuls, cells.take n ++ keepText nul more (cells.drop n) = keepText nul more cells ++ nuls ∧
      (∀ c ∈ nuls, nul c = true) ∧
      (nuls ≠ [] → cells.take n = keepText nul more cells ++ nuls ∧ more = false) := by
  cases more with
  | true => exact ⟨[], by simp [keepText], by simp, by simp⟩
  | false =>
      simp only [keepText, Bool.false_eq_true, if_false]
      have hsplit := List.take_append_drop n cells
      by_cases hnil : (cells.drop n).rdropWhile nul = []
      · have htrim : cells.rdropWhile nul = (cells.take n).rdropWhile nul := by
          conv_lhs => rw [← hsplit]
          exact rdropWhile_append_of_eq_nil nul _ hnil
        have htake := List.rdropWhile_append_rtakeWhile (p := nul) (l := cells.take n)
        rw [htrim, hnil]
        exact ⟨(cells.take n).rtakeWhile nul, by rw [List.append_nil, htake],
          fun c hc => List.mem_rtakeWhile_imp hc, fun _ => ⟨htake.symm, trivial⟩⟩
      · refine ⟨[], ?_, by simp, by simp⟩
        rw [← rdropWhile_append_of_ne_nil nul _ hnil, hsplit, List.append_nil]

/-! ## Logical lines -/

theorem firstLine_of_marked (h : marked nul row = true) (rows : List (List α)) :
    firstLine nul (row :: rows) = row :: firstLine nul rows := if_pos h

theorem firstLine_of_unmarked (h : marked nul row = false) (rows : List (List α)) :
    firstLine nul (row :: rows) = [row] := if_neg (by simp [h])

theorem firstLine_cons (row : List α) (rows : List (List α)) :
    firstLine nul (row :: rows) = row :: (firstLine nul (row :: rows)).tail := by
  unfold firstLine
  split <;> rfl

/-- A row of NULs is not marked and adds nothing to the text. -/
theorem marked_of_nul (h : ∀ c ∈ row, nul c = true) : marked nul row = false := by
  unfold marked
  cases hlast : row.getLast? with
  | none => rfl
  | some c =>
      have hc := h c (List.mem_of_getLast? hlast)
      simp [hc]

theorem rowText_of_nul (h : ∀ c ∈ row, nul c = true) : rowText nul row = [] := by
  rw [rowText, marked_of_nul h]
  exact List.rdropWhile_eq_nil_iff.mpr fun c hc => h c (List.dropLast_subset row hc)

theorem Closed.unmarked (h : Closed nul [row]) : marked nul row = false := h row rfl

theorem logicalLines_eq (h : rows ≠ []) :
    logicalLines nul rows = firstLine nul rows ::
      logicalLines nul (rows.drop (firstLine nul rows).length) := by
  induction rows with
  | nil => exact absurd rfl h
  | cons row rows ih =>
      by_cases hm : marked nul row = true
      · rw [firstLine_of_marked hm, List.length_cons, List.drop_succ_cons, logicalLines,
          if_pos hm]
        cases rows with
        | nil => rfl
        | cons row' rows => rw [ih (by simp)]
      · rw [firstLine_of_unmarked (by simpa using hm), logicalLines, if_neg hm]
        rfl

theorem linesBefore_zero (lines : List (List (List α))) : linesBefore 0 lines = [] := by
  cases lines <;> rfl

theorem linesBefore_cons (h : 0 < n) (line : List (List α)) (lines : List (List (List α))) :
    linesBefore n (line :: lines) = line :: linesBefore (n - line.length) lines :=
  if_neg (by omega)

theorem Closed.drop (h : Closed nul rows) (n : Nat) : Closed nul (rows.drop n) := by
  intro row hrow
  by_cases hn : rows.length ≤ n
  · simp [List.drop_eq_nil_of_le hn] at hrow
  · rw [List.getLast?_drop, if_neg hn] at hrow
    exact h row hrow

/-! ## Laying out a text -/

theorem Rewraps.of_full
    (hfull : ∀ r ∈ full, r.length = w + 1 ∧ marked nul r = true)
    (hlast : Rewraps nul w cur [row]) (hne : full ≠ [] → cur ≠ []) :
    Rewraps nul w (full.flatMap List.dropLast ++ cur) (full ++ [row]) := by
  induction full with
  | nil => exact hlast
  | cons r full ih =>
      have hr := hfull r (by simp)
      have hlen : r.dropLast.length = w := by simp [hr.1]
      have hcur : cur ≠ [] := hne (by simp)
      have hpos : 0 < cur.length := List.length_pos_iff.mpr hcur
      rw [List.flatMap_cons, List.append_assoc, List.cons_append]
      refine .full hr.1 ?_ ?_ hr.2 ?_
      · rw [List.length_append, List.length_append, hlen]
        omega
      · rw [← hlen, List.take_left]
      · rw [← hlen, List.drop_left, hlen]
        exact ih (fun r' hr' => hfull r' (by simp [hr'])) fun _ => hcur

/-- NULs at the end of a text that fits into one row make no difference. -/
theorem Rewraps.trim {nuls : List α} (h : Rewraps nul w (text ++ nuls) rows)
    (hnul : ∀ c ∈ nuls, nul c = true) (hfit : (text ++ nuls).length ≤ w) :
    Rewraps nul w text rows := by
  cases h with
  | full _ hlong => omega
  | @last _ row hlen _ hrow hrest hmark =>
      have htext : row.take text.length = text := by
        have := congrArg (List.take text.length) hrow
        rwa [List.take_take, List.take_left, List.length_append, Nat.min_eq_left (by omega)]
          at this
      refine .last hlen (by rw [List.length_append] at hfit; omega) htext ?_ hmark
      intro c hc
      have hsplit : row.dropLast = (text ++ nuls) ++ row.dropLast.drop (text ++ nuls).length := by
        nth_rewrite 1 [← List.take_append_drop (text ++ nuls).length row.dropLast]
        congr 1
        rw [List.dropLast_eq_take, List.take_take, hlen, Nat.min_eq_left (by omega), hrow]
      rw [hsplit, List.append_assoc, List.drop_left, List.mem_append] at hc
      exact hc.elim (hnul c) (hrest c)

theorem lineText_firstLine (row : List α) (rows : List (List α)) :
    lineText nul (firstLine nul (row :: rows)) =
      rowText nul row ++ lineText nul (firstLine nul (row :: rows)).tail := by
  rw [firstLine_cons, lineText, List.flatMap_cons]
  rfl

/-- The text of a logical line whose first `n` cells are taken as they are, when
they fit into one row. -/
theorem Rewraps.of_head {out : List (List α)} (hn : n ≤ w)
    (h : Rewraps nul w (row.dropLast.take n ++ keepText nul (marked nul row) (row.dropLast.drop n) ++
      lineText nul (firstLine nul (row :: rows)).tail) out) :
    Rewraps nul w (lineText nul (firstLine nul (row :: rows))) out := by
  obtain ⟨nuls, hsplit, hnul, hcut⟩ := keepText_split nul (marked nul row) row.dropLast n
  rw [hsplit] at h
  rw [lineText_firstLine]
  by_cases hne : nuls = []
  · rwa [hne, List.append_nil] at h
  · obtain ⟨htake, hm⟩ := hcut hne
    rw [firstLine_of_unmarked hm] at h ⊢
    simp only [List.tail_cons, lineText, List.flatMap_nil, List.append_nil] at h ⊢
    refine h.trim hnul ?_
    rw [← htake, List.length_take]
    omega

theorem Rewraps.nil_text (h : Rewraps nul w [] rows) :
    ∃ row, rows = [row] ∧ ∀ c ∈ row, nul c = true := by
  cases h with
  | full _ hlong => simp at hlong
  | @last _ row hlen _ _ hrest hmark =>
      refine ⟨row, rfl, fun c hc => ?_⟩
      have hne : row ≠ [] := by
        intro hnil
        simp [hnil] at hlen
      rw [← List.dropLast_concat_getLast hne, List.mem_append, List.mem_singleton] at hc
      rcases hc with hc | rfl
      · exact hrest c (by simpa using hc)
      · simpa [marked, List.getLast?_eq_some_getLast hne] using hmark

/-! ## Reading a text back -/

/-- Marked rows and the row after them are one logical line. -/
theorem logicalLines_line (full : List (List α)) (hfull : ∀ r ∈ full, marked nul r = true)
    (hrow : marked nul row = false) (rest : List (List α)) :
    logicalLines nul (full ++ row :: rest) = (full ++ [row]) :: logicalLines nul rest := by
  induction full with
  | nil => simp [logicalLines, hrow]
  | cons r full ih =>
      rw [List.cons_append, logicalLines, if_pos (hfull r (by simp)),
        ih fun r' hr' => hfull r' (by simp [hr'])]
      rfl

theorem lineText_line (hfull : ∀ r ∈ full, marked nul r = true) (row : List α) :
    lineText nul (full ++ [row]) = full.flatMap List.dropLast ++ rowText nul row := by
  rw [lineText, List.flatMap_append, List.flatMap_singleton]
  congr 1
  exact List.flatMap_congr fun r hr => by rw [rowText, hfull r hr]; rfl

theorem lineText_blank (h : ∀ row ∈ rows, ∀ c ∈ row, nul c = true) :
    (logicalLines nul rows).map (lineText nul) = List.replicate rows.length [] := by
  induction rows with
  | nil => rfl
  | cons row rows ih =>
      have hrow := h row (by simp)
      rw [logicalLines, marked_of_nul hrow]
      simp [lineText, rowText_of_nul hrow, ih fun row' hr' => h row' (by simp [hr']),
        List.replicate_succ]

/-- The cells of a row whose text ends before its last column. -/
theorem rowText_of_rest {k : Nat} (hk : k < row.length)
    (hrest : ∀ c ∈ row.drop k, nul c = true) :
    marked nul row = false ∧ rowText nul row = (row.take k).rdropWhile nul := by
  have hmark : marked nul row = false := by
    unfold marked
    have hlast : row.getLast? = (row.drop k).getLast? := by
      rw [List.getLast?_drop, if_neg (by omega)]
    rw [hlast]
    cases hc : (row.drop k).getLast? with
    | none => rfl
    | some c => simp [hrest c (List.mem_of_getLast? hc)]
  refine ⟨hmark, ?_⟩
  rw [rowText, hmark]
  have hsplit : row.dropLast = row.take k ++ row.dropLast.drop k := by
    conv_lhs => rw [← List.take_append_drop k row.dropLast]
    congr 1
    rw [List.dropLast_eq_take, List.take_take, Nat.min_eq_left (by omega)]
  have hnil : (row.dropLast.drop k).rdropWhile nul = [] := by
    refine List.rdropWhile_eq_nil_iff.mpr fun c hc => hrest c ?_
    rw [List.dropLast_eq_take, List.drop_take] at hc
    exact List.mem_of_mem_take hc
  simp only [keepText, Bool.false_eq_true, if_false]
  rw [hsplit]
  exact rdropWhile_append_of_eq_nil nul _ hnil

/-- Where the text of a row ends that has a character before column `i` and none
from column `j` on. -/
theorem rowText_length {i j : Nat} (hij : i ≤ j) (hj : j < row.length)
    (hrest : ∀ c ∈ row.drop j, nul c = true)
    (hlast : ∀ hne : row.take i ≠ [], nul ((row.take i).getLast hne) = false) :
    marked nul row = false ∧ i ≤ (rowText nul row).length ∧ (rowText nul row).length ≤ j := by
  obtain ⟨hmark, htext⟩ := rowText_of_rest hj hrest
  have hlen : (row.take i).length = i := by
    rw [List.length_take]
    omega
  have hself : (row.take i).rdropWhile nul = row.take i :=
    List.rdropWhile_eq_self_iff.mpr fun hne => by simp [hlast hne]
  have hsplit : row.take j = row.take i ++ (row.take j).drop i := by
    conv_lhs => rw [← List.take_append_drop i (row.take j)]
    rw [List.take_take, Nat.min_eq_left hij]
  refine ⟨hmark, ?_, ?_⟩
  · rw [htext, hsplit]
    by_cases hnil : ((row.take j).drop i).rdropWhile nul = []
    · rw [rdropWhile_append_of_eq_nil nul _ hnil, hself, hlen]
    · rw [rdropWhile_append_of_ne_nil nul _ hnil, List.length_append, hlen]
      omega
  · rw [htext]
    calc ((row.take j).rdropWhile nul).length ≤ (row.take j).length :=
          (List.rdropWhile_prefix nul _).length_le
      _ ≤ j := by
          rw [List.length_take]
          omega

/-- A printed text can be read back when it holds no NUL. -/
theorem Prints.read (h : Prints nul w text rows) (htext : ∀ c ∈ text, nul c = false)
    (rest : List (List α)) :
    logicalLines nul (rows ++ rest) = rows :: logicalLines nul rest ∧
      lineText nul rows = text := by
  induction h with
  | @last text row hlen hfit hrow hrest =>
      obtain ⟨hmark, hread⟩ := rowText_of_rest (by omega) hrest
      have hself : text.rdropWhile nul = text :=
        List.rdropWhile_eq_self_iff.mpr fun hne => by simp [htext _ (List.getLast_mem hne)]
      refine ⟨logicalLines_line [] (by simp) hmark rest, ?_⟩
      rw [lineText, List.flatMap_singleton, hread, hrow, hself]
  | @full text row rows hlen hlong hrow hmark hrows ih =>
      obtain ⟨hlines, hread⟩ := ih fun c hc => htext c (List.mem_of_mem_drop hc)
      refine ⟨?_, ?_⟩
      · rw [List.cons_append, logicalLines, if_pos hmark, hlines]
      · rw [lineText] at hread ⊢
        rw [List.flatMap_cons, hread, rowText, hmark]
        exact (congrArg (· ++ _) hrow).trans (List.take_append_drop w text)

/-- Printed texts with blank rows below them can be read back. -/
theorem read_lines {texts : List (List α)} {rss : List (List (List α))} {blank : List (List α)}
    (h : List.Forall₂ (Prints nul w) texts rss) (htexts : ∀ text ∈ texts, ∀ c ∈ text, nul c = false)
    (hblank : ∀ row ∈ blank, ∀ c ∈ row, nul c = true) :
    (logicalLines nul (rss.flatten ++ blank)).map (lineText nul) =
      texts ++ List.replicate blank.length [] := by
  induction h with
  | nil => simpa using lineText_blank hblank
  | @cons text rows texts rss hrows hrest ih =>
      obtain ⟨hlines, hread⟩ := hrows.read (htexts text (by simp)) (rss.flatten ++ blank)
      rw [List.flatten_cons, List.append_assoc, hlines, List.map_cons, hread,
        ih fun text' ht' => htexts text' (by simp [ht'])]
      rfl

/-- A text of `n` cells takes `n / w + 1` rows. -/
theorem Prints.length (h : Prints nul w text rows) (hw : 0 < w) :
    rows.length = text.length / w + 1 := by
  induction h with
  | last hlen hfit => simp [Nat.div_eq_of_lt hfit]
  | full hlen hlong hrow hmark hrows ih =>
      rw [List.length_cons, ih, List.length_drop, ← Nat.sub_add_cancel hlong]
      rw [Nat.add_sub_cancel, Nat.add_div_right _ hw]

theorem length_of_full (hfull : ∀ r ∈ full, r.length = w + 1) :
    (full.flatMap List.dropLast).length = full.length * w := by
  induction full with
  | nil => simp
  | cons r full ih =>
      rw [List.flatMap_cons, List.length_append, List.length_dropLast, hfull r (by simp),
        ih fun r' hr' => hfull r' (by simp [hr']), List.length_cons, Nat.add_sub_cancel,
        Nat.add_mul, Nat.one_mul, Nat.add_comm]

theorem length_of_prints {texts : List (List α)} {rss : List (List (List α))} (hw : 0 < w)
    (h : List.Forall₂ (Prints nul w) texts rss) :
    rss.flatten.length = (texts.map fun text => text.length / w + 1).sum := by
  induction h with
  | nil => rfl
  | cons hrs _ ih => simp [hrs.length hw, ih]

theorem Prints.of_full (hfull : ∀ r ∈ full, r.length = w + 1 ∧ marked nul r = true)
    (hlast : Prints nul w cur rows) :
    Prints nul w (full.flatMap List.dropLast ++ cur) (full ++ rows) := by
  induction full with
  | nil => exact hlast
  | cons r full ih =>
      have hr := hfull r (by simp)
      have hlen : r.dropLast.length = w := by simp [hr.1]
      rw [List.flatMap_cons, List.append_assoc, List.cons_append]
      refine .full hr.1 ?_ ?_ hr.2 ?_
      · rw [List.length_append, hlen]
        omega
      · rw [← hlen, List.take_left]
      · rw [← hlen, List.drop_left, hlen]
        exact ih fun r' hr' => hfull r' (by simp [hr'])

/-- The rows of a text that is not empty: full ones, and a last one that is not
empty either. -/
theorem Rewraps.shape (h : Rewraps nul w text rows) (hne : text ≠ []) :
    ∃ full row cur, rows = full ++ [row] ∧ text = full.flatMap List.dropLast ++ cur ∧
      (∀ r ∈ full, r.length = w + 1 ∧ marked nul r = true) ∧ row.length = w + 1 ∧ cur ≠ [] ∧
      cur.length ≤ w ∧ row.take cur.length = cur ∧ ∀ c ∈ row.drop cur.length, nul c = true := by
  induction h with
  | @last text row hlen hfit hrow hrest hmark =>
      refine ⟨[], row, text, rfl, rfl, by simp, hlen, hne, hfit, hrow, fun c hc => ?_⟩
      have hrow' : row ≠ [] := by
        intro hnil
        simp [hnil] at hlen
      have hsplit : row.drop text.length =
          row.dropLast.drop text.length ++ [row.getLast hrow'] := by
        conv_lhs => rw [← List.dropLast_concat_getLast hrow']
        rw [List.drop_append_of_le_length (by rw [List.length_dropLast]; omega)]
      rw [hsplit, List.mem_append, List.mem_singleton] at hc
      rcases hc with hc | rfl
      · exact hrest c hc
      · simpa [marked, List.getLast?_eq_some_getLast hrow'] using hmark
  | @full text row rows hlen hlong hrow hmark hrows ih =>
      have hdrop : text.drop w ≠ [] := by
        intro hnil
        have := List.drop_eq_nil_iff.mp hnil
        omega
      obtain ⟨full, last, cur, rfl, htext, hfull, hrest⟩ := ih hdrop
      refine ⟨row :: full, last, cur, rfl, ?_, ?_, hrest⟩
      · rw [List.flatMap_cons, List.append_assoc, ← htext, hrow, List.take_append_drop]
      · intro r hr
        rcases List.mem_cons.mp hr with rfl | hr
        · exact ⟨hlen, hmark⟩
        · exact hfull r hr

end Wrap

end MobileTerminal
