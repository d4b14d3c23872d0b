import Mathlib.Data.List.Basic
import TableAccess.Proofs.Text.Lines

/-! Rows of a text, as a version control system sees them: CR LF, LF and CR end a row and nothing else
does. A line ends at more characters than that, so a row can hold several lines (`filter_lines_fold`), and
it is one line exactly if none of the other line breaks is in it (`filter_lines_noBreak`). -/

namespace TableAccess.Text

def isRowEnd (c : Char) : Bool := c == '\n' || c == '\r'

/-- The rows of a text. A last row end opens no row. -/
def rows : List Char → List (List Char)
  | [] => []
  | '\r' :: '\n' :: cs => [] :: rows cs
  | c :: cs =>
    if isRowEnd c then [] :: rows cs
    else match rows cs with
      | [] => [[c]]
      | row :: more => (c :: row) :: more

/-- Nothing in the text ends a row. -/
def NoRowEnd (cs : List Char) : Prop := ∀ c ∈ cs, isRowEnd c = false

instance (cs : List Char) : Decidable (NoRowEnd cs) := List.decidableBAll _ cs

variable {c : Char} {cs row : List Char} {keep : List Char → Bool}

theorem noRowEnd_cons : NoRowEnd (c :: cs) ↔ isRowEnd c = false ∧ NoRowEnd cs := List.forall_mem_cons

theorem isLineBreak_of_isRowEnd (h : isRowEnd c = true) : isLineBreak c = true := by
  simp only [isRowEnd, Bool.or_eq_true, beq_iff_eq] at h
  obtain rfl | rfl := h <;> rfl

theorem NoBreak.noRowEnd (h : NoBreak cs) : NoRowEnd cs := by
  intro c hc
  cases hend : isRowEnd c with
  | false => rfl
  | true => exact (isLineBreak_of_isRowEnd hend).symm.trans (h c hc)

theorem ne_of_isRowEnd (h : isRowEnd c = false) : c ≠ '\n' ∧ c ≠ '\r' := by simpa [isRowEnd] using h

/-! ### Rows one after another -/

theorem rows_cons (h : isRowEnd c = false) (cs : List Char) : rows (c :: cs) =
    match rows cs with
    | [] => [[c]]
    | row :: more => (c :: row) :: more := by
  rw [rows.eq_3 _ _ fun _ hr => absurd hr (ne_of_isRowEnd h).2, if_neg (by simp [h])]

theorem rows_eq_singleton (h : NoRowEnd row) (hne : row ≠ []) : rows row = [row] := by
  induction row with
  | nil => contradiction
  | cons c row ih =>
    obtain ⟨hc, hrow⟩ := noRowEnd_cons.mp h
    rw [rows_cons hc]
    by_cases hlast : row = []
    · rw [hlast]
      rfl
    · rw [ih hrow hlast]

/-- A row in front of a text whose first row is empty. -/
theorem rows_append (h : NoRowEnd row) {more : List (List Char)} (hcs : rows cs = [] :: more) :
    rows (row ++ cs) = row :: more := by
  induction row with
  | nil => exact hcs
  | cons c row ih =>
    obtain ⟨hc, hrow⟩ := noRowEnd_cons.mp h
    rw [List.cons_append, rows_cons hc, ih hrow]

theorem rows_newline (cs : List Char) : rows ('\n' :: cs) = [] :: rows cs :=
  rows.eq_3 '\n' cs (by simp)

theorem rows_written {ls : List (List Char)} (h : ∀ l ∈ ls, NoRowEnd l) (rest : List Char) :
    rows (ls.flatMap (· ++ ['\n']) ++ rest) = ls ++ rows rest := by
  induction ls with
  | nil => rfl
  | cons l ls ih =>
    obtain ⟨hl, hls⟩ := List.forall_mem_cons.mp h
    have hcons : (l :: ls).flatMap (· ++ ['\n']) ++ rest =
        l ++ '\n' :: (ls.flatMap (· ++ ['\n']) ++ rest) := by simp
    rw [hcons, rows_append hl (rows_newline _), ih hls, List.cons_append]

theorem noRowEnd_of_mem_rows (h : row ∈ rows cs) : NoRowEnd row := by
  induction cs using rows.induct generalizing row with
  | case1 => simp [rows] at h
  | case2 cs ih =>
    rw [rows.eq_2, List.mem_cons] at h
    obtain rfl | h := h
    · exact fun c hc => absurd hc List.not_mem_nil
    · exact ih h
  | case3 c cs hpair hend ih =>
    rw [rows.eq_3 c cs hpair, if_pos hend, List.mem_cons] at h
    obtain rfl | h := h
    · exact fun c hc => absurd hc List.not_mem_nil
    · exact ih h
  | case4 c cs hpair hend hrows =>
    rw [rows.eq_3 c cs hpair, if_neg hend, hrows, List.mem_singleton] at h
    obtain rfl := h
    exact noRowEnd_cons.mpr ⟨by simpa using hend, fun c hc => absurd hc List.not_mem_nil⟩
  | case5 c cs hpair hend first more hrows ih =>
    rw [rows.eq_3 c cs hpair, if_neg hend, hrows, List.mem_cons] at h
    obtain rfl | h := h
    · exact noRowEnd_cons.mpr ⟨by simpa using hend, ih (by simp [hrows])⟩
    · exact ih (by simp [hrows, h])

/-! ### The lines of a row -/

/-- A row end ends a line; the empty line that it may leave is not kept. -/
theorem filter_linesFrom_row (h : NoRowEnd row) (hkeep : keep [] = false) (line rest : List Char) :
    (linesFrom line (row ++ '\n' :: rest)).filter keep =
      (linesFrom line row).filter keep ++ (lines rest).filter keep := by
  induction row generalizing line with
  | nil =>
    rw [List.nil_append, linesFrom.eq_3 line '\n' rest (by simp), if_pos (by decide), linesFrom.eq_1]
    cases line with
    | nil => simp [hkeep, lines]
    | cons d line =>
      rw [if_neg (by simp), List.filter_cons, List.filter_singleton]
      cases keep (d :: line).reverse <;> rfl
  | cons c row ih =>
    obtain ⟨hc, hrow⟩ := noRowEnd_cons.mp h
    have hne := (ne_of_isRowEnd hc).2
    rw [List.cons_append, linesFrom.eq_3 _ _ _ fun _ hr => absurd hr hne,
      linesFrom.eq_3 _ _ _ fun _ hr => absurd hr hne]
    split
    · rw [List.filter_cons, List.filter_cons, ih hrow]
      split <;> rfl
    · exact ih hrow _

theorem filter_lines_row (h : NoRowEnd row) (hkeep : keep [] = false) (rest : List Char) :
    (lines (row ++ '\n' :: rest)).filter keep = (lines row).filter keep ++ (lines rest).filter keep :=
  filter_linesFrom_row h hkeep [] rest

/-- The lines of a text are those of its rows, one row after the other, where empty lines do not count. -/
theorem filter_lines_fold (hkeep : keep [] = false) (text : List Char) :
    (lines (foldNewlines text)).filter keep = (rows text).flatMap fun row => (lines row).filter keep := by
  -- The induction takes the text apart at its row ends; `row` is what has been passed since the last one.
  suffices h : ∀ row, NoRowEnd row → (lines (row ++ foldNewlines text)).filter keep =
      (rows (row ++ text)).flatMap fun row => (lines row).filter keep from
    h [] fun _ hc => absurd hc List.not_mem_nil
  induction text using foldNewlines.induct with
  | case1 =>
    intro row hrow
    rw [foldNewlines.eq_1, List.append_nil]
    by_cases hne : row = []
    · rw [hne]
      rfl
    · rw [rows_eq_singleton hrow hne, List.flatMap_singleton]
  | case2 cs ih =>
    intro row hrow
    rw [foldNewlines.eq_2, filter_lines_row hrow hkeep, rows_append hrow (rows.eq_2 cs),
      List.flatMap_cons, ← List.nil_append (foldNewlines cs), ih [] fun _ hc => absurd hc List.not_mem_nil]
    rfl
  | case3 c cs hpair ih =>
    intro row hrow
    rw [foldNewlines.eq_3 c cs hpair]
    cases hend : isRowEnd c with
    | true =>
      have hrows : rows (c :: cs) = [] :: rows cs := by rw [rows.eq_3 c cs hpair, if_pos hend]
      have hfold : (if c = '\r' then '\n' else c) = '\n' := by
        simp only [isRowEnd, Bool.or_eq_true, beq_iff_eq] at hend
        obtain rfl | rfl := hend <;> rfl
      rw [hfold, filter_lines_row hrow hkeep, rows_append hrow hrows, List.flatMap_cons,
        ← List.nil_append (foldNewlines cs), ih [] fun _ hc => absurd hc List.not_mem_nil]
      rfl
    | false =>
      have hnext : NoRowEnd (row ++ [c]) :=
        List.forall_mem_append.mpr ⟨hrow, List.forall_mem_singleton.mpr hend⟩
      have happend := ih (row ++ [c]) hnext
      rw [if_neg (ne_of_isRowEnd hend).2]
      simpa using happend

/-- A text without line breaks is one line. -/
theorem filter_lines_noBreak (h : NoBreak row) (hkeep : keep [] = false) :
    (lines row).filter keep = [row].filter keep := by
  have hrow : (lines (row ++ '\n' :: [])).filter keep = _ := filter_lines_row h.noRowEnd hkeep []
  rw [lines_line h] at hrow
  simpa [lines, linesFrom] using hrow.symm

theorem mem_of_mem_linesFrom {line l : List Char} (h : l ∈ linesFrom line cs) :
    ∀ c ∈ l, c ∈ line ∨ c ∈ cs := by
  induction line, cs using linesFrom.induct generalizing l with
  | case1 line hempty => simp [linesFrom.eq_1, hempty] at h
  | case2 line hempty =>
    rw [linesFrom.eq_1, if_neg hempty, List.mem_singleton] at h
    rw [h]
    exact fun c hc => .inl (List.mem_reverse.mp hc)
  | case3 line cs ih =>
    rw [linesFrom.eq_2, List.mem_cons] at h
    obtain rfl | h := h
    · exact fun c hc => .inl (List.mem_reverse.mp hc)
    · intro c hc
      have hmem := ih h c hc
      simp_all
  | case4 line c cs hpair hbreak ih =>
    rw [linesFrom.eq_3 line c cs hpair, if_pos hbreak, List.mem_cons] at h
    obtain rfl | h := h
    · exact fun d hd => .inl (List.mem_reverse.mp hd)
    · intro d hd
      have hmem := ih h d hd
      simp_all
  | case5 line c cs hpair hbreak ih =>
    rw [linesFrom.eq_3 line c cs hpair, if_neg hbreak] at h
    intro d hd
    have hmem := ih h d hd
    simp only [List.mem_cons] at hmem ⊢
    tauto

theorem mem_of_mem_lines {l : List Char} (h : l ∈ lines cs) : ∀ c ∈ l, c ∈ cs :=
  fun c hc => (mem_of_mem_linesFrom h c hc).resolve_left List.not_mem_nil

end TableAccess.Text
