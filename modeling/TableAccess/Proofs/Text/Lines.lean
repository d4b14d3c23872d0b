import TableAccess.Text.Blank

/-! Texts as lines. No line holds a line break (`noBreak_of_mem_lines`), and what holds none and is
followed by a newline is a line (`lines_line`), also after the line ends have been folded. -/

namespace TableAccess.Text

/-- Nothing in the text ends a line. -/
def NoBreak (cs : List Char) : Prop := ∀ c ∈ cs, isLineBreak c = false

instance (cs : List Char) : Decidable (NoBreak cs) := List.decidableBAll _ cs

theorem noBreak_nil : NoBreak [] := fun _ h => absurd h List.not_mem_nil

theorem noBreak_cons {c : Char} {cs : List Char} :
    NoBreak (c :: cs) ↔ isLineBreak c = false ∧ NoBreak cs := List.forall_mem_cons

/-- What is in front of a newline stays as it is when line ends are folded. -/
theorem foldNewlines_line {cs : List Char} (h : NoBreak cs) (rest : List Char) :
    foldNewlines (cs ++ '\n' :: rest) = cs ++ '\n' :: foldNewlines rest := by
  induction cs with
  | nil => exact foldNewlines.eq_3 '\n' rest (by simp)
  | cons c cs ih =>
    obtain ⟨hc, hcs⟩ := noBreak_cons.mp h
    have hne : c ≠ '\r' := by
      rintro rfl
      contradiction
    rw [List.cons_append, foldNewlines.eq_3 _ _ fun _ hr => absurd hr hne, if_neg hne, ih hcs]
    rfl

theorem linesFrom_line {cs : List Char} (h : NoBreak cs) (line rest : List Char) :
    linesFrom line (cs ++ '\n' :: rest) = (line.reverse ++ cs) :: lines rest := by
  induction cs generalizing line with
  | nil =>
    rw [List.nil_append, linesFrom.eq_3 line '\n' rest (by simp), if_pos (by decide), List.append_nil]
    rfl
  | cons c cs ih =>
    obtain ⟨hc, hcs⟩ := noBreak_cons.mp h
    have hne : c ≠ '\r' := by
      rintro rfl
      contradiction
    rw [List.cons_append, linesFrom.eq_3 _ _ _ fun _ hr => absurd hr hne, if_neg (by simp [hc]), ih hcs]
    simp

theorem lines_line {cs : List Char} (h : NoBreak cs) (rest : List Char) :
    lines (cs ++ '\n' :: rest) = cs :: lines rest := linesFrom_line h [] rest

/-- Lines that are written one after the other are read as these. -/
theorem lines_flatMap {ls : List (List Char)} (h : ∀ l ∈ ls, NoBreak l) (rest : List Char) :
    lines (foldNewlines (ls.flatMap (· ++ ['\n']) ++ rest)) = ls ++ lines (foldNewlines rest) := by
  induction ls with
  | nil => rfl
  | cons l ls ih =>
    obtain ⟨hl, hls⟩ := List.forall_mem_cons.mp h
    have hcons : (l :: ls).flatMap (· ++ ['\n']) ++ rest =
        l ++ '\n' :: (ls.flatMap (· ++ ['\n']) ++ rest) := by simp
    rw [hcons, foldNewlines_line hl, lines_line hl, ih hls, List.cons_append]

theorem noBreak_of_mem_linesFrom {line cs : List Char} (hline : NoBreak line) :
    ∀ l ∈ linesFrom line cs, NoBreak l := by
  have hreverse {l : List Char} (h : NoBreak l) : NoBreak l.reverse :=
    fun c hc => h c (List.mem_reverse.mp hc)
  induction line, cs using linesFrom.induct with
  | case1 line hempty => simp [linesFrom.eq_1, hempty]
  | case2 line hempty =>
    rw [linesFrom.eq_1, if_neg hempty]
    simpa using hreverse hline
  | case3 line cs ih =>
    rw [linesFrom.eq_2, List.forall_mem_cons]
    exact ⟨hreverse hline, ih noBreak_nil⟩
  | case4 line c cs hpair hbreak ih =>
    rw [linesFrom.eq_3 line c cs hpair, if_pos hbreak, List.forall_mem_cons]
    exact ⟨hreverse hline, ih noBreak_nil⟩
  | case5 line c cs hpair hbreak ih =>
    rw [linesFrom.eq_3 line c cs hpair, if_neg hbreak]
    exact ih (noBreak_cons.mpr ⟨by simpa using hbreak, hline⟩)

theorem noBreak_of_mem_lines {cs line : List Char} (h : line ∈ lines cs) : NoBreak line :=
  noBreak_of_mem_linesFrom noBreak_nil line h

end TableAccess.Text
