import Mathlib.Data.List.Infix
import TableAccess.Text.Split

/-! Texts that are cut and joined. A cut takes the first piece off (`cut_of_split`) and loses nothing but
the first separator (`of_cut`, `cut_append_cons`); joining keeps every piece whole (`isInfix_join`) and
adds separators only (`mem_join`), and a text is split into the only pieces without a separator that it is
joined from (`split_eq_iff`). -/

namespace TableAccess.Text

theorem cut_cons (sep c : Char) (cs : List Char) :
    cut sep (c :: cs) =
      if c = sep then ([], some cs) else (c :: (cut sep cs).1, (cut sep cs).2) := by
  unfold cut
  rw [List.span_eq_takeWhile_dropWhile, List.span_eq_takeWhile_dropWhile]
  by_cases h : c = sep
  · simp [h]
  · rw [List.takeWhile_cons_of_pos (by simpa using h), List.dropWhile_cons_of_pos (by simpa using h),
      if_neg h]
    cases cs.dropWhile (· != sep) <;> rfl

/-- What stands before the first separator is the first piece, and what stands behind it are the
others. -/
theorem cut_of_split {sep : Char} {cs piece : List Char} {pieces : List (List Char)}
    (h : split sep cs = piece :: pieces) :
    cut sep cs = (piece, if pieces = [] then none else some (join [sep] pieces)) := by
  induction cs generalizing piece pieces with
  | nil =>
    obtain ⟨rfl, rfl⟩ := List.cons.inj h
    rfl
  | cons c cs ih =>
    rw [cut_cons]
    unfold split at h
    split at h
    · obtain ⟨rfl, rfl⟩ := List.cons.inj h
      rw [if_pos ‹_›, if_neg (split_ne_nil sep cs), join_split]
    · obtain ⟨first, rest, hs⟩ := List.exists_cons_of_ne_nil (split_ne_nil sep cs)
      rw [hs] at h
      obtain ⟨rfl, rfl⟩ := List.cons.inj h
      rw [if_neg ‹_›, ih hs]

/-- A cut loses the separator only. -/
theorem of_cut {sep : Char} {cs before : List Char} {after? : Option (List Char)}
    (h : cut sep cs = (before, after?)) :
    cs = before ++ (after?.map (sep :: ·)).getD [] := by
  induction cs generalizing before after? with
  | nil =>
    obtain ⟨rfl, rfl⟩ := Prod.mk.inj h
    rfl
  | cons c cs ih =>
    rw [cut_cons] at h
    split at h
    · obtain ⟨rfl, rfl⟩ := Prod.mk.inj h
      rename_i hc
      simp [hc]
    · obtain ⟨rfl, rfl⟩ := Prod.mk.inj h
      exact congrArg (c :: ·) (ih rfl)

theorem notMem_of_cut {sep : Char} {cs before : List Char} {after? : Option (List Char)}
    (h : cut sep cs = (before, after?)) : sep ∉ before := by
  induction cs generalizing before after? with
  | nil =>
    obtain ⟨rfl, rfl⟩ := Prod.mk.inj h
    exact List.not_mem_nil
  | cons c cs ih =>
    rw [cut_cons] at h
    split at h
    · obtain ⟨rfl, rfl⟩ := Prod.mk.inj h
      exact List.not_mem_nil
    · obtain ⟨rfl, rfl⟩ := Prod.mk.inj h
      rw [List.mem_cons, not_or]
      exact ⟨Ne.symm ‹_›, ih rfl⟩

/-- A text with a separator is cut there. -/
theorem exists_cut_of_mem {sep : Char} {cs : List Char} (h : sep ∈ cs) :
    ∃ before after, cut sep cs = (before, some after) := by
  obtain ⟨before, after?, hcut⟩ : ∃ before after?, cut sep cs = (before, after?) := ⟨_, _, rfl⟩
  cases after? with
  | some after => exact ⟨before, after, hcut⟩
  | none =>
    have hbefore : cs = before := by simpa using of_cut hcut
    exact absurd (hbefore ▸ h) (notMem_of_cut hcut)

theorem cut_append_cons {sep : Char} {before : List Char} (h : sep ∉ before) (after : List Char) :
    cut sep (before ++ sep :: after) = (before, some after) := by
  induction before with
  | nil => rw [List.nil_append, cut_cons, if_pos rfl]
  | cons c before ih =>
    rw [List.mem_cons, not_or] at h
    rw [List.cons_append, cut_cons, if_neg (Ne.symm h.1), ih h.2]

theorem cut_of_notMem {sep : Char} {cs : List Char} (h : sep ∉ cs) : cut sep cs = (cs, none) := by
  induction cs with
  | nil => rfl
  | cons c cs ih =>
    rw [List.mem_cons, not_or] at h
    rw [cut_cons, if_neg (Ne.symm h.1), ih h.2]

theorem mem_join {sep : List Char} {pieces : List (List Char)} {c : Char}
    (h : c ∈ join sep pieces) : c ∈ sep ∨ ∃ piece ∈ pieces, c ∈ piece := by
  match pieces with
  | [] => contradiction
  | [piece] => exact .inr ⟨piece, by simp, h⟩
  | piece :: next :: rest =>
    have hj : join sep (piece :: next :: rest) = piece ++ sep ++ join sep (next :: rest) := rfl
    rw [hj, List.mem_append, List.mem_append] at h
    rcases h with (h | h) | h
    · exact .inr ⟨piece, by simp, h⟩
    · exact .inl h
    · obtain h | ⟨other, ho, hc⟩ := mem_join h
      · exact .inl h
      · exact .inr ⟨other, List.mem_cons_of_mem _ ho, hc⟩

theorem isInfix_join {sep piece : List Char} {pieces : List (List Char)} (h : piece ∈ pieces) :
    piece <:+: join sep pieces := by
  fun_induction join sep pieces with
  | case1 => contradiction
  | case2 other =>
    obtain rfl := List.mem_singleton.mp h
    exact List.infix_rfl
  | case3 other pieces _ ih =>
    rcases List.mem_cons.mp h with rfl | h
    · exact ((List.prefix_append _ _).trans (List.prefix_append _ _)).isInfix
    · exact (ih h).trans (List.suffix_append _ _).isInfix

theorem isInfix_of_mem_split {sep : Char} {cs piece : List Char} (h : piece ∈ split sep cs) :
    piece <:+: cs := by
  have hjoin : piece <:+: join [sep] (split sep cs) := isInfix_join h
  rwa [join_split] at hjoin

/-- What is in a text and is no separator is in one of its pieces. -/
theorem mem_join_iff {sep : List Char} {pieces : List (List Char)} {c : Char} (h : c ∉ sep) :
    c ∈ join sep pieces ↔ ∃ piece ∈ pieces, c ∈ piece := by
  constructor
  · exact fun hc => (mem_join hc).resolve_left h
  · rintro ⟨piece, hp, hc⟩
    exact (isInfix_join hp).subset hc

theorem mem_split_iff {sep c : Char} {cs : List Char} (h : c ≠ sep) :
    c ∈ cs ↔ ∃ piece ∈ split sep cs, c ∈ piece := by
  have hiff : c ∈ join [sep] (split sep cs) ↔ ∃ piece ∈ split sep cs, c ∈ piece :=
    mem_join_iff (by simpa using h)
  rwa [join_split] at hiff

theorem join_eq_intercalate (sep : List Char) (pieces : List (List Char)) :
    join sep pieces = sep.intercalate pieces := by
  match pieces with
  | [] => rfl
  | [piece] => simp [join]
  | piece :: next :: rest =>
    rw [join, join_eq_intercalate sep (next :: rest), List.intercalate_cons_cons]
    simp

theorem join_cons_cons (sep : Char) (piece next : List Char) (rest : List (List Char)) :
    join [sep] (piece :: next :: rest) = piece ++ sep :: join [sep] (next :: rest) := by
  simp [join]

/-- Two ways to cut a text at a character are one if as many of it are left behind. -/
theorem append_cons_inj_of_count {sep : Char} {before before' after after' : List Char}
    (h : before ++ sep :: after = before' ++ sep :: after')
    (hcount : after.count sep = after'.count sep) : before = before' ∧ after = after' := by
  have hnothing {middle xs ys : List Char} (h : sep :: xs = middle ++ sep :: ys)
      (hcount : xs.count sep = ys.count sep) : middle = [] ∧ xs = ys := by
    cases middle with
    | nil => exact ⟨rfl, (List.cons.inj h).2⟩
    | cons c middle =>
      have hxs : xs = middle ++ sep :: ys := (List.cons.inj h).2
      rw [hxs, List.count_append, List.count_cons_self] at hcount
      omega
  obtain ⟨middle, rfl, hcut⟩ | ⟨middle, rfl, hcut⟩ := List.append_eq_append_iff.mp h
  · obtain ⟨rfl, hafter⟩ := hnothing hcut hcount
    exact ⟨(List.append_nil _).symm, hafter⟩
  · obtain ⟨rfl, hafter⟩ := hnothing hcut hcount.symm
    exact ⟨List.append_nil _, hafter.symm⟩

theorem notMem_of_mem_split {sep : Char} {cs piece : List Char} (h : piece ∈ split sep cs) :
    sep ∉ piece := by
  induction cs generalizing piece with
  | nil =>
    rw [List.mem_singleton.mp h]
    exact List.not_mem_nil
  | cons c cs ih =>
    obtain ⟨first, pieces, hs⟩ := List.exists_cons_of_ne_nil (split_ne_nil sep cs)
    rw [split, hs] at h
    split at h
    · obtain rfl | h := List.mem_cons.mp h
      · exact List.not_mem_nil
      · exact ih (hs ▸ h)
    · obtain rfl | h := List.mem_cons.mp h
      · rw [List.mem_cons, not_or]
        exact ⟨Ne.symm ‹_›, ih (by simp [hs])⟩
      · exact ih (by simp [hs, h])

/-- Only a text without separators is its own and only piece. -/
theorem split_eq_singleton_iff {sep : Char} {cs : List Char} : split sep cs = [cs] ↔ sep ∉ cs := by
  induction cs with
  | nil => simp [split]
  | cons c cs ih =>
    obtain ⟨piece, pieces, hs⟩ := List.exists_cons_of_ne_nil (split_ne_nil sep cs)
    rw [List.mem_cons, not_or, ← ih, split]
    by_cases h : c = sep
    · simp [h]
    · rw [if_neg h, hs, List.cons.injEq, List.cons.injEq, List.cons.injEq, and_iff_right rfl,
        and_iff_right (Ne.symm h)]

theorem split_append_cons {sep : Char} {piece : List Char} (h : sep ∉ piece) (rest : List Char) :
    split sep (piece ++ sep :: rest) = piece :: split sep rest := by
  induction piece with
  | nil => rw [List.nil_append, split, if_pos rfl]
  | cons c piece ih =>
    rw [List.mem_cons, not_or] at h
    rw [List.cons_append, split, if_neg (Ne.symm h.1), ih h.2]

/-- The pieces of a text are the only ones without a separator that it is joined from. -/
theorem split_eq_iff {sep : Char} {cs : List Char} {pieces : List (List Char)} :
    split sep cs = pieces ↔
      pieces ≠ [] ∧ cs = join [sep] pieces ∧ ∀ piece ∈ pieces, sep ∉ piece := by
  constructor
  · rintro rfl
    exact ⟨split_ne_nil sep cs, (join_split sep cs).symm, fun _ h => notMem_of_mem_split h⟩
  · rintro ⟨hne, rfl, hfree⟩
    induction pieces with
    | nil => contradiction
    | cons piece rest ih =>
      obtain ⟨hpiece, hrest⟩ := List.forall_mem_cons.mp hfree
      cases rest with
      | nil => exact split_eq_singleton_iff.mpr hpiece
      | cons next rest =>
        rw [join_cons_cons, split_append_cons hpiece, ih (List.cons_ne_nil _ _) hrest]

end TableAccess.Text
