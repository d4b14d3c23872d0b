import TableAccess.IgnoreFile
import TableAccess.Proofs.Text.Lines
import TableAccess.Proofs.Text.Trim

/-! What an ignore file lists. A text lists an entry if some line does, without blanks at its ends and
slashes in front. A patched text has the entry as a line of its own, so it lists the entry exactly if
such a line is what it is meant to be: if the entry fits into one line and nothing is taken off it
(`lists_patched_iff`). -/

namespace TableAccess.IgnoreFile

open Text

/-- Some line of the text lists the entry. -/
def Lists (entry text : List Char) : Prop := ∃ line ∈ lines (foldNewlines text), listed line = entry

/-- The entry is what a line of it lists. -/
structure Fits (entry : List Char) : Prop where
  noBreak : NoBreak entry
  listed_eq : listed entry = entry

variable {entry text patched : List Char}

theorem noBreak_listed {line : List Char} (h : NoBreak line) : NoBreak (listed line) :=
  fun c hc => h c (mem_of_mem_trimBy ((List.dropWhile_sublist _).subset hc))

theorem patch?_eq_none_iff : patch? entry text = none ↔ Lists entry text := by
  unfold patch? Lists
  dsimp only
  split
  next h => simpa using h
  next h => simpa using h

/-- The text of an ignore file that has been patched. -/
theorem patch?_eq_some (h : patch? entry text = some patched) :
    ¬ Lists entry text ∧ patched = (((lines (foldNewlines text)).filter
      fun line => !isBlankLine line) ++ [entry]).flatMap (· ++ ['\n']) := by
  refine ⟨fun hlists => ?_, ?_⟩
  · rw [patch?_eq_none_iff.mpr hlists] at h
    contradiction
  · unfold patch? at h
    dsimp only at h
    split at h
    · contradiction
    · exact (Option.some.inj h).symm

theorem lists_patched_iff (h : patch? entry text = some patched) :
    Lists entry patched ↔ Fits entry := by
  obtain ⟨hnot, rfl⟩ := patch?_eq_some h
  let kept := (lines (foldNewlines text)).filter fun line => !isBlankLine line
  have hmem : ∀ l ∈ kept, l ∈ lines (foldNewlines text) := fun l hl => (List.mem_filter.mp hl).1
  have hlines (hbreak : NoBreak entry) :
      lines (foldNewlines ((kept ++ [entry]).flatMap (· ++ ['\n']))) = kept ++ [entry] := by
    have hall : ∀ l ∈ kept ++ [entry], NoBreak l :=
      List.forall_mem_append.mpr ⟨fun l hl => noBreak_of_mem_lines (hmem l hl), by simpa using hbreak⟩
    simpa [foldNewlines, lines, linesFrom] using lines_flatMap hall []
  constructor
  · rintro ⟨line, hline, hlisted⟩
    have hbreak : NoBreak entry := hlisted ▸ noBreak_listed (noBreak_of_mem_lines hline)
    rw [hlines hbreak, List.mem_append, List.mem_singleton] at hline
    obtain hline | rfl := hline
    · exact absurd ⟨line, hmem line hline, hlisted⟩ hnot
    · exact ⟨hbreak, hlisted⟩
  · rintro ⟨hbreak, hlisted⟩
    refine ⟨entry, ?_, hlisted⟩
    rw [hlines hbreak]
    exact List.mem_append_right _ (List.mem_singleton.mpr rfl)

end TableAccess.IgnoreFile
