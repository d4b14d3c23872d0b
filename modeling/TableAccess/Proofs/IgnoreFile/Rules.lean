import TableAccess.Proofs.IgnoreFile.Repeated
import TableAccess.Proofs.Text.Rows

/-! What becomes of the rules in an ignore file. Each rule is a row of the file. A run leaves the file alone,
or it writes the rows that are not blank anew and the entry behind them; but it takes the rows apart into
lines first, so a rule stays one rule exactly if it has no line break in it other than a row end
(`rules_survive_iff`). -/

namespace TableAccess.IgnoreFile

open Text

/-- The lines of a row that are not blank. -/
def pieces (row : List Char) : List (List Char) := (lines row).filter fun line => !isBlankLine line

/-- The rules of a text: the rows that are not blank. -/
def rules (text : List Char) : List (List Char) := (rows text).filter fun row => !isBlankLine row

variable {entry text patched row piece : List Char}

theorem isBlankLine_nil : (!isBlankLine []) = false := rfl

theorem noBreak_of_mem_pieces (h : piece ∈ pieces row) : NoBreak piece :=
  noBreak_of_mem_lines (List.mem_filter.mp h).1

theorem pieces_of_noBreak (h : NoBreak row) : pieces row = [row].filter fun row => !isBlankLine row :=
  filter_lines_noBreak h isBlankLine_nil

theorem pieces_of_blank (h : isBlankLine row = true) : pieces row = [] := by
  refine List.filter_eq_nil_iff.mpr fun line hline => ?_
  have hblank : isBlankLine line = true :=
    List.all_eq_true.mpr fun c hc => List.all_eq_true.mp h c (mem_of_mem_lines hline c hc)
  simp [hblank]

theorem mem_rules_iff : row ∈ rules text ↔ row ∈ rows text ∧ isBlankLine row = false := by
  simp [rules]

/-- Rules stay as they are exactly if none of them is taken apart. -/
theorem flatMap_pieces_iff :
    (rows text).flatMap pieces = rules text ↔ ∀ rule ∈ rules text, NoBreak rule := by
  constructor
  · intro h rule hrule
    obtain ⟨row, -, hpiece⟩ := List.mem_flatMap.mp (h.symm ▸ hrule)
    exact noBreak_of_mem_pieces hpiece
  · intro h
    have hrow : ∀ row ∈ rows text, pieces row = [row].filter fun row => !isBlankLine row := by
      intro row hrow
      cases hblank : isBlankLine row with
      | true => simp [pieces_of_blank hblank, hblank]
      | false => exact pieces_of_noBreak (h row (mem_rules_iff.mpr ⟨hrow, hblank⟩))
    rw [List.flatMap_congr hrow, ← List.filter_flatMap]
    simp [rules]

/-- The text that a run writes. -/
theorem patched_eq (h : patch? entry text = some patched) :
    patched = ((rows text).flatMap pieces ++ [entry]).flatMap (· ++ ['\n']) := by
  rw [(patch?_eq_some h).2, filter_lines_fold isBlankLine_nil]
  rfl

theorem rows_patched (h : patch? entry text = some patched) :
    rows patched = (rows text).flatMap pieces ++ rows (entry ++ ['\n']) := by
  have hall : ∀ l ∈ (rows text).flatMap pieces, NoRowEnd l := by
    intro l hl
    obtain ⟨row, -, hpiece⟩ := List.mem_flatMap.mp hl
    exact (noBreak_of_mem_pieces hpiece).noRowEnd
  rw [patched_eq h, List.flatMap_append, List.flatMap_singleton, rows_written hall]

/-- The rules of the text that a run writes are those from before and the entry exactly if no rule is taken
apart and the entry is a row. -/
theorem rows_patched_iff (h : patch? entry text = some patched) :
    rows patched = rules text ++ [entry] ↔ (∀ rule ∈ rules text, NoBreak rule) ∧ NoRowEnd entry := by
  have hentry (hends : NoRowEnd entry) : rows (entry ++ ['\n']) = [entry] :=
    rows_append hends (rows_newline [])
  rw [rows_patched h, ← flatMap_pieces_iff]
  constructor
  · intro hrows
    have hends : NoRowEnd entry := by
      have hmem : entry ∈ (rows text).flatMap pieces ++ rows (entry ++ ['\n']) := by simp [hrows]
      obtain hmem | hmem := List.mem_append.mp hmem
      · obtain ⟨row, -, hpiece⟩ := List.mem_flatMap.mp hmem
        exact (noBreak_of_mem_pieces hpiece).noRowEnd
      · exact noRowEnd_of_mem_rows hmem
    rw [hentry hends] at hrows
    exact ⟨List.append_cancel_right hrows, hends⟩
  · rintro ⟨hpieces, hends⟩
    rw [hpieces, hentry hends]

/-! ### The run -/

/-- The ignore file of a root is at this place and is this text. -/
structure Holds (w : Workplace) (root? : Option Path) (place : List String) (text : List Char) : Prop where
  found : w.disk.file? w.directory ((rootIn w.directory root?).child name) = .ok (some place)
  decoded : Utf8.decode ((w.disk.read? place).getD []) = .ok text

/-- What a run does with an ignore file that is a text. -/
inductive Treats (w : Workplace) (root? : Option Path) (file : Path) (place : List String)
    (text : List Char) : Except Failure Bool → Workplace → Prop
  | impossible (null : Disk.hasNull file = true) : Treats w root? file place text (.error .nullByteInPath) w
  | left (listed : ∀ entry, entryUnder? w.directory root? file = some entry → Lists entry text) :
      Treats w root? file place text (.ok false) w
  | patched {entry patched : List Char} {messages : List (Level × String)}
      (under : entryUnder? w.directory root? file = some entry) (new : patch? entry text = some patched) :
      Treats w root? file place text (.ok true)
        { w with disk := w.disk.write place (Utf8.encode patched), messages := messages }

variable {w : Workplace} {root? : Option Path} {place : List String}

theorem ensure_treats (sound : w.disk.Sound) (h : Holds w root? place text) (file : Path) :
    Treats w root? file place text (ensure file root? w).1 (ensure file root? w).2 := by
  have hrun := ensure_eq file root? w
  simp only [h.found, h.decoded, (Disk.writable_of_file? sound h.found).writeAt] at hrun
  rw [hrun]
  split
  next hnull => exact .impossible hnull
  next =>
    cases hrest : Path.relative? ((rootIn w.directory root?).resolved w.directory)
        (file.resolved w.directory) with
    | none => exact .left fun entry hentry => by simp [entryUnder?, hrest] at hentry
    | some rest =>
      have hunder : entryUnder? w.directory root? file = some (Path.partsText rest).toList := by
        rw [entryUnder?, hrest, Option.map_some]
      dsimp only
      cases hpatch : patch? (Path.partsText rest).toList text with
      | none =>
        refine .left fun entry hentry => ?_
        obtain rfl := Option.some.inj (hunder.symm.trans hentry)
        exact patch?_eq_none_iff.mp hpatch
      | some patched => exact .patched hunder hpatch

/-- A run leaves everything as it is, or it answers with true and writes the ignore file anew, and no other
file: the lines of its rows that are not blank, in their order, and the entry. These are the rules from
before and one for the entry exactly if no rule has a line break in it and the entry is a row. -/
theorem rules_survive_iff (sound : w.disk.Sound) (h : Holds w root? place text) (file : Path) :
    (ensure file root? w = (.ok false, w) ∧
      ∀ entry, entryUnder? w.directory root? file = some entry → Lists entry text) ∨
    (ensure file root? w = (.error .nullByteInPath, w) ∧ Disk.hasNull file = true) ∨
    ∃ entry patched w', ensure file root? w = (.ok true, w') ∧
      entryUnder? w.directory root? file = some entry ∧ ¬ Lists entry text ∧
      (∀ other, w'.disk.read? other =
        if other = place then some (Utf8.encode patched) else w.disk.read? other) ∧
      patched = ((rows text).flatMap pieces ++ [entry]).flatMap (· ++ ['\n']) ∧
      (rows patched = rules text ++ [entry] ↔ (∀ rule ∈ rules text, NoBreak rule) ∧ NoRowEnd entry) := by
  obtain ⟨r, w', hrun⟩ : ∃ r w', ensure file root? w = (r, w') := ⟨_, _, rfl⟩
  have htreats := ensure_treats sound h file
  rw [hrun] at htreats ⊢
  cases htreats with
  | impossible hnull => exact .inr (.inl ⟨rfl, hnull⟩)
  | left hlisted => exact .inl ⟨rfl, hlisted⟩
  | @patched entry patched messages hunder hpatch =>
    refine .inr (.inr ⟨entry, patched, _, rfl, hunder, (patch?_eq_some hpatch).1, fun other => ?_,
      patched_eq hpatch, rows_patched_iff hpatch⟩)
    exact Disk.read?_write ..

theorem sound_ignoring (text : String) (messages : List String) : (ignoring text messages).disk.Sound := by
  intro place h
  by_cases hplace : place = ["r", name]
  · rw [hplace]
    rfl
  · have hread : (ignoring text messages).disk.read? place = none := by
      simp [ignoring, Disk.read?, Ne.symm hplace]
    rw [Disk.isFile, hread] at h
    contradiction

/-- Rules that end in three ways, with blank rows between them. -/
def mixed : String := "*.pyc\r\n\n \t\r/d e\rlast"

/-- All of them are there afterwards. -/
theorem rules_survive_iff_mixed :
    (ignoring mixed []).disk.Sound ∧
      Holds (ignoring mixed []) (some (.ofText "/r")) ["r", name] mixed.toList ∧
      ∃ patched w', ensure (.ofText "c.json") (some (.ofText "/r")) (ignoring mixed []) = (.ok true, w') ∧
        w'.disk.read? ["r", name] = some (Utf8.encode patched) ∧
        rows patched = ["*.pyc".toList, "/d e".toList, "last".toList, "c.json".toList] := by
  have hholds : Holds (ignoring mixed []) (some (.ofText "/r")) ["r", name] mixed.toList :=
    ⟨rfl, Utf8.decode_encode mixed.toList⟩
  have hrun : ensure (.ofText "c.json") (some (.ofText "/r")) (ignoring mixed []) =
      (.ok true, ignoring "*.pyc\n/d e\nlast\nc.json\n" ["Added c.json to /r/.gitignore"]) := rfl
  refine ⟨sound_ignoring mixed [], hholds, ?_⟩
  obtain ⟨h, -⟩ | ⟨h, -⟩ | ⟨entry, patched, w', h, hentry, -, hdisk, -, hrows⟩ :=
    rules_survive_iff (sound_ignoring mixed []) hholds (.ofText "c.json")
  · rw [hrun] at h
    cases h
  · rw [hrun] at h
    cases h
  · obtain rfl : "c.json".toList = entry := Option.some.inj hentry
    exact ⟨patched, w', h, (hdisk _).trans (if_pos rfl), hrows.mpr ⟨by decide, by decide⟩⟩

/-- A form feed in a rule makes two rules of it. -/
theorem form_feed_splits_rule :
    rules "a\x0cb\n".toList = ["a\x0cb".toList] ∧
      ensure (.ofText "c.json") (some (.ofText "/r")) (ignoring "a\x0cb\n" []) =
        (.ok true, ignoring "a\nb\nc.json\n" ["Added c.json to /r/.gitignore"]) ∧
      rows "a\nb\nc.json\n".toList = ["a".toList, "b".toList, "c.json".toList] :=
  ⟨by decide, rfl, by decide⟩

end TableAccess.IgnoreFile
