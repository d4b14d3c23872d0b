import TableAccess.Proofs.IgnoreFile.Ensured

/-! Keeping a file out of version control again and again. A call that has changed the ignore file leaves
a text behind that ends with the entry (`Patched`), and the next call finds the entry there exactly if a
line keeps it as it is (`Verbatim`). If so, nothing happens any more; if not, every call adds the entry
once more (`patched_once_iff`). -/

namespace TableAccess.IgnoreFile

open Text

/-- The entry of a file in the ignore file of a root, if the file lies under the root. -/
def entryUnder? (directory : List String) (root? : Option Path) (file : Path) : Option (List Char) :=
  (Path.relative? ((rootIn directory root?).resolved directory) (file.resolved directory)).map
    fun rest => (Path.partsText rest).toList

/-- What the calls for a file answer when they are made one after the other. -/
def answers (file : Path) (root? : Option Path) : Nat → Act Workplace (List Bool)
  | 0 => pure []
  | n + 1 => do
    let changed ← ensure file root?
    return changed :: (← answers file root? n)

/-- An entry that is listed by a line of its own: it has no line break, no blank at its ends and no slash
in front. -/
structure Verbatim (entry : List Char) : Prop where
  noBreak : NoBreak entry
  front : ∀ c ∈ entry.head?, isBlank c = false ∧ c ≠ '/'
  back : ∀ c ∈ entry.getLast?, isBlank c = false

variable {entry : List Char}

/-- What is taken off a line is gone: it fits only if there is nothing to take off. -/
theorem fits_iff_verbatim : Fits entry ↔ Verbatim entry := by
  constructor
  · rintro ⟨hbreak, hlisted⟩
    have hlength : entry.length ≤ (trim entry).length :=
      (congrArg List.length hlisted).ge.trans (List.dropWhile_sublist _).length_le
    have htrim : trim entry = entry := (trimBy_sublist isBlank entry).eq_of_length_le hlength
    rw [listed, htrim] at hlisted
    refine ⟨hbreak, fun c hc => ⟨head?_trimBy (htrim.symm ▸ hc), ?_⟩,
      fun c hc => getLast?_trimBy (htrim.symm ▸ hc)⟩
    have hslash : isSlash c = false := head?_dropWhile (hlisted.symm ▸ hc)
    simpa [isSlash] using hslash
  · rintro ⟨hbreak, hfront, hback⟩
    refine ⟨hbreak, ?_⟩
    rw [listed, trim, trimBy_eq_self (fun c hc => (hfront c hc).1) hback,
      dropWhile_eq_self fun c hc => by simpa [isSlash] using (hfront c hc).2]

/-! ### The calls -/

variable {file : Path} {root? : Option Path} {w w' : Workplace}

/-- An ignore file as a call leaves it that has changed it. -/
structure Patched (file : Path) (root? : Option Path) (entry : List Char) (w : Workplace) : Prop where
  noNull : Disk.hasNull file = false
  entry_eq : entryUnder? w.directory root? file = some entry
  patched : ∃ place before after,
    w.disk.Writable w.directory ((rootIn w.directory root?).child name) place ∧
      patch? entry before = some after ∧ w.disk.read? place = some (Utf8.encode after)

/-- A call that answers with true has patched the ignore file. -/
theorem patched_of_ensure (h : ensure file root? w = (.ok true, w')) :
    ∃ entry, entryUnder? w.directory root? file = some entry ∧ Patched file root? entry w' := by
  rw [ensure_eq] at h
  split at h
  · cases h
  · cases h
  split at h
  · cases h
  next hnull =>
    split at h
    · cases h
    next rest hrest =>
      split at h
      · cases h
      split at h
      · cases h
      next text _ _ after hpatch =>
        split at h
        · cases h
        next hwrite =>
          obtain ⟨place, hplace, rfl⟩ := Disk.writable_of_writeAt hwrite
          have hentry : entryUnder? w.directory root? file = some (Path.partsText rest).toList := by
            rw [entryUnder?, hrest, Option.map_some]
          cases h
          exact ⟨_, hentry, by simpa using hnull, hentry, place, text, after, hplace.write _, hpatch,
            by rw [Disk.read?_write, if_pos rfl]⟩

/-- What the next call does: nothing if the entry can be read again, and otherwise the same as the call
before. -/
theorem Patched.next (h : Patched file root? entry w) :
    Verbatim entry ∧ ensure file root? w = (.ok false, w) ∨
      ¬ Verbatim entry ∧ ∃ w', ensure file root? w = (.ok true, w') ∧ Patched file root? entry w' := by
  obtain ⟨place, before, after, hplace, hpatch, hread⟩ := h.patched
  obtain ⟨rest, hrest, hentry⟩ := Option.map_eq_some_iff.mp h.entry_eq
  have hrun := ensure_eq file root? w
  simp only [hplace.file?_eq hread, h.noNull, hrest, hread, hentry, hplace.writeAt, Option.getD_some,
    Utf8.decode_encode, Bool.false_eq_true, if_false] at hrun
  rw [← fits_iff_verbatim, ← lists_patched_iff hpatch, ← patch?_eq_none_iff]
  cases hagain : patch? entry after with
  | none =>
    rw [hagain] at hrun
    exact .inl ⟨rfl, hrun⟩
  | some again =>
    rw [hagain] at hrun
    obtain ⟨entry', hentry', hpatched⟩ := patched_of_ensure hrun
    obtain rfl : entry = entry' := Option.some.inj (h.entry_eq.symm.trans hentry')
    exact .inr ⟨Option.some_ne_none _, _, hrun, hpatched⟩

theorem Patched.answers_verbatim (h : Patched file root? entry w) (hentry : Verbatim entry) (n : Nat) :
    answers file root? n w = (.ok (List.replicate n false), w) := by
  have hstep : ensure file root? w = (.ok false, w) :=
    (h.next.resolve_right fun hnext => hnext.1 hentry).2
  induction n with
  | zero => rfl
  | succ n ih =>
    rw [answers, Act.bind_ok hstep, Act.bind_ok ih]
    rfl

theorem Patched.answers_not_verbatim (h : Patched file root? entry w) (hentry : ¬ Verbatim entry)
    (n : Nat) : ∃ w', answers file root? n w = (.ok (List.replicate n true), w') := by
  induction n generalizing w with
  | zero => exact ⟨w, rfl⟩
  | succ n ih =>
    obtain ⟨w₁, hstep, h₁⟩ := (h.next.resolve_left fun hnext => hentry hnext.1).2
    obtain ⟨w₂, hrest⟩ := ih h₁
    refine ⟨w₂, ?_⟩
    rw [answers, Act.bind_ok hstep, Act.bind_ok hrest]
    rfl

/-- After a call that has changed the ignore file, all later calls answer with false and change nothing
exactly if the entry can be read again as it is; otherwise all of them change the file. -/
theorem patched_once_iff (h : ensure file root? w = (.ok true, w')) :
    ∃ entry, entryUnder? w.directory root? file = some entry ∧
      ((∀ n, answers file root? n w' = (.ok (List.replicate n false), w')) ↔ Verbatim entry) ∧
      (¬ Verbatim entry → ∀ n, ∃ w'', answers file root? n w' = (.ok (List.replicate n true), w'')) := by
  obtain ⟨entry, hentry, hpatched⟩ := patched_of_ensure h
  refine ⟨entry, hentry, ⟨fun hall => ?_, hpatched.answers_verbatim⟩, hpatched.answers_not_verbatim⟩
  by_contra hnot
  obtain ⟨w'', hone⟩ := hpatched.answers_not_verbatim hnot 1
  rw [hall 1] at hone
  cases hone

/-- A directory with an ignore file, and what has been said there. -/
def ignoring (text : String) (messages : List String) : Workplace where
  disk := ⟨[["r"]], [(["r", name], Utf8.encode text.toList)]⟩
  directory := ["r"]
  credentials? := none
  world := .empty
  messages := messages.map fun message => (.info, message)
  printed := ""

/-- A name that is added once. The lines that were there end in different ways. -/
theorem patched_once_iff_inner_blank :
    ensure (.ofText "d/my c.json") (some (.ofText "/r")) (ignoring "*.pyc\r\n\n/d" []) =
        (.ok true, ignoring "*.pyc\n/d\nd/my c.json\n" ["Added d/my c.json to /r/.gitignore"]) ∧
      ∀ n, answers (.ofText "d/my c.json") (some (.ofText "/r"))
          n (ignoring "*.pyc\n/d\nd/my c.json\n" ["Added d/my c.json to /r/.gitignore"]) =
        (.ok (List.replicate n false),
          ignoring "*.pyc\n/d\nd/my c.json\n" ["Added d/my c.json to /r/.gitignore"]) := by
  have hfirst : ensure (.ofText "d/my c.json") (some (.ofText "/r")) (ignoring "*.pyc\r\n\n/d" []) =
      (.ok true, ignoring "*.pyc\n/d\nd/my c.json\n" ["Added d/my c.json to /r/.gitignore"]) := rfl
  obtain ⟨entry, hentry, hiff, -⟩ := patched_once_iff hfirst
  obtain rfl : "d/my c.json".toList = entry := Option.some.inj hentry
  exact ⟨hfirst, hiff.mpr ⟨by decide, by rintro _ ⟨⟩; decide, by rintro _ ⟨⟩; decide⟩⟩

/-- A name with a blank in front is added by the second call too. -/
theorem blank_in_front_added_twice :
    ensure (.ofText " c.json") none (ignoring "" []) =
        (.ok true, ignoring " c.json\n" ["Added  c.json to /r/.gitignore"]) ∧
      ensure (.ofText " c.json") none (ignoring " c.json\n" ["Added  c.json to /r/.gitignore"]) =
        (.ok true, ignoring " c.json\n c.json\n"
          ["Added  c.json to /r/.gitignore", "Added  c.json to /r/.gitignore"]) :=
  ⟨rfl, rfl⟩

end TableAccess.IgnoreFile
