import TableAccess.Proofs.Disk.Writing
import TableAccess.Proofs.IgnoreFile.Patched
import TableAccess.Proofs.Text.Utf8

/-! Keeping a file out of version control, as a run on a disk. It either stops at an ignore file that
cannot be read, and has changed nothing (`Obstructed`), or it comes to its end, and then an ignore file
that is there lists the entry exactly if it did before or the entry fits into a line. -/

namespace TableAccess.IgnoreFile

open Text

/-- The root, which is the working directory if none is given. -/
def rootIn (directory : List String) (root? : Option Path) : Path := root?.getD ⟨1, directory⟩

/-- The ignore file of a directory. -/
def pathIn (directory : List String) : Path := (Path.mk 1 directory).child name

/-- The components of a file's path behind the directory, if it lies there. -/
def entry? (directory : List String) (file : Path) : Option (List String) :=
  Path.relative? ((Path.mk 1 directory).resolved directory) (file.resolved directory)

/-- The place holds a text that lists the entry. -/
def ListedIn (d : Disk) (place : List String) (entry : List Char) : Prop :=
  ∃ text, Utf8.decode ((d.read? place).getD []) = .ok text ∧ Lists entry text

/-- The ignore file cannot be read for the file that is at `place`: the path to it is too long, or it is
another file, whose bytes are no text. -/
inductive Obstructed (d : Disk) (directory : List String) (file : Path) (place : List String) : Prop
  | path {e : Failure} : d.file? directory (pathIn directory) = .error e →
      Obstructed d directory file place
  | bytes {q rest : List String} {e : Utf8.Error} :
      d.file? directory (pathIn directory) = .ok (some q) → q ≠ place →
      entry? directory file = some rest → Utf8.decode ((d.read? q).getD []) = .error e →
      Obstructed d directory file place

/-- What an ignore file lists at the end of a run: the entry, if it did before or if the entry fits into
a line. -/
def Settled (d : Disk) (directory : List String) (file : Path) (after : Disk) : Prop :=
  ∀ q rest, d.file? directory (pathIn directory) = .ok (some q) →
    entry? directory file = some rest →
      (ListedIn after q (Path.partsText rest).toList ↔
        Fits (Path.partsText rest).toList ∨ ListedIn d q (Path.partsText rest).toList)

section Disk

variable {d : Disk} {directory : List String} {file : Path} {place : List String}

/-- An ignore file that is the file itself is in nobody's way. -/
theorem not_obstructed_of_locate (h : d.locate directory (pathIn directory) = .ok place) :
    ¬ Obstructed d directory file place := by
  rintro (herror | ⟨hq, hne, -, -⟩)
  · unfold Disk.file? at herror
    rw [h] at herror
    split at herror <;> contradiction
  · have hlocated := (Disk.file?_eq_some_iff.mp hq).2.1
    exact hne (Except.ok.inj (hlocated.symm.trans h))

/-- Whether the ignore file can be read does not depend on what is written at the place of the file. -/
theorem obstructed_write (hplace : d.isDirectory place = false) (content : List UInt8) :
    Obstructed (d.write place content) directory file place ↔ Obstructed d directory file place := by
  have hread {q : List String} (hq : q ≠ place) : (d.write place content).read? q = d.read? q := by
    rw [Disk.read?_write, if_neg hq]
  by_cases hself : d.locate directory (pathIn directory) = .ok place
  · exact iff_of_false (not_obstructed_of_locate (Disk.locate_write_ok hplace content hself))
      (not_obstructed_of_locate hself)
  · have hsame := Disk.file?_write hplace content hself
    constructor
    · rintro (h | ⟨hq, hne, hrest, h⟩)
      · exact .path (hsame.symm.trans h)
      · exact .bytes (hsame.symm.trans hq) hne hrest (hread hne ▸ h)
    · rintro (h | ⟨hq, hne, hrest, h⟩)
      · exact .path (hsame.trans h)
      · exact .bytes (hsame.trans hq) hne hrest ((hread hne).symm ▸ h)

theorem listedIn_iff {q : List String} {entry text : List Char}
    (h : Utf8.decode ((d.read? q).getD []) = .ok text) : ListedIn d q entry ↔ Lists entry text := by
  refine ⟨?_, fun hlists => ⟨text, h, hlists⟩⟩
  rintro ⟨text', h', hlists⟩
  rw [h] at h'
  exact Except.ok.inj h' ▸ hlists

theorem listedIn_patched (d : Disk) (q : List String) {entry text patched : List Char}
    (h : patch? entry text = some patched) :
    ListedIn (d.write q (Utf8.encode patched)) q entry ↔ Fits entry := by
  have hread : Utf8.decode (((d.write q (Utf8.encode patched)).read? q).getD []) = .ok patched := by
    rw [Disk.read?_write, if_pos rfl, Option.getD_some, Utf8.decode_encode]
  rw [listedIn_iff hread, lists_patched_iff h]

/-- With no ignore file, or for a file elsewhere, there is nothing to do. -/
theorem settled_of_none (file : Path) (hpath : ∀ e, d.file? directory (pathIn directory) ≠ .error e)
    (hnone : ∀ q rest, d.file? directory (pathIn directory) = .ok (some q) →
      entry? directory file ≠ some rest) (place : List String) :
    ¬ Obstructed d directory file place ∧ Settled d directory file d := by
  refine ⟨?_, fun q rest hq hrest => absurd hrest (hnone q rest hq)⟩
  rintro (h | ⟨hq, -, hrest, -⟩)
  · exact hpath _ h
  · exact hnone _ _ hq hrest

end Disk

/-! ### The run -/

variable {w : Workplace} {file : Path} {place : List String}

theorem ensure_some (file : Path) (root? : Option Path) (w : Workplace) :
    ensure file root? w = ensure file (some (rootIn w.directory root?)) w := by
  have hwhere : Workplace.here w = (.ok ⟨1, w.directory⟩, w) := rfl
  cases root? with
  | none =>
    unfold ensure
    dsimp only
    rw [Act.bind_ok hwhere, pure_bind]
    rfl
  | some root => rfl

/-- The run, step by step: the ignore file, the entry, the text, and the patch. -/
theorem ensure_eq (file : Path) (root? : Option Path) (w : Workplace) : ensure file root? w =
    match w.disk.file? w.directory ((rootIn w.directory root?).child name) with
    | .error e => (.error e, w)
    | .ok none => (.ok false, w)
    | .ok (some q) =>
      if Disk.hasNull file = true then (.error .nullByteInPath, w)
      else match Path.relative? ((rootIn w.directory root?).resolved w.directory)
          (file.resolved w.directory) with
      | none => (.ok false, w)
      | some rest => match Utf8.decode ((w.disk.read? q).getD []) with
        | .error e => (.error (.undecodable e), w)
        | .ok text => match patch? (Path.partsText rest).toList text with
          | none => (.ok false, w)
          | some patched =>
            match w.disk.writeAt w.directory ((rootIn w.directory root?).child name)
                (Utf8.encode patched) with
            | .error e => (.error e, w)
            | .ok disk => (.ok true, { w with
                disk := disk
                messages := w.messages ++ [(.info, "Added " ++ Path.partsText rest ++ " to " ++
                  ((rootIn w.directory root?).child name).toText)] }) := by
  rw [ensure_some]
  generalize rootIn w.directory root? = root
  unfold ensure
  show (Workplace.file? (root.child name) >>= fun found? => _) w = _
  rw [Act.bind_run, Workplace.file?_run]
  rcases w.disk.file? w.directory (root.child name) with e | _ | q
  · rfl
  · rfl
  dsimp only
  cases Disk.hasNull file with
  | true => rfl
  | false =>
    show (match Path.relative? (root.resolved w.directory) (file.resolved w.directory) with
      | none => _
      | some rest => _ : Act Workplace Bool) w = _
    rw [if_neg Bool.false_ne_true]
    rcases Path.relative? (root.resolved w.directory) (file.resolved w.directory) with _ | rest
    · rfl
    show (match Utf8.decode ((w.disk.read? q).getD []) with
      | .error e => _
      | .ok text => _ : Act Workplace Bool) w = _
    rcases Utf8.decode ((w.disk.read? q).getD []) with e | text
    · rfl
    dsimp only
    rcases patch? (Path.partsText rest).toList text with _ | patched
    · rfl
    show (Workplace.write (root.child name) patched >>= fun _ => _) w = _
    rw [Act.bind_run, Workplace.write_run]
    dsimp only
    rcases w.disk.writeAt w.directory (root.child name) (Utf8.encode patched) with e | disk <;> rfl

/-- The run where every file can be written. -/
theorem ensure_run (sound : w.disk.Sound) (hfile : Disk.hasNull file = false) : ensure file none w =
    match w.disk.file? w.directory (pathIn w.directory) with
    | .error e => (.error e, w)
    | .ok none => (.ok false, w)
    | .ok (some q) => match entry? w.directory file with
      | none => (.ok false, w)
      | some rest => match Utf8.decode ((w.disk.read? q).getD []) with
        | .error e => (.error (.undecodable e), w)
        | .ok text => match patch? (Path.partsText rest).toList text with
          | none => (.ok false, w)
          | some patched => (.ok true, { w with
              disk := w.disk.write q (Utf8.encode patched)
              messages := w.messages ++ [(.info, "Added " ++ Path.partsText rest ++ " to " ++
                (pathIn w.directory).toText)] }) := by
  have hrun : ensure file none w = _ := ensure_eq file none w
  have hpath : (rootIn w.directory none).child name = pathIn w.directory := rfl
  have hentry : Path.relative? ((rootIn w.directory none).resolved w.directory)
      (file.resolved w.directory) = entry? w.directory file := rfl
  rw [hrun, hpath, hentry, hfile]
  rcases hq : w.disk.file? w.directory (pathIn w.directory) with e | _ | q
  · rfl
  · rfl
  have hwrite (content : List UInt8) :=
    (Disk.writable_of_file? sound hq).writeAt content
  simp only [hwrite, Bool.false_eq_true, if_false]

/-- A run stops at the ignore file and has changed nothing, or it comes to its end. -/
inductive Concludes (w : Workplace) (file : Path) (place : List String) : Prop
  | stopped {e : Failure} : Obstructed w.disk w.directory file place →
      ensure file none w = (.error e, w) → Concludes w file place
  | settled {b : Bool} {w' : Workplace} : ¬ Obstructed w.disk w.directory file place →
      ensure file none w = (.ok b, w') → Settled w.disk w.directory file w'.disk →
      Concludes w file place

/-- The ignore file and the entry once both are known: what is found in the file decides. -/
theorem ensure_found (sound : w.disk.Sound) (hfile : Disk.hasNull file = false) {q rest : List String}
    (hq : w.disk.file? w.directory (pathIn w.directory) = .ok (some q))
    (hrest : entry? w.directory file = some rest) {content : List Char}
    (hplace : w.disk.read? place = some (Utf8.encode content)) : Concludes w file place := by
  have hrun := ensure_run sound hfile
  have hsettled {after : Disk} (h : ListedIn after q (Path.partsText rest).toList ↔
      Fits (Path.partsText rest).toList ∨ ListedIn w.disk q (Path.partsText rest).toList) :
      Settled w.disk w.directory file after := by
    intro q' rest' hq' hrest'
    obtain rfl : q = q' := Option.some.inj (Except.ok.inj (hq.symm.trans hq'))
    obtain rfl : rest = rest' := Option.some.inj (hrest.symm.trans hrest')
    exact h
  cases htext : Utf8.decode ((w.disk.read? q).getD []) with
  | error e =>
    simp only [hq, hrest, htext] at hrun
    have hother : q ≠ place := by
      rintro rfl
      rw [hplace, Option.getD_some, Utf8.decode_encode] at htext
      contradiction
    exact .stopped (.bytes hq hother hrest htext) hrun
  | ok text =>
    have hfree : ¬ Obstructed w.disk w.directory file place := by
      rintro (h | ⟨hq', -, -, h⟩)
      · rw [hq] at h
        contradiction
      · obtain rfl := Option.some.inj (Except.ok.inj (hq.symm.trans hq'))
        rw [htext] at h
        contradiction
    cases hpatch : patch? (Path.partsText rest).toList text with
    | none =>
      simp only [hq, hrest, htext, hpatch] at hrun
      have hlisted := (listedIn_iff htext).mpr (patch?_eq_none_iff.mp hpatch)
      exact .settled hfree hrun (hsettled (iff_of_true hlisted (.inr hlisted)))
    | some patched =>
      simp only [hq, hrest, htext, hpatch] at hrun
      have hnot : ¬ ListedIn w.disk q (Path.partsText rest).toList :=
        fun h => (patch?_eq_some hpatch).1 ((listedIn_iff htext).mp h)
      refine .settled hfree hrun (hsettled ?_)
      rw [listedIn_patched w.disk q hpatch, or_iff_left hnot]

/-- A run for a file whose own text can be read. -/
theorem ensure_concludes (sound : w.disk.Sound) (hfile : Disk.hasNull file = false)
    {content : List Char} (hplace : w.disk.read? place = some (Utf8.encode content)) :
    Concludes w file place := by
  have hrun := ensure_run sound hfile
  cases hq : w.disk.file? w.directory (pathIn w.directory) with
  | error e =>
    rw [hq] at hrun
    exact .stopped (.path hq) hrun
  | ok found? =>
    have hpath : ∀ e, w.disk.file? w.directory (pathIn w.directory) ≠ .error e := by simp [hq]
    cases found? with
    | none =>
      rw [hq] at hrun
      obtain ⟨hfree, hsettled⟩ := settled_of_none file hpath (by simp [hq]) place
      exact .settled hfree hrun hsettled
    | some q =>
      cases hrest : entry? w.directory file with
      | none =>
        simp only [hq, hrest] at hrun
        obtain ⟨hfree, hsettled⟩ := settled_of_none file hpath (by simp [hrest]) place
        exact .settled hfree hrun hsettled
      | some rest => exact ensure_found sound hfile hq hrest hplace

end TableAccess.IgnoreFile
