import TableAccess.Proofs.Act
import TableAccess.Workplace

/-! Files that are written and found again. A path can be written to if it leads to a place that is no
directory (`Writable`). On the way there it passes directories only, so it leads to the same place once
the file is there (`walk_write`): what has been written under a path is found under it
(`Writable.file?_write`). -/

namespace TableAccess

namespace Disk

variable {d : Disk} {directory place : List String} {p : Path} {content : List UInt8}

@[simp] theorem isDirectory_write (d : Disk) (place other : List String) (content : List UInt8) :
    (d.write place content).isDirectory other = d.isDirectory other := rfl

theorem isFile_write (d : Disk) (place other : List String) (content : List UInt8) :
    (d.write place content).isFile other = (other == place || d.isFile other) := by
  rw [isFile, read?_write]
  by_cases h : other = place <;> simp [h, isFile]

/-- A walk passes directories only, so a new file is met by no walk but one that would have found nothing
there. -/
theorem walk_write (hplace : d.isDirectory place = false) (content : List UInt8)
    (start parts : List String) :
    (d.write place content).walk start parts = d.walk start parts ∨
      d.walk start parts = .error .missing ∧
        (d.write place content).walk start parts = .error .notDirectory := by
  induction parts generalizing start with
  | nil => exact .inl rfl
  | cons part rest ih =>
    simp only [walk, isFile_write, isDirectory_write]
    by_cases hfile : d.isFile start = true
    · exact .inl (by simp [hfile])
    by_cases hdirectory : d.isDirectory start = true
    · have hne : (start == place) = false := by
        refine beq_eq_false_iff_ne.mpr ?_
        rintro rfl
        simp [hplace] at hdirectory
      simp only [hfile, hdirectory, hne, Bool.or_false, Bool.not_true, Bool.false_eq_true, if_false]
      split
      · exact ih _
      split
      · exact .inl rfl
      · exact ih _
    · by_cases hstart : start = place
      · subst hstart
        exact .inr (by simp [hfile, hdirectory])
      · exact .inl (by simp [hfile, hdirectory, hstart])

theorem locate_write (hplace : d.isDirectory place = false) (content : List UInt8)
    (directory : List String) (p : Path) :
    (d.write place content).locate directory p = d.locate directory p ∨
      d.locate directory p = .error .missing ∧
        (d.write place content).locate directory p = .error .notDirectory := by
  unfold locate
  split
  · exact .inl rfl
  split <;> exact walk_write hplace content _ _

theorem locate_write_ok (hplace : d.isDirectory place = false) (content : List UInt8)
    {q : List String} (h : d.locate directory p = .ok q) :
    (d.write place content).locate directory p = .ok q := by
  obtain hsame | ⟨hmissing, -⟩ := locate_write hplace content directory p
  · rw [hsame, h]
  · rw [hmissing] at h
    contradiction

/-- A path that does not lead to a new file leads where it led before. -/
theorem file?_write (hplace : d.isDirectory place = false) (content : List UInt8)
    (h : d.locate directory p ≠ .ok place) :
    (d.write place content).file? directory p = d.file? directory p := by
  unfold file?
  split
  · rfl
  obtain hsame | ⟨hmissing, hnone⟩ := locate_write hplace content directory p
  · rw [hsame]
    cases hlocate : d.locate directory p with
    | error e => cases e <;> rfl
    | ok q =>
      have hq : (q == place) = false := by
        refine beq_eq_false_iff_ne.mpr ?_
        rintro rfl
        exact h hlocate
      simp only [isFile_write, hq, Bool.false_or]
  · rw [hmissing, hnone]

/-- A path under which a file can be written, and where that is. -/
structure Writable (d : Disk) (directory : List String) (p : Path) (place : List String) : Prop where
  noNull : hasNull p = false
  located : d.locate directory p = .ok place
  noDirectory : d.isDirectory place = false

theorem Writable.writeAt (h : d.Writable directory p place) (content : List UInt8) :
    d.writeAt directory p content = .ok (d.write place content) := by
  rw [Disk.writeAt, h.noNull, h.located]
  simp [h.noDirectory]

theorem writable_of_writeAt {d' : Disk} (h : d.writeAt directory p content = .ok d') :
    ∃ place, d.Writable directory p place ∧ d' = d.write place content := by
  unfold Disk.writeAt at h
  split at h
  · contradiction
  next hnull =>
    split at h
    · contradiction
    next place hlocated =>
      split at h
      · contradiction
      next hdirectory =>
        exact ⟨place, ⟨by simpa using hnull, hlocated, by simpa using hdirectory⟩,
          (Except.ok.inj h).symm⟩

theorem file?_eq_some_iff : d.file? directory p = .ok (some place) ↔
    hasNull p = false ∧ d.locate directory p = .ok place ∧ d.isFile place = true := by
  unfold file?
  cases hasNull p with
  | true => simp
  | false =>
    cases h : d.locate directory p with
    | error e => cases e <;> simp
    | ok q =>
      have hq : (if d.isFile q = true then some q else none) = some place ↔
          q = place ∧ d.isFile place = true := by
        rw [Option.ite_none_right_eq_some, Option.some.injEq, and_comm]
        exact and_congr_right fun hqp => by rw [hqp]
      simpa only [Bool.false_eq_true, if_false, Except.ok.injEq, true_and] using hq

/-- A path leads where it led when the file has been written. -/
theorem Writable.write (h : d.Writable directory p place) (content : List UInt8) :
    (d.write place content).Writable directory p place :=
  ⟨h.noNull, locate_write_ok h.noDirectory content h.located, h.noDirectory⟩

theorem Writable.file?_eq (h : d.Writable directory p place) (hread : d.read? place = some content) :
    d.file? directory p = .ok (some place) :=
  file?_eq_some_iff.mpr ⟨h.noNull, h.located, by rw [isFile, hread, Option.isSome_some]⟩

theorem Writable.file?_write (h : d.Writable directory p place) (content : List UInt8) :
    (d.write place content).file? directory p = .ok (some place) :=
  (h.write content).file?_eq (by rw [read?_write, if_pos rfl])

/-- No place is a file and a directory. -/
def Sound (d : Disk) : Prop := ∀ place, d.isFile place = true → d.isDirectory place = false

theorem Writable.sound_write (h : d.Writable directory p place) (sound : d.Sound)
    (content : List UInt8) : (d.write place content).Sound := by
  intro other hother
  rw [isFile_write, Bool.or_eq_true, beq_iff_eq] at hother
  rw [isDirectory_write]
  obtain rfl | hother := hother
  · exact h.noDirectory
  · exact sound other hother

/-- A file that is there can be written anew. -/
theorem writable_of_file? (sound : d.Sound) (h : d.file? directory p = .ok (some place)) :
    d.Writable directory p place := by
  obtain ⟨hnull, hlocated, hfile⟩ := file?_eq_some_iff.mp h
  exact ⟨hnull, hlocated, sound place hfile⟩

end Disk

namespace Workplace

theorem file?_run (w : Workplace) (p : Path) : file? p w = (w.disk.file? w.directory p, w) := by
  have h : file? p = (do
    let s ← get
    Act.settle (s.disk.file? s.directory p)) := rfl
  rw [h, Act.bind_ok (Act.get_run w), Act.settle_run]

theorem content_run (w : Workplace) (place : List String) :
    content place w = (.ok ((w.disk.read? place).getD []), w) := rfl

theorem write_run (w : Workplace) (p : Path) (content : List Char) :
    write p content w = match w.disk.writeAt w.directory p (Text.Utf8.encode content) with
      | .ok disk => (.ok (), { w with disk := disk })
      | .error e => (.error e, w) := by
  have h : write p content = (do
    let s ← get
    let disk ← Act.settle (s.disk.writeAt s.directory p (Text.Utf8.encode content))
    set { s with disk := disk }) := rfl
  rw [h, Act.bind_ok (Act.get_run w), Act.bind_run, Act.settle_run]
  rcases w.disk.writeAt w.directory p (Text.Utf8.encode content) with e | disk <;> rfl

end Workplace

end TableAccess
