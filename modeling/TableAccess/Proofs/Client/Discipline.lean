import TableAccess.Proofs.Client.Course

/-! Discipline with connections. Whatever the faults, and whoever is closed meanwhile, a connection that
a client got sees one commit that succeeds or one rollback, and is back in its pool at the end
(`task_disciplined`). -/

namespace TableAccess

/-- Whether a step was at this place for this client. -/
def Attempt.isAt (site : Site) (id : Nat) (a : Attempt) : Bool :=
  a.event.site? == some site && a.event.client? == some id

def Attempt.succeeded (a : Attempt) : Bool := a.failure?.isNone

/-- One commit succeeded and nothing was rolled back, or one rollback was tried and no commit
succeeded. -/
def EndedOnce (id : Nat) (trace : List Attempt) : Prop :=
  trace.countP (fun a => a.isAt .commit id && a.succeeded) = 1 ∧
      trace.countP (·.isAt .rollback id) = 0 ∨
    trace.countP (·.isAt .rollback id) = 1 ∧
      trace.countP (fun a => a.isAt .commit id && a.succeeded) = 0

/-- What a client does for one statement. A connection that it gets is given back once, last of all,
and until then the transaction is ended once. Without a connection there is no commit, no rollback and
nothing to give back. -/
structure Disciplined (id : Nat) (trace : List Attempt) : Prop where
  acquired : ∀ before a rest, trace = before ++ a :: rest → a.isAt .acquire id → a.succeeded →
    ∃ between last, rest = between ++ [last] ∧ last.isAt .release id ∧
      between.countP (·.isAt .release id) = 0 ∧ EndedOnce id between
  unacquired : (∀ a ∈ trace, a.isAt .acquire id → ¬ a.succeeded) →
    ∀ a ∈ trace, ∀ client, ¬ a.isAt .commit client ∧ ¬ a.isAt .rollback client ∧
      ¬ a.isAt .release client

theorem Attempt.isAt_iff {site : Site} {id : Nat} {a : Attempt} :
    a.isAt site id = true ↔ a.event.site? = some site ∧ a.event.client? = some id := by
  simp [isAt]

theorem countP_isAt_eq_zero {trace : List Attempt} {site : Site}
    (h : ∀ a ∈ trace, a.event.site? ≠ some site) (id : Nat) :
    trace.countP (·.isAt site id) = 0 := by
  refine List.countP_eq_zero.mpr fun a ha hat => ?_
  exact h a ha (Attempt.isAt_iff.mp hat).1

/-- Steps that end nothing do not matter to how a transaction ended. -/
theorem endedOnce_append {id : Nat} {work ending : List Attempt}
    (hc : ∀ a ∈ work, a.event.site? ≠ some .commit) (hr : ∀ a ∈ work, a.event.site? ≠ some .rollback)
    (he : EndedOnce id ending) : EndedOnce id (work ++ ending) := by
  have hcommit : work.countP (fun a => a.isAt .commit id && a.succeeded) = 0 := by
    refine List.countP_eq_zero.mpr fun a ha hat => ?_
    exact hc a ha (Attempt.isAt_iff.mp (Bool.and_eq_true_iff.mp hat).1).1
  unfold EndedOnce
  rw [List.countP_append, List.countP_append, hcommit, countP_isAt_eq_zero hr id, Nat.zero_add,
    Nat.zero_add]
  exact he

namespace Client

theorem IsWork.site? {id : Nat} {e : Event} (h : IsWork id e) :
    e.site? = some .send ∨ e.site? = some .closeAll := by
  cases e with
  | send client statement parameters => exact .inl rfl
  | closeAll client => exact .inr rfl
  | pool | acquire | commit | rollback | release | asked | called | resumed => exact h.elim

theorem Ends.site? {id : Nat} {ending : List Attempt} (h : Ends id ending) :
    ∀ a ∈ ending, a.event.site? = some .commit ∨ a.event.site? = some .rollback := by
  cases h with
  | committed => simp
  | undone f? => simp
  | uncommitted e f? => simp

theorem Ends.endedOnce {id : Nat} {ending : List Attempt} (h : Ends id ending) :
    EndedOnce id ending := by
  cases h with
  | committed => exact .inl (by simp [Attempt.isAt, Attempt.succeeded])
  | undone f? => exact .inr (by simp [Attempt.isAt])
  | uncommitted e f? => exact .inr (by simp [Attempt.isAt, Attempt.succeeded])

/-- The steps between getting a connection and giving it back. -/
theorem between_site? {id : Nat} {work ending : List Attempt}
    (hw : ∀ a ∈ work, IsWork id a.event) (he : Ends id ending) :
    ∀ a ∈ work ++ ending, a.event.site? ≠ some .acquire ∧ a.event.site? ≠ some .release := by
  intro a ha
  rcases List.mem_append.mp ha with ha | ha
  · rcases (hw a ha).site? with h | h <;> rw [h] <;> decide
  · rcases he.site? a ha with h | h <;> rw [h] <;> decide

theorem between_endedOnce {id : Nat} {work ending : List Attempt}
    (hw : ∀ a ∈ work, IsWork id a.event) (he : Ends id ending) : EndedOnce id (work ++ ending) := by
  refine endedOnce_append (fun a ha => ?_) (fun a ha => ?_) he.endedOnce
  · rcases (hw a ha).site? with h | h <;> rw [h] <;> decide
  · rcases (hw a ha).site? with h | h <;> rw [h] <;> decide

theorem eq_of_acquire {first a : Attempt} {before rest tail : List Attempt}
    (h : first :: tail = before ++ a :: rest) (ha : a.event.site? = some .acquire)
    (htail : ∀ b ∈ tail, b.event.site? ≠ some .acquire) : a = first ∧ rest = tail := by
  cases before with
  | nil =>
    obtain ⟨rfl, rfl⟩ := List.cons.inj h
    exact ⟨rfl, rfl⟩
  | cons b bs =>
    obtain ⟨-, rfl⟩ := List.cons.inj h
    exact absurd ha (htail a (by simp))

theorem Course.disciplined {id : Nat} {trace : List Attempt} (h : Course id trace) :
    Disciplined id trace := by
  cases h with
  | refused =>
    refine ⟨fun before a rest h => ?_, fun _ a ha => ?_⟩
    · simp at h
    · simp at ha
  | failed e =>
    refine ⟨fun before a rest h ha hs => ?_, fun _ a ha client => ?_⟩
    · obtain ⟨rfl, -⟩ := eq_of_acquire h (Attempt.isAt_iff.mp ha).1 (by simp)
      contradiction
    · obtain rfl := List.mem_singleton.mp ha
      simp [Attempt.isAt]
  | @acquired work ending f? hw he =>
    have hb := between_site? hw he
    rw [← List.append_assoc]
    refine ⟨fun before a rest h ha hs => ?_, fun hn => ?_⟩
    · have htail : ∀ b ∈ (work ++ ending) ++ [⟨.release id, f?⟩], b.event.site? ≠ some .acquire := by
        intro b hmem
        rcases List.mem_append.mp hmem with hmem | hmem
        · exact (hb b hmem).1
        · obtain rfl := List.mem_singleton.mp hmem
          simp
      obtain ⟨-, rfl⟩ := eq_of_acquire h (Attempt.isAt_iff.mp ha).1 htail
      refine ⟨work ++ ending, ⟨.release id, f?⟩, rfl, ?_, ?_, between_endedOnce hw he⟩
      · simp [Attempt.isAt]
      · exact countP_isAt_eq_zero (fun b hmem => (hb b hmem).2) id
    · refine absurd rfl (hn _ List.mem_cons_self ?_)
      simp [Attempt.isAt]

/-- Whatever a client is asked for, and whatever strikes on the way, is done with discipline. -/
theorem task_disciplined (id : Nat) (task : Task) (w : World) :
    ∃ events, (task.perform id w).2.journal = w.journal ++ events ∧
      Disciplined id (attempts w.plan events) := by
  obtain ⟨r, u, trace, hr, hc⟩ := perform_conducts id task w
  refine ⟨trace.map (·.event), ?_, ?_⟩
  · rw [hr.run, hr.passed.journal]
  · rw [hr.passed.attempts_eq]
    exact hc.disciplined

end Client

end TableAccess
