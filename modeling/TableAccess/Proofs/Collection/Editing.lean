import TableAccess.Proofs.Collection.Coroutine
import TableAccess.Proofs.Collection.Interchange

/-! Callbacks that edit. A callback may edit what it is handed in place and give nothing back, or leave it
alone and give an edited copy back. Operations go on with what reads the same in both cases, so the two can
take each other's place (`edits_interchangeable`), as long as nobody else holds what is edited: the other
callbacks work by contents, and the conditions of an update of many rows are apart from its payload. Where
they are the payload itself, the rows to update are told by the edited conditions if the edit is in place,
and by those that were asked for if it is not (`edits_told_apart`). -/

namespace TableAccess

variable {σ : Type}

/-- Edits what it is handed in place and gives nothing back. What an edit makes of some contents, and how
it fails, is told by `edit`. -/
structure EditsInPlace (edit : Value → Act σ Value) (x : Value → Act (Stage σ) Value) : Prop where
  failed : ∀ {s v e o}, s.memory.Readable v → s.memory.Holds v →
    edit (s.memory.read v) s.outside = (.error e, o) → ∃ m, x v s = (.error e, ⟨m, o⟩)
  done : ∀ {s v contents o}, s.memory.Readable v → s.memory.Holds v →
    edit (s.memory.read v) s.outside = (.ok contents, o) →
      ∃ m, x v s = (.ok .null, ⟨m, o⟩) ∧ v.isNull = false ∧ m.read v = contents ∧ m.Readable v ∧
        m.Holds v ∧ s.memory.Hands v m v

/-- Leaves what it is handed alone and gives an edited copy back, whose pieces may be those of the
original. -/
structure EditsCopy (edit : Value → Act σ Value) (x : Value → Act (Stage σ) Value) : Prop where
  failed : ∀ {s v e o}, s.memory.Readable v → s.memory.Holds v →
    edit (s.memory.read v) s.outside = (.error e, o) → ∃ m, x v s = (.error e, ⟨m, o⟩)
  done : ∀ {s v contents o}, s.memory.Readable v → s.memory.Holds v →
    edit (s.memory.read v) s.outside = (.ok contents, o) →
      ∃ w m, x v s = (.ok w, ⟨m, o⟩) ∧ w.isNull = false ∧ m.read v = s.memory.read v ∧
        m.read w = contents ∧ m.Readable w ∧ m.Holds w ∧ s.memory.Hands v m w

/-- A callback that stays, and works by contents, or one that edits in place, which one that copies takes
the place of. -/
inductive Interchanged (x : Value → Act (Stage σ) Value) : (Value → Act (Stage σ) Value) → Prop
  | same (h : SameWork Value.orElse x x) : Interchanged x x
  | edited {x' : Value → Act (Stage σ) Value} (edit : Value → Act σ Value) (h : EditsInPlace edit x)
      (h' : EditsCopy edit x') : Interchanged x x'

/-- Whichever way something is edited, what goes on reads the same. -/
theorem Interchanged.sameWork {x x' : Value → Act (Stage σ) Value} (h : Interchanged x x') :
    SameWork Value.orElse x x' := by
  cases h with
  | same h => exact h
  | edited edit h h' =>
    intro s s' v v' ho hv
    obtain ⟨r, o, hr⟩ : ∃ r o, edit (s.memory.read v) s.outside = (r, o) := ⟨_, _, rfl⟩
    have hr' : edit (s'.memory.read v') s'.outside = (r, o) := by rw [← hv.read, ← ho, hr]
    cases r with
    | error e =>
      obtain ⟨m, hx⟩ := h.failed hv.readable hv.holds hr
      obtain ⟨m', hx'⟩ := h'.failed hv.readable' hv.holds' hr'
      exact .inl ⟨e, _, _, hx, hx', rfl⟩
    | ok contents =>
      obtain ⟨m, hx, hnull, hread, hreadable, hholds, hands⟩ := h.done hv.readable hv.holds hr
      obtain ⟨w, m', hx', hw, -, hread', hreadable', hholds', hands'⟩ :=
        h'.done hv.readable' hv.holds' hr'
      have horElse : w.orElse v' = w := by
        unfold Value.orElse
        rw [hw]
        rfl
      refine .inr ⟨.null, ⟨m, o⟩, w, ⟨m', o⟩, hx, hx', rfl, ?_⟩
      show Handed s.memory v s'.memory v' m v m' (w.orElse v')
      rw [horElse]
      exact ⟨hands, hands', hreadable, hreadable', hread.trans hread'.symm, hnull.trans hw.symm, hholds,
        hholds'⟩

/-! ### Edits of lists and mappings -/

namespace Rehearsal.Deed

variable {f : Value → Except Failure Value} {s : Stage σ} {v w : Value} {n : Nat} {e : Failure}

theorem edit_failed (hf : f (s.memory.look v) = .error e) : edit [v] f s = (.error e, s) := by
  show (Act.settle (f (s.memory.look v)) >>= _) s = _
  rw [hf]
  rfl

theorem edit_done (hf : f (s.memory.get n) = .ok w) :
    edit [.reference n] f s = (.ok .null, ⟨s.memory.put n w, s.outside⟩) := by
  show (Act.settle (f (s.memory.get n)) >>= _) s = _
  rw [hf]
  rfl

theorem copy_failed (hf : f (s.memory.look v) = .error e) : copy [v] f s = (.error e, s) := by
  show (Act.settle (f (s.memory.look v)) >>= _) s = _
  rw [hf]
  rfl

theorem copy_done (hf : f (s.memory.look v) = .ok w) :
    copy [v] f s = (.ok (s.memory.store w).1, ⟨(s.memory.store w).2, s.outside⟩) := by
  show (Act.settle (f (s.memory.look v)) >>= _) s = _
  rw [hf]
  rfl

end Rehearsal.Deed

/-- An edit of a list or a mapping, whatever numbers there are in it: none are added, and reading what has
been edited is editing what is read. -/
structure Piecewise (f : Value → Except Failure Value) : Prop where
  resolve : ∀ find v, (∀ k, v ≠ .reference k) → f (v.resolve find) = (f v).map (Value.resolve find)
  references : ∀ v w, f v = .ok w → ∀ k ∈ w.references, k ∈ v.references
  edited : ∀ v w, f v = .ok w → v.isHeld = false ∧ w.isHeld = false

namespace Piecewise

variable {f : Value → Except Failure Value} {s : Stage σ} {v : Value}

/-- What is read is edited as what is kept. -/
theorem read (h : Piecewise f) (hr : s.memory.Readable v) (hv : s.memory.Holds v) :
    f (s.memory.read v) = (f (s.memory.look v)).map s.memory.read := by
  rw [← Memory.read_look hr]
  exact h.resolve _ _ hv.look

/-- What is edited is kept under a number. -/
theorem number (h : Piecewise f) (hv : s.memory.Holds v) {w : Value}
    (hf : f (s.memory.look v) = .ok w) : ∃ n, v = .reference n := by
  cases v with
  | reference n => exact ⟨n, rfl⟩
  | list | map => cases hv.held
  | _ => cases (h.edited _ _ hf).1

theorem read_error (h : Piecewise f) (hr : s.memory.Readable v) (hv : s.memory.Holds v) {e : Failure}
    {o : σ} (he : Act.settle (f (s.memory.read v)) s.outside = (.error e, o)) :
    f (s.memory.look v) = .error e ∧ o = s.outside := by
  obtain ⟨hfailed, ho⟩ := Prod.mk.inj he
  rw [h.read hr hv] at hfailed
  cases hf : f (s.memory.look v) with
  | error e' =>
    rw [hf] at hfailed
    cases hfailed
    exact ⟨rfl, ho.symm⟩
  | ok w =>
    rw [hf] at hfailed
    cases hfailed

theorem read_ok (h : Piecewise f) (hr : s.memory.Readable v) (hv : s.memory.Holds v) {contents : Value}
    {o : σ} (hc : Act.settle (f (s.memory.read v)) s.outside = (.ok contents, o)) :
    o = s.outside ∧ ∃ n w, v = .reference n ∧ f (s.memory.get n) = .ok w ∧
      s.memory.read w = contents := by
  obtain ⟨hdone, ho⟩ := Prod.mk.inj hc
  rw [h.read hr hv] at hdone
  cases hf : f (s.memory.look v) with
  | error e =>
    rw [hf] at hdone
    cases hdone
  | ok w =>
    rw [hf] at hdone
    obtain ⟨n, rfl⟩ := h.number hv hf
    exact ⟨ho.symm, n, w, rfl, hf, Except.ok.inj hdone⟩

theorem holds_edited (h : Piecewise f) {u w : Value} (hf : f u = .ok w) {m : Memory} {n : Nat}
    (hlook : m.get n = w) : m.Holds (.reference n) := by
  refine ⟨rfl, fun k hk => ?_⟩
  obtain rfl : w = .reference k := hlook.symm.trans hk
  cases (h.edited _ _ hf).2

theorem editsInPlace (h : Piecewise f) :
    EditsInPlace (σ := σ) (fun contents => Act.settle (f contents))
      fun v => Rehearsal.Deed.edit [v] f where
  failed hr hv he := by
    obtain ⟨hf, rfl⟩ := h.read_error hr hv he
    exact ⟨_, Rehearsal.Deed.edit_failed hf⟩
  done hr hv hc := by
    obtain ⟨rfl, n, w, rfl, hf, rfl⟩ := h.read_ok hr hv hc
    obtain ⟨hread, hreadable, hands⟩ := Memory.read_put hr (h.references _ _ hf)
    have hlt := hr.lt_size (.here (List.mem_singleton.mpr rfl))
    have hget := (Memory.get_put _ n n w hlt).trans (if_pos rfl)
    exact ⟨_, Rehearsal.Deed.edit_done hf, rfl, hread, hreadable, h.holds_edited hf hget, hands⟩

theorem editsCopy (h : Piecewise f) :
    EditsCopy (σ := σ) (fun contents => Act.settle (f contents))
      fun v => Rehearsal.Deed.copy [v] f where
  failed hr hv he := by
    obtain ⟨hf, rfl⟩ := h.read_error hr hv he
    exact ⟨_, Rehearsal.Deed.copy_failed hf⟩
  done {s v contents o} hr hv hc := by
    obtain ⟨rfl, n, w, rfl, hf, rfl⟩ := h.read_ok hr hv hc
    obtain ⟨-, hw⟩ := Memory.readWithin_size hr (h.references _ _ hf)
    obtain ⟨hread, hreadable⟩ := Memory.read_store hw
    exact ⟨_, _, Rehearsal.Deed.copy_done hf, rfl, ((s.memory.extends_store w).read hr).1, hread,
      hreadable, h.holds_edited hf (s.memory.get_store w), Memory.hands_store hr (h.references _ _ hf)⟩

end Piecewise

namespace Value

variable {find : Nat → Value} {es : Entries} {key : String} {v : Value} {n : Nat}

theorem resolveEntries_eq_map (find : Nat → Value) (es : Entries) :
    resolveEntries find es = es.map fun e => (e.1, e.2.resolve find) := by
  induction es with
  | nil => rfl
  | cons e es ih => rw [resolveEntries, ih, List.map_cons]

theorem mem_referencesEntries : n ∈ referencesEntries es ↔ ∃ e ∈ es, n ∈ e.2.references := by
  induction es with
  | nil => simp [referencesEntries]
  | cons e es ih => simp [referencesEntries, ih]

theorem resolveEntries_put :
    resolveEntries find (es.put key v) =
      Entries.put (resolveEntries find es) key (v.resolve find) := by
  induction es with
  | nil => rfl
  | cons e es ih =>
    unfold Entries.put
    split <;> simp only [resolveEntries, *, if_true, if_false]

theorem mem_referencesEntries_put (h : n ∈ referencesEntries (es.put key v)) :
    n ∈ referencesEntries es ∨ n ∈ v.references := by
  induction es with
  | nil => simpa [Entries.put, referencesEntries] using h
  | cons e es ih =>
    unfold Entries.put at h
    split at h <;> simp only [referencesEntries, List.mem_append] at h ⊢ <;> tauto

theorem resolveEntries_erase :
    resolveEntries find (es.erase key) = Entries.erase (resolveEntries find es) key := by
  unfold Entries.erase
  rw [resolveEntries_eq_map, resolveEntries_eq_map, List.filter_map]
  rfl

theorem mem_referencesEntries_erase (h : n ∈ referencesEntries (es.erase key)) :
    n ∈ referencesEntries es := by
  obtain ⟨e, he, hn⟩ := mem_referencesEntries.mp h
  exact mem_referencesEntries.mpr ⟨e, List.mem_of_mem_filter he, hn⟩

end Value

namespace Piecewise

open Rehearsal.Deed Value

variable {f : Value → Except Failure Value} {key : String} {v : Value}

/-- An edit of the entries of a mapping, which fails on everything else. -/
theorem of_entries {g : Entries → Entries} {e : Failure} (hmap : ∀ es, f (.map es) = .ok (.map (g es)))
    (hother : ∀ v : Value, v.isMap = false → f v = .error e)
    (resolve : ∀ find es, resolveEntries find (g es) = g (resolveEntries find es))
    (references : ∀ es, ∀ n ∈ referencesEntries (g es), n ∈ referencesEntries es) : Piecewise f where
  resolve find v hv := by
    cases v with
    | map es =>
      show f (.map (resolveEntries find es)) = _
      rw [hmap, hmap, ← resolve]
      rfl
    | reference k => exact absurd rfl (hv k)
    | _ => exact (hother _ (by rfl)).trans (congrArg (Except.map _) (hother _ (by rfl)).symm)
  references v w hw := by
    cases v with
    | map es =>
      obtain rfl := Except.ok.inj ((hmap es).symm.trans hw)
      exact references es
    | _ => cases (hother _ (by rfl)).symm.trans hw
  edited v w hw := by
    cases v with
    | map es =>
      obtain rfl := Except.ok.inj ((hmap es).symm.trans hw)
      exact ⟨rfl, rfl⟩
    | _ => cases (hother _ (by rfl)).symm.trans hw

/-- Sets an entry to something that refers to nothing. -/
theorem merged (hv : v.references = []) : Piecewise (merged (.text key) v) :=
  .of_entries (fun _ => rfl) (fun v hv => by cases v <;> first | rfl | cases hv)
    (fun find es => by rw [resolveEntries_put, resolve_of_references hv])
    fun es n hn => (mem_referencesEntries_put hn).resolve_right (by simp [hv])

/-- Leaves an entry out, be it the last one. -/
theorem dropped : Piecewise (dropped (.text key)) :=
  .of_entries (fun _ => rfl) (fun v hv => by cases v <;> first | rfl | cases hv)
    (fun _ _ => resolveEntries_erase) fun _ _ => mem_referencesEntries_erase

theorem interchanged (h : Piecewise f) :
    Interchanged (σ := σ) (fun v => edit [v] f) fun v => copy [v] f :=
  .edited _ h.editsInPlace h.editsCopy

end Piecewise

namespace Collection

/-- A collection, and one in which callbacks that copy take the place of callbacks that edit in place:
formatters and those pre-hooks that are handed a payload. All others work by contents. -/
structure Interchanges (c c' : Collection σ) : Prop where
  rest : c' = { c with toDb? := c'.toDb?, toJs? := c'.toJs?, pre := c'.pre }
  toDb : Option.Rel Interchanged c.toDb? c'.toDb?
  toJs : Option.Rel Interchanged c.toJs? c'.toJs?
  prepare : ∀ op, op.hasPayload = true → Option.Rel (fun hook hook' =>
    Interchanged (fun v => runHook (some hook) [v]) fun v => runHook (some hook') [v])
      (c.pre op) (c'.pre op)
  announce : ∀ op, op.hasPayload = false → c'.pre op = c.pre op ∧ ∀ hook, c.pre op = some hook →
    SameCall (runHook (some hook) []) (runHook (some hook) [])
  conclude : ∀ op, op ≠ .flush → ∀ hook, c.post op = some hook →
    SameWork (fun _ v => v) (fun v => runHook (some hook) [v]) fun v => runHook (some hook) [v]
  flushed : ∀ hook, c.post .flush = some hook →
    SameCall (runHook (some hook) []) (runHook (some hook) [])

theorem Interchanges.matches {c c' : Collection σ} (h : c.Interchanges c') : c.Matches c' := by
  have hrel {α : Type} {R S : α → α → Prop} {x y : Option α} (hxy : Option.Rel R x y)
      (hRS : ∀ a b, R a b → S a b) : Option.Rel S x y := by
    cases hxy with
    | none => exact .none
    | some hxy => exact .some (hRS _ _ hxy)
  have hself {α : Type} {R : α → α → Prop} {x : Option α} (hx : ∀ a, x = some a → R a a) :
      Option.Rel R x x := by
    cases x with
    | none => exact .none
    | some a => exact .some (hx a rfl)
  have hpost : c'.post = c.post := by rw [h.rest]
  exact {
    table := by rw [h.rest]
    attachment := by rw [h.rest]
    accessor := by rw [h.rest]
    toDb := hrel h.toDb fun _ _ hx => hx.sameWork
    toJs := hrel h.toJs fun _ _ hx => hx.sameWork
    prepare := fun op hop => hrel (h.prepare op hop) fun _ _ hx => hx.sameWork
    announce := fun op hop => by
      obtain ⟨heq, hcall⟩ := h.announce op hop
      rw [heq]
      exact hself hcall
    conclude := fun op hop => by
      rw [hpost]
      exact hself (h.conclude op hop)
    flushed := by
      rw [hpost]
      exact hself h.flushed }

/-- Two rows answer every statement; payloads and rows are worked on. -/
def worked (toDb toJs : Value → Act (Stage Unit) Value) : Collection Unit :=
  { answered "users" people with toDb? := some toDb, toJs? := some toJs }

theorem interchanges_worked {toDb toDb' toJs toJs' : Value → Act (Stage Unit) Value}
    (db : Interchanged toDb toDb') (js : Interchanged toJs toJs') :
    (worked toDb toJs).Interchanges (worked toDb' toJs') where
  rest := rfl
  toDb := .some db
  toJs := .some js
  prepare := fun _ _ => .none
  announce := fun _ _ => ⟨rfl, fun _ h => nomatch h⟩
  conclude := fun _ _ _ h => nomatch h
  flushed := fun _ h => nomatch h

theorem completelyAnswered_worked (toDb toJs : Value → Act (Stage Unit) Value) :
    (worked toDb toJs).CompletelyAnswered := by
  have hgiven {v w : Value} {o o' : Unit} (hw : w.isComplete = true)
      (h : (pure w : Act Unit Value) o = (.ok v, o')) : v.isComplete = true := by
    obtain rfl := Except.ok.inj (Prod.mk.inj h).1
    exact hw
  exact {
    statements := fun k hk q o v o' h => by cases hk; exact hgiven rfl h
    find := fun t ht _ _ _ _ _ h => by cases ht; exact hgiven rfl h
    findOne := fun t ht _ _ _ _ h => by cases ht; exact hgiven rfl h
    insert := fun t ht _ _ _ _ h => by cases ht; exact hgiven rfl h
    updateById := fun t ht _ _ _ _ _ h => by cases ht; exact hgiven rfl h
    destroyById := fun t ht _ _ _ _ h => by cases ht; exact hgiven rfl h }

/-- Marks payloads and renumbers rows, in place. -/
def editing : Collection Unit :=
  worked (fun v => Rehearsal.Deed.edit [v] (Rehearsal.Deed.merged (.text "seen") (.int 1)))
    fun v => Rehearsal.Deed.edit [v] (Rehearsal.Deed.merged (.text "id") (.int 7))

/-- Gives marked copies of payloads and renumbered copies of rows. -/
def copying : Collection Unit :=
  worked (fun v => Rehearsal.Deed.copy [v] (Rehearsal.Deed.merged (.text "seen") (.int 1)))
    fun v => Rehearsal.Deed.copy [v] (Rehearsal.Deed.merged (.text "id") (.int 7))

theorem interchanges_editing : editing.Interchanges copying :=
  interchanges_worked (Piecewise.merged rfl).interchanged (Piecewise.merged rfl).interchanged

/-- Editing in place or giving an edited copy back makes no difference to an operation that is run to its
end: it does the same deeds, that is the same calls with the same arguments and the same callbacks with
arguments that read the same, leaves the same outside, and ends in the same phase, with the same failure or
with results that read the same. -/
theorem edits_interchangeable {c c' : Collection σ} (h : c.Interchanges c')
    (answers : c.CompletelyAnswered) {r : Request} {s : Stage σ} (ready : r.Ready s.memory) :
    ∃ ending t ending' t', c.watched.completed r s.fresh = (ending, t) ∧
      c'.watched.completed r s.fresh = (ending', t') ∧ t.outside = t'.outside ∧
      Ending.Alike t.memory t'.memory ending ending' :=
  agrees_completed h.matches.watched answers.watched ready

/-- An update of many rows that marks its payload and renumbers the rows which it gives back. -/
theorem edits_interchangeable_people :
    let s : Stage Unit := ⟨⟨[.map [("active", .bool true)], .map [("name", .text "Ann")]]⟩, ()⟩
    let r : Request := .updateAll (.reference 0) (.reference 1)
    editing.Interchanges copying ∧ editing.CompletelyAnswered ∧ r.Ready s.memory ∧
      (∃ ending t ending' t', editing.watched.completed r s.fresh = (ending, t) ∧
        copying.watched.completed r s.fresh = (ending', t') ∧ t.outside = t'.outside ∧
        Ending.Alike t.memory t'.memory ending ending') ∧
      (editing.watched.completed r s.fresh).2.outside.statements =
        ["SELECT * FROM users WHERE active = 'true'",
          "UPDATE users SET name = 'Ann', seen = 1 WHERE active = 'true'",
          "SELECT * FROM users WHERE id IN (1,2)"] := by
  intro s r
  have answers : editing.CompletelyAnswered := completelyAnswered_worked _ _
  have ready : r.Ready s.memory :=
    @Request.ready_placed .empty (.map [("active", .bool true)]) (.map [("name", .text "Ann")]) rfl rfl
  exact ⟨interchanges_editing, answers, ready, edits_interchangeable interchanges_editing answers ready,
    by decide +kernel⟩

/-- The same collections, and an update of many rows whose conditions are its payload. A pre-hook that
edits what the caller passed, instead of what it is handed, tells them apart as well. -/
theorem edits_told_apart :
    let late : Hook Unit := fun _ => do
      return .now (← Rehearsal.Deed.edit [.reference 0] (Rehearsal.Deed.merged (.text "late") (.int 1)))
    let s : Stage Unit := ⟨⟨[.map [("name", .text "Ann")]]⟩, ()⟩
    let sent (c : Collection Unit) (conditions : Value) : List String :=
      (c.watched.completed (.updateAll conditions (.reference 0)) s.fresh).2.outside.statements
    editing.Interchanges copying ∧ editing.CompletelyAnswered ∧
      sent editing (.reference 0) = ["SELECT * FROM users WHERE name = 'Ann' AND seen = '1'",
        "UPDATE users SET name = 'Ann', seen = 1 WHERE name = 'Ann' AND seen = '1'",
        "SELECT * FROM users WHERE id IN (1,2)"] ∧
      sent copying (.reference 0) = ["SELECT * FROM users WHERE name = 'Ann'",
        "UPDATE users SET name = 'Ann', seen = 1 WHERE name = 'Ann'",
        "SELECT * FROM users WHERE id IN (1,2)"] ∧
      sent { editing with pre := fun _ => some late } (.map [("id", .int 2)]) =
        ["SELECT * FROM users WHERE id = '2'",
          "UPDATE users SET name = 'Ann', seen = 1, late = 1 WHERE id = '2'",
          "SELECT * FROM users WHERE id IN (1,2)"] ∧
      sent { copying with pre := fun _ => some late } (.map [("id", .int 2)]) =
        ["SELECT * FROM users WHERE id = '2'", "UPDATE users SET name = 'Ann', seen = 1 WHERE id = '2'",
          "SELECT * FROM users WHERE id IN (1,2)"] := by
  intro late s sent
  exact ⟨interchanges_editing, completelyAnswered_worked _ _, by decide +kernel, by decide +kernel,
    by decide +kernel, by decide +kernel⟩

end Collection

end TableAccess
