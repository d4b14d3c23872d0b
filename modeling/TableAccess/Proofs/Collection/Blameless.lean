import TableAccess.Collection.Perform
import TableAccess.Proofs.Act

/-! Failures that do not report an argument. Three refusals tell a caller that an argument is wrong: by
its format, because it is missing, or because it is empty. What comes back from a database can be wrong
in many ways, but none of the steps on it reports an argument, and neither does the course of an operation
beside its statement, unless a callback or the database does (`Unobtrusive`). -/

namespace TableAccess

open Statement

/-- The failures by which an argument is reported. -/
def Failure.IsArgument : Failure → Prop
  | .refused (.invalidFormat _) | .refused (.missingArgument _) | .refused (.empty _) => True
  | _ => False

variable {σ τ α β : Type}

/-- A result that reports no argument. -/
def Blameless (r : Except Failure α) : Prop := ∀ e, r = .error e → ¬ e.IsArgument

namespace Blameless

variable {x : Except Failure α} {f : α → Except Failure β}

theorem ok (a : α) : Blameless (.ok a) := fun _ h => by cases h

theorem error {e : Failure} (h : ¬ e.IsArgument) : Blameless (α := α) (.error e) := by
  rintro _ ⟨⟩
  exact h

theorem bind (hx : Blameless x) (hf : ∀ a, x = .ok a → Blameless (f a)) : Blameless (x >>= f) := by
  cases x with
  | error e => exact error (hx e rfl)
  | ok a => exact hf a rfl

theorem mapM {g : α → Except Failure β} (h : ∀ a, Blameless (g a)) (as : List α) :
    Blameless (as.mapM g) := by
  induction as with
  | nil => exact ok []
  | cons a as ih =>
    rw [List.mapM_cons]
    exact .bind (h a) fun b _ => .bind ih fun bs _ => ok (b :: bs)

end Blameless

namespace Act

/-- A step that reports no argument, from whatever state. -/
def Blameless (x : Act τ α) : Prop := ∀ s, TableAccess.Blameless (x s).1

variable {x : Act τ α} {f : α → Act τ β} {s : τ}

theorem blameless_pure (a : α) : Blameless (Pure.pure a : Act τ α) := fun _ => .ok a

theorem blameless_settle {r : Except Failure α} (h : TableAccess.Blameless r) :
    Blameless (settle r : Act τ α) := fun _ => h

/-- A step that reports nothing, and after it steps that report nothing from where it leads. -/
theorem blameless_run (hx : TableAccess.Blameless (x s).1)
    (hf : ∀ a t, x s = (.ok a, t) → TableAccess.Blameless (f a t).1) :
    TableAccess.Blameless ((x >>= f) s).1 := by
  obtain ⟨r, t, hr⟩ : ∃ r t, x s = (r, t) := ⟨_, _, rfl⟩
  cases r with
  | error e =>
    rw [bind_error hr]
    rw [hr] at hx
    exact .error (hx e rfl)
  | ok a =>
    rw [bind_ok hr]
    exact hf a t hr

theorem Blameless.bind (hx : Blameless x) (hf : ∀ a, Blameless (f a)) : Blameless (x >>= f) :=
  fun s => blameless_run (hx s) fun a t _ => hf a t

theorem Blameless.mapM {g : α → Act τ β} (h : ∀ a, Blameless (g a)) (as : List α) :
    Blameless (as.mapM g) := by
  induction as with
  | nil => exact blameless_pure []
  | cons a as ih =>
    rw [List.mapM_cons]
    exact .bind (h a) fun b => .bind ih fun bs => blameless_pure (b :: bs)

end Act

namespace Stage

theorem blameless_read (v : Value) : Act.Blameless (read v : Act (Stage σ) Value) := fun _ => .ok _

theorem blameless_look (v : Value) : Act.Blameless (look v : Act (Stage σ) Value) := fun _ => .ok _

theorem blameless_place (v : Value) : Act.Blameless (place v : Act (Stage σ) Value) := fun _ => .ok _

theorem blameless_store (v : Value) : Act.Blameless (store v : Act (Stage σ) Value) := fun _ => .ok _

theorem blameless_outward {x : Act σ α} (h : Act.Blameless x) :
    Act.Blameless (outward x : Act (Stage σ) α) := fun s => h s.outside

end Stage

/-! ### What comes back from a database -/

namespace Statement

theorem elements_blameless (v : Value) : Blameless (elements v) := by
  unfold elements
  split
  · exact .ok _
  · exact .error id

theorem texts_blameless (vs : List Value) : Blameless (texts vs) := by
  refine .mapM (fun v => ?_) vs
  split
  · exact .ok _
  · exact .error id

theorem entries_blameless (v : Value) : Blameless (entries v) := by
  unfold entries
  split
  · exact .ok _
  · exact .error id

theorem Raw.columns_blameless (v : Value) : Blameless (columns v) := by
  unfold columns
  split
  · exact .ok _
  · exact .bind (elements_blameless v) fun xs _ => .bind (texts_blameless xs) fun _ _ => .ok _

end Statement

theorem Settings.wholeNumber_blameless (v : Value) : Blameless (wholeNumber v) := by
  have htext (source : Value) (cs : List Char) : Blameless (wholeOfText source cs) := by
    unfold wholeOfText
    split <;> first | exact .ok _ | exact .error id
  unfold wholeNumber
  split <;> first | exact .ok _ | exact .error id | exact htext _ _ | split
  all_goals first | exact .ok _ | exact .error id | exact htext _ _

namespace Collection

theorem rowId_blameless (row : Value) : Blameless (rowId row) := by
  unfold rowId
  split
  · split
    · exact .ok _
    · exact .error id
  · exact .error id

theorem rowIds_blameless (rows : Value) : Blameless (rowIds rows) :=
  .bind (elements_blameless rows) fun xs _ => .mapM rowId_blameless xs

theorem hasCount_blameless (row : Value) : Blameless (hasCount row) := by
  unfold hasCount
  split
  · exact .ok _
  · exact .ok _
  · exact .ok _
  · exact .error id
  · split
    · exact .ok _
    · exact .error id

theorem countOf_blameless (table : String) (result : Value) : Blameless (countOf table result) := by
  unfold countOf
  split
  · exact .error id
  · refine .bind (hasCount_blameless _) fun named _ => ?_
    cases named with
    | false => exact .error id
    | true =>
      simp only [Bool.not_true, Bool.false_eq_true, if_false]
      split
      · exact Settings.wholeNumber_blameless _
      · exact .error id

end Collection

/-! ### Operations on a database that reports no argument -/

/-- An accessor that reports no argument. -/
structure Table.Blameless (t : Table σ) : Prop where
  find : ∀ conditions options, Act.Blameless (t.find conditions options)
  findOne : ∀ id, Act.Blameless (t.findOne id)
  insert : ∀ data, Act.Blameless (t.insert data)
  updateById : ∀ id data, Act.Blameless (t.updateById id data)
  destroyById : ∀ id, Act.Blameless (t.destroyById id)

namespace Collection

/-- A collection whose connection, accessor and callbacks report no argument, and whose pre-hooks edit
nothing and give nothing back. -/
structure Unobtrusive (c : Collection σ) : Prop where
  connected : ∃ k, c.attachment = .connection k ∧ ∀ q, Act.Blameless (k.execute q)
  accessor : ∀ t, c.accessor? = some t → t.Blameless
  toJs : ∀ f, c.toJs? = some f → ∀ row, Act.Blameless (f row)
  pre : ∀ op arguments s, ∃ o, runHook (c.pre op) arguments s = (.ok .null, ⟨s.memory, o⟩)
  post : ∀ op arguments, Act.Blameless (runHook (c.post op) arguments)

variable {c : Collection σ} (h : c.Unobtrusive)

theorem blameless_ask {x : Act σ Value} (hx : Act.Blameless x) : Act.Blameless (ask x) :=
  (Stage.blameless_outward hx).bind Stage.blameless_read

/-- A statement that there is is sent, and the memory stays as it is. -/
theorem execute_ok_run (h : c.Unobtrusive) (q : String) (s : Stage σ) :
    ∃ r o, c.execute (.ok q) s = (r, ⟨s.memory, o⟩) ∧ Blameless r := by
  obtain ⟨k, hk, hexecute⟩ := h.connected
  have hx := hexecute q s.outside
  obtain ⟨r, o, hr⟩ : ∃ r o, k.execute q s.outside = (r, o) := ⟨_, _, rfl⟩
  rw [hr] at hx
  have houtward : Stage.outward (k.execute q) s = (r, ⟨s.memory, o⟩) := by
    unfold Stage.outward Act.within
    rw [hr]
  unfold execute
  rw [hk]
  simp only [Act.settle_ok_bind, ask]
  cases r with
  | error e => exact ⟨.error e, o, Act.bind_error houtward, .error (hx e rfl)⟩
  | ok v => exact ⟨.ok _, o, (Act.bind_ok houtward).trans (Stage.read_run _ _), .ok _⟩

include h

theorem blameless_execute (q : String) : Act.Blameless (c.execute (.ok q)) := by
  intro s
  obtain ⟨r, o, hr, hblameless⟩ := execute_ok_run h q s
  rwa [hr]

/-- What the accessor of a collection is asked for. -/
theorem blameless_accessor {f : Table σ → Act (Stage σ) β}
    (hf : ∀ t : Table σ, t.Blameless → Act.Blameless (f t)) : Act.Blameless (c.accessor >>= f) := by
  unfold Collection.accessor
  cases ht : c.accessor? with
  | none => exact fun s => .error id
  | some t => exact hf t (h.accessor t ht)

theorem blameless_conclude (op : Operation) (v : Value) : Act.Blameless (c.conclude op v) :=
  (h.post op [v]).bind fun _ => Act.blameless_pure v

theorem blameless_format (row : Value) : Act.Blameless (Formatter.apply c.toJs? row) := by
  unfold Formatter.apply
  cases hf : c.toJs? with
  | none => exact Act.blameless_pure row
  | some f =>
    simp only
    split
    · exact Act.blameless_pure row
    · exact (h.toJs f hf row).bind fun v => Act.blameless_pure _

theorem blameless_finishRow (op : Operation) (row : Value) : Act.Blameless (c.finishRow op row) :=
  (Stage.blameless_place row).bind fun v => (blameless_format h v).bind fun v =>
    blameless_conclude h op v

theorem blameless_formatRows (rows : Value) : Act.Blameless (c.formatRows rows) := by
  have hrow (row : Value) : Act.Blameless (do Formatter.apply c.toJs? (← Stage.place row)) :=
    (Stage.blameless_place row).bind fun v => blameless_format h v
  unfold formatRows
  split
  · exact Stage.blameless_place _
  next hf =>
    rw [hf] at hrow
    exact (Act.Blameless.mapM hrow _).bind fun vs => Stage.blameless_store (.list vs)
  next hf _ =>
    rw [hf] at hrow
    split
    · exact fun s => .error id
    · exact Stage.blameless_place _
    · refine (Stage.blameless_place _).bind fun v => ?_
      have := blameless_format h v
      rw [hf] at this
      exact this.bind fun _ s => .error (by split <;> exact id)

theorem blameless_finishRows (op : Operation) (rows : Value) : Act.Blameless (c.finishRows op rows) :=
  (blameless_formatRows h rows).bind fun v => blameless_conclude h op v

theorem blameless_concludeEmpty (op : Operation) : Act.Blameless (c.concludeEmpty op) :=
  (Stage.blameless_store _).bind fun v => (blameless_conclude h op v).bind fun _ =>
    Stage.blameless_store _

end Collection

end TableAccess
