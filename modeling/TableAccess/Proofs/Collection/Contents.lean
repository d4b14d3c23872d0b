import Mathlib.Data.List.Forall2
import TableAccess.Proofs.Collection.Pipeline
import TableAccess.Proofs.Memory.Reading

/-! Callbacks that work by contents. Two memories may keep things under different numbers: what counts is
what values read as. `Agrees` is about two steps from two stages that are the same outside; `SameWork` about
two callbacks that end alike whenever what they are handed reads the same, and that have to do with nothing
but what their argument leads to. Rows of the same answer then format to lists that read the same
(`agrees_formatRows`). -/

namespace TableAccess

variable {σ α β : Type}

/-- A list or a mapping of a memory is held under its number, not in place. -/
def Value.isHeld : Value → Bool
  | .list _ | .map _ => false
  | _ => true

/-- Something that a callback can be handed: itself, or what is kept under its number. -/
structure Memory.Holds (m : Memory) (v : Value) : Prop where
  held : v.isHeld = true
  look : ∀ k, m.look v ≠ .reference k

/-- Two values, each in its memory, that read the same and can be handed to a callback. -/
structure Same (m : Memory) (v : Value) (m' : Memory) (v' : Value) : Prop where
  readable : m.Readable v
  readable' : m'.Readable v'
  read : m.read v = m'.read v'
  isNull : v.isNull = v'.isNull
  holds : m.Holds v
  holds' : m'.Holds v'

/-- What has become of two values that were worked on: what is handed on reads the same. -/
structure Handed (m₀ : Memory) (v : Value) (m₀' : Memory) (v' : Value) (m : Memory) (w : Value)
    (m' : Memory) (w' : Value) : Prop where
  hands : m₀.Hands v m w
  hands' : m₀'.Hands v' m' w'
  same : Same m w m' w'

/-- Two steps that fail alike or succeed alike, with results of which something is known. -/
def Agrees (s s' : Stage σ) (x x' : Act (Stage σ) α) (post : Memory → α → Memory → α → Prop) : Prop :=
  (∃ e t t', x s = (.error e, t) ∧ x' s' = (.error e, t') ∧ t.outside = t'.outside) ∨
    ∃ a t a' t', x s = (.ok a, t) ∧ x' s' = (.ok a', t') ∧ t.outside = t'.outside ∧
      post t.memory a t'.memory a'

namespace Same

variable {m m' m₁ m₁' : Memory} {v v' : Value}

theorem of_references (h : v.references = []) (held : v.isHeld = true) : Same m v m' v := by
  have hholds (m : Memory) : m.Holds v := by
    refine ⟨held, fun k hk => ?_⟩
    cases v with
    | reference n => cases h
    | _ => cases hk
  refine ⟨.of_references h, .of_references h, ?_, rfl, hholds m, hholds m'⟩
  unfold Memory.read
  rw [Memory.readWithin_succ, Memory.readWithin_succ, Value.resolve_of_references h,
    Value.resolve_of_references h]

theorem later (h : Same m v m' v') (hm : m.Extends m₁) (hm' : m'.Extends m₁') : Same m₁ v m₁' v' where
  readable := (hm.read h.readable).2
  readable' := (hm'.read h.readable').2
  read := by rw [(hm.read h.readable).1, (hm'.read h.readable').1, h.read]
  isNull := h.isNull
  holds := ⟨h.holds.held, fun k => hm.look h.readable ▸ h.holds.look k⟩
  holds' := ⟨h.holds'.held, fun k => hm'.look h.readable' ▸ h.holds'.look k⟩

theorem holds_place (m : Memory) {v : Value} (complete : v.isComplete = true) :
    (m.place v).2.Holds (m.place v).1 := by
  refine ⟨by cases v <;> rfl, fun k hk => ?_⟩
  cases v with
  | list xs =>
    rw [Memory.place, Memory.look_store] at hk
    cases hk
  | map es =>
    rw [Memory.place, Memory.look_store] at hk
    cases hk
  | reference _ | object _ => cases complete
  | _ => cases hk

theorem place {v : Value} (complete : v.isComplete = true) :
    Same (m.place v).2 (m.place v).1 (m'.place v).2 (m'.place v).1 where
  readable := Memory.readable_place complete
  readable' := Memory.readable_place complete
  read := by rw [m.read_place v complete, m'.read_place v complete]
  isNull := by cases v <;> rfl
  holds := holds_place m complete
  holds' := holds_place m' complete

theorem store {vs vs' : List Value} (h : List.Forall₂ (fun v v' => Same m v m' v') vs vs') :
    Same (m.store (.list vs)).2 (m.store (.list vs)).1 (m'.store (.list vs')).2
      (m'.store (.list vs')).1 := by
  have hread : vs.map m.read = vs'.map m'.read := by
    induction h with
    | nil => rfl
    | cons h _ ih => rw [List.map_cons, List.map_cons, h.read, ih]
  have hreadable : m.Readable (.list vs) := Memory.readable_list fun v hv => by
    induction h with
    | nil => contradiction
    | cons h hs ih =>
      obtain rfl | hv := List.mem_cons.mp hv
      · exact h.readable
      · exact ih (List.cons.inj hread).2 hv
  have hreadable' : m'.Readable (.list vs') := by
    unfold Memory.Readable at *
    rwa [m'.read_list, ← hread, ← m.read_list]
  obtain ⟨hstored, hs⟩ := Memory.read_store hreadable
  obtain ⟨hstored', hs'⟩ := Memory.read_store hreadable'
  have hholds (m : Memory) (vs : List Value) : (m.store (.list vs)).2.Holds (m.store (.list vs)).1 :=
    ⟨rfl, fun k hk => by cases (m.look_store _).symm.trans hk⟩
  refine ⟨hs, hs', ?_, rfl, hholds m vs, hholds m' vs'⟩
  rw [hstored, hstored', m.read_list, m'.read_list, hread]

end Same

namespace Agrees

variable {s s' : Stage σ} {x x' : Act (Stage σ) α} {f f' : α → Act (Stage σ) β}
  {post post' : Memory → α → Memory → α → Prop} {after : Memory → β → Memory → β → Prop}

theorem pure {a a' : α} (ho : s.outside = s'.outside) (h : post s.memory a s'.memory a') :
    Agrees s s' (Pure.pure a) (Pure.pure a') post :=
  .inr ⟨a, s, a', s', rfl, rfl, ho, h⟩

theorem throw (e : Failure) (ho : s.outside = s'.outside) :
    Agrees s s' (MonadExcept.throw e) (MonadExcept.throw e) post :=
  .inl ⟨e, s, s', rfl, rfl, ho⟩

theorem bind (hx : Agrees s s' x x' post)
    (hf : ∀ a t a' t', t.outside = t'.outside → post t.memory a t'.memory a' →
      Agrees t t' (f a) (f' a') after) : Agrees s s' (x >>= f) (x' >>= f') after := by
  obtain ⟨e, t, t', hr, hr', ho⟩ | ⟨a, t, a', t', hr, hr', ho, h⟩ := hx
  · exact .inl ⟨e, t, t', Act.bind_error hr, Act.bind_error hr', ho⟩
  · have h := hf a t a' t' ho h
    unfold Agrees at *
    rwa [Act.bind_ok hr, Act.bind_ok hr']

theorem imp (hx : Agrees s s' x x' post)
    (h : ∀ m a m' a', post m a m' a' → post' m a m' a') : Agrees s s' x x' post' := by
  obtain hfailed | ⟨a, t, a', t', hr, hr', ho, hpost⟩ := hx
  · exact .inl hfailed
  · exact .inr ⟨a, t, a', t', hr, hr', ho, h _ _ _ _ hpost⟩

/-- Steps that are settled in the same way. -/
theorem settled {r : Except Failure α} (ho : s.outside = s'.outside)
    (hf : ∀ a, r = .ok a → Agrees s s' (f a) (f' a) after) :
    Agrees s s' (Act.settle r >>= f) (Act.settle r >>= f') after := by
  cases r with
  | error e => exact .inl ⟨e, s, s', Act.bind_error rfl, Act.bind_error rfl, ho⟩
  | ok a =>
    rw [Act.settle_ok_bind, Act.settle_ok_bind]
    exact hf a rfl

theorem reading {f f' : Value → Act (Stage σ) β} {v v' : Value}
    (h : Agrees s s' (f (s.memory.read v)) (f' (s'.memory.read v')) after) :
    Agrees s s' (Stage.read v >>= f) (Stage.read v' >>= f') after := by
  unfold Agrees at *
  rwa [Act.bind_ok (Stage.read_run v s), Act.bind_ok (Stage.read_run v' s')]

theorem looking {f f' : Value → Act (Stage σ) β} {v v' : Value}
    (h : Agrees s s' (f (s.memory.look v)) (f' (s'.memory.look v')) after) :
    Agrees s s' (Stage.look v >>= f) (Stage.look v' >>= f') after := by
  have hrun (s : Stage σ) (v : Value) : Stage.look v s = (.ok (s.memory.look v), s) := rfl
  unfold Agrees at *
  rwa [Act.bind_ok (hrun s v), Act.bind_ok (hrun s' v')]

theorem getting {f f' : Stage σ → Act (Stage σ) β} (h : Agrees s s' (f s) (f' s') after) :
    Agrees s s' (get >>= f) (get >>= f') after := by
  unfold Agrees at *
  rwa [Act.bind_ok (Act.get_run s), Act.bind_ok (Act.get_run s')]

/-- The same value, placed in both memories, leads to nothing that was there. -/
theorem placed {v : Value} (complete : v.isComplete = true) (ho : s.outside = s'.outside) :
    Agrees s s' (Stage.place v) (Stage.place v) (Handed s.memory .null s'.memory .null) :=
  .inr ⟨_, _, _, _, rfl, rfl, ho, s.memory.hands_place complete, s'.memory.hands_place complete,
    .place complete⟩

theorem stored {vs vs' : List Value}
    (h : List.Forall₂ (fun v v' => Same s.memory v s'.memory v') vs vs')
    (ho : s.outside = s'.outside) :
    Agrees s s' (Stage.store (.list vs)) (Stage.store (.list vs')) Same :=
  .inr ⟨_, _, _, _, rfl, rfl, ho, .store h⟩

/-- The same question to the same database, whose answers are complete in themselves. -/
theorem asked {step : Act σ Value} (complete : ∀ o v o', step o = (.ok v, o') → v.isComplete = true)
    (ho : s.outside = s'.outside) :
    Agrees s s' (Collection.ask step) (Collection.ask step) fun m v m' v' =>
      v = v' ∧ v.isComplete = true ∧ m = s.memory ∧ m' = s'.memory := by
  obtain ⟨r, o, hr⟩ : ∃ r o, step s.outside = (r, o) := ⟨_, _, rfl⟩
  have hout : Stage.outward step s = (r, ⟨s.memory, o⟩) := by
    simp [Stage.outward, Act.within, hr]
  have hout' : Stage.outward step s' = (r, ⟨s'.memory, o⟩) := by
    simp [Stage.outward, Act.within, ← ho, hr]
  cases r with
  | error e => exact .inl ⟨e, _, _, Act.bind_error hout, Act.bind_error hout', rfl⟩
  | ok v =>
    have hv := complete _ _ _ hr
    have hread (m : Memory) : m.read v = v := by
      unfold Memory.read
      rw [Memory.readWithin_succ, Value.resolve_of_isComplete _ v hv]
    refine .inr ⟨v, ⟨s.memory, o⟩, v, ⟨s'.memory, o⟩, ?_, ?_, rfl, rfl, hv, rfl, rfl⟩
    · rw [Collection.ask, Act.bind_ok hout, Stage.read_run, hread]
    · rw [Collection.ask, Act.bind_ok hout', Stage.read_run, hread]

end Agrees

/-! ### Callbacks -/

/-- Two callbacks that work alike on values that read the same; `next` says what is handed on, given what
a callback gives back and what it was handed. -/
def SameWork (next : Value → Value → Value) (x x' : Value → Act (Stage σ) Value) : Prop :=
  ∀ s s' v v', s.outside = s'.outside → Same s.memory v s'.memory v' →
    Agrees s s' (x v) (x' v') fun m w m' w' =>
      Handed s.memory v s'.memory v' m (next w v) m' (next w' v')

/-- Two callbacks without arguments that work alike, and leave what is there alone. -/
def SameCall (x x' : Act (Stage σ) Value) : Prop :=
  ∀ s s', s.outside = s'.outside →
    Agrees s s' x x' fun m _ m' _ => s.memory.Extends m ∧ s'.memory.Extends m'

/-- Whether the pre-hook of an operation is handed a payload. -/
def Operation.hasPayload : Operation → Bool
  | .insert | .update | .updateAll | .removeAll => true
  | .get | .count | .flush | .remove | .find => false

/-- Two collections that differ only in callbacks that work alike. -/
structure Collection.Matches (c c' : Collection σ) : Prop where
  table : c.table = c'.table
  attachment : c.attachment = c'.attachment
  accessor : c.accessor? = c'.accessor?
  toDb : Option.Rel (SameWork Value.orElse) c.toDb? c'.toDb?
  toJs : Option.Rel (SameWork Value.orElse) c.toJs? c'.toJs?
  prepare : ∀ op, op.hasPayload = true → Option.Rel (fun hook hook' =>
    SameWork Value.orElse (fun v => Collection.runHook (some hook) [v])
      fun v => Collection.runHook (some hook') [v]) (c.pre op) (c'.pre op)
  announce : ∀ op, op.hasPayload = false → Option.Rel (fun hook hook' =>
    SameCall (Collection.runHook (some hook) []) (Collection.runHook (some hook') []))
      (c.pre op) (c'.pre op)
  conclude : ∀ op, op ≠ .flush → Option.Rel (fun hook hook' =>
    SameWork (fun _ v => v) (fun v => Collection.runHook (some hook) [v])
      fun v => Collection.runHook (some hook') [v]) (c.post op) (c'.post op)
  flushed : Option.Rel (fun hook hook' =>
    SameCall (Collection.runHook (some hook) []) (Collection.runHook (some hook') []))
      (c.post .flush) (c'.post .flush)

namespace Collection

variable {c c' : Collection σ} {s s' : Stage σ} {v v' : Value}

theorem agrees_apply {f? f?' : Option (Formatter σ)}
    (h : Option.Rel (SameWork Value.orElse) f? f?') (ho : s.outside = s'.outside)
    (hv : Same s.memory v s'.memory v') :
    Agrees s s' (Formatter.apply f? v) (Formatter.apply f?' v')
      (Handed s.memory v s'.memory v') := by
  have hstays : Agrees s s' (pure v) (pure v') (Handed s.memory v s'.memory v') :=
    .pure ho ⟨.refl _ _, .refl _ _, hv⟩
  cases h with
  | none => exact hstays
  | some h =>
    unfold Formatter.apply
    simp only [← hv.isNull]
    split
    · exact hstays
    · exact (h s s' v v' ho hv).bind fun w t w' t' ho hw => .pure ho hw

theorem agrees_prepare (h : c.Matches c') {op : Operation} (hop : op.hasPayload = true)
    (ho : s.outside = s'.outside) (hv : Same s.memory v s'.memory v') :
    Agrees s s' (c.prepare op v) (c'.prepare op v') (Handed s.memory v s'.memory v') := by
  have hpre := h.prepare op hop
  unfold prepare
  cases hpre' : c.pre op <;> cases hpre'' : c'.pre op <;> rw [hpre', hpre''] at hpre <;> cases hpre
  · exact .pure ho ⟨.refl _ _, .refl _ _, hv⟩
  next hwork => exact (hwork s s' v v' ho hv).bind fun w t w' t' ho hw => .pure ho hw

theorem agrees_call {hook? hook?' : Option (Hook σ)}
    (h : Option.Rel (fun hook hook' => SameCall (runHook (some hook) []) (runHook (some hook') []))
      hook? hook?') (ho : s.outside = s'.outside) :
    Agrees s s' (runHook hook? []) (runHook hook?' []) fun m _ m' _ =>
      s.memory.Extends m ∧ s'.memory.Extends m' := by
  cases h with
  | none => exact .pure ho ⟨.refl _, .refl _⟩
  | some h => exact h s s' ho

theorem agrees_announce (h : c.Matches c') (op : Operation) (hop : op.hasPayload = false)
    (ho : s.outside = s'.outside) :
    Agrees s s' (c.announce op) (c'.announce op) fun m _ m' _ =>
      s.memory.Extends m ∧ s'.memory.Extends m' :=
  (agrees_call (h.announce op hop) ho).bind fun _ _ _ _ ho hm => .pure ho hm

theorem agrees_conclude (h : c.Matches c') {op : Operation} (hop : op ≠ .flush)
    (ho : s.outside = s'.outside) (hv : Same s.memory v s'.memory v') :
    Agrees s s' (c.conclude op v) (c'.conclude op v') Same := by
  have hpost := h.conclude op hop
  unfold conclude
  cases hpost' : c.post op <;> cases hpost'' : c'.post op <;> rw [hpost', hpost''] at hpost <;>
    cases hpost
  · exact .pure ho hv
  next hwork => exact (hwork s s' v v' ho hv).bind fun w t w' t' ho hw => .pure ho hw.same

/-! ### Rows -/

/-- The same row of an answer, placed in both memories and formatted, touches nothing that was there. -/
theorem agrees_formatRow (h : c.Matches c') {row : Value} (complete : row.isComplete = true)
    (ho : s.outside = s'.outside) :
    Agrees s s' (c.formatRow row) (c'.formatRow row) fun m w m' w' =>
      s.memory.Extends m ∧ s'.memory.Extends m' ∧ Same m w m' w' := by
  have hbare {m : Memory} (n : Nat) : ¬ m.Leads .null n := by
    intro hn
    cases hn <;> contradiction
  refine (Agrees.placed complete ho).bind fun v t v' t' ho hv => ?_
  refine (agrees_apply h.toJs ho hv.same).imp fun m w m' w' hw => ?_
  exact ⟨(hv.hands.trans hw.hands).extends_of_bare hbare,
    (hv.hands'.trans hw.hands').extends_of_bare hbare, hw.same⟩

theorem agrees_formatAll (h : c.Matches c') {rows : List Value}
    (complete : ∀ row ∈ rows, row.isComplete = true) (ho : s.outside = s'.outside) :
    Agrees s s' (rows.mapM c.formatRow) (rows.mapM c'.formatRow) fun m ws m' ws' =>
      s.memory.Extends m ∧ s'.memory.Extends m' ∧ List.Forall₂ (fun w w' => Same m w m' w') ws ws' := by
  induction rows generalizing s s' with
  | nil => exact .pure ho ⟨.refl _, .refl _, .nil⟩
  | cons row rows ih =>
    obtain ⟨hrow, hrows⟩ := List.forall_mem_cons.mp complete
    rw [List.mapM_cons, List.mapM_cons]
    refine (agrees_formatRow h hrow ho).bind fun w t w' t' ho hw => ?_
    obtain ⟨hm, hm', hsame⟩ := hw
    refine (ih hrows ho).bind fun ws u ws' u' ho hws => .pure ho ?_
    obtain ⟨hu, hu', hall⟩ := hws
    -- What has been formatted before stays as it is while the other rows are formatted.
    exact ⟨hm.trans hu, hm'.trans hu', .cons (hsame.later hu hu') hall⟩

theorem complete_list {xs : List Value} (h : ∀ x ∈ xs, x.isComplete = true) :
    (Value.list xs).isComplete = true := by
  rw [Value.isComplete]
  induction xs with
  | nil => rfl
  | cons x xs ih =>
    obtain ⟨hx, hxs⟩ := List.forall_mem_cons.mp h
    rw [Value.areComplete, hx, ih hxs]
    rfl

theorem complete_of_elements {rows : Value} (complete : rows.isComplete = true) {xs : List Value}
    (h : rows.elements? = some xs) : ∀ x ∈ xs, x.isComplete = true := by
  cases rows
  case list | tuple =>
    obtain rfl := Option.some.inj h
    exact complete_of_mem complete
  case text | bytes | map =>
    obtain rfl := Option.some.inj h
    intro x hx
    obtain ⟨y, -, rfl⟩ := List.mem_map.mp hx
    rfl
  case ragged =>
    obtain rfl := Option.some.inj h
    intro x hx
    obtain ⟨p, -, rfl⟩ := List.mem_map.mp hx
    cases p <;> rfl
  all_goals cases h

/-- What is not a list takes no formatted row back. -/
theorem formatRows_unlisted (c : Collection σ) {rows : Value} (h : ∀ xs, rows ≠ .list xs) :
    c.formatRows rows =
      match c.toJs?, rows.elements? with
      | none, _ | some _, some [] => Stage.place rows
      | some _, none => throw .wrongType
      | some f, some (x :: _) => (do
        let _ ← Formatter.apply (some f) (← Stage.place x)
        throw (if rows.isMap then .rowsChanged else .wrongType)) := by
  unfold formatRows
  cases c.toJs? with
  | none => cases rows <;> rfl
  | some f =>
    cases rows with
    | list xs => exact absurd rfl (h xs)
    | _ =>
      dsimp only
      split <;> simp_all

theorem agrees_formatRows (h : c.Matches c') {rows : Value} (complete : rows.isComplete = true)
    (ho : s.outside = s'.outside) :
    Agrees s s' (c.formatRows rows) (c'.formatRows rows) Same := by
  by_cases hlist : ∃ xs, rows = .list xs
  · obtain ⟨xs, rfl⟩ := hlist
    rw [formatRows_list, formatRows_list]
    refine (agrees_formatAll h (complete_of_mem complete) ho).bind fun ws t ws' t' ho hws => ?_
    exact .stored hws.2.2 ho
  · have hrows (xs : List Value) : rows ≠ .list xs := fun hxs => hlist ⟨xs, hxs⟩
    rw [c.formatRows_unlisted hrows, c'.formatRows_unlisted hrows]
    have hplace : Agrees s s' (Stage.place rows) (Stage.place rows) Same :=
      (Agrees.placed complete ho).imp fun _ _ _ _ hw => hw.same
    have hjs := h.toJs
    cases hf : c.toJs? <;> cases hf' : c'.toJs? <;> rw [hf, hf'] at hjs <;> cases hjs
    · exact hplace
    next hwork =>
      cases hx : rows.elements? with
      | none => exact .throw _ ho
      | some xs =>
        cases xs with
        | nil => exact hplace
        | cons x xs =>
          have hcomplete := complete_of_elements complete hx x List.mem_cons_self
          refine (Agrees.placed hcomplete ho).bind fun v t v' t' ho hv => ?_
          exact (agrees_apply (.some hwork) ho hv.same).bind fun _ _ _ _ ho _ => .throw _ ho

theorem agrees_finishRow (h : c.Matches c') {op : Operation} (hop : op ≠ .flush) {row : Value}
    (complete : row.isComplete = true) (ho : s.outside = s'.outside) :
    Agrees s s' (c.finishRow op row) (c'.finishRow op row) Same := by
  refine (Agrees.placed complete ho).bind fun v t v' t' ho hv => ?_
  refine (agrees_apply h.toJs ho hv.same).bind fun w u w' u' ho hw => ?_
  exact agrees_conclude h hop ho hw.same

theorem agrees_finishRows (h : c.Matches c') {op : Operation} (hop : op ≠ .flush) {rows : Value}
    (complete : rows.isComplete = true) (ho : s.outside = s'.outside) :
    Agrees s s' (c.finishRows op rows) (c'.finishRows op rows) Same :=
  (agrees_formatRows h complete ho).bind fun _ _ _ _ ho hv => agrees_conclude h hop ho hv

theorem agrees_concludeEmpty (h : c.Matches c') {op : Operation} (hop : op ≠ .flush)
    (ho : s.outside = s'.outside) :
    Agrees s s' (c.concludeEmpty op) (c'.concludeEmpty op) Same :=
  (Agrees.stored .nil ho).bind fun _ _ _ _ ho hv =>
    (agrees_conclude h hop ho hv).bind fun _ _ _ _ ho _ => .stored .nil ho

end Collection

end TableAccess
