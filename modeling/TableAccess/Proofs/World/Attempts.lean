import Mathlib.Logic.Function.Basic
import TableAccess.World
import TableAccess.Proofs.Act

/-! What becomes of the steps in the journal. The journal tells which steps were tried, the faults
planned at the start tell which of them failed: each step takes the next fault planned for its place
(`attempts`). `Runs` is what a step on the world does, with the attempts that it makes; sequences run
one after the other (`Runs.bind_ok`, `Runs.bind_error`). -/

namespace TableAccess

/-- Where a step of the journal can fail. -/
@[simp] def Event.site? : Event → Option Site
  | .pool .. => some .pool
  | .acquire _ => some .acquire
  | .send .. => some .send
  | .commit _ => some .commit
  | .rollback _ => some .rollback
  | .release _ => some .release
  | .closeAll _ => some .closeAll
  | .asked .. | .called .. | .resumed _ => none

/-- The client whose pool or connection a step of the journal is on. -/
@[simp] def Event.client? : Event → Option Nat
  | .acquire id | .send id .. | .commit id | .rollback id | .release id | .closeAll id => some id
  | .pool .. | .asked .. | .called .. | .resumed _ => none

/-- A step that was tried, and the failure that it met. -/
structure Attempt where
  event : Event
  failure? : Option Failure

/-- The steps with their failures, given the faults planned for every place, in order. -/
def attempts (plan : Site → List Failure) : List Event → List Attempt
  | [] => []
  | e :: es =>
    match e.site? with
    | none => ⟨e, none⟩ :: attempts plan es
    | some site =>
      ⟨e, (plan site).head?⟩ :: attempts (Function.update plan site (plan site).tail) es

theorem Event.site?_entered {e : Event} {site : Site} (h : e.site? = some site) :
    site ≠ .render ∧ site ≠ .fetch := by
  cases e <;> cases h <;> decide

/-- Faults of places that have no step in the journal do not matter to it. -/
theorem attempts_congr {plan plan' : Site → List Failure}
    (h : ∀ site, site ≠ .render ∧ site ≠ .fetch → plan site = plan' site) (es : List Event) :
    attempts plan es = attempts plan' es := by
  induction es generalizing plan plan' with
  | nil => rfl
  | cons e es ih =>
    unfold attempts
    cases hs : e.site? with
    | none => exact congrArg _ (ih h)
    | some site =>
      have he := h site (Event.site?_entered hs)
      simp only [he]
      refine congrArg _ (ih fun other ho => ?_)
      by_cases hsite : other = site
      · subst hsite
        rw [Function.update_self, Function.update_self]
      · rw [Function.update_of_ne hsite, Function.update_of_ne hsite, h other ho]

namespace World

/-- The failures planned for a place, in order. -/
def planned (faults : List Fault) (site : Site) : List Failure :=
  (faults.filter fun f => f.site = site).map (·.failure)

def plan (w : World) : Site → List Failure := planned w.faults

/-- The world after the next fault of a place has struck. -/
def struck (w : World) (site : Site) : World :=
  match pick site w.faults with
  | none => w
  | some (_, rest) => { w with faults := rest }

/-- What a fault, if there is one, makes of a step. -/
def verdict : Option Failure → Except Failure Unit
  | none => .ok ()
  | some e => .error e

theorem planned_cons (f : Fault) (faults : List Fault) (site : Site) :
    planned (f :: faults) site =
      if f.site = site then f.failure :: planned faults site else planned faults site := by
  unfold planned
  by_cases h : f.site = site <;> simp [h]

theorem pick_eq_none {site : Site} {faults : List Fault} (h : pick site faults = none) :
    planned faults site = [] := by
  induction faults with
  | nil => rfl
  | cons f faults ih =>
    unfold pick at h
    split at h
    · contradiction
    · rename_i hf
      rw [planned_cons, if_neg hf]
      exact ih (Option.map_eq_none_iff.mp h)

theorem pick_eq_some {site : Site} {faults rest : List Fault} {e : Failure}
    (h : pick site faults = some (e, rest)) :
    planned faults site = e :: planned rest site ∧
      ∀ other, other ≠ site → planned faults other = planned rest other := by
  induction faults generalizing rest with
  | nil => cases h
  | cons f faults ih =>
    unfold pick at h
    split at h
    · rename_i hf
      cases h
      refine ⟨by rw [planned_cons, if_pos hf], fun other ho => ?_⟩
      rw [planned_cons, if_neg fun he => ho (he.symm.trans hf)]
    · rename_i hf
      obtain ⟨⟨e', rest'⟩, hp, he⟩ := Option.map_eq_some_iff.mp h
      cases he
      obtain ⟨hsite, hother⟩ := ih hp
      refine ⟨?_, fun other ho => ?_⟩
      · rw [planned_cons, planned_cons, if_neg hf, if_neg hf, hsite]
      · rw [planned_cons, planned_cons, hother other ho]

/-- A fault strikes if one is planned, and each strikes once. -/
theorem strike_run (w : World) (site : Site) :
    strike site w = (verdict (w.plan site).head?, w.struck site) := by
  unfold strike struck plan
  rw [Act.bind_ok (Act.get_run w)]
  cases hp : pick site w.faults with
  | none =>
    rw [pick_eq_none hp]
    rfl
  | some picked =>
    obtain ⟨e, rest⟩ := picked
    rw [(pick_eq_some hp).1]
    rfl

theorem plan_struck (w : World) (site : Site) :
    (w.struck site).plan = Function.update w.plan site (w.plan site).tail := by
  unfold struck plan
  cases hp : pick site w.faults with
  | none =>
    show planned w.faults = _
    rw [pick_eq_none hp, List.tail_nil, ← pick_eq_none hp, Function.update_eq_self]
  | some picked =>
    obtain ⟨e, rest⟩ := picked
    obtain ⟨hsite, hother⟩ := pick_eq_some hp
    funext other
    by_cases ho : other = site
    · subst ho
      rw [Function.update_self, hsite]
      rfl
    · rw [Function.update_of_ne ho, hother other ho]

theorem struck_journal (w : World) (site : Site) : (w.struck site).journal = w.journal := by
  unfold struck
  split
  · rfl
  · rfl

/-- The world in which a step has been entered and its fault has struck. -/
def tried (w : World) (e : Event) (site : Site) : World :=
  { w with journal := w.journal ++ [e] }.struck site

theorem step_run (w : World) (e : Event) (site : Site) :
    step e site w = (verdict (w.plan site).head?, w.tried e site) :=
  strike_run _ site

end World

/-- Between two worlds these steps were tried, and what is left of the plan is for those to come. -/
structure Passed (w u : World) (trace : List Attempt) : Prop where
  journal : u.journal = w.journal ++ trace.map (·.event)
  attempts : ∀ es, attempts w.plan (trace.map (·.event) ++ es) = trace ++ attempts u.plan es

namespace Passed

theorem refl (w : World) : Passed w w [] :=
  ⟨(List.append_nil _).symm, fun _ => rfl⟩

theorem trans {w u v : World} {xs ys : List Attempt} (h : Passed w u xs) (h' : Passed u v ys) :
    Passed w v (xs ++ ys) := by
  constructor
  · rw [h'.journal, h.journal, List.map_append, List.append_assoc]
  · intro es
    rw [List.map_append, List.append_assoc, h.attempts, h'.attempts, List.append_assoc]

/-- Nothing was tried, and nothing that matters to the journal has struck. -/
theorem silent {w u : World} (hj : u.journal = w.journal)
    (hp : ∀ site, site ≠ .render ∧ site ≠ .fetch → w.plan site = u.plan site) : Passed w u [] := by
  constructor
  · rw [hj, List.map_nil, List.append_nil]
  · intro es
    rw [List.map_nil, List.nil_append, List.nil_append, attempts_congr hp]

theorem struck (w : World) {site : Site} (h : site = .render ∨ site = .fetch) :
    Passed w (w.struck site) [] := by
  refine silent (w.struck_journal site) fun other ho => ?_
  have hne : other ≠ site := by
    rintro rfl
    rcases h with h | h
    · exact ho.1 h
    · exact ho.2 h
  rw [World.plan_struck, Function.update_of_ne hne]

theorem tried (w : World) {e : Event} {site : Site} (h : e.site? = some site) :
    Passed w (w.tried e site) [⟨e, (w.plan site).head?⟩] := by
  unfold World.tried
  constructor
  · rw [World.struck_journal]
    rfl
  · intro es
    rw [World.plan_struck, List.map_singleton, List.singleton_append, List.singleton_append,
      TableAccess.attempts, h]
    rfl

/-- What happened is what the journal and the plan say. -/
theorem attempts_eq {w u : World} {trace : List Attempt} (h : Passed w u trace) :
    TableAccess.attempts w.plan (trace.map (·.event)) = trace := by
  have := h.attempts []
  rwa [List.append_nil, TableAccess.attempts, List.append_nil] at this

end Passed

variable {α β : Type}

/-- A step has this result, leads to this world and tries these steps on the way. -/
structure Runs (step : Act World α) (w : World) (r : Except Failure α) (u : World)
    (trace : List Attempt) : Prop where
  run : step w = (r, u)
  passed : Passed w u trace

namespace Runs

variable {x : Act World α} {f : α → Act World β} {w u v : World} {xs ys : List Attempt}

theorem bind_ok {a : α} {r : Except Failure β} (hx : Runs x w (.ok a) u xs)
    (hf : Runs (f a) u r v ys) : Runs (x >>= f) w r v (xs ++ ys) :=
  ⟨by rw [Act.bind_ok hx.run, hf.run], hx.passed.trans hf.passed⟩

theorem bind_error {e : Failure} (hx : Runs x w (.error e) u xs) :
    Runs (x >>= f) w (.error e) u xs :=
  ⟨Act.bind_error hx.run, hx.passed⟩

theorem attempt {r : Except Failure α} (hx : Runs x w r u xs) :
    Runs (Act.attempt x) w (.ok r) u xs :=
  ⟨by rw [Act.attempt_run, hx.run], hx.passed⟩

theorem settle (r : Except Failure α) (w : World) : Runs (Act.settle r) w r w [] :=
  ⟨rfl, .refl w⟩

theorem pure (a : α) (w : World) : Runs (Pure.pure a) w (.ok a) w [] :=
  ⟨rfl, .refl w⟩

theorem throw (e : Failure) (w : World) : Runs (α := α) (MonadExcept.throw e) w (.error e) w [] :=
  ⟨rfl, .refl w⟩

theorem step (w : World) {e : Event} {site : Site} (h : e.site? = some site) :
    Runs (World.step e site) w (World.verdict (w.plan site).head?) (w.tried e site)
      [⟨e, (w.plan site).head?⟩] :=
  ⟨w.step_run e site, .tried w h⟩

/-- A step fails, or it does not. -/
theorem step_cases (w : World) {e : Event} {site : Site} (h : e.site? = some site) :
    (∃ f, Runs (World.step e site) w (.error f) (w.tried e site) [⟨e, some f⟩]) ∨
      Runs (World.step e site) w (.ok ()) (w.tried e site) [⟨e, none⟩] := by
  have hs := Runs.step w h
  cases hf : (w.plan site).head? with
  | some f =>
    rw [hf] at hs
    exact .inl ⟨f, hs⟩
  | none =>
    rw [hf] at hs
    exact .inr hs

theorem strike (w : World) {site : Site} (h : site = .render ∨ site = .fetch) :
    Runs (World.strike site) w (World.verdict (w.plan site).head?) (w.struck site) [] :=
  ⟨w.strike_run site, .struck w h⟩

end Runs

/-- A step that tries only steps of some kind, from whatever world. -/
def Tries (allowed : Event → Prop) (step : Act World α) : Prop :=
  ∀ w, ∃ r u trace, Runs step w r u trace ∧ ∀ a ∈ trace, allowed a.event

namespace Tries

variable {allowed : Event → Prop}

theorem of_silent {x : Act World α} (h : ∀ w, ∃ r u, Runs x w r u []) : Tries allowed x := by
  intro w
  obtain ⟨r, u, hx⟩ := h w
  exact ⟨r, u, [], hx, by simp⟩

theorem pure (a : α) : Tries allowed (Pure.pure a) :=
  of_silent fun w => ⟨_, w, rfl, .refl w⟩

theorem throw (e : Failure) : Tries (α := α) allowed (MonadExcept.throw e) :=
  of_silent fun w => ⟨_, w, rfl, .refl w⟩

theorem get : Tries allowed (MonadState.get : Act World World) :=
  of_silent fun w => ⟨_, w, rfl, .refl w⟩

theorem modified {f : World → World} (hj : ∀ w, (f w).journal = w.journal)
    (hf : ∀ w, (f w).faults = w.faults) : Tries allowed (modify f) :=
  of_silent fun w => ⟨_, f w, rfl, .silent (hj w) fun site _ => by rw [World.plan, World.plan, hf]⟩

theorem bind {x : Act World α} {f : α → Act World β} (hx : Tries allowed x)
    (hf : ∀ a, Tries allowed (f a)) : Tries allowed (x >>= f) := by
  intro w
  obtain ⟨r, u, xs, hr, hxs⟩ := hx w
  cases r with
  | error e => exact ⟨_, u, xs, hr.bind_error, hxs⟩
  | ok a =>
    obtain ⟨r, v, ys, hr', hys⟩ := hf a u
    refine ⟨r, v, xs ++ ys, hr.bind_ok hr', fun b hb => ?_⟩
    rcases List.mem_append.mp hb with hb | hb
    · exact hxs b hb
    · exact hys b hb

theorem attempt {x : Act World α} (hx : Tries allowed x) : Tries allowed (Act.attempt x) := by
  intro w
  obtain ⟨r, u, xs, hr, hxs⟩ := hx w
  exact ⟨_, u, xs, hr.attempt, hxs⟩

theorem step {e : Event} {site : Site} (hs : e.site? = some site) (he : allowed e) :
    Tries allowed (World.step e site) :=
  fun w => ⟨_, _, _, .step w hs, List.forall_mem_singleton.mpr he⟩

theorem strike {site : Site} (h : site = .render ∨ site = .fetch) :
    Tries allowed (World.strike site) :=
  of_silent fun w => ⟨_, _, .strike w h⟩

end Tries

end TableAccess
