import TableAccess.Session
import TableAccess.Proofs.Collection.Result

/-! What is checked when an operation is called. Every operation makes some of the same checks, in the same
order: its identifier, its conditions, its payload, its connection. The call is refused with the failure of
the first check that fails, and then nothing has happened: no formatter has run, nothing has been entered
in the log, and neither memory nor outside nor the collection is touched. If all checks pass, nothing but
the formatter of the payload can refuse the call (`request_validated`). -/

namespace TableAccess

/-- A check of an argument, or of the collection. -/
inductive Check where
  | id (v : Value)
  | conditions (v : Value)
  /-- Conditions that have to ask for something. -/
  | restriction (v : Value)
  | payload (v : Value)
  /-- A payload that has to have entries. -/
  | filling (v : Value)
  | connection

namespace Check

variable {σ : Type}

/-- What a check asks for; `look` says what an argument is. -/
def Passes (c : Collection σ) (look : Value → Value) : Check → Prop
  | .id v => (∃ n, v = .int n) ∨ (∃ x, v = .float x) ∨ ∃ q, v = .fraction q
  | .conditions v | .payload v => ∃ es, look v = .map es
  | .restriction v | .filling v => look v ≠ .map []
  | .connection => c.attachment ≠ .nothing ∧ c.accessor? ≠ none

/-- What a failing check refuses the call with. -/
def failure (table : String) : Check → Failure
  | .id _ => .invalidFormat "id"
  | .conditions _ => .invalidFormat "conditions"
  | .restriction _ => .general "conditions cannot be empty; use flush() to empty the table."
  | .payload _ => .invalidFormat "data"
  | .filling _ => .refused (.empty (.text "data"))
  | .connection => .refused (.notConnected (.text table))

end Check

namespace Request

/-- The identifier that a request is called with. -/
def identifier? : Request → Option Value
  | .get id | .update id _ | .remove id => some id
  | .count _ | .flush _ | .insert _ | .updateAll .. | .removeAll _ | .find .. => none

/-- The conditions that have to be a mapping; a count can be called without. -/
def conditions? : Request → Option Value
  | .count conditions => if conditions.isNull then none else some conditions
  | .updateAll conditions _ | .removeAll conditions => some conditions
  | .get _ | .flush _ | .insert _ | .update .. | .remove _ | .find .. => none

/-- The conditions that have to ask for something. -/
def restriction? : Request → Option Value
  | .removeAll conditions => some conditions
  | .get _ | .count _ | .flush _ | .insert _ | .update .. | .updateAll .. | .remove _ | .find .. => none

/-- The checks of a request, in the order in which they are made. -/
def checks (r : Request) : List Check :=
  r.identifier?.toList.map .id ++ r.conditions?.toList.map .conditions ++
    r.restriction?.toList.map .restriction ++ r.written?.toList.map .payload ++
    r.written?.toList.map .filling ++ [.connection]

/-- The first check of a request that fails. -/
def FirstFailing {σ : Type} (r : Request) (c : Collection σ) (look : Value → Value) (k : Check) :
    Prop :=
  ∃ before after, r.checks = before ++ k :: after ∧ (∀ k' ∈ before, k'.Passes c look) ∧
    ¬ k.Passes c look

end Request

namespace Act

variable {σ α β : Type}

theorem settle_pure (a : α) : settle (pure a) = (pure a : Act σ α) := rfl

theorem settle_bind (x : Except Failure α) (f : α → Except Failure β) :
    settle (x >>= f) = (settle x >>= fun a => settle (f a) : Act σ β) := by
  funext s
  cases x <;> rfl

end Act

/-! ### Checks that are made one after the other -/

theorem Value.isReal_iff (v : Value) :
    v.isReal = true ↔ (∃ n, v = .int n) ∨ (∃ x, v = .float x) ∨ ∃ q, v = .fraction q := by
  cases v <;> simp [isReal]

theorem Value.isMap_iff (v : Value) : v.isMap = true ↔ ∃ es, v = .map es := by
  cases v <;> simp [isMap, entries?]

theorem Collection.isConnected_iff {σ : Type} (c : Collection σ) :
    c.isConnected = true ↔ c.attachment ≠ .nothing := by
  unfold isConnected
  cases c.attachment <;> simp

namespace Check

variable {σ : Type} {c : Collection σ} {look : Value → Value}

instance (k : Check) : Decidable (k.Passes c look) :=
  match k with
  | .id v => decidable_of_iff _ v.isReal_iff
  | .conditions v | .payload v => decidable_of_iff _ (look v).isMap_iff
  | .restriction v | .filling v =>
    match h : look v with
    | .map [] => isFalse fun hne => hne h
    | .map (_ :: _) => isTrue fun he => by cases h.symm.trans he
    | .null | .bool _ | .int _ | .float _ | .decimal _ | .fraction _ | .text _ | .ragged _ | .bytes _
    | .date _ | .time _ | .moment _ | .list _ | .tuple _ | .json _ | .object _ | .reference _ =>
      isTrue fun he => by cases h.symm.trans he
  | .connection =>
    decidable_of_iff (c.isConnected = true ∧ c.accessor?.isSome = true)
      (and_congr c.isConnected_iff Option.isSome_iff_ne_none)

/-- Makes a check. -/
def judge (c : Collection σ) (look : Value → Value) (k : Check) : Except Failure Unit :=
  if k.Passes c look then .ok () else .error (k.failure c.table)

theorem judge_eq_ok_iff {k : Check} : k.judge c look = .ok () ↔ k.Passes c look := by
  unfold judge
  split <;> simp [*]

theorem judge_eq_error_iff {k : Check} {e : Failure} :
    k.judge c look = .error e ↔ ¬ k.Passes c look ∧ k.failure c.table = e := by
  unfold judge
  split <;> simp [*]

theorem judge_id (v : Value) : (Check.id v).judge c look = Request.requireId v := by
  unfold judge Request.requireId
  simp only [Passes, ← v.isReal_iff]
  rfl

theorem judge_conditions (v : Value) :
    (Check.conditions v).judge c look = Request.requireMap (look v) "conditions" := by
  unfold judge Request.requireMap
  simp only [Passes, ← (look v).isMap_iff]
  rfl

/-- What a mapping is judged by once it is known to be one. -/
theorem Passes.truthy_iff {v : Value} {es : Entries} (h : look v = .map es) :
    (look v).truthy = true ↔ look v ≠ .map [] := by
  rw [h]
  cases es <;> simp [Value.truthy]

theorem judge_restriction (v : Value) :
    (do (Check.conditions v).judge c look; (Check.restriction v).judge c look) =
      (do Request.requireMap (look v) "conditions"; Request.requireSome (look v)) := by
  have hconditions : (Check.conditions v).judge c look = _ := judge_conditions v
  rw [← hconditions]
  by_cases hmap : ∃ es, look v = .map es
  · rw [judge_eq_ok_iff.mpr (show (Check.conditions v).Passes c look from hmap)]
    obtain ⟨es, hes⟩ := hmap
    unfold judge Request.requireSome
    simp only [Passes, ← Passes.truthy_iff hes]
    rfl
  · rw [judge_eq_error_iff.mpr ⟨show ¬ (Check.conditions v).Passes c look from hmap, rfl⟩]
    rfl

theorem judge_payload (v : Value) :
    (do (Check.payload v).judge c look; (Check.filling v).judge c look) =
      Request.requirePayload (look v) := by
  have hdata : (Check.payload v).judge c look = Request.requireMap (look v) "data" := by
    unfold judge Request.requireMap
    simp only [Passes, ← (look v).isMap_iff]
    rfl
  unfold Request.requirePayload
  rw [← hdata]
  by_cases hmap : ∃ es, look v = .map es
  · rw [judge_eq_ok_iff.mpr (show (Check.payload v).Passes c look from hmap)]
    obtain ⟨es, hes⟩ := hmap
    unfold judge
    simp only [Passes, ← Passes.truthy_iff hes]
    cases (look v).truthy <;> rfl
  · rw [judge_eq_error_iff.mpr ⟨show ¬ (Check.payload v).Passes c look from hmap, rfl⟩]
    rfl

theorem judge_connection : Check.connection.judge c look = c.requireConnection := by
  unfold judge Collection.requireConnection
  simp only [Passes, ← c.isConnected_iff, ← Option.isSome_iff_ne_none, Bool.and_eq_true]
  rfl

/-- Checks of a list fail where the first of them fails. -/
theorem forM_judge_eq_error_iff {ks : List Check} {e : Failure} :
    forM ks (judge c look) = .error e ↔ ∃ before k after, ks = before ++ k :: after ∧
      (∀ k' ∈ before, k'.Passes c look) ∧ ¬ k.Passes c look ∧ k.failure c.table = e := by
  induction ks with
  | nil => simp [pure, Except.pure]
  | cons k ks ih =>
    rw [List.forM_cons]
    by_cases hk : k.Passes c look
    · rw [judge_eq_ok_iff.mpr hk]
      refine ih.trans ⟨?_, ?_⟩
      · rintro ⟨before, k', after, rfl, hb, hf⟩
        exact ⟨k :: before, k', after, rfl, List.forall_mem_cons.mpr ⟨hk, hb⟩, hf⟩
      · rintro ⟨before, k', after, hks, hb, hf⟩
        cases before with
        | nil =>
          obtain ⟨rfl, -⟩ := List.cons.inj hks
          exact absurd hk hf.1
        | cons first before =>
          obtain ⟨-, rfl⟩ := List.cons.inj hks
          exact ⟨before, k', after, rfl, fun k hm => hb k (List.mem_cons_of_mem _ hm), hf⟩
    · rw [judge_eq_error_iff.mpr ⟨hk, rfl⟩]
      refine ⟨fun h => ⟨[], k, ks, rfl, by simp, hk, Except.error.inj h⟩, ?_⟩
      rintro ⟨before, k', after, hks, hb, hf, rfl⟩
      cases before with
      | nil =>
        obtain ⟨rfl, -⟩ := List.cons.inj hks
        rfl
      | cons first before =>
        obtain ⟨rfl, -⟩ := List.cons.inj hks
        exact absurd (hb k (by simp)) hk

theorem forM_judge_eq_ok_iff {ks : List Check} :
    forM ks (judge c look) = .ok () ↔ ∀ k ∈ ks, k.Passes c look := by
  induction ks with
  | nil => simp [pure, Except.pure]
  | cons k ks ih =>
    rw [List.forM_cons, List.forall_mem_cons, ← ih, ← judge_eq_ok_iff]
    cases k.judge c look <;> simp [bind, Except.bind]

end Check

namespace Request

variable {σ : Type} {c : Collection σ} {look : Value → Value}

/-- The request with what is taken for arguments that are left out. -/
def defaulted (look : Value → Value) : Request → Request
  | .count conditions => .count (conditions.orElse (.map []))
  | .find conditions options =>
    let mapOrEmpty (v : Value) : Value := if (look v).isMap then v else .map []
    .find (mapOrEmpty conditions) (mapOrEmpty options)
  | r => r

/-- What is checked is what is listed, in that order. -/
theorem checked_eq (hlook : look (.map []) = .map []) (r : Request) :
    (do let r' ← r.checked look; c.requireConnection; return r' : Except Failure Request) =
      (do forM r.checks (Check.judge c look); return r.defaulted look) := by
  have hconnection : Check.connection.judge c look = c.requireConnection := Check.judge_connection
  have hid (id : Value) : (Check.id id).judge c look = requireId id := Check.judge_id id
  have hconditions (v : Value) :
      (Check.conditions v).judge c look = requireMap (look v) "conditions" := Check.judge_conditions v
  have hpayload (data : Value) :
      (do (Check.payload data).judge c look; (Check.filling data).judge c look) =
        requirePayload (look data) := Check.judge_payload data
  have hrestriction (v : Value) :
      (do (Check.conditions v).judge c look; (Check.restriction v).judge c look) =
        (do requireMap (look v) "conditions"; requireSome (look v)) := Check.judge_restriction v
  cases r <;>
    simp only [checked, checks, identifier?, conditions?, restriction?, written?, defaulted]
  case get | remove => simp [← hconnection, ← hid]
  case flush | find => simp [← hconnection]
  case insert => simp [← hconnection, ← hpayload]
  case update => simp [← hconnection, ← hid, ← hpayload]
  case updateAll => simp [← hconnection, ← hconditions, ← hpayload]
  case removeAll conditions =>
    have h := congrArg (· >>= fun _ => Check.connection.judge c look >>= fun _ =>
      pure (Request.removeAll conditions)) (hrestriction conditions)
    simpa [← hconnection] using h.symm
  case count conditions =>
    cases hnull : conditions.isNull with
    | true =>
      simp [Value.orElse, hnull, hlook, requireMap, Value.isMap, Value.entries?, ← hconnection]
      rfl
    | false => simp [Value.orElse, hnull, ← hconnection, ← hconditions]

end Request

namespace Collection

variable {σ : Type} (c : Collection σ) {r : Request} {k : Check}

/-- A call is its checks, and then the formatter of the payload. -/
theorem accept_run (r : Request) (s : Stage σ) :
    c.accept r s = (do
      Act.settle (forM r.checks (Check.judge c s.memory.look))
      return ⟨← (r.defaulted s.memory.look).formatted c.toDb?⟩ : Act (Stage σ) Pending) s := by
  have hchecked := Request.checked_eq (c := c) (show s.memory.look (.map []) = .map [] from rfl) r
  have hsettled := congrArg (Act.settle (σ := Stage σ)) hchecked
  simp only [Act.settle_bind, Act.settle_pure] at hsettled
  have hrest := congrArg (· >>= fun r' => do return (⟨← r'.formatted c.toDb?⟩ : Pending)) hsettled
  simp only [bind_assoc, pure_bind] at hrest
  exact (Act.bind_ok (Act.get_run s)).trans (congrFun hrest s)

/-- A call that is accepted has passed its checks, and its request is what the formatter makes of it. -/
theorem formatted_of_accept {p : Pending} {s s' : Stage σ} (accepted : c.accept r s = (.ok p, s')) :
    (∀ k ∈ r.checks, k.Passes c s.memory.look) ∧
      (r.defaulted s.memory.look).formatted c.toDb? s = (.ok p.request, s') := by
  rw [accept_run] at accepted
  obtain ⟨_, t, hchecks, h⟩ := Act.of_bind_ok accepted
  obtain ⟨hpasses, rfl⟩ := Prod.mk.inj hchecks
  obtain ⟨request, t, hrequest, hp⟩ := Act.of_bind_ok h
  cases hp
  exact ⟨Check.forM_judge_eq_ok_iff.mp hpasses, hrequest⟩

/-- A call that fails a check fails there, before anything has happened. -/
theorem accept_of_failing {s : Stage σ} (h : r.FirstFailing c s.memory.look k) :
    c.accept r s = (.error (k.failure c.table), s) := by
  obtain ⟨before, after, hks, hb, hf⟩ := h
  rw [accept_run, Check.forM_judge_eq_error_iff.mpr ⟨before, k, after, hks, hb, hf, rfl⟩]
  rfl

/-- A call that passes its checks runs the formatter, and nothing else. -/
theorem accept_of_passing {s : Stage σ} (h : ∀ k ∈ r.checks, k.Passes c s.memory.look) :
    c.accept r s = (do
      return ⟨← (r.defaulted s.memory.look).formatted c.toDb?⟩ : Act (Stage σ) Pending) s := by
  rw [accept_run, Check.forM_judge_eq_ok_iff.mpr h, Act.settle_ok_bind]

theorem passes_or_failing (r : Request) (look : Value → Value) :
    (∀ k ∈ r.checks, k.Passes c look) ∨ ∃ k, r.FirstFailing c look k := by
  cases h : forM r.checks (Check.judge c look) with
  | ok _ => exact .inl (Check.forM_judge_eq_ok_iff.mp h)
  | error e =>
    obtain ⟨before, k, after, hks, hb, hf, -⟩ := Check.forM_judge_eq_error_iff.mp h
    exact .inr ⟨k, before, after, hks, hb, hf⟩

theorem passes_logged (look : Value → Value) (k : Check) :
    k.Passes c.logged look ↔ k.Passes c look := by
  cases k with
  | connection =>
    unfold Check.Passes logged
    cases c.attachment <;> cases c.accessor? <;> simp [Attachment.logged]
  | _ => exact Iff.rfl

theorem firstFailing_logged {look : Value → Value} :
    r.FirstFailing c.logged look k ↔ r.FirstFailing c look k := by
  simp only [Request.FirstFailing, passes_logged]

/-- A formatter that fails has been entered. -/
theorem length_log_of_apply {deed : Value → Deed} {f? : Option (Formatter σ)} {v : Value}
    {s t : Stage (Logged σ)} {e : Failure}
    (h : Formatter.apply (f?.map (Formatter.logged deed)) v s = (.error e, t)) :
    t.outside.log.length = s.outside.log.length + 1 := by
  cases f? with
  | none => cases h
  | some f =>
    simp only [Formatter.apply, Option.map_some] at h
    split at h
    · cases h
    · rw [Act.bind_run] at h
      have hlog : (f.logged deed v s).2.outside.log.length = s.outside.log.length + 1 := by
        show (s.outside.log ++ [_]).length = _
        rw [List.length_append, List.length_singleton]
      split at h
      · cases h
      next hf =>
        cases h
        rwa [hf] at hlog

theorem length_log_of_formatted {s t : Stage (Logged σ)} {e : Failure}
    (h : r.formatted c.logged.toDb? s = (.error e, t)) :
    t.outside.log.length = s.outside.log.length + 1 := by
  have hdata {data : Value} {f : Value → Request}
      (hf : (do return f (← Formatter.apply c.logged.toDb? data) : Act _ _) s = (.error e, t)) :
      t.outside.log.length = s.outside.log.length + 1 := by
    rw [Act.bind_run] at hf
    split at hf
    · cases hf
    next ha =>
      cases hf
      exact length_log_of_apply ha
  cases r with
  | insert data => exact hdata h
  | update id data => exact hdata h
  | updateAll conditions data => exact hdata h
  | get | count | flush | remove | removeAll | find => cases h

/-- A call that fails with nothing entered has failed the first of its failing checks. -/
theorem logged_accept_refused_iff {s : Stage (Logged σ)} {e : Failure} :
    c.logged.accept r s = (.error e, s) ↔
      ∃ k, r.FirstFailing c s.memory.look k ∧ k.failure c.table = e := by
  constructor
  · intro h
    obtain hall | ⟨k, hk⟩ := c.logged.passes_or_failing r s.memory.look
    · rw [c.logged.accept_of_passing hall, Act.bind_run] at h
      obtain ⟨x, t, hx⟩ : ∃ x t, (r.defaulted s.memory.look).formatted c.logged.toDb? s = (x, t) :=
        ⟨_, _, rfl⟩
      rw [hx] at h
      cases x with
      | ok r' => cases h
      | error e' =>
        cases h
        have hl := c.length_log_of_formatted hx
        omega
    · rw [c.logged.accept_of_failing hk] at h
      exact ⟨k, c.firstFailing_logged.mp hk, Except.error.inj (congrArg Prod.fst h)⟩
  · rintro ⟨k, hk, rfl⟩
    exact c.logged.accept_of_failing (c.firstFailing_logged.mpr hk)

end Collection

namespace Session

/-- A call of an operation is refused exactly if one of its checks fails, with the failure of the first
that does. Then the session is what it was, and nothing has been entered in a log of the call. If all
checks pass, the call is what the formatter of its payload makes of it. -/
theorem request_validated {S : Session} {i : Nat} {c : Collection World} {op : Operation}
    {values : List Value} {r : Request} (known : S.collections[i]? = some c)
    (called : requestOf op values = some r) :
    (∀ e, c.logged.accept r S.stage.begun = (.error e, S.stage.begun) ↔
      ∃ k, r.FirstFailing c S.stage.memory.look k ∧ k.failure c.table = e) ∧
    (∀ k, r.FirstFailing c S.stage.memory.look k →
      Session.request i op values S = (.error (k.failure c.table), S)) ∧
    ((∀ k ∈ r.checks, k.Passes c S.stage.memory.look) →
      Session.request i op values S =
        onStage (do return ⟨← (r.defaulted S.stage.memory.look).formatted c.toDb?⟩) S) := by
  have hcollection : collection i S = (.ok c, S) := by
    unfold collection
    rw [Act.bind_ok (Act.get_run S), known]
    rfl
  have hrequest : Session.request i op values S = onStage (c.accept r) S := by
    unfold Session.request
    rw [called]
    exact Act.bind_ok hcollection
  refine ⟨fun e => c.logged_accept_refused_iff, fun k hk => ?_, fun hall => ?_⟩
  · rw [hrequest]
    unfold onStage Act.within
    rw [c.accept_of_failing hk]
  · rw [hrequest]
    unfold onStage Act.within
    rw [c.accept_of_passing hall]

/-- Of two failing checks the first one counts: the payload is empty, and there is no connection. -/
theorem request_validated_empty :
    let users : Collection World := .bare "users"
    let session : Session := { Session.empty with collections := [users] }
    let r : Request := .update (.int 1) (.map [])
    session.collections[0]? = some users ∧ requestOf .update [.int 1, .map []] = some r ∧
      ((∀ e, users.logged.accept r session.stage.begun = (.error e, session.stage.begun) ↔
          ∃ k, r.FirstFailing users session.stage.memory.look k ∧ k.failure users.table = e) ∧
        (∀ k, r.FirstFailing users session.stage.memory.look k →
          Session.request 0 .update [.int 1, .map []] session =
            (.error (k.failure users.table), session)) ∧
        ((∀ k ∈ r.checks, k.Passes users session.stage.memory.look) →
          Session.request 0 .update [.int 1, .map []] session = onStage (do
            return ⟨← (r.defaulted session.stage.memory.look).formatted users.toDb?⟩) session)) ∧
      r.FirstFailing users session.stage.memory.look (.filling (.map [])) ∧
      Session.request 0 .update [.int 1, .map []] session =
        (.error (.refused (.empty (.text "data"))), session) := by
  intro users session r
  have first : r.FirstFailing users session.stage.memory.look (.filling (.map [])) :=
    ⟨[.id (.int 1), .payload (.map [])], [.connection], rfl, by decide, by decide⟩
  have known : session.collections[0]? = some users := rfl
  have called : requestOf .update [.int 1, .map []] = some r := rfl
  have validated := request_validated known called
  exact ⟨known, called, validated, first, validated.2.1 _ first⟩

end Session

/-- A fraction is a real number, and so it passes for an identifier, and is what the table is asked for. -/
theorem Collection.fraction_accepted :
    let half : Value := .fraction (1 / 2)
    let users := answered "users" people
    let stage : Stage Unit := ⟨.empty, ()⟩
    users.accept (.get half) stage = (.ok ⟨.get half⟩, stage) ∧
      (users.watched.perform ⟨.get half⟩ stage.fresh).2.outside.deeds = [.call (.findOne half)] ∧
      (∀ n, half ≠ .int n) ∧ ∀ x, half ≠ .float x :=
  ⟨rfl, rfl, nofun, nofun⟩

end TableAccess
