import Mathlib.Computability.Language
import TableAccess.Proofs.Statement.Bound
import TableAccess.Proofs.Collection.Pipeline

/-! The order of the deeds of an operation. By kind, the deeds of a whole operation are a word of a
small language (`sequences`), and those of an operation that fails are the beginning of such a word
(`kinds_pipeline`). -/

namespace TableAccess

open Computability

/-- What kind of deed it is, whatever its arguments are. -/
inductive Kind where
  | toDb
  | hook (side : Side) (op : Operation)
  | statement
  | find
  | findOne
  | insert
  | updateById
  | destroyById
  | toJs
  deriving DecidableEq

def Call.kind : Call → Kind
  | .statement _ => .statement
  | .find .. => .find
  | .findOne _ => .findOne
  | .insert _ => .insert
  | .updateById .. => .updateById
  | .destroyById _ => .destroyById

def Deed.kind : Deed → Kind
  | .hook side op _ => .hook side op
  | .toDb _ => .toDb
  | .toJs _ => .toJs
  | .call c => c.kind

def Occurrence.kinds (o : Occurrence) : List Kind := [o.deed.kind]

/-- One deed of a kind, if there is to be one. -/
def Kind.when (isSet : Bool) (kind : Kind) : Language Kind := {if isSet then [kind] else []}

namespace Operation

/-- Whether an operation writes its payload. -/
def writes : Operation → Bool
  | .insert | .update | .updateAll => true
  | .get | .count | .flush | .remove | .removeAll | .find => false

/-- The calls of an operation. A search is either planned by the accessor or written as a statement; a bulk
operation ends with its first statement if no row is selected. -/
def calls : Operation → Language Kind
  | .get => {[.findOne]}
  | .insert => {[.insert]}
  | .update => {[.updateById]}
  | .remove => {[.destroyById]}
  | .find => {[.find], [.statement]}
  | .count | .flush => {[.statement]}
  | .updateAll => {[.statement], [.statement, .statement, .statement]}
  | .removeAll => {[.statement], [.statement, .statement]}

/-- Only a flush may restart a sequence. -/
def restarts : Operation → Language Kind
  | .flush => {[], [.statement]}
  | .get | .count | .insert | .update | .updateAll | .remove | .removeAll | .find => 1

end Operation

theorem exists_mul {κ : Type} {words more : Language κ} (h : ∃ word, word ∈ words)
    (h' : ∃ word, word ∈ more) : ∃ word, word ∈ words * more := by
  obtain ⟨word, hword⟩ := h
  obtain ⟨later, hlater⟩ := h'
  exact ⟨word ++ later, Language.mem_mul.mpr ⟨word, hword, later, hlater, rfl⟩⟩

/-- Whatever can be seen of a course in some view is the beginning of a word, and a whole word if it does
not fail. -/
def Course.Within {α κ : Type} (view : Occurrence → List κ) (p : Course α) (words : Language κ) : Prop :=
  ∀ m log r m', p m log r m' →
    ∃ word ∈ words, log.flatMap view <+: word ∧ ∀ a, r = .ok a → log.flatMap view = word

namespace Course.Within

variable {α β κ : Type} {view : Occurrence → List κ} {p : Course α} {words more : Language κ}

theorem mono (h : Within view p words) (hle : ∀ word ∈ words, word ∈ more) : Within view p more := by
  intro m log r m' hp
  obtain ⟨word, hword, hlog⟩ := h m log r m' hp
  exact ⟨word, hle word hword, hlog⟩

theorem of_mem {word : List κ} (h : Within view p {word}) (hword : word ∈ words) :
    Within view p words := by
  refine h.mono ?_
  rintro _ rfl
  exact hword

theorem of_silent (h : ∀ m log r m', p m log r m' → log = []) : Within view p 1 := by
  intro m log r m' hp
  obtain rfl := h m log r m' hp
  exact ⟨[], rfl, List.prefix_rfl, fun _ _ => rfl⟩

theorem settle (x : Except Failure α) : Within view (settle x) 1 := of_silent fun _ _ _ _ h => h.1

theorem refused (e : Failure) (word : List κ) (h : word ∈ words) :
    Within view (Course.settle (.error e) : Course α) words := by
  rintro m log r m' ⟨rfl, rfl, -⟩
  exact ⟨word, h, List.nil_prefix, nofun⟩

theorem of_single {word : List κ}
    (h : ∀ m log r m', p m log r m' → ∃ o : Occurrence, log = [o] ∧ view o = word) :
    Within view p {word} := by
  intro m log r m' hp
  obtain ⟨o, rfl, rfl⟩ := h m log r m' hp
  rw [List.flatMap_singleton]
  exact ⟨_, rfl, List.prefix_rfl, fun _ _ => rfl⟩

theorem callback (deed : (Value → Value) → Deed) (handed : List Value) {word : List κ}
    (h : ∀ read r, view ⟨deed read, handed, r⟩ = word) :
    Within view (Course.callback deed handed) {word} :=
  of_single fun m _ r _ hlog => ⟨_, hlog, h m.read r⟩

theorem asked (c : Call) {word : List κ} (h : ∀ r, view ⟨.call c, [], r⟩ = word) :
    Within view (Course.asked c) {word} :=
  of_single fun _ _ r _ hlog => ⟨_, hlog.1, h r⟩

theorem bind_of {q : α → Course β} (hp : Within view p words)
    (hq : ∀ m log a m', p m log (.ok a) m' → Within view (q a) more) (hsome : ∃ word, word ∈ more) :
    Within view (p >>= q) (words * more) := by
  rintro m log r m' (⟨e, h, rfl⟩ | ⟨a, m₁, first, rest, h, hrest, rfl⟩)
  · obtain ⟨word, hword, hlog, -⟩ := hp m log _ m' h
    obtain ⟨later, hlater⟩ := hsome
    exact ⟨word ++ later, Language.mem_mul.mpr ⟨word, hword, later, hlater, rfl⟩,
      hlog.trans (List.prefix_append word later), nofun⟩
  · obtain ⟨word, hword, -, whole⟩ := hp m first _ m₁ h
    obtain rfl := whole a rfl
    obtain ⟨later, hlater, hlog, whole⟩ := hq m first a m₁ h m₁ rest r m' hrest
    refine ⟨first.flatMap view ++ later, Language.mem_mul.mpr ⟨_, hword, later, hlater, rfl⟩, ?_,
      fun b hb => ?_⟩
    · rw [List.flatMap_append]
      exact (List.prefix_append_right_inj _).mpr hlog
    · rw [List.flatMap_append, whole b hb]

theorem bind {q : α → Course β} (hp : Within view p words) (hq : ∀ a, Within view (q a) more)
    (hsome : ∃ word, word ∈ more) : Within view (p >>= q) (words * more) :=
  hp.bind_of (fun _ _ a _ _ => hq a) hsome

/-- Nothing can be seen of the first step. -/
theorem after {q : α → Course β} (hp : Within view p 1) (hq : ∀ a, Within view (q a) words)
    (hsome : ∃ word, word ∈ words) : Within view (p >>= q) words := by
  have h := hp.bind hq hsome
  rwa [one_mul] at h

/-- Nothing can be seen of the last step. -/
theorem before {q : α → Course β} (hp : Within view p words) (hq : ∀ a, Within view (q a) 1) :
    Within view (p >>= q) words := by
  have h := hp.bind hq ⟨[], rfl⟩
  rwa [mul_one] at h

/-- Whoever waits sees what there is to see. -/
theorem awaited (hp : Within view p words) : Within view (Course.awaited p) words := by
  rintro m log r m' ⟨r', h, rfl⟩
  obtain ⟨word, hword, hlog, whole⟩ := hp m log r' m' h
  exact ⟨word, hword, hlog, fun a ha => whole a (Course.eq_ok_of_mapError ha)⟩

theorem mapM {f : Value → Course β} {shown : Value → List κ}
    (h : ∀ v, Within view (f v) {shown v}) (vs : List Value) :
    Within view (vs.mapM f) {vs.flatMap shown} := by
  induction vs with
  | nil => exact settle _
  | cons v vs ih =>
    rw [List.mapM_cons]
    refine ((h v).bind (fun b => ih.before fun bs => settle _) ⟨_, Set.mem_singleton _⟩).mono ?_
    rintro word hword
    obtain ⟨first, rfl, rest, rfl, rfl⟩ := Language.mem_mul.mp hword
    exact Set.mem_singleton _

variable {agenda : Agenda} {heard : List Value} {rest : Language Kind}

/-- What is asked for next is of one kind. -/
theorem asking (kind : Kind)
    (next : ∀ call?, agenda heard = .ok call? → ∃ call, call? = some call ∧ call.kind = kind)
    (hrest : ∀ v, Within Occurrence.kinds (Course.asking agenda (heard ++ [v])) rest)
    (hsome : ∃ word, word ∈ rest) :
    Within Occurrence.kinds (Course.asking agenda heard) ({[kind]} * rest) := by
  cases h : agenda heard with
  | error e =>
    rw [Course.asking_refused h]
    obtain ⟨word, hword⟩ := hsome
    exact refused e _ (Language.mem_mul.mpr ⟨[kind], rfl, word, hword, rfl⟩)
  | ok call? =>
    obtain ⟨call, rfl, rfl⟩ := next call? h
    rw [Course.asking_next h]
    exact (asked call fun _ => rfl).bind hrest hsome

theorem finished (h : agenda heard = .ok none) :
    Within Occurrence.kinds (Course.asking agenda heard) 1 := by
  rw [Course.asking_finished h]
  exact settle _

/-- A single call. -/
theorem asking_once (kind : Kind)
    (next : ∀ call?, agenda heard = .ok call? → ∃ call, call? = some call ∧ call.kind = kind)
    (done : ∀ v, agenda (heard ++ [v]) = .ok none) :
    Within Occurrence.kinds (Course.asking agenda heard) {[kind]} := by
  have h := asking kind next (fun v => finished (done v)) ⟨[], rfl⟩
  rwa [mul_one] at h

end Course.Within

namespace Request

@[simp] theorem operation_withPayload (r : Request) (v : Value) :
    (r.withPayload v).operation = r.operation := by
  cases r <;> rfl

@[simp] theorem operation_prepared (r : Request) (v : Value) :
    (r.prepared v).operation = r.operation := by
  unfold prepared
  split
  · exact operation_withPayload r _
  · rfl

theorem isSome_written? (r : Request) : r.written?.isSome = r.operation.writes := by
  cases r <;> rfl

end Request

namespace Collection

variable {σ : Type} (c : Collection σ)

/-- The deeds that follow the calls. -/
def endings (op : Operation) : Language Kind :=
  (Kind.toJs.when c.toJs?.isSome)∗ * ((Kind.hook .post op).when (c.post op).isSome * op.restarts)

/-- The deeds of an operation that fails nowhere. -/
def sequences (op : Operation) : Language Kind :=
  Kind.toDb.when (c.toDb?.isSome && op.writes) *
    ((Kind.hook .pre op).when (c.pre op).isSome * (op.calls * c.endings op))

section Stages

open Course

variable {κ : Type} {view : Occurrence → List κ} {word : List κ}

theorem within_formatting {isSet : Bool} {deed : (Value → Value) → Deed} {v : Value}
    (h : ∀ read r, view ⟨deed read, [v], r⟩ = word) :
    Within view (formatting isSet deed v) {if isSet && !v.isNull then word else []} := by
  unfold formatting
  split
  · exact (Within.callback deed [v] h).before fun w => .settle (.ok (w.orElse v))
  · exact .settle _

theorem within_formattingPayload {r : Request}
    (written : ∀ data, r.written? = some data → data.isNull = false)
    (h : ∀ shown handed o, view ⟨.toDb shown, handed, o⟩ = word) :
    Within view (c.formattingPayload r)
      {if c.toDb?.isSome && r.operation.writes then word else []} := by
  rw [← r.isSome_written?]
  unfold formattingPayload
  cases hw : r.written? with
  | none =>
    rw [Option.isSome_none, Bool.and_false]
    exact .settle _
  | some data =>
    have hformat : Within view (formatting c.toDb?.isSome (fun read => .toDb (read data)) data)
        {if c.toDb?.isSome && !data.isNull then word else []} := within_formatting fun _ => h _ _
    rw [written data hw] at hformat
    exact hformat.before fun v => .settle (.ok (r.withPayload v))

/-- The formatted request is one of the same operation. -/
theorem operation_of_formattingPayload {r r' : Request} {m m' : Memory} {log : List Occurrence}
    (h : c.formattingPayload r m log (.ok r') m') : r'.operation = r.operation := by
  unfold formattingPayload at h
  cases hw : r.written? with
  | none =>
    rw [hw] at h
    obtain ⟨-, hr', -⟩ := h
    cases hr'
    rfl
  | some data =>
    rw [hw] at h
    obtain ⟨v, _, _, _, -, ⟨-, hr', -⟩, -⟩ := Course.of_bind_ok h
    cases hr'
    exact r.operation_withPayload v

theorem within_hooking (side : Side) (op : Operation) {handed : List Value}
    (h : ∀ shown o, view ⟨.hook side op shown, handed, o⟩ = word) :
    Within view (c.hooking side op handed) {if (c.hook? side op).isSome then word else []} := by
  unfold hooking
  split
  · exact .callback _ handed fun read => h _
  · exact .settle _

theorem within_preparing {r : Request}
    (h : ∀ shown handed o, view ⟨.hook .pre r.operation shown, handed, o⟩ = word) :
    Within view (c.preparing r) {if (c.pre r.operation).isSome then word else []} :=
  (c.within_hooking .pre r.operation fun _ => h _ _).before fun v => .settle (.ok (r.prepared v))

theorem operation_of_preparing {r r' : Request} {m m' : Memory} {log : List Occurrence}
    (h : c.preparing r m log (.ok r') m') : r'.operation = r.operation := by
  obtain ⟨v, _, _, _, -, ⟨-, hr', -⟩, -⟩ := Course.of_bind_ok h
  cases hr'
  exact r.operation_prepared v

theorem isNull_place (m : Memory) (v : Value) : (m.place v).1.isNull = v.isNull := by
  cases v <;> rfl

theorem within_formattingRow {row : Value} (h : ∀ handed o, view ⟨.toJs row, handed, o⟩ = word) :
    Within view (c.formattingRow row) {if c.toJs?.isSome && !row.isNull then word else []} := by
  have hplace : Within view (Course.place row) 1 := .of_silent fun _ _ _ _ h => h.1
  rw [← one_mul {_}]
  refine hplace.bind_of ?_ ⟨_, Set.mem_singleton _⟩
  rintro m log v m' ⟨-, hv, -⟩
  cases hv
  rw [← isNull_place m row]
  exact within_formatting fun _ => h _

theorem silent_result (found : Found) (formatted : List Value) (m : Memory) (log : List Occurrence)
    (r : Except Failure Value) (m' : Memory) (h : found.result formatted m log r m') : log = [] := by
  cases found <;> exact h.1

theorem silent_returned (found : Found) (result : Value) (m : Memory) (log : List Occurrence)
    (r : Except Failure Value) (m' : Memory) (h : found.returned result m log r m') : log = [] := by
  cases found <;> exact h.1

/-- The deeds that follow the calls: rows are formatted, the post-hook runs, a sequence is restarted. -/
theorem within_finishing {r : Request} (found : Found) {shown : Value → List κ} {words : Language κ}
    (hrow : ∀ row handed o, view ⟨.toJs row, handed, o⟩ = shown row)
    (hpost : ∀ shown handed o, view ⟨.hook .post r.operation shown, handed, o⟩ = word)
    (hrestart : Within view (c.restarting r) words) (hsome : ∃ word, word ∈ words) :
    Within view (c.finishing r found)
      ({found.toFormat.flatMap fun row => if c.toJs?.isSome && !row.isNull then shown row else []} *
        ({if (c.post r.operation).isSome then word else []} * words)) := by
  have hlast := exists_mul ⟨_, Set.mem_singleton (if (c.post r.operation).isSome then word else [])⟩ hsome
  refine .bind (.mapM (fun row => c.within_formattingRow (hrow row)) _) (fun formatted => ?_) hlast
  refine .after (.of_silent (silent_result found formatted)) (fun result => ?_) hlast
  refine .bind (c.within_hooking .post r.operation fun _ => hpost _ _) (fun _ => ?_) hsome
  exact hrestart.before fun _ => .of_silent (silent_returned found result)

end Stages

section Words

open Course

theorem of_say {c : Collection σ} {statement : Except Failure String} {call? : Option Call}
    (h : c.say statement = .ok call?) : ∃ call, call? = some call ∧ call.kind = .statement := by
  unfold say at h
  split at h
  · cases statement with
    | error e => cases h
    | ok q =>
      cases h
      exact ⟨_, rfl, rfl⟩
  · cases h

theorem of_bind_say {c : Collection σ} {statement : Except Failure String} {call? : Option Call}
    (h : (do c.say (.ok (← statement))) = .ok call?) :
    ∃ call, call? = some call ∧ call.kind = .statement := by
  obtain ⟨q, -, hsay⟩ := ok_of_bind h
  exact of_say hsay

theorem within_search (read : Value → Value) (conditions options : Value) :
    Within Occurrence.kinds (asking (c.agenda read (.find conditions options)) []) Operation.find.calls := by
  cases hraw : Route.needsRaw (read conditions) (read options) with
  | error e =>
    rw [asking_refused (agenda_unrouted hraw)]
    exact .refused e [.find] (.inl rfl)
  | ok raw =>
    cases raw with
    | false =>
      refine (Within.asking_once .find (fun call? h => ?_) fun _ => rfl).of_mem (.inl rfl)
      cases (agenda_planned hraw).symm.trans h
      exact ⟨_, rfl, rfl⟩
    | true =>
      refine (Within.asking_once .statement (fun call? h => ?_) fun _ => rfl).of_mem (.inr rfl)
      exact of_bind_say ((agenda_written hraw).symm.trans h)

/-- If rows are selected, two statements follow. -/
theorem within_selected (read : Value → Value) (conditions data candidates : Value) :
    Within Occurrence.kinds (asking (c.agenda read (.updateAll conditions data)) [candidates])
      {[], [.statement, .statement]} := by
  cases hids : rowIds candidates with
  | error e =>
    rw [asking_refused (agenda_update_unlisted hids)]
    exact .refused e [] (.inl rfl)
  | ok ids =>
    cases hempty : ids.isEmpty with
    | true => exact (Within.finished (agenda_update_none hids hempty)).of_mem (.inl rfl)
    | false =>
      have hlast (answer : Value) :
          Within Occurrence.kinds (asking (c.agenda read (.updateAll conditions data)) [candidates, answer])
            {[.statement]} :=
        .asking_once _ (fun _ h => of_say ((agenda_update_again hids answer).symm.trans h)) fun _ => rfl
      refine (Within.asking .statement (fun _ h => ?_) hlast ⟨_, Set.mem_singleton _⟩).mono ?_
      · exact of_bind_say ((agenda_update_some hids hempty).symm.trans h)
      · rintro word hword
        obtain ⟨first, rfl, second, rfl, rfl⟩ := Language.mem_mul.mp hword
        exact .inr rfl

theorem within_snapshot (read : Value → Value) (conditions snapshot : Value) :
    Within Occurrence.kinds (asking (c.agenda read (.removeAll conditions)) [snapshot])
      {[], [.statement]} := by
  cases hids : rowIds snapshot with
  | error e =>
    rw [asking_refused (agenda_remove_unlisted hids)]
    exact .refused e [] (.inl rfl)
  | ok ids =>
    cases hempty : ids.isEmpty with
    | true => exact (Within.finished (agenda_remove_none hids hempty)).of_mem (.inl rfl)
    | false =>
      refine (Within.asking_once .statement (fun _ h => ?_) fun _ => rfl).of_mem (.inr rfl)
      exact of_say ((agenda_remove_some hids hempty).symm.trans h)

theorem within_agenda (read : Value → Value) (r : Request) :
    Within Occurrence.kinds (asking (c.agenda read r) []) r.operation.calls := by
  cases r with
  | get | insert | update | remove =>
    refine .asking_once _ (fun call? h => ?_) fun _ => rfl
    cases h
    exact ⟨_, rfl, rfl⟩
  | count | flush => exact .asking_once _ (fun call? h => of_say h) fun _ => rfl
  | find conditions options => exact c.within_search read conditions options
  | updateAll conditions data =>
    refine (Within.asking .statement (fun call? h => of_say h)
      (c.within_selected read conditions data) ⟨[], .inl rfl⟩).mono ?_
    rintro word hword
    obtain ⟨first, rfl, rest, rfl | rfl, rfl⟩ := Language.mem_mul.mp hword
    · exact .inl rfl
    · exact .inr rfl
  | removeAll conditions =>
    refine (Within.asking .statement (fun call? h => of_say h)
      (c.within_snapshot read conditions) ⟨[], .inl rfl⟩).mono ?_
    rintro word hword
    obtain ⟨first, rfl, rest, rfl | rfl, rfl⟩ := Language.mem_mul.mp hword
    · exact .inl rfl
    · exact .inr rfl

theorem exists_when (kind : Kind) (isSet : Bool) : ∃ word, word ∈ kind.when isSet :=
  ⟨_, Set.mem_singleton _⟩

theorem exists_calls (op : Operation) : ∃ word, word ∈ op.calls := by
  cases op with
  | find | updateAll | removeAll => exact ⟨_, .inl rfl⟩
  | get | count | flush | insert | update | remove => exact ⟨_, rfl⟩

theorem exists_restarts (op : Operation) : ∃ word, word ∈ op.restarts := by
  cases op with
  | flush => exact ⟨_, .inl rfl⟩
  | get | count | insert | update | updateAll | remove | removeAll | find => exact ⟨_, rfl⟩

theorem within_calling (r : Request) : Within Occurrence.kinds (c.calling r) r.operation.calls :=
  .after (.of_silent fun _ _ _ _ h => h.1) (fun m => c.within_agenda m.read r) (exists_calls r.operation)

theorem within_restarting (r : Request) :
    Within Occurrence.kinds (c.restarting r) r.operation.restarts := by
  cases r with
  | flush resetSequence =>
    refine .after (.of_silent fun _ _ _ _ h => h.1) (fun m => ?_) ⟨[], .inl rfl⟩
    cases (m.look resetSequence).truthy with
    | false => exact (Within.settle (.ok ())).of_mem (.inl rfl)
    | true =>
      have hcall : Within Occurrence.kinds
          (Course.asked (.statement (Statement.Raw.sequenceRestart c.table))) {[.statement]} :=
        .asked _ fun _ => rfl
      exact (hcall.before fun _ => .settle (.ok ())).of_mem (.inr rfl)
  | get | count | insert | update | updateAll | remove | removeAll | find => exact .settle (.ok ())

theorem exists_endings (op : Operation) : ∃ word, word ∈ c.endings op :=
  exists_mul ⟨[], Language.nil_mem_kstar _⟩
    (exists_mul (exists_when _ _) (exists_restarts op))

theorem mem_kstar_when {kind : Kind} {isSet : Bool} (rows : List Value) :
    (rows.flatMap fun row => if isSet && !row.isNull then [kind] else []) ∈ (kind.when isSet)∗ := by
  induction rows with
  | nil => exact Language.nil_mem_kstar _
  | cons row rows ih =>
    rw [List.flatMap_cons]
    obtain ⟨words, hwords, hall⟩ := Language.mem_kstar.mp ih
    rw [hwords]
    cases hrow : isSet && !row.isNull with
    | false => exact Language.join_mem_kstar hall
    | true =>
      have hword : [kind] ∈ kind.when isSet := by
        obtain ⟨rfl, -⟩ := Bool.and_eq_true_iff.mp hrow
        exact Set.mem_singleton _
      exact Language.join_mem_kstar (List.forall_mem_cons.mpr ⟨hword, hall⟩)

theorem kinds_finishing (r : Request) (found : Found) :
    Within Occurrence.kinds (c.finishing r found) (c.endings r.operation) := by
  have hwithin : Within Occurrence.kinds (c.finishing r found)
      ({found.toFormat.flatMap fun row => if c.toJs?.isSome && !row.isNull then [Kind.toJs] else []} *
        ((Kind.hook .post r.operation).when (c.post r.operation).isSome * r.operation.restarts)) :=
    c.within_finishing found (fun _ _ _ => rfl) (fun _ _ _ => rfl) (c.within_restarting r)
      (exists_restarts r.operation)
  refine hwithin.mono ?_
  rintro word hword
  obtain ⟨rows, rfl, last, hlast, rfl⟩ := Language.mem_mul.mp hword
  exact Language.mem_mul.mpr ⟨_, mem_kstar_when found.toFormat, last, hlast, rfl⟩

theorem kinds_performing (r : Request) : Within Occurrence.kinds (c.performing r)
    ((Kind.hook .pre r.operation).when (c.pre r.operation).isSome *
      (r.operation.calls * c.endings r.operation)) := by
  have hcalls := exists_mul (exists_calls r.operation) (c.exists_endings r.operation)
  refine .bind_of (c.within_preparing fun _ _ _ => rfl) (fun _ _ r' _ hr' => ?_) hcalls
  rw [← c.operation_of_preparing hr']
  refine (c.within_calling r').bind (fun answers => ?_) (c.exists_endings _)
  exact .after (.settle _) (fun found => c.kinds_finishing r' found) (c.exists_endings _)

/-- The deeds of an operation are in order, up to where it ends. -/
theorem kinds_pipeline {r : Request} (written : ∀ data, r.written? = some data → data.isNull = false) :
    Within Occurrence.kinds (c.pipeline r) (c.sequences r.operation) := by
  have hsome := exists_mul (exists_when (.hook .pre r.operation) (c.pre r.operation).isSome)
    (exists_mul (exists_calls r.operation) (c.exists_endings r.operation))
  refine .bind_of (c.within_formattingPayload written fun _ _ _ => rfl) (fun _ _ r' _ hr' => ?_) hsome
  rw [← c.operation_of_formattingPayload hr'] at hsome ⊢
  exact .after (.of_silent fun _ _ _ _ h => h.1) (fun _ => (c.kinds_performing r').awaited) hsome

end Words

end Collection

end TableAccess
