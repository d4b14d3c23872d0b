import TableAccess.Proofs.Collection.Removal
import TableAccess.Proofs.Collection.Sequence

/-! How an operation ends. If a deed fails, it is the last one, and the caller is told what it failed with,
but for the end of an iterator inside the coroutine (`told_of_pipeline`, `stop_arrives_otherwise`). Of what
the database has answered every row that is not null is formatted once, in their order (`rows_pipeline`),
what an operation gives back is what its post-hook was handed (`handed_of_finishing`), and a flush sends its
one or two statements (`statements_pipeline_flush`). Together with the order of the deeds this is what an
operation that passes its checks comes to (`operation_pipelined`). -/

namespace TableAccess

/-- Whether a deed is one of the coroutine; the payload is formatted before there is one. -/
def Deed.isDeferred : Deed → Bool
  | .toDb _ => false
  | .toJs _ | .hook .. | .call _ => true

namespace Occurrence

/-- What the caller is told when the deed fails. -/
def told (o : Occurrence) (e : Failure) : Failure := if o.deed.isDeferred then e.awaited else e

/-- The statement that is sent. -/
def statements (o : Occurrence) : List String :=
  match o.deed with
  | .call (.statement q) => [q]
  | _ => []

/-- The row that is formatted. -/
def rows (o : Occurrence) : List Value :=
  match o.deed with
  | .toJs row => [row]
  | .toDb _ | .hook .. | .call _ => []

/-- The answer to a call. -/
def answers (o : Occurrence) : List Value :=
  match o.deed, o.outcome with
  | .call _, .ok v => [v]
  | _, _ => []

end Occurrence

/-- All answers that an agenda was followed with. -/
theorem answers_of_asks {agenda : Agenda} {heard answers : List Value} {m m' : Memory}
    {log : List Occurrence} (h : Asks agenda heard m log (.ok answers) m') :
    answers = heard ++ log.flatMap Occurrence.answers := by
  generalize hr : (Except.ok answers : Except Failure (List Value)) = r at h
  induction h with
  | refused | failed => cases hr
  | finished =>
    cases hr
    exact (List.append_nil _).symm
  | answered _ _ ih =>
    rw [ih hr, List.flatMap_cons, ← List.append_assoc]
    rfl

theorem rows_of_asks {agenda : Agenda} {heard : List Value} {m m' : Memory} {log : List Occurrence}
    {r : Except Failure (List Value)} (h : Asks agenda heard m log r m') :
    log.flatMap Occurrence.rows = [] := by
  induction h with
  | refused | finished | failed => rfl
  | answered _ _ ih => exact ih

/-- The caller of an operation is told of a failing deed, and it is the last one. -/
def EndsTold (log : List Occurrence) (result : Except Failure Value) : Prop :=
  ∀ before o after e, log = before ++ o :: after → o.outcome = .error e →
    after = [] ∧ result = .error (o.told e)

namespace Collection

variable {σ : Type} {c : Collection σ}

section Ends

/-- An operation that ends well has finished what it has found. -/
theorem finishing_of_pipeline {r : Request} {m m' : Memory} {log : List Occurrence} {v : Value}
    (h : c.pipeline r m log (.ok v) m') : ∃ r' answers found m₁ before rest,
      r'.operation = r.operation ∧ c.found r'.operation answers = .ok found ∧
      c.finishing r' found m₁ rest (.ok v) m' ∧ log = before ++ rest := by
  obtain ⟨written, _, first, _, hwritten, hwaiting, rfl⟩ := Course.of_bind_ok h
  obtain ⟨_, _, waiting, _, -, hperforming, rfl⟩ := Course.of_bind_ok hwaiting
  obtain ⟨prepared, _, pre, _, hprepared, hcalling, rfl⟩ :=
    Course.of_bind_ok (Course.of_awaited_ok hperforming)
  obtain ⟨answers, _, calls, _, -, hanswered, rfl⟩ := Course.of_bind_ok hcalling
  obtain ⟨found, m₁, silent, rest, ⟨-, hfound, -⟩, hfinishing, rfl⟩ := Course.of_bind_ok hanswered
  refine ⟨_, answers, found, m₁, first ++ (waiting ++ (pre ++ (calls ++ silent))), rest, ?_,
    hfound.symm, hfinishing, by simp only [List.append_assoc]⟩
  rw [c.operation_of_preparing hprepared, c.operation_of_formattingPayload hwritten]

/-- Only a flush finds nothing at all. -/
theorem found_ne_nothing {op : Operation} (hop : op ≠ .flush) (answers : List Value) :
    c.found op answers ≠ .ok .nothing := by
  fun_cases found with
  | case8 answer => cases countOf c.table answer <;> simp
  | case9 => exact absurd rfl hop
  | _ => nofun

/-- A flush gives back nothing. -/
theorem null_of_finishing {r : Request} {m m' : Memory} {log : List Occurrence} {v : Value}
    (h : c.finishing r .nothing m log (.ok v) m') : v = .null := by
  obtain ⟨_, _, _, _, -, hresult, -⟩ := Course.of_bind_ok h
  obtain ⟨result, _, _, _, ⟨-, hnull, -⟩, hhook, -⟩ := Course.of_bind_ok hresult
  obtain ⟨_, _, _, _, -, hrestart, -⟩ := Course.of_bind_ok hhook
  obtain ⟨_, _, _, _, -, ⟨-, hv, -⟩, -⟩ := Course.of_bind_ok hrestart
  cases hnull
  exact (Except.ok.inj hv)

/-- What an operation gives back is what its post-hook, the last of its deeds, was handed. -/
theorem handed_of_finishing {r : Request} {found : Found} {m m' : Memory} {log : List Occurrence}
    {v : Value} (hr : r.operation ≠ .flush) (hf : found ≠ .nothing)
    (post : (c.post r.operation).isSome = true) (h : c.finishing r found m log (.ok v) m') :
    ∃ before o shown, log = before ++ [o] ∧ o.deed = .hook .post r.operation shown ∧
      (o.handed = [v] ∨ shown = [.list []] ∧ m'.look v = .list []) := by
  have hrestarting : c.restarting r = Pure.pure () := by
    cases r with
    | flush flag => exact absurd rfl hr
    | _ => rfl
  obtain ⟨formatted, _, rows, _, -, hresult, rfl⟩ := Course.of_bind_ok h
  obtain ⟨result, m₁, silent, _, hmade, hhook, rfl⟩ := Course.of_bind_ok hresult
  rw [hrestarting] at hhook
  obtain ⟨w, m₂, hook, rest, hdone, hreturned, rfl⟩ := Course.of_bind_ok hhook
  unfold hooking at hdone
  rw [show c.hook? .post r.operation = c.post r.operation from rfl, post, if_pos rfl] at hdone
  rw [pure_bind] at hreturned
  obtain rfl := silent_returned found result m₂ rest _ m' hreturned
  obtain rfl : hook = _ := hdone
  refine ⟨rows ++ silent, ⟨_, found.handed result, .ok w⟩, (found.handed result).map m₁.read,
    by simp only [List.append_nil, List.append_assoc], rfl, ?_⟩
  cases found with
  | nothing => exact absurd rfl hf
  | row | rows | count =>
    obtain ⟨-, hv, -⟩ := hreturned
    cases hv
    exact .inl rfl
  | unselected =>
    obtain ⟨-, hv, rfl⟩ := hreturned
    obtain ⟨-, hshown, rfl⟩ := hmade
    cases hv
    cases hshown
    exact .inr ⟨congrArg ([·]) (Memory.read_place _ (.list []) rfl), m₂.look_store _⟩

end Ends

/-! ### A failing deed is the last -/

section Prompt

variable {among : Deed → Prop}

theorem prompt_formatting (isSet : Bool) {deed : (Value → Value) → Deed}
    (h : ∀ read, among (deed read)) (v : Value) : Course.Prompt among (formatting isSet deed v) := by
  unfold formatting
  split
  · exact .bind (.callback h [v]) fun w => .settle _
  · exact .settle _

theorem prompt_hooking (side : Side) (op : Operation) (h : ∀ shown, among (.hook side op shown))
    (handed : List Value) : Course.Prompt among (c.hooking side op handed) := by
  unfold hooking
  split
  · exact .callback (fun _ => h _) handed
  · exact .settle _

theorem prompt_restarting (h : ∀ call, among (.call call)) (r : Request) :
    Course.Prompt among (c.restarting r) := by
  cases r with
  | flush flag =>
    refine .bind (.of_silent fun _ _ _ _ h => h.1) fun m => ?_
    cases (m.look flag).truthy with
    | false => exact .settle _
    | true => exact .bind (.asked (h _)) fun _ => .settle _
  | get | count | insert | update | updateAll | remove | removeAll | find => exact .settle _

theorem prompt_formattingPayload (r : Request) :
    Course.Prompt (·.isDeferred = false) (c.formattingPayload r) := by
  unfold formattingPayload
  cases r.written? with
  | none => exact .settle _
  | some data =>
    refine .bind (prompt_formatting _ ?_ data) fun _ => .settle _
    exact fun _ => rfl

theorem prompt_performing (r : Request) : Course.Prompt (·.isDeferred = true) (c.performing r) := by
  have hrow (row : Value) : Course.Prompt (·.isDeferred = true) (c.formattingRow row) := by
    refine .bind (.of_silent fun _ _ _ _ h => h.1) fun v => prompt_formatting _ ?_ v
    exact fun _ => rfl
  have hfinishing (r : Request) (found : Found) :
      Course.Prompt (·.isDeferred = true) (c.finishing r found) := by
    refine .bind (.mapM hrow found.toFormat) fun formatted => ?_
    refine .bind (.of_silent (silent_result found formatted)) fun result => ?_
    refine .bind (prompt_hooking .post r.operation (fun _ => rfl) _) fun _ => ?_
    exact .bind (prompt_restarting (fun _ => rfl) r) fun _ => .of_silent (silent_returned found result)
  refine .bind (.bind (prompt_hooking .pre r.operation (fun _ => rfl) _) fun _ => .settle _) fun r => ?_
  refine .bind (.bind (.of_silent fun _ _ _ _ h => h.1) fun m =>
    .asking (fun _ => rfl) (c.agenda m.read r) []) fun answers => ?_
  exact .bind (.settle _) fun found => hfinishing r found

/-- A deed of an operation that fails is the last one. Of a deed of the coroutine the caller is told as
whoever waits for one is. -/
theorem told_of_pipeline {r : Request} {m m' : Memory} {log : List Occurrence}
    {result : Except Failure Value} (h : c.pipeline r m log result m') : EndsTold log result := by
  intro before o after e hlog ho
  obtain ⟨f, hformatting, rfl⟩ | ⟨r', m₁, first, _, hformatting, helapse, rfl⟩ := h
  · obtain ⟨hafter, hf, hdeed⟩ :=
      prompt_formattingPayload r _ _ _ _ hformatting before o after e hlog ho
    cases hf
    exact ⟨hafter, by rw [Occurrence.told, hdeed]; rfl⟩
  obtain ⟨_, ⟨-, he⟩, -⟩ | ⟨_, m₂, _, rest, ⟨rfl, -⟩, ⟨result, hperforming, rfl⟩, rfl⟩ := helapse
  · cases he
  obtain ⟨more, hmore⟩ := (prompt_formattingPayload r _ _ _ _ hformatting).later hlog ho
  obtain ⟨hafter, rfl, hdeed⟩ := prompt_performing r' _ _ _ _ hperforming more o after e hmore ho
  exact ⟨hafter, by rw [Occurrence.told, hdeed]; rfl⟩

end Prompt

/-! ### The rows that are formatted -/

section Rows

open Course

/-- The rows that a formatter is asked about. -/
def toShow (c : Collection σ) (found : Found) : List Value :=
  found.toFormat.filter fun row => c.toJs?.isSome && !row.isNull

theorem nothing_of_within {α κ : Type} {view : Occurrence → List κ} {p : Course α} {m m' : Memory}
    {log : List Occurrence} {r : Except Failure α} (h : Within view p 1) (hp : p m log r m') :
    log.flatMap view = [] := by
  obtain ⟨word, rfl, hprefix, -⟩ := h m log r m' hp
  exact List.prefix_nil.mp hprefix

theorem within_quiet {α κ : Type} {view : Occurrence → List κ} {p : Course α} {isSet : Bool}
    (h : Within view p {if isSet then [] else []}) : Within view p 1 := by
  rwa [ite_self] at h

theorem rows_restarting (r : Request) : Within Occurrence.rows (c.restarting r) 1 := by
  cases r with
  | flush flag =>
    refine .after (.of_silent fun _ _ _ _ h => h.1) (fun m => ?_) ⟨[], rfl⟩
    cases (m.look flag).truthy with
    | false => exact .settle (.ok ())
    | true =>
      have hcall : Within Occurrence.rows
          (Course.asked (.statement (Statement.Raw.sequenceRestart c.table))) 1 :=
        .asked _ fun _ => rfl
      exact hcall.before fun _ => .settle (.ok ())
  | get | count | insert | update | updateAll | remove | removeAll | find => exact .settle (.ok ())

/-- What follows the calls, in a view that is blind to hooks. -/
theorem within_finishing_quiet {κ : Type} {view : Occurrence → List κ} {r : Request} {found : Found}
    {shown : Value → List κ} (hrow : ∀ row handed o, view ⟨.toJs row, handed, o⟩ = shown row)
    (hpost : ∀ shown handed o, view ⟨.hook .post r.operation shown, handed, o⟩ = [])
    (hrestart : Within view (c.restarting r) 1) : Within view (c.finishing r found)
      {found.toFormat.flatMap fun row => if c.toJs?.isSome && !row.isNull then shown row else []} := by
  have h := c.within_finishing found hrow hpost hrestart ⟨[], rfl⟩
  have hone : ({[]} : Language κ) = 1 := rfl
  rwa [ite_self, hone, mul_one, mul_one] at h

/-- What has been found is formatted row by row, without those that are null. -/
theorem rows_finishing (r : Request) (found : Found) :
    Within Occurrence.rows (c.finishing r found) {c.toShow found} := by
  have hrows : (found.toFormat.flatMap fun row => if c.toJs?.isSome && !row.isNull then [row] else []) =
      c.toShow found := by
    unfold toShow
    induction found.toFormat with
    | nil => rfl
    | cons row rows ih =>
      rw [List.flatMap_cons, ih, List.filter_cons]
      split <;> rfl
  rw [← hrows]
  exact within_finishing_quiet (fun _ _ _ => rfl) (fun _ _ _ => rfl) (rows_restarting r)

/-- Apart from a flush, nothing is asked for any more. -/
theorem answers_finishing {r : Request} (hr : r.operation ≠ .flush) (found : Found) :
    Within Occurrence.answers (c.finishing r found) 1 := by
  have hrestart : Within Occurrence.answers (c.restarting r) 1 := by
    cases r with
    | flush => exact absurd rfl hr
    | get | count | insert | update | updateAll | remove | removeAll | find => exact .settle (.ok ())
  have hnone : (found.toFormat.flatMap fun row =>
      if c.toJs?.isSome && !row.isNull then ([] : List Value) else []) = [] := by
    simp
  have h : Within Occurrence.answers (c.finishing r found) {_} :=
    within_finishing_quiet (fun _ _ _ => rfl) (fun _ _ _ => rfl) hrestart
  rwa [hnone] at h

theorem rows_calling {r : Request} {m m' : Memory} {log : List Occurrence}
    {result : Except Failure (List Value)} (h : c.calling r m log result m') :
    log.flatMap Occurrence.rows = [] := by
  obtain ⟨e, ⟨-, he, -⟩, -⟩ | ⟨m₁, _, _, _, ⟨rfl, -, -⟩, hasks, rfl⟩ := h
  · cases he
  · exact rows_of_asks hasks

theorem answers_calling {r : Request} {m m' : Memory} {log : List Occurrence} {answers : List Value}
    (h : c.calling r m log (.ok answers) m') : log.flatMap Occurrence.answers = answers := by
  obtain ⟨m₁, _, _, _, ⟨rfl, -, -⟩, hasks, rfl⟩ := Course.of_bind_ok h
  exact (answers_of_asks hasks).symm

theorem found_congr {op : Operation} {answers answers' : List Value} {found : Found}
    (h : c.found op answers = .ok found) (hanswers : op ≠ .flush → answers' = answers) :
    c.found op answers' = .ok found := by
  by_cases hop : op = .flush
  · subst hop
    exact h
  · rw [hanswers hop, h]

/-- Every row that has been found and is not null is formatted once, in the order of the rows. -/
structure Formatted (c : Collection σ) (op : Operation) (log : List Occurrence)
    (result : Except Failure Value) (found : Found) : Prop where
  answered : c.found op (log.flatMap Occurrence.answers) = .ok found
  part : log.flatMap Occurrence.rows <+: c.toShow found
  whole : ∀ v, result = .ok v → log.flatMap Occurrence.rows = c.toShow found

theorem rows_performing {r : Request} {m m' : Memory} {log : List Occurrence}
    {result : Except Failure Value} (h : c.performing r m log result m') :
    (log.flatMap Occurrence.rows = [] ∧ ∃ e, result = .error e) ∨
      ∃ found, c.Formatted r.operation log result found := by
  have hpre {log : List Occurrence} {result : Except Failure Request} {m m' : Memory}
      (h : c.preparing r m log result m') :
      log.flatMap Occurrence.rows = [] ∧ log.flatMap Occurrence.answers = [] :=
    ⟨nothing_of_within (within_quiet (c.within_preparing fun _ _ _ => rfl)) h,
      nothing_of_within (within_quiet (c.within_preparing fun _ _ _ => rfl)) h⟩
  obtain ⟨e, hpreparing, rfl⟩ | ⟨r', m₁, pre, _, hpreparing, hcalling, rfl⟩ := h
  · exact .inl ⟨(hpre hpreparing).1, e, rfl⟩
  obtain ⟨hrows, hanswers⟩ := hpre hpreparing
  have hop := c.operation_of_preparing hpreparing
  obtain ⟨e, hcalls, rfl⟩ | ⟨answers, m₂, calls, _, hcalls, hfound, rfl⟩ := hcalling
  · exact .inl ⟨by rw [List.flatMap_append, hrows, rows_calling hcalls]; rfl, e, rfl⟩
  obtain ⟨e, ⟨rfl, -, -⟩, rfl⟩ | ⟨found, m₃, _, rest, ⟨rfl, hfound, -⟩, hfinishing, rfl⟩ := hfound
  · exact .inl ⟨by simp [hrows, rows_calling hcalls], e, rfl⟩
  obtain ⟨word, rfl, hpart, hwhole⟩ := rows_finishing r' found _ _ _ _ hfinishing
  refine .inr ⟨found, ?_, ?_, ?_⟩
  · refine found_congr (hop ▸ hfound.symm) fun hflush => ?_
    have hlater := nothing_of_within (answers_finishing (hop ▸ hflush) found) hfinishing
    simp [hanswers, hlater, answers_calling hcalls]
  · simpa [hrows, rows_calling hcalls] using hpart
  · intro v hv
    simpa [hrows, rows_calling hcalls] using hwhole v hv

theorem rows_pipeline {r : Request} (written : ∀ data, r.written? = some data → data.isNull = false)
    {m m' : Memory} {log : List Occurrence} {result : Except Failure Value}
    (h : c.pipeline r m log result m') :
    (log.flatMap Occurrence.rows = [] ∧ ∃ e, result = .error e) ∨
      ∃ found, c.Formatted r.operation log result found := by
  have hpayload {log : List Occurrence} {result : Except Failure Request} {m m' : Memory}
      (h : c.formattingPayload r m log result m') :
      log.flatMap Occurrence.rows = [] ∧ log.flatMap Occurrence.answers = [] :=
    ⟨nothing_of_within (within_quiet (c.within_formattingPayload written fun _ _ _ => rfl)) h,
      nothing_of_within (within_quiet (c.within_formattingPayload written fun _ _ _ => rfl)) h⟩
  obtain ⟨e, hformatting, rfl⟩ | ⟨r', m₁, first, _, hformatting, helapse, rfl⟩ := h
  · exact .inl ⟨(hpayload hformatting).1, e, rfl⟩
  obtain ⟨hrows, hanswers⟩ := hpayload hformatting
  rw [← c.operation_of_formattingPayload hformatting]
  obtain ⟨e, ⟨-, he⟩, -⟩ | ⟨_, m₂, _, rest, ⟨rfl, -⟩, hperforming, rfl⟩ := helapse
  · cases he
  obtain ⟨result, hperforming, rfl⟩ := hperforming
  obtain ⟨hnone, e, rfl⟩ | ⟨found, hfound⟩ := rows_performing hperforming
  · exact .inl ⟨by simp [hrows, hnone], e.awaited, rfl⟩
  · refine .inr ⟨found, ?_, ?_, fun v hv => ?_⟩
    · simpa [hanswers] using hfound.answered
    · simpa [hrows] using hfound.part
    · simpa [hrows] using hfound.whole v (Course.eq_ok_of_mapError hv)

end Rows

/-! ### The statements of a flush -/

section Flush

/-- The statements of a whole flush, which restarts the sequence of the table if the flag counts as given. -/
def flushTexts (table : String) (restart : Bool) : List String :=
  ("TRUNCATE " ++ table) :: if restart then ["ALTER SEQUENCE " ++ table ++ "_id_seq RESTART"] else []

/-- A flush has sent its statements, or the first of them if it has failed. What counts as given is
settled at its end. -/
structure Flushed (c : Collection σ) (flag : Value) (log : List Occurrence)
    (result : Except Failure Value) (m' : Memory) : Prop where
  part : log.flatMap Occurrence.statements <+: flushTexts c.table (m'.look flag).truthy
  whole : ∀ v, result = .ok v →
    log.flatMap Occurrence.statements = flushTexts c.table (m'.look flag).truthy

theorem statements_calling_flush (flag : Value) :
    Course.Within Occurrence.statements (c.calling (.flush flag)) {["TRUNCATE " ++ c.table]} := by
  refine .after (.of_silent fun _ _ _ _ h => h.1) (fun m => ?_) ⟨_, rfl⟩
  have hagenda : c.agenda m.read (.flush flag) [] =
      c.say (.ok ("TRUNCATE " ++ c.table)) := rfl
  unfold say at hagenda
  split at hagenda
  · rw [Course.asking_next hagenda]
    refine (Course.Within.asked _ fun _ => rfl).before fun v => ?_
    rw [Course.asking_finished rfl]
    exact .settle _
  · rw [Course.asking_refused hagenda]
    exact .refused _ _ rfl

/-- The sequence is restarted exactly if the flag counts as given, in the memory that the post-hook
leaves; nothing happens to the memory afterwards. -/
theorem statements_restarting {flag : Value} {m m' : Memory} {log : List Occurrence}
    {result : Except Failure Unit} (h : c.restarting (.flush flag) m log result m') :
    m' = m ∧ log.flatMap Occurrence.statements =
      if (m'.look flag).truthy then ["ALTER SEQUENCE " ++ c.table ++ "_id_seq RESTART"] else [] := by
  obtain ⟨e, ⟨-, he, -⟩, -⟩ | ⟨m₁, _, _, rest, ⟨rfl, hm, rfl⟩, hrest, rfl⟩ := h
  · cases he
  cases hm
  cases hflag : (m₁.look flag).truthy with
  | false =>
    rw [hflag] at hrest
    obtain ⟨rfl, -, rfl⟩ := hrest
    exact ⟨rfl, by rw [hflag]; rfl⟩
  | true =>
    rw [hflag] at hrest
    obtain ⟨e, ⟨rfl, rfl⟩, -⟩ | ⟨_, _, _, _, ⟨rfl, rfl⟩, ⟨rfl, -, rfl⟩, rfl⟩ := hrest
    · exact ⟨rfl, by rw [hflag]; rfl⟩
    · exact ⟨rfl, by rw [hflag]; rfl⟩

theorem statements_hooking (side : Side) (op : Operation) (handed : List Value) :
    Course.Within Occurrence.statements (c.hooking side op handed) 1 :=
  within_quiet (c.within_hooking side op fun _ _ => rfl)

theorem statements_finishing_flush {flag : Value} {m m' : Memory} {log : List Occurrence}
    {result : Except Failure Value} (h : c.finishing (.flush flag) .nothing m log result m') :
    log.flatMap Occurrence.statements <+: (flushTexts c.table (m'.look flag).truthy).tail ∧
      ∀ v, result = .ok v →
        log.flatMap Occurrence.statements = (flushTexts c.table (m'.look flag).truthy).tail := by
  rw [finishing_flush] at h
  obtain ⟨e, hhook, rfl⟩ | ⟨_, m₁, hook, _, hhook, hrest, rfl⟩ := h
  · rw [nothing_of_within (statements_hooking _ _ _) hhook]
    exact ⟨List.nil_prefix, nofun⟩
  rw [List.flatMap_append, nothing_of_within (statements_hooking _ _ _) hhook, List.nil_append]
  obtain ⟨e, hrestart, rfl⟩ | ⟨_, m₂, log, _, hrestart, ⟨rfl, -, rfl⟩, rfl⟩ := hrest
  · obtain ⟨-, htexts⟩ := statements_restarting hrestart
    exact ⟨htexts ▸ List.prefix_rfl, nofun⟩
  · obtain ⟨-, htexts⟩ := statements_restarting hrestart
    rw [List.append_nil]
    exact ⟨htexts ▸ List.prefix_rfl, fun _ _ => htexts⟩

theorem performing_flush (flag : Value) : c.performing (.flush flag) =
    (c.hooking .pre .flush [] >>= fun _ => c.calling (.flush flag) >>= fun _ =>
      c.finishing (.flush flag) .nothing) := by
  have hfound (answers : List Value) : c.found .flush answers = .ok .nothing := by
    cases answers <;> rfl
  simp [performing, preparing, Request.prepared, Request.payload?, Request.operation, hfound,
    Course.settle_ok_bind]

theorem statements_performing_flush {flag : Value} {m m' : Memory} {log : List Occurrence}
    {result : Except Failure Value} (h : c.performing (.flush flag) m log result m') :
    c.Flushed flag log result m' := by
  rw [performing_flush] at h
  obtain ⟨e, hhook, rfl⟩ | ⟨_, m₁, hook, _, hhook, hcalling, rfl⟩ := h
  · refine ⟨?_, nofun⟩
    rw [nothing_of_within (statements_hooking _ _ _) hhook]
    exact List.nil_prefix
  obtain ⟨e, hcalls, rfl⟩ | ⟨answers, m₂, calls, rest, hcalls, hfinishing, rfl⟩ := hcalling
  · obtain ⟨_, rfl, hpart, -⟩ := statements_calling_flush flag _ _ _ _ hcalls
    refine ⟨?_, nofun⟩
    rw [List.flatMap_append, nothing_of_within (statements_hooking _ _ _) hhook, List.nil_append]
    exact hpart.trans (List.prefix_append [_] _)
  · obtain ⟨_, rfl, -, hwhole⟩ := statements_calling_flush flag _ _ _ _ hcalls
    obtain ⟨hpart, hlater⟩ := statements_finishing_flush hfinishing
    have hlog : (hook ++ (calls ++ rest)).flatMap Occurrence.statements =
        ("TRUNCATE " ++ c.table) :: rest.flatMap Occurrence.statements := by
      rw [List.flatMap_append, List.flatMap_append, hwhole answers rfl,
        nothing_of_within (statements_hooking _ _ _) hhook]
      rfl
    refine ⟨?_, fun v hv => ?_⟩
    · rw [hlog]
      exact (List.prefix_cons_inj _).mpr hpart
    · rw [hlog, hlater v hv]
      rfl

/-- A flush empties its table and restarts the sequence, unless it fails before. -/
theorem statements_pipeline_flush {flag : Value} {m m' : Memory} {log : List Occurrence}
    {result : Except Failure Value} (h : c.pipeline (.flush flag) m log result m') :
    c.Flushed flag log result m' := by
  obtain ⟨e, ⟨-, he, -⟩, -⟩ | ⟨r', m₁, _, _, ⟨rfl, hr', rfl⟩, helapse, rfl⟩ := h
  · cases he
  cases hr'
  obtain ⟨e, ⟨-, he⟩, -⟩ | ⟨_, m₂, _, _, ⟨rfl, -⟩, ⟨result, hperforming, rfl⟩, rfl⟩ := helapse
  · cases he
  have hflushed := statements_performing_flush hperforming
  exact ⟨hflushed.part, fun v hv => hflushed.whole v (Course.eq_ok_of_mapError hv)⟩

end Flush

section Operations

theorem isNull_of_requirePayload {m : Memory} {v : Value}
    (h : Request.requirePayload (m.look v) = .ok ()) : v.isNull = false := by
  cases v with
  | null => cases h
  | _ => rfl

/-- What is written has been checked to be a mapping. -/
theorem written_of_checked {m : Memory} {r r' : Request} (h : r.checked m.look = .ok r') :
    ∀ data, r'.written? = some data → data.isNull = false := by
  rintro data hdata
  cases r with
  | insert v =>
    obtain ⟨_, hv, hr⟩ := ok_of_bind h
    cases hr
    cases hdata
    exact isNull_of_requirePayload hv
  | update id v =>
    obtain ⟨_, -, h⟩ := ok_of_bind h
    obtain ⟨_, hv, hr⟩ := ok_of_bind h
    cases hr
    cases hdata
    exact isNull_of_requirePayload hv
  | updateAll conditions v =>
    obtain ⟨_, -, h⟩ := ok_of_bind h
    obtain ⟨_, hv, hr⟩ := ok_of_bind h
    cases hr
    cases hdata
    exact isNull_of_requirePayload hv
  | get | count | remove =>
    obtain ⟨_, -, hr⟩ := ok_of_bind h
    cases hr
    cases hdata
  | removeAll =>
    obtain ⟨_, -, h⟩ := ok_of_bind h
    obtain ⟨_, -, hr⟩ := ok_of_bind h
    cases hr
    cases hdata
  | flush | find =>
    cases h
    cases hdata

/-- An operation has taken the course of its stages, from one memory to another. -/
structure Pipelined (c : Collection σ) (r : Request) (m : Memory) (log : List Occurrence)
    (result : Except Failure Value) (m' : Memory) : Prop where
  course : c.pipeline r m log result m'
  /-- What is seen is the beginning of a whole sequence, and all of it if nothing fails. -/
  ordered : ∃ word ∈ c.sequences r.operation, log.flatMap Occurrence.kinds <+: word ∧
    ∀ v, result = .ok v → log.flatMap Occurrence.kinds = word
  /-- Rows are formatted once the calls have been answered, each of them once and in their order. -/
  rows : (log.flatMap Occurrence.rows = [] ∧ ∃ e, result = .error e) ∨
    ∃ found, c.Formatted r.operation log result found
  /-- The first deed that fails is the last one, and the caller is told of its failure. -/
  prompt : EndsTold log result
  /-- The caller gets what the post-hook was handed, or an empty list as it was. -/
  handed : ∀ v, result = .ok v → r.operation ≠ .flush → (c.post r.operation).isSome = true →
    ∃ before o shown, log = before ++ [o] ∧ o.deed = .hook .post r.operation shown ∧
      (o.handed = [v] ∨ shown = [.list []] ∧ m'.look v = .list [])
  flushed : ∀ v, result = .ok v → r.operation = .flush → v = .null
  /-- A flush sends the statements of a flush, the second one exactly if it is asked to. -/
  restarted : ∀ flag, r = .flush flag → c.Flushed flag log result m'

/-- An operation that passes its checks goes through its stages in their order, whatever callbacks and
database are and whatever else happens before it is waited for: it ends with the last of them or with the
first that fails. -/
theorem operation_pipelined {c : Collection σ} {s : Stage σ} {r r' : Request}
    (checked : r.checked s.memory.look = .ok r') (connected : c.requireConnection = .ok ())
    (answers : c.WellAnswered) (meanwhile : Stage σ → Stage σ) :
    ∃ log result t, c.operate r meanwhile s = (result, t) ∧
      c.logged.operate r (Stage.beside meanwhile) s.begun = (result, ⟨t.memory, ⟨t.outside, log⟩⟩) ∧
      c.Pipelined r' s.memory log result t.memory := by
  obtain ⟨log, result, t, hlogged, hplain, hlog, course⟩ :=
    obeys_operate (s := s.begun) checked connected answers meanwhile
  refine ⟨log, result, t.bare, hplain, ?_, course,
    c.kinds_pipeline (written_of_checked checked) _ _ _ _ course,
    rows_pipeline (written_of_checked checked) course, told_of_pipeline course,
    fun v hv hop post => ?_, fun v hv hop => ?_, fun flag hr => ?_⟩
  · rw [hlogged, ← show t.outside.log = log from hlog]
    rfl
  · subst hv
    obtain ⟨r'', answers, found, m, before, rest, hr, hfound, hfinishing, rfl⟩ :=
      finishing_of_pipeline course
    rw [← hr] at hop post ⊢
    have hnothing : found ≠ .nothing := by
      rintro rfl
      exact found_ne_nothing hop answers hfound
    obtain ⟨mid, o, shown, rfl, ho⟩ := handed_of_finishing hop hnothing post hfinishing
    exact ⟨before ++ mid, o, shown, (List.append_assoc _ _ _).symm, ho⟩
  · subst hv
    obtain ⟨r'', answers, found, m, before, rest, hr, hfound, hfinishing, rfl⟩ :=
      finishing_of_pipeline course
    cases r'' with
    | flush flag =>
      cases hfound
      exact null_of_finishing hfinishing
    | _ => cases hr.trans hop
  · subst hr
    exact statements_pipeline_flush course

/-- A table of two rows with a formatter for rows and post-hooks. -/
def watchedPeople : Collection Unit :=
  { answered "users" people with
    toJs? := some fun row => pure row
    post := fun _ => some fun _ => pure (.now .null) }

theorem wellAnswered_watchedPeople : watchedPeople.WellAnswered where
  statements := by
    rintro k ⟨⟩ q o v o' ⟨⟩
    exact ⟨rfl, _, rfl⟩
  find := by
    rintro t ⟨⟩ conditions options o v o' ⟨⟩
    exact ⟨rfl, _, rfl⟩
  findOne := by
    rintro t ⟨⟩ id o v o' ⟨⟩
    rfl
  insert := by
    rintro t ⟨⟩ data o v o' ⟨⟩
    rfl
  updateById := by
    rintro t ⟨⟩ id data o v o' ⟨⟩
    rfl
  destroyById := by
    rintro t ⟨⟩ id o v o' ⟨⟩
    rfl

/-- Two rows are updated and read again, and a flush restarts the sequence behind its post-hook. -/
theorem operation_pipelined_people :
    let users := watchedPeople
    let stage : Stage Unit := ⟨.empty, ()⟩
    let r : Request := .updateAll (.map [("active", .bool false)]) (.map [("name", .text "Ann")])
    let flush : Request := .flush (.bool true)
    let run (r : Request) := users.logged.operate r (Stage.beside id) stage.begun
    r.checked stage.memory.look = .ok r ∧ flush.checked stage.memory.look = .ok flush ∧
      users.requireConnection = .ok () ∧ users.WellAnswered ∧
      (∃ log result t, users.operate r id stage = (result, t) ∧
        run r = (result, ⟨t.memory, ⟨t.outside, log⟩⟩) ∧
        users.Pipelined r stage.memory log result t.memory) ∧
      (run r).2.outside.log.flatMap Occurrence.kinds =
        [.statement, .statement, .statement, .toJs, .toJs, .hook .post .updateAll] ∧
      (∃ log result t, users.operate flush id stage = (result, t) ∧
        run flush = (result, ⟨t.memory, ⟨t.outside, log⟩⟩) ∧
        users.Pipelined flush stage.memory log result t.memory) ∧
      (run flush).2.outside.log.flatMap Occurrence.kinds =
        [.statement, .hook .post .flush, .statement] ∧
      (run flush).2.outside.log.flatMap Occurrence.statements =
        ["TRUNCATE users", "ALTER SEQUENCE users_id_seq RESTART"] := by
  intro users stage r flush run
  have answers : users.WellAnswered := wellAnswered_watchedPeople
  exact ⟨rfl, rfl, rfl, answers, operation_pipelined rfl rfl answers id, by decide +kernel,
    operation_pipelined rfl rfl answers id, by decide +kernel, by decide +kernel⟩

/-- A table without rows, and a hook in front of every operation that comes to the end of an iterator. -/
def stoppingHook : Collection Unit :=
  { answered "users" (.list []) with
    pre := fun _ => some fun _ => throw (.outside .stop "done")
    post := fun _ => some fun _ => pure (.now .null) }

/-- The end of an iterator in a hook arrives as another failure than it is. Nothing fails where no row is
selected, and yet an update of many rows ends its calls with the first of three. -/
theorem stop_arrives_otherwise :
    let stage : Stage Unit := ⟨.empty, ()⟩
    let run (c : Collection Unit) (r : Request) := c.logged.operate r (Stage.beside id) stage.begun
    let update : Request := .updateAll (.map [("active", .bool false)]) (.map [("name", .text "Ann")])
    let unhindered : Collection Unit := { stoppingHook with pre := fun _ => none }
    ((run stoppingHook (.get (.int 1))).2.outside.log.map fun o => (o.deed.kind, o.outcome)) =
        [(.hook .pre .get, .error (.outside .stop "done"))] ∧
      (run stoppingHook (.get (.int 1))).1 =
        .error (.outside .runtime "coroutine raised StopIteration") ∧
      (∃ v, (run unhindered update).1 = .ok v) ∧
      (run unhindered update).2.outside.log.flatMap Occurrence.kinds =
        [.statement, .hook .post .updateAll] :=
  ⟨rfl, rfl, ⟨_, rfl⟩, by decide +kernel⟩

end Operations

end Collection

end TableAccess
