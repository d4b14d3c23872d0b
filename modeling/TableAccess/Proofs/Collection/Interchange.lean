import TableAccess.Proofs.Collection.Contents
import TableAccess.Proofs.Collection.Result
import TableAccess.Proofs.Collection.Slots

/-! Operations of two collections that differ only in callbacks that work alike. Called with the same
arguments on the same stage, they end alike (`agrees_accept`, `agrees_perform`): in the same phase, with the
same failure or with results that read the same, and with the same left outside. The one argument that lives
on beside the payload, while callbacks work on that, are the conditions of an update of many rows; so these
have to be apart from the payload. -/

namespace TableAccess

variable {σ : Type}

/-- A value that reads the same in both memories. -/
structure Shared (m m' : Memory) (v : Value) : Prop where
  readable : m.Readable v
  readable' : m'.Readable v
  read : m.read v = m'.read v

namespace Shared

variable {m m' m₁ m₁' : Memory} {v : Value}

theorem refl (h : m.Readable v) : Shared m m v := ⟨h, h, rfl⟩

theorem later (h : Shared m m' v) (hm : m.Extends m₁) (hm' : m'.Extends m₁') : Shared m₁ m₁' v where
  readable := (hm.read h.readable).2
  readable' := (hm'.read h.readable').2
  read := by rw [(hm.read h.readable).1, (hm'.read h.readable').1, h.read]

end Shared

namespace Request

/-- Arguments that callbacks can work on: they are readable, a payload is held under a number, and the
conditions of an update are apart from its payload. -/
def Ready (m : Memory) : Request → Prop
  | .get _ | .remove _ => True
  | .count conditions => m.Readable conditions
  | .flush flag => m.Readable flag
  | .insert data | .update _ data | .removeAll data => m.Readable data ∧ m.Holds data
  | .updateAll conditions data =>
    (m.Readable data ∧ m.Holds data) ∧ m.Readable conditions ∧ m.Apart data conditions
  | .find conditions options => m.Readable conditions ∧ m.Readable options

/-- Accepted requests with payloads that read the same. -/
inductive Alike (m m' : Memory) : Request → Request → Prop
  | get (id : Value) : Alike m m' (.get id) (.get id)
  | count {conditions : Value} (h : Shared m m' conditions) :
      Alike m m' (.count conditions) (.count conditions)
  | flush {flag : Value} (h : Shared m m' flag) (look : m.look flag = m'.look flag) :
      Alike m m' (.flush flag) (.flush flag)
  | insert {data data' : Value} (h : Same m data m' data') : Alike m m' (.insert data) (.insert data')
  | update (id : Value) {data data' : Value} (h : Same m data m' data') :
      Alike m m' (.update id data) (.update id data')
  | updateAll {conditions data data' : Value} (h : Same m data m' data')
      (shared : Shared m m' conditions) (apart : m.Apart data conditions)
      (apart' : m'.Apart data' conditions) :
      Alike m m' (.updateAll conditions data) (.updateAll conditions data')
  | remove (id : Value) : Alike m m' (.remove id) (.remove id)
  | removeAll {conditions conditions' : Value} (h : Same m conditions m' conditions') :
      Alike m m' (.removeAll conditions) (.removeAll conditions')
  | find {conditions options : Value} (h : Shared m m' conditions) (h' : Shared m m' options) :
      Alike m m' (.find conditions options) (.find conditions options)

/-- Arguments that are new in the memory, one after the other, are of this kind. -/
theorem ready_placed (m : Memory) {conditions data : Value} (hc : conditions.isComplete = true)
    (hd : data.isComplete = true) :
    (updateAll (m.place conditions).1 ((m.place conditions).2.place data).1).Ready
      ((m.place conditions).2.place data).2 := by
  have hconditions : (m.place conditions).2.Readable (m.place conditions).1 := Memory.readable_place hc
  have hbare : (m.place conditions).2.Apart .null (m.place conditions).1 := fun n hn => by
    cases hn with
    | here h | there h => contradiction
  obtain ⟨-, hkept, hapart⟩ := (Memory.hands_place _ hd).apart hconditions hbare
  exact ⟨⟨Memory.readable_place hd, Same.holds_place _ hd⟩, hkept, hapart⟩

theorem ready_of_checked {m : Memory} {r r' : Request} (ready : r.Ready m)
    (h : r.checked m.look = .ok r') : r'.Ready m := by
  cases r with
  | get | insert | remove =>
    obtain ⟨_, -, hr⟩ := ok_of_bind h
    cases hr
    exact ready
  | update | updateAll | removeAll =>
    obtain ⟨_, -, h⟩ := ok_of_bind h
    obtain ⟨_, -, hr⟩ := ok_of_bind h
    cases hr
    exact ready
  | flush =>
    cases h
    exact ready
  | count conditions =>
    obtain ⟨_, -, hr⟩ := ok_of_bind h
    cases hr
    show m.Readable (if conditions.isNull then .map [] else conditions)
    split
    · exact .of_references rfl
    · exact ready
  | find conditions options =>
    have hdefault {v : Value} (hv : m.Readable v) :
        m.Readable (if (m.look v).isMap then v else .map []) := by
      split
      · exact hv
      · exact .of_references rfl
    cases h
    exact ⟨hdefault ready.1, hdefault ready.2⟩

end Request

theorem Same.refl {m : Memory} {v : Value} (h : m.Readable v ∧ m.Holds v) : Same m v m v :=
  ⟨h.1, h.1, rfl, rfl, h.2, h.2⟩

namespace Collection

open Statement

/-- A database whose answers are complete in themselves. -/
structure CompletelyAnswered (c : Collection σ) : Prop where
  statements : ∀ k, c.attachment = .connection k → ∀ q o v o', k.execute q o = (.ok v, o') →
    v.isComplete = true
  find : ∀ t, c.accessor? = some t → ∀ conditions options o v o',
    t.find conditions options o = (.ok v, o') → v.isComplete = true
  findOne : ∀ t, c.accessor? = some t → ∀ id o v o', t.findOne id o = (.ok v, o') →
    v.isComplete = true
  insert : ∀ t, c.accessor? = some t → ∀ data o v o', t.insert data o = (.ok v, o') →
    v.isComplete = true
  updateById : ∀ t, c.accessor? = some t → ∀ id data o v o', t.updateById id data o = (.ok v, o') →
    v.isComplete = true
  destroyById : ∀ t, c.accessor? = some t → ∀ id o v o', t.destroyById id o = (.ok v, o') →
    v.isComplete = true

variable {c c' : Collection σ} {s s' : Stage σ} {r r' : Request}

theorem agrees_formatted (h : c.Matches c') (ready : r.Ready s.memory) :
    Agrees s s (r.formatted c.toDb?) (r.formatted c'.toDb?) fun m r m' r' => Request.Alike m m' r r' := by
  have hdata {data : Value} (hd : s.memory.Readable data ∧ s.memory.Holds data) :
      Agrees s s (Formatter.apply c.toDb? data) (Formatter.apply c'.toDb? data)
        (Handed s.memory data s.memory data) := agrees_apply h.toDb rfl (.refl hd)
  cases r with
  | get id => exact .pure rfl (.get id)
  | remove id => exact .pure rfl (.remove id)
  | count conditions => exact .pure rfl (.count (.refl ready))
  | flush flag => exact .pure rfl (.flush (.refl ready) rfl)
  | removeAll conditions => exact .pure rfl (.removeAll (.refl ready))
  | find conditions options => exact .pure rfl (.find (.refl ready.1) (.refl ready.2))
  | insert data => exact (hdata ready).bind fun v t v' t' ho hv => .pure ho (.insert hv.same)
  | update id data => exact (hdata ready).bind fun v t v' t' ho hv => .pure ho (.update id hv.same)
  | updateAll conditions data =>
    obtain ⟨hd, hreadable, hapart⟩ := ready
    refine (hdata hd).bind fun v t v' t' ho hv => .pure ho ?_
    -- The conditions are apart from the payload, so its formatter has left them alone.
    obtain ⟨hread, hr, ha⟩ := hv.hands.apart hreadable hapart
    obtain ⟨hread', hr', ha'⟩ := hv.hands'.apart hreadable hapart
    exact .updateAll hv.same ⟨hr, hr', hread.trans hread'.symm⟩ ha ha'

theorem agrees_accept (h : c.Matches c') (ready : r.Ready s.memory) :
    Agrees s s (c.accept r) (c'.accept r) fun m p m' p' =>
      Request.Alike m m' p.request p'.request := by
  have hconnection : c'.requireConnection = c.requireConnection := by
    unfold requireConnection isConnected
    rw [h.attachment, h.accessor, h.table]
  refine .getting (.settled rfl fun r' hr => ?_)
  rw [hconnection]
  refine .settled rfl fun _ _ => ?_
  exact (agrees_formatted h (Request.ready_of_checked ready hr)).bind fun _ _ _ _ ho hr => .pure ho hr

section Answers

variable (h : c.Matches c') (answers : c.CompletelyAnswered)
include h answers

/-- What a database has answered: the same to both, in memories that are as they were. -/
def Answered (s s' : Stage σ) (m : Memory) (v : Value) (m' : Memory) (v' : Value) : Prop :=
  v = v' ∧ v.isComplete = true ∧ m = s.memory ∧ m' = s'.memory

theorem agrees_execute (statement : Except Failure String) (ho : s.outside = s'.outside) :
    Agrees s s' (c.execute statement) (c'.execute statement) (Answered s s') := by
  have hstatements := answers.statements
  unfold execute
  rw [← h.attachment]
  cases hc : c.attachment with
  | nothing | stranger => exact .throw _ ho
  | connection k => exact .settled ho fun q _ => .asked (hstatements k hc q) ho

omit answers in
theorem agrees_accessor {post : Memory → Value → Memory → Value → Prop}
    {f f' : Table σ → Act (Stage σ) Value} (ho : s.outside = s'.outside)
    (hf : ∀ t, c.accessor? = some t → Agrees s s' (f t) (f' t) post) :
    Agrees s s' (c.accessor >>= f) (c'.accessor >>= f') post := by
  unfold accessor
  rw [← h.accessor]
  cases hc : c.accessor? with
  | none => exact .throw _ ho
  | some t => exact hf t hc

theorem agrees_get (id : Value) (ho : s.outside = s'.outside) :
    Agrees s s' (c.performGet id) (c'.performGet id) Same := by
  refine (agrees_announce h .get rfl ho).bind fun _ t _ t' ho _ => ?_
  refine agrees_accessor h ho fun k hk => (Agrees.asked (answers.findOne k hk id) ho).bind
    fun row u row' u' ho hrow => ?_
  obtain ⟨rfl, complete, -, -⟩ := hrow
  exact agrees_finishRow h (by decide) complete ho

theorem agrees_insert {data data' : Value} (hd : Same s.memory data s'.memory data')
    (ho : s.outside = s'.outside) :
    Agrees s s' (c.performInsert data) (c'.performInsert data') Same := by
  refine (agrees_prepare h rfl ho hd).bind fun v t v' t' ho hv => ?_
  refine agrees_accessor h ho fun k hk => .reading ?_
  rw [← hv.same.read]
  refine (Agrees.asked (answers.insert k hk _) ho).bind fun row u row' u' ho hrow => ?_
  obtain ⟨rfl, complete, -, -⟩ := hrow
  exact agrees_finishRow h (by decide) complete ho

theorem agrees_update (id : Value) {data data' : Value} (hd : Same s.memory data s'.memory data')
    (ho : s.outside = s'.outside) :
    Agrees s s' (c.performUpdate id data) (c'.performUpdate id data') Same := by
  refine (agrees_prepare h rfl ho hd).bind fun v t v' t' ho hv => ?_
  refine agrees_accessor h ho fun k hk => .reading ?_
  rw [← hv.same.read]
  refine (Agrees.asked (answers.updateById k hk id _) ho).bind fun row u row' u' ho hrow => ?_
  obtain ⟨rfl, complete, -, -⟩ := hrow
  exact agrees_finishRow h (by decide) (complete_firstRow complete) ho

theorem agrees_remove (id : Value) (ho : s.outside = s'.outside) :
    Agrees s s' (c.performRemove id) (c'.performRemove id) Same := by
  refine (agrees_announce h .remove rfl ho).bind fun _ t _ t' ho _ => ?_
  refine agrees_accessor h ho fun k hk => (Agrees.asked (answers.destroyById k hk id) ho).bind
    fun row u row' u' ho hrow => ?_
  obtain ⟨rfl, complete, -, -⟩ := hrow
  exact agrees_finishRow h (by decide) (complete_firstRow complete) ho

theorem agrees_updateSelected {conditions data data' candidates : Value}
    (hd : Same s.memory data s'.memory data') (hc : Shared s.memory s'.memory conditions)
    (ho : s.outside = s'.outside) :
    Agrees s s' (c.updateSelected conditions data candidates)
      (c'.updateSelected conditions data' candidates) Same := by
  refine .settled ho fun ids _ => ?_
  split
  · exact agrees_concludeEmpty h (by decide) ho
  · refine .reading (.reading ?_)
    rw [← hd.read, ← hc.read, ← h.table]
    refine .settled ho fun q _ => ?_
    refine (agrees_execute h answers _ ho).bind fun _ t _ t' ho _ => ?_
    refine (agrees_execute h answers _ ho).bind fun rows u rows' u' ho hrows => ?_
    obtain ⟨rfl, complete, -, -⟩ := hrows
    exact agrees_finishRows h (by decide) complete ho

theorem agrees_updateAll {conditions data data' : Value} (hd : Same s.memory data s'.memory data')
    (hc : Shared s.memory s'.memory conditions) (apart : s.memory.Apart data conditions)
    (apart' : s'.memory.Apart data' conditions) (ho : s.outside = s'.outside) :
    Agrees s s' (c.performUpdateAll conditions data) (c'.performUpdateAll conditions data') Same := by
  refine (agrees_prepare h rfl ho hd).bind fun v t v' t' ho hv => ?_
  obtain ⟨hread, hr, -⟩ := hv.hands.apart hc.readable apart
  obtain ⟨hread', hr', -⟩ := hv.hands'.apart hc.readable' apart'
  have hconditions : Shared t.memory t'.memory conditions :=
    ⟨hr, hr', by rw [hread, hread', hc.read]⟩
  refine .reading ?_
  rw [← hconditions.read, ← h.table]
  refine (agrees_execute h answers _ ho).bind fun candidates u candidates' u' ho hanswer => ?_
  obtain ⟨rfl, -, hm, hm'⟩ := hanswer
  refine agrees_updateSelected h answers ?_ ?_ ho
  · rw [hm, hm']
    exact hv.same
  · rw [hm, hm']
    exact hconditions

theorem agrees_removeSelected {snapshot : Value} (complete : snapshot.isComplete = true)
    (ho : s.outside = s'.outside) :
    Agrees s s' (c.removeSelected snapshot) (c'.removeSelected snapshot) Same := by
  unfold removeSelected
  split
  · exact agrees_concludeEmpty h (by decide) ho
  · refine .settled ho fun ids _ => ?_
    rw [← h.table]
    refine (agrees_execute h answers _ ho).bind fun _ t _ t' ho _ => ?_
    refine .settled ho fun rows hrows => agrees_finishRows h (by decide) ?_ ho
    unfold elements at hrows
    split at hrows
    next hx =>
      obtain rfl := Except.ok.inj hrows
      exact complete_list (complete_of_elements complete hx)
    next => cases hrows

theorem agrees_removeAll {conditions conditions' : Value}
    (hc : Same s.memory conditions s'.memory conditions') (ho : s.outside = s'.outside) :
    Agrees s s' (c.performRemoveAll conditions) (c'.performRemoveAll conditions') Same := by
  refine (agrees_prepare h rfl ho hc).bind fun v t v' t' ho hv => .reading ?_
  rw [← hv.same.read, ← h.table]
  refine (agrees_execute h answers _ ho).bind fun snapshot u snapshot' u' ho hanswer => ?_
  obtain ⟨rfl, complete, -, -⟩ := hanswer
  exact agrees_removeSelected h answers complete ho

theorem agrees_flush {flag : Value} (hf : Shared s.memory s'.memory flag)
    (look : s.memory.look flag = s'.memory.look flag) (ho : s.outside = s'.outside) :
    Agrees s s' (c.performFlush flag) (c'.performFlush flag) Same := by
  have hnull {t t' : Stage σ} (ho : t.outside = t'.outside) :
      Agrees t t' (pure .null) (pure .null) Same := .pure ho (.of_references rfl rfl)
  refine (agrees_announce h .flush rfl ho).bind fun _ t _ t' ho ht => ?_
  rw [← h.table]
  refine (agrees_execute h answers _ ho).bind fun _ u _ u' ho hu => ?_
  obtain ⟨-, -, hm, hm'⟩ := hu
  refine (agrees_call h.flushed ho).bind fun _ w _ w' ho hw => ?_
  rw [hm, hm'] at hw
  have hlook : w.memory.look flag = w'.memory.look flag := by
    rw [(ht.1.trans hw.1).look hf.readable, (ht.2.trans hw.2).look hf.readable', look]
  refine .looking ?_
  rw [← hlook]
  split
  · exact (agrees_execute h answers _ ho).bind fun _ _ _ _ ho _ => hnull ho
  · exact hnull ho

theorem agrees_count {conditions : Value} (hc : Shared s.memory s'.memory conditions)
    (ho : s.outside = s'.outside) :
    Agrees s s' (c.performCount conditions) (c'.performCount conditions) Same := by
  refine (agrees_announce h .count rfl ho).bind fun _ t _ t' ho ht => .reading ?_
  rw [← (hc.later ht.1 ht.2).read, ← h.table]
  refine (agrees_execute h answers _ ho).bind fun result u result' u' ho hresult => ?_
  obtain ⟨rfl, -, -, -⟩ := hresult
  exact .settled ho fun n _ => agrees_conclude h (by decide) ho (.of_references rfl rfl)

theorem agrees_find {conditions options : Value} (hc : Shared s.memory s'.memory conditions)
    (hp : Shared s.memory s'.memory options) (ho : s.outside = s'.outside) :
    Agrees s s' (c.performFind conditions options) (c'.performFind conditions options) Same := by
  refine (agrees_announce h .find rfl ho).bind fun _ t _ t' ho ht => .reading (.reading ?_)
  rw [← (hc.later ht.1 ht.2).read, ← (hp.later ht.1 ht.2).read, ← h.table]
  have hrows : Agrees t t'
      (search c.table (fun q => c.execute (.ok q)) (fun v w => do ask ((← c.accessor).find v w))
        (t.memory.read conditions) (t.memory.read options))
      (search c.table (fun q => c'.execute (.ok q)) (fun v w => do ask ((← c'.accessor).find v w))
        (t.memory.read conditions) (t.memory.read options)) (Answered t t') := by
    refine .settled ho fun raw _ => ?_
    split
    · exact .settled ho fun q _ => agrees_execute h answers _ ho
    · exact agrees_accessor h ho fun k hk => .asked (answers.find k hk _ _) ho
  refine hrows.bind fun rows u rows' u' ho hanswer => ?_
  obtain ⟨rfl, complete, -, -⟩ := hanswer
  exact agrees_finishRows h (by decide) complete ho

theorem agrees_perform (alike : Request.Alike s.memory s'.memory r r')
    (ho : s.outside = s'.outside) : Agrees s s' (c.perform ⟨r⟩) (c'.perform ⟨r'⟩) Same := by
  cases alike with
  | get id => exact agrees_get h answers id ho
  | count hc => exact agrees_count h answers hc ho
  | flush hf look => exact agrees_flush h answers hf look ho
  | insert hd => exact agrees_insert h answers hd ho
  | update id hd => exact agrees_update h answers id hd ho
  | updateAll hd hc apart apart' => exact agrees_updateAll h answers hd hc apart apart' ho
  | remove id => exact agrees_remove h answers id ho
  | removeAll hc => exact agrees_removeAll h answers hc ho
  | find hc hp => exact agrees_find h answers hc hp ho

end Answers

end Collection

/-- Two operations end alike: in the same phase, with the same failure or with results that read the
same. -/
inductive Ending.Alike (m m' : Memory) : Ending → Ending → Prop
  | refused (e : Failure) : Alike m m' (.refused e) (.refused e)
  | failed (e : Failure) : Alike m m' (.failed e) (.failed e)
  | done {v v' : Value} (h : m.read v = m'.read v') : Alike m m' (.done v) (.done v')

namespace Collection

variable {c c' : Collection σ} {r : Request} {s : Stage σ}

theorem completed_of_refused {s t : Stage σ} {e : Failure} (h : c.accept r s = (.error e, t)) :
    c.completed r s = (.refused e, t) := by
  unfold completed
  rw [h]

theorem completed_of_failed {s t u : Stage σ} {p : Pending} {e : Failure}
    (h : c.accept r s = (.ok p, t)) (hp : c.perform p t = (.error e, u)) :
    c.completed r s = (.failed e, u) := by
  unfold completed
  simp only [h, hp]

theorem completed_of_done {s t u : Stage σ} {p : Pending} {v : Value}
    (h : c.accept r s = (.ok p, t)) (hp : c.perform p t = (.ok v, u)) :
    c.completed r s = (.done v, u) := by
  unfold completed
  simp only [h, hp]

theorem agrees_completed (h : c.Matches c') (answers : c.CompletelyAnswered)
    (ready : r.Ready s.memory) : ∃ ending t ending' t', c.completed r s = (ending, t) ∧
      c'.completed r s = (ending', t') ∧ t.outside = t'.outside ∧
      Ending.Alike t.memory t'.memory ending ending' := by
  obtain ⟨e, t, t', hr, hr', ho⟩ | ⟨p, t, p', t', hr, hr', ho, alike⟩ := agrees_accept h ready
  · exact ⟨_, t, _, t', completed_of_refused hr, completed_of_refused hr', ho, .refused e⟩
  · obtain ⟨e, u, u', hu, hu', ho⟩ | ⟨v, u, v', u', hu, hu', ho, same⟩ :=
      agrees_perform h answers alike ho
    · exact ⟨_, u, _, u', completed_of_failed hr hu, completed_of_failed hr' hu', ho, .failed e⟩
    · exact ⟨_, u, _, u', completed_of_done hr hu, completed_of_done hr' hu', ho, .done same.read⟩

end Collection

/-! ### Watched collections -/

namespace Agrees

variable {α : Type} {s s' : Stage (Watched σ)} {post : Memory → α → Memory → α → Prop}

/-- Steps of which nothing is seen agree as the steps do. -/
theorem unseen {x x' : Act (Stage σ) α} (ho : s.outside = s'.outside)
    (h : Agrees s.plain s'.plain x x' post) :
    Agrees s s' (Stage.unseen x) (Stage.unseen x') post := by
  obtain ⟨e, t, t', hr, hr', hplain⟩ | ⟨a, t, a', t', hr, hr', hplain, hpost⟩ := h
  · refine .inl ⟨e, ⟨t.memory, ⟨t.outside, s.outside.deeds⟩⟩,
      ⟨t'.memory, ⟨t'.outside, s'.outside.deeds⟩⟩, ?_, ?_, ?_⟩
    · simp only [Stage.unseen, Act.within, hr]
    · simp only [Stage.unseen, Act.within, hr']
    · rw [hplain, ho]
  · refine .inr ⟨a, ⟨t.memory, ⟨t.outside, s.outside.deeds⟩⟩, a',
      ⟨t'.memory, ⟨t'.outside, s'.outside.deeds⟩⟩, ?_, ?_, ?_, hpost⟩
    · simp only [Stage.unseen, Act.within, hr]
    · simp only [Stage.unseen, Act.within, hr']
    · rw [hplain, ho]

/-- So do steps before which the same deed is seen. -/
theorem noted {deed deed' : (Value → Value) → Deed} {x x' : Act (Stage (Watched σ)) α}
    (hd : deed s.memory.read = deed' s'.memory.read) (ho : s.outside = s'.outside)
    (h : ∀ t t' : Stage (Watched σ), t.memory = s.memory → t'.memory = s'.memory →
      t.outside = t'.outside → Agrees t t' x x' post) :
    Agrees s s' (do Stage.note deed; x) (do Stage.note deed'; x') post := by
  have hrun (s : Stage (Watched σ)) (deed : (Value → Value) → Deed) : Stage.note deed s =
    (.ok (), { s with outside.deeds := s.outside.deeds ++ [deed s.memory.read] }) := rfl
  have hagrees := h { s with outside.deeds := s.outside.deeds ++ [deed s.memory.read] }
    { s' with outside.deeds := s'.outside.deeds ++ [deed' s'.memory.read] } rfl rfl (by rw [ho, hd])
  unfold Agrees at *
  rwa [Act.bind_ok (hrun s deed), Act.bind_ok (hrun s' deed')]

end Agrees

section Watched

theorem SameWork.noted {next : Value → Value → Value} {x x' : Value → Act (Stage σ) Value}
    (h : SameWork next x x') {deed : (Value → Value) → Value → Deed}
    (hd : ∀ read read' v v', read v = read' v' → deed read v = deed read' v') :
    SameWork next (fun v => (do Stage.note fun read => deed read v; Stage.unseen (x v)))
      (fun v => (do Stage.note fun read => deed read v; Stage.unseen (x' v))) := by
  intro s s' v v' ho hv
  refine .noted (hd _ _ _ _ hv.read) ho fun t t' ht ht' ho => ?_
  rw [← ht, ← ht'] at hv ⊢
  exact .unseen ho (h t.plain t'.plain v v' (congrArg Watched.outside ho) hv)

theorem SameCall.noted {x x' : Act (Stage σ) Value} (h : SameCall x x') (deed : Deed) :
    SameCall (do Stage.note fun _ => deed; Stage.unseen x)
      (do Stage.note fun _ => deed; Stage.unseen x') := by
  intro s s' ho
  refine .noted rfl ho fun t t' ht ht' ho => ?_
  rw [← ht, ← ht']
  exact .unseen ho (h t.plain t'.plain (congrArg Watched.outside ho))

theorem rel_map {α β : Type} {R : α → α → Prop} {S : β → β → Prop} {f : α → β} {x y : Option α}
    (h : Option.Rel R x y) (hf : ∀ a b, R a b → S (f a) (f b)) :
    Option.Rel S (x.map f) (y.map f) := by
  cases h with
  | none => exact .none
  | some h => exact .some (hf _ _ h)

end Watched

namespace Collection

variable {c c' : Collection σ}

/-- Callbacks that work alike are seen alike. -/
theorem Matches.watched (h : c.Matches c') : c.watched.Matches c'.watched := by
  have hwork {next : Value → Value → Value} {hook hook' : Hook σ} (side : Side) (op : Operation)
      (hw : SameWork next (fun v => runHook (some hook) [v]) fun v => runHook (some hook') [v]) :
      SameWork next (fun v => runHook (some (hook.watched side op)) [v])
        fun v => runHook (some (hook'.watched side op)) [v] := by
    simp only [runHook_watched]
    exact hw.noted fun read read' v v' hv => by simp [hv]
  have hcall {hook hook' : Hook σ} (side : Side) (op : Operation)
      (hw : SameCall (runHook (some hook) []) (runHook (some hook') [])) :
      SameCall (runHook (some (hook.watched side op)) []) (runHook (some (hook'.watched side op)) []) := by
    simp only [runHook_watched]
    exact hw.noted (.hook side op [])
  exact {
    table := h.table
    attachment := congrArg Attachment.watched h.attachment
    accessor := congrArg (Option.map Table.watched) h.accessor
    toDb := rel_map h.toDb fun f f' hf => hf.noted fun _ _ _ _ => congrArg Deed.toDb
    toJs := rel_map h.toJs fun f f' hf => hf.noted fun _ _ _ _ => congrArg Deed.toJs
    prepare := fun op hop => rel_map (h.prepare op hop) fun _ _ => hwork .pre op
    announce := fun op hop => rel_map (h.announce op hop) fun _ _ => hcall .pre op
    conclude := fun op hop => rel_map (h.conclude op hop) fun _ _ => hwork .post op
    flushed := rel_map h.flushed fun _ _ => hcall .post .flush }

/-- To watch a database does not change its answers. -/
theorem CompletelyAnswered.watched (h : c.CompletelyAnswered) : c.watched.CompletelyAnswered := by
  have hseen {call : Call} {step : Act σ Value}
      (hstep : ∀ o v o', step o = (.ok v, o') → v.isComplete = true) (w : Watched σ) (v : Value)
      (w' : Watched σ) (hw : call.seen step w = (.ok v, w')) : v.isComplete = true := by
    have hv : (step w.outside).1 = .ok v := congrArg Prod.fst hw
    exact hstep w.outside v (step w.outside).2 (Prod.ext hv rfl)
  have haccessor {t : Table (Watched σ)} (ht : c.watched.accessor? = some t) :
      ∃ t', c.accessor? = some t' ∧ t = t'.watched := by
    obtain ⟨t', ht', h⟩ := Option.map_eq_some_iff.mp ht
    exact ⟨t', ht', h.symm⟩
  constructor
  · intro k hk q
    cases hc : c.attachment with
    | nothing | stranger =>
      unfold Collection.watched at hk
      rw [hc] at hk
      cases hk
    | connection k' =>
      unfold Collection.watched at hk
      rw [hc] at hk
      cases hk
      exact hseen (h.statements k' hc q)
  · intro t ht conditions options
    obtain ⟨t', ht', rfl⟩ := haccessor ht
    exact hseen (h.find t' ht' conditions options)
  · intro t ht id
    obtain ⟨t', ht', rfl⟩ := haccessor ht
    exact hseen (h.findOne t' ht' id)
  · intro t ht data
    obtain ⟨t', ht', rfl⟩ := haccessor ht
    exact hseen (h.insert t' ht' data)
  · intro t ht id data
    obtain ⟨t', ht', rfl⟩ := haccessor ht
    exact hseen (h.updateById t' ht' id data)
  · intro t ht id
    obtain ⟨t', ht', rfl⟩ := haccessor ht
    exact hseen (h.destroyById t' ht' id)

end Collection

end TableAccess
