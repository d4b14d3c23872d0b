import TableAccess.Proofs.Registry.Calls
import TableAccess.Proofs.Session.Construction

/-! The history of a registry. Collections are made, over any backend or none and with this registry,
another or none, and the registry is called, by whatever method and with whatever arguments; any of these
moves may fail (`Course`). The log of such a run has what was registered and what was dropped. One move
changes the registry as its entry in the log says (`moved`), so after any run the registry has under each
name the collection that was last registered there, unless the name was dropped since (`Holds`), and all
that it answers is read off that (`Answers`). -/

namespace TableAccess

namespace Registry

open Session (Sound Later Kept Framed)

/-! ### Logs -/

/-- An entry of the log: a collection was registered, or a name dropped. -/
inductive Entry
  | registered (name : String) (collection : Value)
  | dropped (name : String)

def Entry.name : Entry → String
  | .registered name _ | .dropped name => name

/-- The collection that was last registered under the name, unless the name was dropped since. -/
def Latest (log : List Entry) (name : String) (v : Value) : Prop :=
  ∃ before after, log = before ++ .registered name v :: after ∧ ∀ e ∈ after, e.name ≠ name

variable {log : List Entry} {name : String} {v : Value}

theorem not_latest_nil : ¬ Latest [] name v := by
  intro ⟨before, after, hlog, _⟩
  simp at hlog

theorem latest_concat_iff {e : Entry} :
    Latest (log ++ [e]) name v ↔ e = .registered name v ∨ e.name ≠ name ∧ Latest log name v := by
  constructor
  · intro ⟨before, after, hlog, hafter⟩
    rcases List.eq_nil_or_concat after with rfl | ⟨rest, last, rfl⟩
    · exact .inl (List.append_inj_right' hlog rfl |> List.singleton_inj.mp)
    · rw [List.concat_eq_append, ← List.cons_append, ← List.append_assoc] at hlog
      obtain ⟨hfront, hlast⟩ := List.append_inj' hlog rfl
      rw [List.concat_eq_append, List.forall_mem_append, List.forall_mem_singleton] at hafter
      exact .inr ⟨List.singleton_inj.mp hlast ▸ hafter.2, before, rest, hfront, hafter.1⟩
  · intro h
    rcases h with rfl | ⟨hname, before, after, rfl, hafter⟩
    · exact ⟨log, [], rfl, by simp⟩
    · refine ⟨before, after ++ [e], by simp, ?_⟩
      rw [List.forall_mem_append, List.forall_mem_singleton]
      exact ⟨hafter, hname⟩

theorem Latest.mem (h : Latest log name v) : .registered name v ∈ log := by
  obtain ⟨before, after, rfl, -⟩ := h
  simp

variable {r r' : Registry Nat} {s t u : Session}

/-- What the registry finds under each name is what was last registered there. -/
def Stored (r : Registry Nat) (log : List Entry) (t : Session) : Prop :=
  ∀ name c, r.find? name = some c ↔ ∃ v, Latest log name v ∧ t.thing? v = some (.collection c)

namespace Stored

theorem empty (t : Session) : Stored .empty [] t :=
  fun _ _ => ⟨nofun, fun ⟨_, h, _⟩ => (not_latest_nil h).elim⟩

theorem registered {c : Nat} (h : Stored r log t) (leads : t.thing? v = some (.collection c)) :
    Stored (r.register name c) (log ++ [.registered name v]) t := by
  intro other d
  rw [find?_register]
  simp only [latest_concat_iff]
  by_cases ho : other = name
  · subst ho
    simp only [if_true, Entry.name, ne_eq, not_true, false_and, or_false]
    constructor
    · intro hd
      exact ⟨v, rfl, Option.some.inj hd ▸ leads⟩
    · intro ⟨w, hw, hd⟩
      cases hw
      rw [leads] at hd
      simpa using hd
  · simp only [if_neg ho, Entry.name, ne_eq, Ne.symm ho, not_false_eq_true, true_and]
    rw [h other d]
    have hother : ∀ w, Entry.registered name v ≠ .registered other w := by
      intro w hw
      cases hw
      exact ho rfl
    simp only [hother, false_or]

theorem dropped (h : Stored r log t) : Stored (r.without name) (log ++ [.dropped name]) t := by
  intro other d
  rw [find?_without]
  simp only [latest_concat_iff, Entry.name, reduceCtorEq, false_or]
  by_cases ho : other = name
  · simp [ho]
  · rw [if_neg ho, h other d]
    simp [Ne.symm ho]

end Stored

/-! ### Moves -/

/-- A move in the life of a registry. What a session makes its collections by is such a move
(`Move.run_construct`). -/
inductive Move
  | construct (table : Value) (attachment? : Option (Attachment World)) (registry : Value)
  | call (method : String) (positional : List Value) (named : Entries)

/-- The argument that a call passes, and the session that has it in its memory. -/
def argument? (parameter : String) (positional : List Value) (named : Entries) (s : Session) :
    Option (Value × Session) :=
  match Session.arguments [.required parameter] positional named s with
  | (.ok values, t) => some (values.headD .null, t)
  | _ => none

/-- What is dropped by this name: nothing, if it is no text. -/
def drop? (v : Value) : Option Entry := v.text?.map .dropped

namespace Move

/-- A move of the registry that this value leads to. -/
def run (ref : Value) : Move → Act Session Called
  | .construct table attachment? registry => do
    return .value (← Session.construct table attachment? registry)
  | .call method positional named => Session.call ref method positional named

/-- What a move adds to the log of the registry. -/
def addition? (ref : Value) (s : Session) : Move → Option Entry
  | .construct table attachment? registry =>
    match Session.construct table attachment? registry s, (s.read table).text? with
    | (.ok v, _), some name =>
      if s.thing? registry = s.thing? ref then some (.registered name v) else none
    | _, _ => none
  | .call method positional named =>
    match method with
    | "register" => (argument? "collection" positional named s).bind fun (v, t) =>
      (t.tableOf? v).map (.registered · v)
    | "unregister" => (argument? "name" positional named s).bind fun (v, t) => drop? (t.read v)
    | _ => none

end Move

/-- A run of moves, with its log. -/
inductive Course (ref : Value) (s : Session) : List Entry → Session → Prop
  | start : Course ref s [] s
  | move {log : List Entry} {t : Session} (h : Course ref s log t) (m : Move) :
    Course ref s (log ++ (m.addition? ref t).toList) (m.run ref t).2

/-- What becomes of a registry, by what the log has of a move. -/
inductive Becomes (u : Session) (r : Registry Nat) : Option Entry → Registry Nat → Prop
  | same : Becomes u r none r
  | registered {name : String} {v : Value} {c : Nat} (leads : u.thing? v = some (.collection c))
    (table : u.tableOf? v = some name) : Becomes u r (some (.registered name v)) (r.register name c)
  | dropped {name : String} : Becomes u r (some (.dropped name)) (r.without name)

/-- What one move comes to for the registry of this number. -/
structure Moved (i : Nat) (r : Registry Nat) (t : Session) (e? : Option Entry) (u : Session) : Prop where
  later : Later t u
  collections : t.collections <+: u.collections
  registry : ∃ r', u.registries[i]? = some r' ∧ Becomes u r e? r'

variable {i : Nat} {ref : Value} {e? : Option Entry}

theorem Moved.of_kept (h : t.registries[i]? = some r) (kept : Kept t u) : Moved i r t none u where
  later := kept.later
  collections := kept.collections ▸ List.prefix_rfl
  registry := ⟨r, by rw [kept.registries, h], .same⟩

theorem Moved.of_framed (framed : Framed s t) (sound : Sound s) (h : Moved i r t e? u) :
    Moved i r s e? u where
  later := (framed.later sound).trans h.later
  collections := framed.collections ▸ h.collections
  registry := h.registry

/-- Another registry is in the place of this one. -/
theorem Moved.of_set (h : t.registries[i]? = some r) (later : Later t u)
    (collections : t.collections <+: u.collections)
    (registries : u.registries = t.registries.set i r') (becomes : Becomes u r e? r') :
    Moved i r t e? u where
  later := later
  collections := collections
  registry := by
    refine ⟨r', ?_, becomes⟩
    obtain ⟨hi, -⟩ := List.getElem?_eq_some_iff.mp h
    rw [registries, List.getElem?_set_self hi]

theorem tableOf?_later (later : Later t u) (collections : t.collections <+: u.collections)
    (h : t.tableOf? v = some name) : u.tableOf? v = some name := by
  obtain ⟨n, c, hn, hc, htable⟩ := Session.tableOf?_eq_some_iff.mp h
  obtain ⟨more, hmore⟩ := collections
  refine Session.tableOf?_eq_some_iff.mpr ⟨n, c, later.things v _ hn, ?_, htable⟩
  obtain ⟨hlt, -⟩ := List.getElem?_eq_some_iff.mp hc
  rw [← hmore, List.getElem?_append_left hlt, hc]

theorem moved_construct (sound : Sound t) (href : t.thing? ref = some (.registry i))
    (h : t.registries[i]? = some r) (table : Value) (attachment? : Option (Attachment World))
    (registry : Value) :
    let m := Move.construct table attachment? registry
    Moved i r t (m.addition? ref t) (m.run ref t).2 := by
  intro m
  rcases Session.construct_cases sound table attachment? registry with
    ⟨e, u, hrun, hframed⟩ | ⟨name, c, v, u, hrun, htext, htable, henlisted⟩
  · have hmove : (m.run ref t).2 = u := congrArg Prod.snd (Act.bind_error hrun)
    have hentry : m.addition? ref t = none := by simp only [m, Move.addition?, hrun]
    rw [hmove, hentry]
    exact .of_kept h (hframed.kept sound)
  · have hmove : (m.run ref t).2 = u := congrArg Prod.snd ((Act.bind_ok hrun).trans rfl)
    have hentry : m.addition? ref t =
        if t.thing? registry = t.thing? ref then some (.registered name v) else none := by
      simp only [m, Move.addition?, hrun, htext]
    rw [hmove, hentry, href]
    have hcollections : t.collections <+: u.collections := ⟨[c], henlisted.collections.symm⟩
    have hcollection : u.collections[t.collections.length]? = some c := by
      rw [henlisted.collections]
      exact List.getElem?_concat_length
    have hnamed := Session.tableOf?_eq_some_iff.mpr ⟨_, c, henlisted.leads, hcollection, htable⟩
    rcases henlisted.registries with ⟨hnull, hsame⟩ | ⟨j, r', hj, hr', hset⟩
    · have hnone : t.thing? registry = none := by
        cases registry with
        | reference n => exact nomatch hnull
        | _ => rfl
      rw [hnone, if_neg nofun]
      exact ⟨henlisted.later, hcollections, r, by rw [hsame, h], .same⟩
    · rw [hj]
      by_cases hji : j = i
      · subst hji
        rw [if_pos rfl]
        cases Option.some.inj (h.symm.trans hr')
        exact .of_set h henlisted.later hcollections hset (.registered henlisted.leads hnamed)
      · rw [if_neg (by simpa using hji)]
        refine ⟨henlisted.later, hcollections, r, ?_, .same⟩
        rw [hset, List.getElem?_set_ne hji, h]

/-- A call of a method with one parameter runs the method on the argument, or fails before. -/
theorem argument_cases (href : t.thing? ref = some (.registry i)) {method parameter : String}
    {body : Value → Act Session Called} (hmethod : Session.registryMethod? i method =
      some ⟨[.required parameter], fun values => body (values.headD .null)⟩)
    (positional : List Value) (named : Entries) :
    (argument? parameter positional named t = none ∧
        ∃ e, Session.call ref method positional named t = (.error e, t)) ∨
      ∃ v t', argument? parameter positional named t = some (v, t') ∧ Framed t t' ∧
        Session.call ref method positional named t = body v t' := by
  rw [Session.call_registry href hmethod]
  rcases Session.arguments_cases [.required parameter] positional named t with
    ⟨e, he⟩ | ⟨values, t', ht', hframed⟩
  · exact .inl ⟨by rw [argument?, he], e, Act.bind_error he⟩
  · exact .inr ⟨values.headD .null, t', by rw [argument?, ht'], hframed, Act.bind_ok ht'⟩

/-- A call comes to what its method comes to on the argument, in the session that has it. -/
theorem moved_argument (sound : Sound t) (href : t.thing? ref = some (.registry i))
    (h : t.registries[i]? = some r) {method parameter : String} {body : Value → Act Session Called}
    (hmethod : Session.registryMethod? i method =
      some ⟨[.required parameter], fun values => body (values.headD .null)⟩)
    {addition? : Value → Session → Option Entry}
    (hbody : ∀ v t, Sound t → t.registries[i]? = some r → Moved i r t (addition? v t) (body v t).2)
    (positional : List Value) (named : Entries) :
    Moved i r t ((argument? parameter positional named t).bind fun (v, t) => addition? v t)
      (Session.call ref method positional named t).2 := by
  rcases argument_cases href hmethod positional named with
    ⟨hnone, e, hrun⟩ | ⟨v, t', hsome, hframed, hrun⟩
  · rw [hnone, hrun]
    exact .of_kept h (.refl sound)
  · rw [hsome, hrun]
    exact .of_framed hframed sound (hbody v t' (hframed.sound sound) (hframed.registries ▸ h))

theorem moved_registering (sound : Sound t) (h : t.registries[i]? = some r) (v : Value) :
    Moved i r t ((t.tableOf? v).map (.registered · v)) (Session.registering i v t).2 := by
  rcases Session.registering_cases sound h v with
    ⟨hnone, hrun⟩ | ⟨n, name, u, hn, htable, hrun, hset, hcollections, hlater⟩
  · rw [hnone, hrun]
    exact .of_kept h (.refl sound)
  · rw [htable, hrun]
    have hprefix : t.collections <+: u.collections := hcollections ▸ List.prefix_rfl
    exact .of_set h hlater hprefix hset
      (.registered (hlater.things v _ hn) (tableOf?_later hlater hprefix htable))

/-- Only a text can have been in the registry. -/
theorem becomes_unregister (u : Session) {present : Bool} (h : r.unregister v = .ok (r', present)) :
    Becomes u r (drop? v) r' := by
  unfold unregister at h
  unfold drop?
  split at h
  next name htext =>
    rw [htext]
    exact (Prod.mk.inj (Except.ok.inj h)).1 ▸ .dropped
  next htext =>
    rw [htext]
    split at h
    · exact (Prod.mk.inj (Except.ok.inj h)).1 ▸ .same
    · cases hhash : v.hashed <;> rw [hhash] at h
      · contradiction
      · exact (Prod.mk.inj (Except.ok.inj h)).1 ▸ .same

theorem drop?_of_error {e : Failure} (h : r.unregister v = .error e) : drop? v = none := by
  unfold unregister at h
  split at h
  next => contradiction
  next htext => rw [drop?, htext, Option.map_none]

theorem moved_unregistering (sound : Sound t) (h : t.registries[i]? = some r) (v : Value) :
    Moved i r t (drop? (t.read v)) (Session.unregistering i v t).2 := by
  rcases Session.unregistering_cases sound h v with
    ⟨e, hunregister, hrun⟩ | ⟨r', present, u, hunregister, hrun, hset, hcollections, hlater⟩
  · rw [hrun, drop?_of_error hunregister]
    exact .of_kept h (.refl sound)
  · rw [hrun]
    exact .of_set h hlater (hcollections ▸ List.prefix_rfl) hset (becomes_unregister u hunregister)

/-- What one move can do: the registry is as its entry in the log says, and nothing is forgotten. -/
theorem moved (sound : Sound t) (href : t.thing? ref = some (.registry i))
    (h : t.registries[i]? = some r) (m : Move) : Moved i r t (m.addition? ref t) (m.run ref t).2 := by
  cases m with
  | construct table attachment? registry => exact moved_construct sound href h table attachment? registry
  | call method positional named =>
    by_cases hregister : method = "register"
    · subst hregister
      exact moved_argument sound href h rfl (fun v _ => (moved_registering · · v)) positional named
    by_cases hunregister : method = "unregister"
    · subst hunregister
      exact moved_argument sound href h rfl (fun v _ => (moved_unregistering · · v)) positional named
    have hentry : (Move.call method positional named).addition? ref t = none := by
      rw [Move.addition?]
      · exact hregister
      · exact hunregister
    have hmove : (Move.call method positional named).run ref t =
      Session.call ref method positional named t := rfl
    rw [hentry, hmove]
    refine .of_kept h ?_
    rcases Session.call_cases sound href h method positional named with
      ⟨e, u, hrun, hframed⟩ | ⟨called, u, hrun, hkept⟩
    · rw [hrun]
      exact hframed.kept sound
    · rw [hrun]
      exact hkept hregister hunregister

/-- A move that fails has changed no registry. -/
theorem failed (sound : Sound t) (href : t.thing? ref = some (.registry i))
    (h : t.registries[i]? = some r) {m : Move} {e : Failure} (hrun : m.run ref t = (.error e, u)) :
    Framed t u := by
  cases m with
  | construct table attachment? registry =>
    rcases Session.construct_cases sound table attachment? registry with
      ⟨e', u', hfails, hframed⟩ | ⟨_, _, v, u', hok, -⟩
    · have hmove := (Act.bind_error hfails).symm.trans hrun
      exact (Prod.mk.inj hmove).2 ▸ hframed
    · have hmove := (Act.bind_ok hok).symm.trans hrun
      exact nomatch (Prod.mk.inj hmove).1
  | call method positional named =>
    rcases Session.call_cases sound href h method positional named with
      ⟨e', u', hfails, hframed⟩ | ⟨called, u', hok, -⟩
    · exact (Prod.mk.inj (hfails.symm.trans hrun)).2 ▸ hframed
    · exact nomatch (Prod.mk.inj (hok.symm.trans hrun)).1

/-! ### Runs -/

/-- What holds of a registry throughout a run. -/
structure Holds (ref : Value) (i : Nat) (log : List Entry) (t : Session) : Prop where
  sound : Sound t
  refers : t.thing? ref = some (.registry i)
  tables : ∀ name v, .registered name v ∈ log → t.tableOf? v = some name
  registry : ∃ r, t.registries[i]? = some r ∧ r.Distinct ∧ Stored r log t

/-- Collections that are in the log keep their numbers, so the registry goes on finding them. -/
theorem Stored.later (h : Stored r log t) (later : Later t u)
    (tables : ∀ name v, .registered name v ∈ log → t.tableOf? v = some name) : Stored r log u := by
  intro name c
  rw [h name c]
  constructor
  · intro ⟨v, hv, hleads⟩
    exact ⟨v, hv, later.things v _ hleads⟩
  · intro ⟨v, hv, hleads⟩
    obtain ⟨d, _, hd, -⟩ := Session.tableOf?_eq_some_iff.mp (tables name v hv.mem)
    exact ⟨v, hv, hd.trans ((later.things v _ hd).symm.trans hleads)⟩

theorem Becomes.distinct (h : Becomes u r e? r') (distinct : r.Distinct) : r'.Distinct := by
  cases h with
  | same => exact distinct
  | registered => exact distinct.register _ _
  | dropped => exact distinct.without _

theorem Becomes.stored (h : Becomes u r e? r') (stored : Stored r log u) :
    Stored r' (log ++ e?.toList) u := by
  cases h with
  | same => simpa using stored
  | registered leads => exact stored.registered leads
  | dropped => exact stored.dropped

theorem Becomes.tables (h : Becomes u r e? r') (hv : .registered name v ∈ e?.toList) :
    u.tableOf? v = some name := by
  cases h with
  | same => simp at hv
  | registered _ table =>
    obtain ⟨rfl, rfl⟩ := by simpa using hv
    exact table
  | dropped => simp at hv

theorem Holds.move (h : Holds ref i log t) (m : Move) :
    Holds ref i (log ++ (m.addition? ref t).toList) (m.run ref t).2 := by
  obtain ⟨r, hr, hdistinct, hstored⟩ := h.registry
  obtain ⟨hlater, hcollections, r', hr', hbecomes⟩ := moved h.sound h.refers hr m
  refine ⟨hlater.sound, hlater.things ref _ h.refers, fun name v hv => ?_, r', hr',
    hbecomes.distinct hdistinct, hbecomes.stored (hstored.later hlater h.tables)⟩
  rcases List.mem_append.mp hv with hv | hv
  · exact tableOf?_later hlater hcollections (h.tables name v hv)
  · exact hbecomes.tables hv

theorem Holds.course (h : Holds ref i [] s) (run : Course ref s log t) : Holds ref i log t := by
  induction run with
  | start => exact h
  | move _ m ih => exact ih.move m

/-! ### Answers -/

/-- The names that a registry has, as all its answers show them. -/
structure Lists (ref : Value) (t : Session) (names : List String) : Prop where
  ascending : names.Pairwise (· < ·)
  given : ∃ v u, Session.call ref "names" [] [] t = (.ok (.value v), u) ∧
    u.read v = .list (names.map .text)
  found : ∀ name, name ∈ names ↔
    ∃ v u, Session.call ref "get_model" [.text name] [] t = (.ok (.value v), u)
  counted : Session.call ref "__len__" [] [] t = (.ok (.value (.ofNat names.length)), t)
  contained : ∀ name, Session.call ref "__contains__" [.text name] [] t =
    (.ok (.value (.bool (decide (name ∈ names)))), t)
  unregistered : ∀ name, ∃ u, Session.call ref "unregister" [.text name] [] t =
    (.ok (.value (.bool (decide (name ∈ names)))), u)

/-- All that a registry answers after a run with this log. -/
structure Answers (ref : Value) (log : List Entry) (t : Session) : Prop where
  found : ∀ name v, Latest log name v →
    Session.call ref "get_model" [.text name] [] t = (.ok (.value v), t)
  missing : ∀ name, (∀ v, ¬ Latest log name v) →
    Session.call ref "get_model" [.text name] [] t =
      (.error (.refused (.unknownCollection (.text name))), t)
  tables : ∀ name v, Latest log name v → t.tableOf? v = some name
  lists : ∃ names, Lists ref t names
  failing : ∀ m e u, Move.run ref m t = (.error e, u) → Framed t u

/-- A call with one text as its argument runs the method on it. -/
theorem call_text (href : t.thing? ref = some (.registry i)) {method parameter : String}
    {body : Value → Act Session Called} (hmethod : Session.registryMethod? i method =
      some ⟨[.required parameter], fun values => body (values.headD .null)⟩) (name : String) :
    Session.call ref method [.text name] [] t = body (.text name) t := by
  rw [Session.call_registry href hmethod]
  rfl

theorem call_plain (href : t.thing? ref = some (.registry i)) {method : String}
    {body : Act Session Called}
    (hmethod : Session.registryMethod? i method = some ⟨[], fun _ => body⟩) :
    Session.call ref method [] [] t = body t := by
  rw [Session.call_registry href hmethod]
  rfl

theorem call_getModel_none (href : t.thing? ref = some (.registry i)) (h : t.registries[i]? = some r)
    (hfind : r.find? name = none) : Session.call ref "get_model" [.text name] [] t =
      (.error (.refused (.unknownCollection (.text name))), t) := by
  have hcall : Session.call ref "get_model" [.text name] [] t = Session.modeling i (.text name) t :=
    call_text href rfl name
  have hmodel : r.model (.text name) = .error (.refused (.unknownCollection (.text name))) := by
    rw [model, Value.text?_text]
    dsimp only
    rw [hfind]
  exact hcall.trans (Session.modeling_error h hmodel)

theorem call_getModel_some (sound : Sound t) (href : t.thing? ref = some (.registry i))
    (h : t.registries[i]? = some r) {c : Nat} (hfind : r.find? name = some c)
    (leads : t.thing? v = some (.collection c)) :
    Session.call ref "get_model" [.text name] [] t = (.ok (.value v), t) := by
  have hcall : Session.call ref "get_model" [.text name] [] t = Session.modeling i (.text name) t :=
    call_text href rfl name
  have hmodel : r.model (.text name) = .ok c := by
    rw [model, Value.text?_text]
    dsimp only
    rw [hfind]
  exact hcall.trans (Session.modeling_ok h hmodel (Session.intern_of_thing? sound leads))

theorem decide_mem_names (r : Registry Nat) (name : String) :
    decide (name ∈ r.names) = (r.find? name).isSome := by
  rw [Bool.eq_iff_iff, decide_eq_true_iff, mem_names_iff]

theorem Holds.lists (h : Holds ref i log t) : ∃ names, Lists ref t names := by
  obtain ⟨r, hr, hdistinct, hstored⟩ := h.registry
  refine ⟨r.names, names_ascending hdistinct, ?_, fun name => ?_, ?_, fun name => ?_, fun name => ?_⟩
  · obtain ⟨v, u, hrun, -, hread⟩ := Session.naming_run hr
    exact ⟨v, u, (call_plain h.refers rfl).trans hrun, hread⟩
  · rw [mem_names_iff]
    constructor
    · intro hsome
      obtain ⟨c, hc⟩ := Option.isSome_iff_exists.mp hsome
      obtain ⟨v, -, hleads⟩ := (hstored name c).mp hc
      exact ⟨v, t, call_getModel_some h.sound h.refers hr hc hleads⟩
    · intro ⟨v, u, hrun⟩
      by_contra hnone
      rw [Bool.not_eq_true, Option.isSome_eq_false_iff, Option.isNone_iff_eq_none] at hnone
      exact nomatch (Prod.mk.inj ((call_getModel_none h.refers hr hnone).symm.trans hrun)).1
  · rw [length_names]
    exact (call_plain h.refers rfl).trans (Session.counting_run hr)
  · rw [decide_mem_names]
    exact (call_text h.refers rfl name).trans (Session.containing_run hr (.text name))
  · have hunregister : r.unregister (t.read (.text name)) =
        .ok (r.without name, (r.find? name).isSome) := rfl
    rw [decide_mem_names]
    rcases Session.unregistering_cases h.sound hr (.text name) with
      ⟨e, herror, -⟩ | ⟨r', present, u, hok, hrun, -⟩
    · exact nomatch hunregister.symm.trans herror
    · obtain ⟨-, rfl⟩ := Prod.mk.inj (Except.ok.inj (hunregister.symm.trans hok))
      exact ⟨u, (call_text h.refers rfl name).trans hrun⟩

theorem Holds.answers (h : Holds ref i log t) : Answers ref log t where
  found name v hv := by
    obtain ⟨r, hr, -, hstored⟩ := h.registry
    obtain ⟨c, _, hc, -⟩ := Session.tableOf?_eq_some_iff.mp (h.tables name v hv.mem)
    exact call_getModel_some h.sound h.refers hr ((hstored name c).mpr ⟨v, hv, hc⟩) hc
  missing name hnone := by
    obtain ⟨r, hr, -, hstored⟩ := h.registry
    refine call_getModel_none h.refers hr (Option.eq_none_iff_forall_ne_some.mpr fun c hc => ?_)
    obtain ⟨v, hv, -⟩ := (hstored name c).mp hc
    exact hnone v hv
  tables name v hv := h.tables name v hv.mem
  lists := h.lists
  failing m e u hrun := by
    obtain ⟨r, hr, -⟩ := h.registry
    exact failed h.sound h.refers hr hrun

end Registry

end TableAccess
