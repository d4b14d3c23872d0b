import TableAccess.Proofs.Client.Course

/-! The outcome of a statement. What goes wrong with a statement can be read off from the world before
it: whether the client is open, which faults are planned, and which answer waits. `failure?` is the
first of these failures, in the order connection, text, answer, rows, commit. A caller is told of it,
unless the pool of an open client does not take the connection back (`statement_reported`). -/

namespace TableAccess

variable {α β : Type}

/-- What a caller is told: the failure, if there is one, and the value otherwise. -/
def told (failure? : Option Failure) (a : α) : Except Failure α :=
  match failure? with
  | none => .ok a
  | some e => .error e

namespace World

/-- The next failure planned for a place. -/
def next? (w : World) (site : Site) : Option Failure := (w.plan site).head?

/-- The answer that waits for the next statement. -/
def awaiting (w : World) : Response := w.responses.headD .nothing

/-- Whether a client is closed, if it is there. -/
def closed? (w : World) (id : Nat) : Option Bool := w.clients[id]?.map (·.closed)

/-- The failure to find a client. -/
def missing? (w : World) (id : Nat) : Option Failure :=
  if (w.closed? id).isSome then none else some .noMember

/-- From one world to the other only faults of these places have struck. -/
def Spends (sites : List Site) (w u : World) : Prop :=
  ∀ site, site ∉ sites → u.next? site = w.next? site

theorem Spends.trans {xs ys : List Site} {w u v : World} (h : Spends xs w u) (h' : Spends ys u v) :
    Spends (xs ++ ys) w v := by
  intro site hs
  rw [List.mem_append, not_or] at hs
  exact (h' site hs.2).trans (h site hs.1)

theorem spends_struck (w : World) (site : Site) : Spends [site] w (w.struck site) := by
  intro other ho
  have hne : other ≠ site := fun he => ho (List.mem_singleton.mpr he)
  rw [next?, plan_struck, Function.update_of_ne hne, next?]

/-- The same, where clients and answers are as they were. -/
structure Aside (sites : List Site) (w u : World) : Prop where
  spends : Spends sites w u
  clients : u.clients = w.clients
  responses : u.responses = w.responses

theorem Aside.refl (sites : List Site) (w : World) : Aside sites w w := ⟨fun _ _ => rfl, rfl, rfl⟩

theorem Aside.trans {xs ys : List Site} {w u v : World} (h : Aside xs w u) (h' : Aside ys u v) :
    Aside (xs ++ ys) w v :=
  ⟨h.spends.trans h'.spends, h'.clients.trans h.clients, h'.responses.trans h.responses⟩

theorem Aside.closed? {sites : List Site} {w u : World} (h : Aside sites w u) (id : Nat) :
    u.closed? id = w.closed? id := by
  rw [World.closed?, World.closed?, h.clients]

theorem Aside.awaiting {sites : List Site} {w u : World} (h : Aside sites w u) :
    u.awaiting = w.awaiting := by
  rw [World.awaiting, World.awaiting, h.responses]

@[simp] theorem struck_clients (w : World) (site : Site) : (w.struck site).clients = w.clients := by
  unfold struck
  split <;> rfl

@[simp] theorem struck_responses (w : World) (site : Site) :
    (w.struck site).responses = w.responses := by
  unfold struck
  split <;> rfl

theorem aside_struck (w : World) (site : Site) : Aside [site] w (w.struck site) :=
  ⟨w.spends_struck site, w.struck_clients site, w.struck_responses site⟩

theorem aside_tried (w : World) (e : Event) (site : Site) : Aside [site] w (w.tried e site) := by
  have h := aside_struck { w with journal := w.journal ++ [e] } site
  exact ⟨h.spends, h.clients, h.responses⟩

end World

/-- A step that tells of a failure or gives a value, and leaves a world of some kind in either case. -/
def Tells (step : Act World α) (w : World) (failure? : Option Failure) (a : α)
    (after : World → Prop) : Prop :=
  ∃ u, step w = (told failure? a, u) ∧ after u

namespace Tells

variable {x : Act World α} {f : α → Act World β} {w : World} {p q : Option Failure} {a : α} {b : β}
  {after later : World → Prop}

/-- The first failure is told of, and what comes behind it is not tried. -/
theorem bind (hx : Tells x w p a after) (hf : p = none → ∀ u, after u → Tells (f a) u q b later)
    (hp : p ≠ none → ∀ u, after u → later u) : Tells (x >>= f) w (p.or q) b later := by
  obtain ⟨u, hu, ha⟩ := hx
  cases p with
  | some e => exact ⟨u, Act.bind_error hu, hp (by simp) u ha⟩
  | none =>
    obtain ⟨v, hv, hl⟩ := hf rfl u ha
    exact ⟨v, by rw [Act.bind_ok hu, hv, Option.none_or], hl⟩

theorem mono (hx : Tells x w p a after) (h : ∀ u, after u → later u) : Tells x w p a later := by
  obtain ⟨u, hu, ha⟩ := hx
  exact ⟨u, hu, h u ha⟩

theorem map (hx : Tells x w p a after) (g : α → β) : Tells (do return g (← x)) w p (g a) after := by
  obtain ⟨u, hu, ha⟩ := hx
  cases p with
  | some e => exact ⟨u, Act.bind_error hu, ha⟩
  | none => exact ⟨u, (Act.bind_ok hu).trans rfl, ha⟩

theorem attempt (hx : Tells x w p a after) :
    Tells (Act.attempt x) w none (told p a) after := by
  obtain ⟨u, hu, ha⟩ := hx
  exact ⟨u, by rw [Act.attempt_run, hu]; rfl, ha⟩

theorem strike (w : World) (site : Site) :
    Tells (World.strike site) w (w.next? site) () (World.Aside [site] w) :=
  ⟨_, w.strike_run site, w.aside_struck site⟩

theorem step (w : World) (e : Event) (site : Site) :
    Tells (World.step e site) w (w.next? site) () (World.Aside [site] w) :=
  ⟨_, w.step_run e site, w.aside_tried e site⟩

end Tells

namespace Client

/-- Why a client gets no connection. -/
def unobtained? (id : Nat) (w : World) : Option Failure :=
  match w.closed? id with
  | none => some .noMember
  | some true => some .clientClosed
  | some false => w.next? .acquire

/-- Why a statement has no text. -/
def unwritten? (query : Query) (w : World) : Option Failure :=
  match query with
  | .text _ => none
  | .fragments _ => w.next? .render
  | .unwritable => some .noMember

/-- Why a statement is not answered: it is not sent, it closes a client that is not there, or it
fails. -/
def unanswered? (w : World) : Option Failure :=
  (w.next? .send).or ((w.awaiting.closes?.bind w.missing?).or w.awaiting.failure?)

/-- Why the rows of an answer do not arrive. -/
def unfetched? (w : World) : Option Failure :=
  if w.awaiting.columns?.isSome then w.next? .fetch else none

/-- Whether a statement, once it is sent, closes the client that sends it. -/
def closes (id : Nat) (w : World) : Bool :=
  (w.next? .send).isNone && w.awaiting.closes? == some id

/-- The first failure of a statement on its connection. -/
def setback? (query : Query) (w : World) : Option Failure :=
  (unwritten? query w).or <| (unanswered? w).or <| (unfetched? w).or (w.next? .commit)

/-- The first failure of a statement, if there is one. -/
def failure? (id : Nat) (query : Query) (w : World) : Option Failure :=
  (unobtained? id w).or (setback? query w)

section Stages

variable (id : Nat) (query : Query) (statement : String) (parameters : List Value) (w : World)

variable {id w} in
theorem isClosed_run_missing (h : w.closed? id = none) : isClosed id w = (.error .noMember, w) := by
  unfold isClosed
  rw [Act.bind_ok (Act.get_run w)]
  cases hc : w.clients[id]? with
  | none => rfl
  | some c => simp [World.closed?, hc] at h

variable {id w} in
theorem isClosed_run {closed : Bool} (h : w.closed? id = some closed) :
    isClosed id w = (.ok closed, w) := by
  unfold isClosed
  rw [Act.bind_ok (Act.get_run w)]
  cases hc : w.clients[id]? with
  | none => simp [World.closed?, hc] at h
  | some c =>
    have hb : c.closed = closed := by simpa [World.closed?, hc] using h
    rw [← hb]
    rfl

theorem acquire_tells : Tells (acquire id) w (unobtained? id w) () (World.Aside [.acquire] w) := by
  unfold unobtained? acquire
  cases hc : w.closed? id with
  | none => exact ⟨w, Act.bind_error (isClosed_run_missing hc), .refl _ w⟩
  | some closed =>
    have hi := isClosed_run hc
    cases closed with
    | true => exact ⟨w, (Act.bind_ok hi).trans rfl, .refl _ w⟩
    | false => exact ⟨_, (Act.bind_ok hi).trans (w.step_run _ _), w.aside_tried _ _⟩

theorem write_tells :
    ∃ text, Tells query.write w (unwritten? query w) text (World.Aside [.render] w) := by
  cases query with
  | text s => exact ⟨s, w, rfl, .refl _ w⟩
  | fragments fs => exact ⟨Fragment.text fs, (Tells.strike w .render).map _⟩
  | unwritable => exact ⟨"", w, rfl, .refl _ w⟩

variable {id w} in
/-- An open client is marked first, then its pool is closed, whatever becomes of that, and then the client
leaves the cache. -/
theorem close_steps (h : w.closed? id = some false) : ∃ flag, close id w =
    (.ok flag, (evict id ((markClosed id w).2.tried (.closeAll id) .closeAll)).2) := by
  have hm : markClosed id w = (.ok (), (markClosed id w).2) := rfl
  have hs : Act.attempt (World.step (.closeAll id) .closeAll) (markClosed id w).2 = _ :=
    (Act.attempt_run _ _).trans (by rw [World.step_run])
  unfold close
  rw [Act.bind_ok (isClosed_run h)]
  exact ⟨_, (Act.bind_ok hm).trans ((Act.bind_ok hs).trans (Act.bind_ok rfl))⟩

variable {id w} in
theorem close_run (h : w.closed? id = some false) : ∃ flag u, close id w = (.ok flag, u) ∧
    World.Spends [.closeAll] w u ∧ u.responses = w.responses ∧
      u.clients = w.clients.modify id fun c => { c with closed := true } := by
  obtain ⟨flag, hclose⟩ := close_steps h
  have ha := (markClosed id w).2.aside_tried (.closeAll id) .closeAll
  exact ⟨flag, _, hclose, ha.spends, ha.responses, ha.clients⟩

/-- After an attempt to close a client it is closed, if it is there at all; others are as before. -/
theorem close_tells : ∃ flag, Tells (close id) w (w.missing? id) flag fun u =>
    World.Spends [.closeAll] w u ∧ u.responses = w.responses ∧
      (∀ other, u.closed? other =
        if id = other then (w.closed? other).map fun _ => true else w.closed? other) := by
  unfold World.missing?
  cases hc : w.closed? id with
  | none =>
    refine ⟨false, w, Act.bind_error (isClosed_run_missing hc), fun _ _ => rfl, rfl, fun other => ?_⟩
    split
    · simp_all
    · rfl
  | some closed =>
    cases closed with
    | true =>
      refine ⟨false, w, (Act.bind_ok (isClosed_run hc)).trans rfl, fun _ _ => rfl, rfl,
        fun other => ?_⟩
      split
      · simp_all
      · rfl
    | false =>
      obtain ⟨flag, u, hu, hs, hr, hcl⟩ := close_run hc
      refine ⟨flag, u, hu, hs, hr, fun other => ?_⟩
      unfold World.closed? at *
      rw [hcl, List.getElem?_modify]
      cases w.clients[other]? with
      | none => simp
      | some c => by_cases ho : id = other <;> simp [ho]

theorem respond_run : ∃ u, World.respond w = (.ok w.awaiting, u) ∧ World.Spends [] w u ∧
    u.clients = w.clients := by
  unfold World.respond World.awaiting
  rw [Act.bind_ok (Act.get_run w)]
  cases w.responses with
  | nil => exact ⟨w, rfl, fun _ _ => rfl, rfl⟩
  | cons r rest => exact ⟨{ w with responses := rest }, rfl, fun _ _ => rfl, rfl⟩

theorem fetch_tells (r : Response) :
    Tells (fetch r) w (r.failure?.or (if r.columns?.isSome then w.next? .fetch else none)) (rowsOf r)
      (World.Aside [.fetch] w) := by
  unfold fetch
  cases r.failure? with
  | some e => exact ⟨w, rfl, .refl _ w⟩
  | none =>
    cases r.columns? with
    | none => exact ⟨w, rfl, .refl _ w⟩
    | some columns => exact (Tells.strike w .fetch).map fun _ => rowsOf r

/-- Taking an answer, in the course of which a client may be closed. -/
theorem answer_tells (r : Response) :
    Tells (do if let some other := r.closes? then let _ ← close other
              fetch r) w ((r.closes?.bind w.missing?).or
        (r.failure?.or (if r.columns?.isSome then w.next? .fetch else none))) (rowsOf r)
      fun u => World.Spends [.closeAll, .fetch] w u ∧ u.closed? id =
        if r.closes? = some id then (w.closed? id).map fun _ => true else w.closed? id := by
  dsimp only
  cases hc : r.closes? with
  | none =>
    refine (fetch_tells w r).mono fun u hu => ⟨fun site hs => ?_, by simp [hu.closed?]⟩
    exact hu.spends site (by simp_all)
  | some other =>
    obtain ⟨flag, ht⟩ := close_tells other w
    refine ht.bind (fun _ u ⟨hs, _, hcl⟩ => ?_) fun _ u ⟨hs, _, hcl⟩ => ?_
    · rw [← hs .fetch (by decide)]
      refine (fetch_tells u r).mono fun v hv => ⟨hs.trans hv.spends, ?_⟩
      rw [hv.closed?, hcl]
      simp
    · exact ⟨fun site hm => hs site (by simp_all), by rw [hcl]; simp⟩

/-- Sending a statement can close the client that sends it. -/
theorem send_tells (h : w.closed? id = some false) :
    Tells (send id statement parameters) w ((unanswered? w).or (unfetched? w)) (rowsOf w.awaiting)
      fun u => World.Spends [.send, .closeAll, .fetch] w u ∧ u.closed? id = some (closes id w) := by
  have hs := Tells.step w (.send id statement parameters) .send
  unfold send unanswered?
  rw [Option.or_assoc]
  refine hs.bind (fun hn u hu => ?_) fun hn u hu => ?_
  · obtain ⟨v, hv, hsv, hcv⟩ := respond_run u
    rw [hu.awaiting] at hv
    have hwv : World.Spends [.send] w v := hu.spends.trans hsv
    have hcl : ∀ other, v.closed? other = w.closed? other := fun other => by
      rw [← hu.closed?, World.closed?, World.closed?, hcv]
    have hm : v.missing? = w.missing? := funext fun other => by
      rw [World.missing?, World.missing?, hcl]
    have ht := answer_tells id v w.awaiting
    rw [hm, hwv .fetch (by decide), Option.or_assoc.symm] at ht
    obtain ⟨z, hz, hsz, hcz⟩ := ht
    refine ⟨z, (Act.bind_ok hv).trans hz, hwv.trans hsz, ?_⟩
    rw [hcz, hcl, h, closes, hn]
    by_cases hc : w.awaiting.closes? = some id <;> simp [hc]
  · refine ⟨fun site hm => hu.spends site (by simp_all), ?_⟩
    rw [hu.closed?, h, closes]
    simp [hn]

end Stages

/-- Whether the client of a statement is closed in the course of it. -/
def closedMeanwhile (id : Nat) (query : Query) (w : World) : Bool :=
  (unwritten? query w).isNone && closes id w

section Aside

variable {sites : List Site} {w u : World} (h : World.Aside sites w u)
include h

theorem unwritten?_aside (query : Query) (hs : .render ∉ sites) :
    unwritten? query u = unwritten? query w := by
  unfold unwritten?
  rw [h.spends .render hs]

theorem unanswered?_aside (hs : .send ∉ sites) : unanswered? u = unanswered? w := by
  have hm : u.missing? = w.missing? := funext fun other => by
    rw [World.missing?, World.missing?, h.closed?]
  unfold unanswered?
  rw [h.spends .send hs, h.awaiting, hm]

theorem unfetched?_aside (hs : .fetch ∉ sites) : unfetched? u = unfetched? w := by
  unfold unfetched?
  rw [h.awaiting, h.spends .fetch hs]

theorem closes_aside (id : Nat) (hs : .send ∉ sites) : closes id u = closes id w := by
  unfold closes
  rw [h.awaiting, h.spends .send hs]

end Aside

variable {id : Nat} {query : Query} {parameters : List Value} {w : World}

theorem transact_tells (h : w.closed? id = some false) :
    Tells (transact id query parameters) w (setback? query w) (rowsOf w.awaiting) fun u =>
      World.Spends [.render, .send, .closeAll, .fetch, .commit] w u ∧
        u.closed? id = some (closedMeanwhile id query w) := by
  obtain ⟨text, hw⟩ := write_tells query w
  refine hw.bind (fun hn u hu => ?_) fun hn u hu => ?_
  · have hsend := send_tells id text parameters u ((hu.closed? id).trans h)
    rw [unanswered?_aside hu (by decide), unfetched?_aside hu (by decide), hu.awaiting,
      closes_aside hu id (by decide)] at hsend
    have hc : closedMeanwhile id query w = closes id w := by simp [closedMeanwhile, hn]
    rw [hc, ← Option.or_assoc]
    refine hsend.bind (fun _ v ⟨hs, hcl⟩ => ?_) fun _ v ⟨hs, hcl⟩ => ?_
    · have hwv := hu.spends.trans hs
      rw [← hwv .commit (by decide)]
      refine ((Tells.step v (.commit id) .commit).map _).mono fun z hz => ?_
      exact ⟨hwv.trans hz.spends, (hz.closed? id).trans hcl⟩
    · exact ⟨fun site hm => (hu.spends.trans hs) site (by simp_all), hcl⟩
  · refine ⟨fun site hm => hu.spends site (by simp_all), ?_⟩
    rw [hu.closed?, h, closedMeanwhile]
    simp [hn]

/-- What is answered for a failure: the failure of the rollback in its place, if that fails too. -/
def undone (w : World) (e : Failure) : Failure := (w.next? .rollback).getD e

theorem undo_tells (id : Nat) (e : Failure) (w : World) :
    Tells (undo id e) w none (undone w e) (World.Aside [.rollback] w) := by
  refine (Tells.step w (.rollback id) .rollback).attempt.bind (fun _ u hu => ?_) (by simp)
  unfold undone
  cases w.next? .rollback with
  | none => exact ⟨u, rfl, hu⟩
  | some f => exact ⟨u, rfl, hu⟩

theorem conclude_tells (h : w.closed? id = some false) :
    Tells (conclude id query parameters) w none
      (told ((setback? query w).map (undone w)) (rowsOf w.awaiting)) fun u =>
        u.next? .release = w.next? .release ∧ u.closed? id = some (closedMeanwhile id query w) := by
  refine (transact_tells h).attempt.bind (fun _ u ⟨hs, hcl⟩ => ?_) (by simp)
  cases setback? query w with
  | none => exact ⟨u, rfl, hs .release (by decide), hcl⟩
  | some e =>
    have hr : undone u e = undone w e := by rw [undone, undone, hs .rollback (by decide)]
    rw [Option.map_some, told, ← hr]
    refine ((undo_tells id e u).map _).mono fun v hv => ⟨?_, (hv.closed? id).trans hcl⟩
    rw [hv.spends .release (by decide), hs .release (by decide)]

theorem release_tells {closed : Bool} (h : w.closed? id = some closed) :
    Tells (release id) w (if closed then none else w.next? .release) ()
      fun u => u.closed? id = some closed := by
  obtain ⟨u, hu, ha⟩ := (Tells.step w (.release id) .release).attempt
  have hi := isClosed_run ((ha.closed? id).trans h)
  refine ⟨u, (Act.bind_ok hu).trans ?_, (ha.closed? id).trans h⟩
  cases w.next? .release with
  | none => cases closed <;> rfl
  | some e =>
    refine (Act.bind_ok hi).trans ?_
    cases closed <;> rfl

/-- Why a connection is not taken back. That is of interest only while its client is open. -/
def unreturned? (id : Nat) (query : Query) (w : World) : Option Failure :=
  if (unobtained? id w).isSome || closedMeanwhile id query w then none else w.next? .release

theorem setback?_acquired {u : World} (h : World.Aside [.acquire] w u) :
    setback? query u = setback? query w := by
  unfold setback?
  rw [unwritten?_aside h query (by decide), unanswered?_aside h (by decide),
    unfetched?_aside h (by decide), h.spends .commit (by decide)]

theorem closedMeanwhile_acquired {u : World} (h : World.Aside [.acquire] w u) :
    closedMeanwhile id query u = closedMeanwhile id query w := by
  unfold closedMeanwhile
  rw [unwritten?_aside h query (by decide), closes_aside h id (by decide)]

/-- A client that gets a connection is open. -/
theorem closed?_of_obtained (h : unobtained? id w = none) : w.closed? id = some false := by
  unfold unobtained? at h
  split at h
  · contradiction
  · contradiction
  · assumption

theorem run_tells : Tells (run id query parameters) w
    ((unobtained? id w).or ((unreturned? id query w).or ((setback? query w).map (undone w))))
    (rowsOf w.awaiting) fun u => u.closed? id =
      if (unobtained? id w).isNone then some (closedMeanwhile id query w) else w.closed? id := by
  refine (acquire_tells id w).bind (fun hn u hu => ?_) fun hn u hu => by
    rw [hu.closed?, if_neg (by simpa using hn)]
  rw [hn, Option.isNone_none, if_pos rfl]
  have hopen := (hu.closed? id).trans (closed?_of_obtained hn)
  have hconclude : Tells (conclude id query parameters) u _ _ _ := conclude_tells hopen
  obtain ⟨v, hv, hrel, hcl⟩ := hconclude
  have hundone : undone u = undone w := funext fun e => by
    rw [undone, undone, hu.spends .rollback (by decide)]
  have hr := release_tells hcl
  rw [setback?_acquired hu, hu.awaiting, hundone] at hv
  rw [closedMeanwhile_acquired hu, hrel, hu.spends .release (by decide)] at hr
  have hu? : unreturned? id query w =
      if closedMeanwhile id query w then none else w.next? .release := by
    simp [unreturned?, hn]
  rw [hu?]
  have hend : Tells (do
      release id
      Act.settle (told ((setback? query w).map (undone w)) (rowsOf w.awaiting))) v
      ((if closedMeanwhile id query w then none else w.next? .release).or
        ((setback? query w).map (undone w))) (rowsOf w.awaiting)
      fun y => y.closed? id = some (closedMeanwhile id query w) :=
    hr.bind (fun _ y hy => ⟨y, rfl, hy⟩) fun _ _ hy => hy
  obtain ⟨z, hz, hcl⟩ := hend
  exact ⟨z, (Act.bind_ok hv).trans hz, hcl⟩

/-- What a caller is told of a statement. Where the rollback of a failed statement fails as well, the
caller is told of a failure, but nothing is said of which. -/
structure Reported (id : Nat) (query : Query) (w : World) (r : Except Failure Value) : Prop where
  /-- A statement that goes wrong nowhere is only refused for the sake of its connection. -/
  refused_iff : (∃ e, r = .error e) ↔ (failure? id query w).isSome ∨ (unreturned? id query w).isSome
  unreturned : ∀ e, unreturned? id query w = some e → r = .error e
  failed : ∀ e, unreturned? id query w = none → failure? id query w = some e →
    (unobtained? id w).isSome ∨ w.next? .rollback = none → r = .error e
  committed : unreturned? id query w = none → failure? id query w = none → r = .ok (rowsOf w.awaiting)

theorem told_eq_error_iff {failure? : Option Failure} {a : α} :
    (∃ e, told failure? a = .error e) ↔ failure?.isSome := by
  cases failure? <;> simp [told]

theorem reported_told :
    Reported id query w (told ((unobtained? id w).or
      ((unreturned? id query w).or ((setback? query w).map (undone w)))) (rowsOf w.awaiting)) where
  refused_iff := by
    rw [told_eq_error_iff, failure?]
    cases unobtained? id w <;> cases unreturned? id query w <;> simp
  unreturned e he := by
    have ho : unobtained? id w = none := by
      by_contra hne
      simp [unreturned?, Option.isSome_iff_ne_none.mpr hne] at he
    rw [ho, he]
    rfl
  failed e hr hf hrb := by
    rw [failure?] at hf
    rw [hr, Option.none_or]
    cases ho : unobtained? id w with
    | some f =>
      rw [ho, Option.some_or] at hf
      rw [Option.some_or, hf]
      rfl
    | none =>
      rw [ho, Option.none_or] at hf
      have hb : w.next? .rollback = none := by simpa [ho] using hrb
      rw [Option.none_or, hf, Option.map_some, undone, hb]
      rfl
  committed hr hf := by
    rw [failure?, Option.or_eq_none_iff] at hf
    rw [hf.1, hr, hf.2]
    rfl

theorem execute_run {query parameters : Value} {values : List Value}
    (given : parameterList parameters = .ok values) (w : World) :
    execute id query parameters w = run id (.ofValue query) values w := by
  unfold execute
  rw [given]
  rfl

/-- Every statement is reported, whether a caller passes it as a value or not. -/
theorem statement_reported (id : Nat) (query : Query) (values : List Value) (w : World) :
    Reported id query w (run id query values w).1 ∧
      ∀ v parameters, query = .ofValue v → parameterList parameters = .ok values →
        Reported id query w (execute id v parameters w).1 := by
  have htells : Tells (run id query values) w _ _ _ := run_tells
  obtain ⟨u, hu, -⟩ := htells
  have hrun : Reported id query w (run id query values w).1 := by
    rw [hu]
    exact reported_told
  refine ⟨hrun, ?_⟩
  rintro v parameters rfl given
  rw [execute_run given]
  exact hrun

/-- One open client, an answer that waits, and one fault. -/
def lone (r : Response) (f : Fault) : World :=
  { World.empty with
    clients := [⟨.text "app", .text "postgres", .null, .null, none, false⟩], responses := [r], faults := [f] }

/-- A statement fails and closes its client, so that its pool takes the connection back no more. -/
theorem statement_reported_closed :
    let statement : Value := .text "DELETE FROM users"
    let w := lone ⟨none, [], some 0, some (.outside .value "no such table")⟩
      ⟨.release, .outside .runtime "pool is closed"⟩
    parameterList .null = .ok [] ∧ Reported 0 (.ofValue statement) w (execute 0 statement .null w).1 ∧
      (execute 0 statement .null w).1 = .error (.outside .value "no such table") := by
  intro statement w
  have h : Reported 0 (.ofValue statement) w (execute 0 statement .null w).1 :=
    (statement_reported 0 (.ofValue statement) [] w).2 statement .null rfl rfl
  exact ⟨rfl, h, h.failed _ rfl rfl (.inr rfl)⟩

/-- A statement that goes wrong nowhere and is committed, of which a caller is told that it failed. -/
theorem committed_told_failed :
    let statement : Value := .text "DELETE FROM users"
    let full : Failure := .outside .runtime "pool is full"
    let w := lone .nothing ⟨.release, full⟩
    failure? 0 (.ofValue statement) w = none ∧
      (execute 0 statement .null w).1 = .error full ∧
      (execute 0 statement .null w).2.journal =
        [.acquire 0, .send 0 "DELETE FROM users" [], .commit 0, .release 0] :=
  ⟨rfl, rfl, rfl⟩

end Client

end TableAccess
