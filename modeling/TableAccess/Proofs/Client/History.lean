import Mathlib.Logic.Relation
import TableAccess.PooledBackend
import TableAccess.Proofs.Client.Outcome
import TableAccess.Proofs.Collection.Watched

/-! Histories of clients. Clients are made, shared and closed, they are asked for statements, by
themselves or through a backend, and meanwhile anything else may happen that is not theirs, faults that
are planned among it (`History`). Whatever one of these moves is made of, it changes clients and cache
in four ways only (`Change`), apart from the two that are about the cache as a whole: sharing a client
(`shared_shares`) and closing all of them (`closeCached_run`). -/

namespace TableAccess

/-- Steps that neither get a connection nor close a pool. -/
def Event.IsAside : Event → Prop
  | .acquire _ | .closeAll _ => False
  | _ => True

namespace World

/-- The key of a client, if it is there and has one. -/
def key? (w : World) (id : Nat) : Option Value := w.clients[id]?.bind (·.key?)

@[simp] theorem struck_cache (w : World) (site : Site) : (w.struck site).cache = w.cache := by
  unfold struck
  split <;> rfl

@[simp] theorem tried_clients (w : World) (e : Event) (site : Site) :
    (w.tried e site).clients = w.clients := struck_clients _ site

@[simp] theorem tried_cache (w : World) (e : Event) (site : Site) :
    (w.tried e site).cache = w.cache := struck_cache _ site

@[simp] theorem tried_journal (w : World) (e : Event) (site : Site) :
    (w.tried e site).journal = w.journal ++ [e] := struck_journal _ site

end World

open Client (cacheWithout)

/-- What a step can do to the clients and to the cache. -/
inductive Change (w u : World) : Prop
  | aside (clients : u.clients = w.clients) (cache : u.cache = w.cache)
      (journal : ∃ es, u.journal = w.journal ++ es ∧ ∀ e ∈ es, e.IsAside)
  | acquired (id : Nat) (isOpen : w.closed? id = some false) (clients : u.clients = w.clients)
      (cache : u.cache = w.cache) (journal : u.journal = w.journal ++ [.acquire id])
  | closed (id : Nat) (isOpen : w.closed? id = some false)
      (clients : u.clients = w.clients.modify id fun c => { c with closed := true })
      (cache : u.cache = cacheWithout id (w.key? id) w.cache)
      (journal : u.journal = w.journal ++ [.closeAll id])
  | made (c : Client) (isOpen : c.closed = false) (clients : u.clients = w.clients ++ [c])
      (cache : u.cache = w.cache) (journal : u.journal = w.journal)

namespace World

variable {w u : World} {id : Nat}

theorem closed?_congr (h : u.clients = w.clients) : u.closed? id = w.closed? id := by
  rw [closed?, closed?, h]

theorem key?_congr (h : u.clients = w.clients) : u.key? id = w.key? id := by
  rw [key?, key?, h]

theorem closed?_marked {other : Nat}
    (h : u.clients = w.clients.modify other fun c => { c with closed := true }) :
    u.closed? id = if other = id then (w.closed? id).map fun _ => true else w.closed? id := by
  rw [closed?, closed?, h, List.getElem?_modify]
  cases w.clients[id]? with
  | none => simp
  | some c => by_cases ho : other = id <;> simp [ho]

theorem key?_marked {other : Nat}
    (h : u.clients = w.clients.modify other fun c => { c with closed := true }) :
    u.key? id = w.key? id := by
  rw [key?, key?, h, List.getElem?_modify]
  cases w.clients[id]? with
  | none => simp
  | some c => by_cases ho : other = id <;> simp [ho]

theorem clients_added {c : Client} (h : u.clients = w.clients ++ [c]) :
    u.clients[id]? = if id = w.clients.length then some c else w.clients[id]? := by
  rw [h, List.getElem?_append]
  split
  · rw [if_neg (by omega)]
  · rw [List.getElem?_singleton, List.getElem?_eq_none (by omega)]
    by_cases ho : id = w.clients.length
    · rw [if_pos (by omega), if_pos ho]
    · rw [if_neg (by omega), if_neg ho]

theorem closed?_added {c : Client} (h : u.clients = w.clients ++ [c]) :
    u.closed? id = if id = w.clients.length then some c.closed else w.closed? id := by
  rw [closed?, closed?, clients_added h]
  split <;> rfl

theorem key?_added {c : Client} (h : u.clients = w.clients ++ [c]) :
    u.key? id = if id = w.clients.length then c.key? else w.key? id := by
  rw [key?, key?, clients_added h]
  split <;> rfl

end World

theorem Change.of_eq {w u : World} (clients : u.clients = w.clients) (cache : u.cache = w.cache)
    (journal : u.journal = w.journal) : Change w u :=
  .aside clients cache ⟨[], by rw [journal, List.append_nil], by simp⟩

/-- A client stays as it is, or it is open and is closed, or it is made. -/
theorem Change.closed?_cases {w u : World} (h : Change w u) (id : Nat) :
    u.closed? id = w.closed? id ∨ (w.closed? id = some false ∧ u.closed? id = some true) ∨
      (w.closed? id = none ∧ u.closed? id = some false) := by
  cases h with
  | aside clients | acquired _ _ clients => exact .inl (World.closed?_congr clients)
  | closed other isOpen clients =>
    rw [World.closed?_marked clients]
    split
    · rename_i ho
      subst ho
      exact .inr (.inl ⟨isOpen, by rw [isOpen]; rfl⟩)
    · exact .inl rfl
  | made c isOpen clients =>
    rw [World.closed?_added clients]
    split
    · rename_i ho
      refine .inr (.inr ⟨?_, by rw [isOpen]⟩)
      rw [World.closed?, List.getElem?_eq_none (by omega)]
      rfl
    · exact .inl rfl

abbrev Changes : World → World → Prop := Relation.ReflTransGen Change

namespace Changes

variable {w u : World} {id : Nat}

theorem closed (h : Changes w u) (hc : w.closed? id = some true) : u.closed? id = some true := by
  induction h with
  | refl => exact hc
  | tail _ hstep ih =>
    rcases hstep.closed?_cases id with hs | ⟨hs, -⟩ | ⟨hs, -⟩
    · rw [hs, ih]
    · rw [ih] at hs
      cases hs
    · rw [ih] at hs
      cases hs

theorem there (h : Changes w u) (hc : (w.closed? id).isSome) : (u.closed? id).isSome := by
  induction h with
  | refl => exact hc
  | tail _ hstep ih =>
    rcases hstep.closed?_cases id with hs | ⟨-, hs⟩ | ⟨-, hs⟩
    · rw [hs, ih]
    · rw [hs]
      rfl
    · rw [hs]
      rfl

end Changes

variable {α β : Type}

/-- A step that is made of such changes, from whatever world. -/
def Evolves (x : Act World α) : Prop := ∀ w, Changes w (x w).2

namespace Evolves

theorem of_state {x : Act World α} (h : ∀ w, (x w).2 = w) : Evolves x := fun w => by
  rw [h w]

theorem of_change {x : Act World α} (h : ∀ w, Change w (x w).2) : Evolves x :=
  fun w => .single (h w)

theorem pure (a : α) : Evolves (Pure.pure a) := of_state fun _ => rfl

theorem throw (e : Failure) : Evolves (α := α) (MonadExcept.throw e) := of_state fun _ => rfl

theorem settle (r : Except Failure α) : Evolves (Act.settle r) := of_state fun _ => rfl

theorem get : Evolves (MonadState.get : Act World World) := of_state fun _ => rfl

theorem bind {x : Act World α} {f : α → Act World β} (hx : Evolves x) (hf : ∀ a, Evolves (f a)) :
    Evolves (x >>= f) := by
  intro w
  obtain ⟨r, u, hr⟩ : ∃ r u, x w = (r, u) := ⟨_, _, rfl⟩
  have hu : Changes w u := by simpa [hr] using hx w
  cases r with
  | error e =>
    rw [Act.bind_error hr]
    exact hu
  | ok a =>
    rw [Act.bind_ok hr]
    exact hu.trans (hf a u)

theorem attempt {x : Act World α} (hx : Evolves x) : Evolves (Act.attempt x) := hx

theorem modified {f : World → World} (h : ∀ w, Change w (f w)) : Evolves (modify f) := of_change h

theorem strike (site : Site) : Evolves (World.strike site) :=
  of_change fun w => by
    rw [World.strike_run]
    exact .of_eq (w.struck_clients site) (w.struck_cache site) (w.struck_journal site)

theorem step {e : Event} (h : e.IsAside) (site : Site) : Evolves (World.step e site) :=
  of_change fun w => by
    rw [World.step_run]
    exact .aside (w.tried_clients e site) (w.tried_cache e site)
      ⟨[e], w.tried_journal e site, List.forall_mem_singleton.mpr h⟩

end Evolves

namespace Client

theorem isClosed_state (id : Nat) (w : World) : (isClosed id w).2 = w := by
  obtain ⟨r, hr⟩ := isClosed_runs id w
  rw [hr.run]

theorem isClosed_evolves (id : Nat) : Evolves (isClosed id) := .of_state (isClosed_state id)

theorem close_open {id : Nat} {w : World} (h : w.closed? id = some false) :
    ∃ flag u, close id w = (.ok flag, u) ∧
      u.clients = w.clients.modify id (fun c => { c with closed := true }) ∧
      u.cache = cacheWithout id (w.key? id) w.cache ∧ u.journal = w.journal ++ [.closeAll id] := by
  obtain ⟨flag, hclose⟩ := close_steps h
  let marked := (markClosed id w).2
  have hk : marked.clients[id]?.bind (·.key?) = w.key? id := by
    show (w.clients.modify id _)[id]?.bind _ = _
    rw [World.key?, List.getElem?_modify_eq]
    cases w.clients[id]? <;> rfl
  refine ⟨flag, _, hclose, marked.tried_clients _ _, ?_, marked.tried_journal _ _⟩
  show cacheWithout id ((marked.tried _ _).clients[id]?.bind (·.key?)) (marked.tried _ _).cache = _
  rw [World.tried_clients, World.tried_cache, hk]
  rfl

theorem close_closed {id : Nat} {w : World} (h : w.closed? id = some true) :
    close id w = (.ok false, w) :=
  (Act.bind_ok (isClosed_run h)).trans rfl

theorem close_missing {id : Nat} {w : World} (h : w.closed? id = none) :
    close id w = (.error .noMember, w) :=
  Act.bind_error (isClosed_run_missing h)

/-- Closing a client that is there succeeds, whatever becomes of its pool. -/
theorem close_ok {id : Nat} {w : World} (h : (w.closed? id).isSome) :
    ∃ flag u, close id w = (.ok flag, u) ∧ u.closed? id = some true := by
  obtain ⟨closed, hc⟩ := Option.isSome_iff_exists.mp h
  cases closed with
  | true => exact ⟨false, w, close_closed hc, hc⟩
  | false =>
    obtain ⟨flag, u, hu, hclients, -⟩ := close_open hc
    refine ⟨flag, u, hu, ?_⟩
    rw [World.closed?_marked hclients, if_pos rfl, hc]
    rfl

theorem close_evolves (id : Nat) : Evolves (close id) := by
  intro w
  cases h : w.closed? id with
  | none => rw [close_missing h]
  | some closed =>
    cases closed with
    | true => rw [close_closed h]
    | false =>
      obtain ⟨flag, u, hu, hclients, hcache, hjournal⟩ := close_open h
      rw [hu]
      exact .single (.closed id h hclients hcache hjournal)

theorem acquire_evolves (id : Nat) : Evolves (acquire id) := by
  intro w
  unfold acquire
  cases h : w.closed? id with
  | none => rw [Act.bind_error (isClosed_run_missing h)]
  | some closed =>
    rw [Act.bind_ok (isClosed_run h)]
    cases closed with
    | true => exact .refl
    | false =>
      refine .single ?_
      show Change w (World.step (.acquire id) .acquire w).2
      rw [World.step_run]
      exact .acquired id h (w.tried_clients _ _) (w.tried_cache _ _) (w.tried_journal _ _)

theorem write_evolves (query : Query) : Evolves query.write := by
  cases query with
  | text s => exact .pure s
  | fragments fs => exact .bind (.strike _) fun _ => .pure _
  | unwritable => exact .throw _

theorem respond_evolves : Evolves World.respond := by
  refine .bind .get fun w => ?_
  split
  · exact .pure _
  · exact .bind (.modified fun w => .of_eq rfl rfl rfl) fun _ => .pure _

theorem fetch_evolves (r : Response) : Evolves (fetch r) := by
  have hrows : Evolves (if r.columns?.isSome = true then do
      World.strike .fetch
      pure (rowsOf r)
    else pure (rowsOf r)) := by
    split
    · exact .bind (.strike _) fun _ => .pure _
    · exact .pure _
  unfold fetch
  dsimp only
  split
  · exact .bind (.throw _) fun _ => hrows
  · exact hrows

theorem send_evolves (id : Nat) (statement : String) (parameters : List Value) :
    Evolves (send id statement parameters) := by
  refine .bind (.step (e := .send id statement parameters) trivial _) fun _ =>
    .bind respond_evolves fun r => ?_
  dsimp only
  split
  · exact .bind (close_evolves _) fun _ => fetch_evolves r
  · exact fetch_evolves r

theorem transact_evolves (id : Nat) (query : Query) (parameters : List Value) :
    Evolves (transact id query parameters) :=
  .bind (write_evolves query) fun s => .bind (send_evolves id s parameters) fun rows =>
    .bind (.step (e := .commit id) trivial _) fun _ => .pure rows

theorem undo_evolves (id : Nat) (e : Failure) : Evolves (undo id e) := by
  refine .bind (.attempt (.step (e := .rollback id) trivial _)) fun outcome => ?_
  split <;> exact .pure _

theorem conclude_evolves (id : Nat) (query : Query) (parameters : List Value) :
    Evolves (conclude id query parameters) := by
  refine .bind (.attempt (transact_evolves id query parameters)) fun outcome => ?_
  split
  · exact .pure _
  · exact .bind (undo_evolves id _) fun _ => .pure _

theorem release_evolves (id : Nat) : Evolves (release id) := by
  refine .bind (.attempt (.step (e := .release id) trivial _)) fun outcome => ?_
  split
  · exact .pure _
  · refine .bind (isClosed_evolves id) fun closed => ?_
    split
    · exact .throw _
    · exact .pure _

theorem run_evolves (id : Nat) (query : Query) (parameters : List Value) :
    Evolves (run id query parameters) :=
  .bind (acquire_evolves id) fun _ => .bind (conclude_evolves id query parameters) fun outcome =>
    .bind (release_evolves id) fun _ => .settle outcome

theorem runPrepared_evolves (id : Nat) (p : Except Failure Statement.Prepared) :
    Evolves (runPrepared id p) :=
  .bind (.settle p) fun p => run_evolves id (.fragments p.pieces) p.parameters

theorem perform_evolves (id : Nat) (task : Task) : Evolves (task.perform id) := by
  cases task with
  | run query parameters => exact run_evolves id query parameters
  | execute query parameters =>
    exact .bind (.settle _) fun ps => run_evolves id (.ofValue query) ps
  | findRows | findRow | insertRow | updateRow | deleteRow =>
    exact .bind (runPrepared_evolves id _) fun _ => .pure _

/-- Making a client: its pool is made, or it fails and nothing else happens. -/
theorem create_cases (o : Order) (key? : Option Value) (w : World) :
    ∃ v, Change w v ∧ v.clients = w.clients ∧ v.cache = w.cache ∧
      ((∃ e, create o key? w = (.error e, v)) ∨
        create o key? w = (.ok w.clients.length, { v with clients := w.clients ++ [o.client key?] })) := by
  let e : Event := .pool o.smallest o.largest o.poolSettings
  have hclients := w.tried_clients e .pool
  refine ⟨w.tried e .pool, .aside hclients (w.tried_cache e .pool)
    ⟨[e], w.tried_journal e .pool, List.forall_mem_singleton.mpr trivial⟩, hclients,
    w.tried_cache e .pool, ?_⟩
  have hs : World.step e .pool w = _ := w.step_run e .pool
  unfold create
  cases hf : (w.plan .pool).head? with
  | some f =>
    rw [hf] at hs
    exact .inl ⟨f, Act.bind_error hs⟩
  | none =>
    rw [hf] at hs
    refine .inr ((Act.bind_ok hs).trans ((Act.bind_ok (Act.get_run _)).trans ?_))
    rw [hclients]
    exact (Act.bind_ok rfl).trans (by rw [← hclients]; rfl)

theorem create_evolves (o : Order) (key? : Option Value) : Evolves (create o key?) := by
  intro w
  obtain ⟨v, hv, hclients, -, ⟨e, h⟩ | h⟩ := create_cases o key? w
  · rw [h]
    exact .single hv
  · rw [h]
    exact .tail (.single hv) (.made (o.client key?) rfl (by rw [hclients]) rfl rfl)

/-- What sharing a client comes to: it fails and leaves clients and cache as they are, or it finds an
open client, or it makes one and stores it where the cache has no open one. -/
inductive Shares (o : Order) (w : World) : Except Failure Nat → World → Prop
  | refused (e : Failure) {u : World} (change : Change w u) (clients : u.clients = w.clients)
      (cache : u.cache = w.cache) : Shares o w (.error e) u
  | found (id : Nat) (entry : lookup o.key w.cache = some id) (isOpen : w.closed? id = some false) :
      Shares o w (.ok id) w
  | made {v : World} (change : Change w v) (clients : v.clients = w.clients) (cache : v.cache = w.cache)
      (isKey : o.key.isKey = true)
      (vacant : ∀ id, lookup o.key w.cache = some id → w.closed? id = some true) :
      Shares o w (.ok w.clients.length)
        { v with clients := w.clients ++ [o.client (some o.key)],
                 cache := store o.key w.clients.length w.cache }

theorem createCached_shares {o : Order} {w : World} (isKey : o.key.isKey = true)
    (vacant : ∀ id, lookup o.key w.cache = some id → w.closed? id = some true) :
    Shares o w (createCached o w).1 (createCached o w).2 := by
  obtain ⟨v, hv, hclients, hcache, ⟨e, h⟩ | h⟩ := create_cases o (some o.key) w
  · rw [createCached, Act.bind_error h]
    exact .refused e hv hclients hcache
  · have hrun : createCached o w = (.ok w.clients.length,
        { v with clients := w.clients ++ [o.client (some o.key)],
                 cache := store o.key w.clients.length w.cache }) := by
      rw [createCached, Act.bind_ok h, ← hcache]
      rfl
    rw [hrun]
    exact .made hv hclients hcache isKey vacant

/-- An order with a key is looked up in the cache. -/
theorem shared_run {o : Order} (isKey : o.key.isKey = true) (w : World) :
    shared o w = (match lookup o.key w.cache with
      | some id => do if ← isClosed id then createCached o else return id
      | none => createCached o) w := by
  have hsettings := cacheKey_eq_ok_iff.mpr ⟨(o.isKey_key_iff.mp isKey).1, rfl⟩
  have hkey := o.key.hashed_eq_ok_iff.mpr isKey
  have hget : (get : Act World World) w = (.ok w, w) := Act.get_run w
  rw [shared, hsettings, hkey, Act.bind_ok (Act.settle_run _ w), Act.bind_ok (Act.settle_run _ w)]
  exact Act.bind_ok hget

/-- An order without a key fails before anything has happened. -/
theorem shared_refused {o : Order} (isKey : o.key.isKey = false) (w : World) :
    ∃ e, shared o w = (.error e, w) := by
  unfold shared
  cases cacheKey o.settings with
  | error e => exact ⟨e, Act.bind_error (Act.settle_run _ w)⟩
  | ok key =>
    cases hhashed : o.key.hashed with
    | error e =>
      exact ⟨e, (Act.bind_ok (Act.settle_run _ w)).trans (Act.bind_error (Act.settle_run _ w))⟩
    | ok _ =>
      rw [o.key.hashed_eq_ok_iff.mp hhashed] at isKey
      contradiction

theorem shared_shares (o : Order) (w : World) : Shares o w (shared o w).1 (shared o w).2 := by
  have hunchanged : Change w w := .of_eq rfl rfl rfl
  cases hk : o.key.isKey with
  | false =>
    obtain ⟨e, hrun⟩ := shared_refused hk w
    rw [hrun]
    exact .refused e hunchanged rfl rfl
  | true =>
    rw [shared_run hk]
    cases hl : lookup o.key w.cache with
    | none => exact createCached_shares hk (by simp [hl])
    | some id =>
      dsimp only
      cases hc : w.closed? id with
      | none =>
        rw [Act.bind_error (isClosed_run_missing hc)]
        exact .refused .noMember hunchanged rfl rfl
      | some closed =>
        rw [Act.bind_ok (isClosed_run hc)]
        cases closed with
        | true =>
          refine createCached_shares hk fun other ho => ?_
          obtain rfl := Option.some.inj (hl.symm.trans ho)
          exact hc
        | false => exact .found id hl hc

theorem closeAll_run {ids : List Nat} {w : World} (there : ∀ id ∈ ids, (w.closed? id).isSome) :
    ∃ u, (ids.forM fun id => do let _ ← close id) w = (.ok (), u) ∧ Changes w u ∧
      ∀ id ∈ ids, u.closed? id = some true := by
  induction ids generalizing w with
  | nil => exact ⟨w, rfl, .refl, by simp⟩
  | cons id ids ih =>
    obtain ⟨hid, hids⟩ := List.forall_mem_cons.mp there
    obtain ⟨flag, v, hv, hclosed⟩ := close_ok hid
    have hwv : Changes w v := by simpa [hv] using close_evolves id w
    obtain ⟨u, hu, hvu, hall⟩ := ih fun other ho => hwv.there (hids other ho)
    have hrun : (do let _ ← close id : Act World Unit) w = (.ok (), v) :=
      (Act.bind_ok hv).trans rfl
    exact ⟨u, (Act.bind_ok hrun).trans hu, hwv.trans hvu,
      List.forall_mem_cons.mpr ⟨hvu.closed hclosed, hall⟩⟩

/-- Closing all clients of the cache begins with an empty one, and goes through to the end if all of
them are there. -/
theorem closeCached_run {w : World} (there : ∀ e ∈ w.cache, (w.closed? e.2).isSome) :
    ∃ u, closeCached w = (.ok (), u) ∧ Changes { w with cache := [] } u ∧
      ∀ e ∈ w.cache, u.closed? e.2 = some true := by
  have hthere : ∀ id ∈ w.cache.map (·.2), (World.closed? { w with cache := [] } id).isSome :=
    List.forall_mem_map.mpr there
  obtain ⟨u, hu, hchanges, hall⟩ := closeAll_run hthere
  exact ⟨u, (Act.bind_ok (Act.get_run w)).trans ((Act.bind_ok rfl).trans hu), hchanges,
    List.forall_mem_map.mp hall⟩

end Client

namespace PooledBackend

theorem lookup_run {id : Nat} {w : World} {b : Backend} (h : w.backends[id]? = some b) :
    lookup id w = (.ok b, w) := by
  unfold lookup
  rw [Act.bind_ok (Act.get_run w), h]
  rfl

theorem lookup_evolves (id : Nat) : Evolves (lookup id) := by
  refine .bind .get fun w => ?_
  split
  · exact .pure _
  · exact .throw _

theorem client_evolves (id : Nat) : Evolves (client id) := by
  refine .bind (lookup_evolves id) fun b => ?_
  split
  · exact .pure _
  · exact .throw _

theorem close_evolves (id : Nat) : Evolves (close id) := by
  refine .bind (lookup_evolves id) fun b => ?_
  split
  · exact .bind (Client.close_evolves _) fun _ => .pure _
  · exact .throw _

theorem create_evolves (source : Value) (client? closes? : Option Nat) :
    Evolves (create source client? closes?) :=
  .bind .get fun _ => .bind (.modified fun _ => .of_eq rfl rfl rfl) fun _ => .pure _

theorem tableNumber_evolves (id : Nat) (name : Value) : Evolves (tableNumber id name) := by
  refine .bind (lookup_evolves id) fun b => ?_
  split
  · exact .pure _
  · exact .bind (.modified fun _ => .of_eq rfl rfl rfl) fun _ => .pure _

theorem execute_evolves (id : Nat) (query : Value) : Evolves (execute id query) :=
  .bind (client_evolves id) fun client =>
    .bind (Client.perform_evolves client (.execute query .null)) fun _ => .pure _

end PooledBackend

/-- A call to the database, on a connection and on the accessor of a table. -/
def Call.on {σ : Type} (k : Connection σ) (t : Table σ) : Call → Act σ Value
  | .statement text => k.execute text
  | .find conditions options => t.find conditions options
  | .findOne id => t.findOne id
  | .insert data => t.insert data
  | .updateById id data => t.updateById id data
  | .destroyById id => t.destroyById id

/-- A call to a backend, for one of its tables. -/
def PooledBackend.call (id : Nat) (name : Value) (c : Call) : Act World Value :=
  c.on (connection id) (tableOf id name)

theorem PooledBackend.call_evolves (id : Nat) (name : Value) (c : Call) :
    Evolves (call id name c) := by
  cases c with
  | statement text => exact execute_evolves id (.text text)
  | find conditions options =>
    exact .bind (client_evolves id) fun client =>
      Client.perform_evolves client (.findRows name conditions options)
  | findOne row =>
    exact .bind (client_evolves id) fun client => Client.perform_evolves client (.findRow name row)
  | insert data =>
    exact .bind (client_evolves id) fun client => Client.perform_evolves client (.insertRow name data)
  | updateById row data =>
    exact .bind (client_evolves id) fun client =>
      Client.perform_evolves client (.updateRow name row data)
  | destroyById row =>
    exact .bind (client_evolves id) fun client =>
      Client.perform_evolves client (.deleteRow name row)

/-- What others can do with clients, with the cache and with backends. -/
inductive Move where
  | create (o : Client.Order)
  | share (o : Client.Order)
  | close (id : Nat)
  | closeCached
  | perform (id : Nat) (task : Client.Task)
  | backend (source : Value) (client? closes? : Option Nat)
  | closeBackend (id : Nat)
  | table (id : Nat) (name : Value)
  | execute (id : Nat) (query : Value)
  | call (id : Nat) (name : Value) (c : Call)

/-- The world that a move leaves, whether it fails or not. -/
def Move.effect : Move → World → World
  | .create o, w => (Client.create o none w).2
  | .share o, w => (Client.shared o w).2
  | .close id, w => (Client.close id w).2
  | .closeCached, w => (Client.closeCached w).2
  | .perform id task, w => (task.perform id w).2
  | .backend source client? closes?, w => (PooledBackend.create source client? closes? w).2
  | .closeBackend id, w => (PooledBackend.close id w).2
  | .table id name, w => (PooledBackend.tableNumber id name w).2
  | .execute id query, w => (PooledBackend.execute id query w).2
  | .call id name c, w => (PooledBackend.call id name c w).2

/-- Two moves are about the cache. All others are made of changes of clients. -/
theorem Move.effect_cases (m : Move) (w : World) :
    Changes w (m.effect w) ∨ (∃ o, m = .share o) ∨ m = .closeCached := by
  cases m with
  | create o => exact .inl (Client.create_evolves o none w)
  | share o => exact .inr (.inl ⟨o, rfl⟩)
  | close id => exact .inl (Client.close_evolves id w)
  | closeCached => exact .inr (.inr rfl)
  | perform id task => exact .inl (Client.perform_evolves id task w)
  | backend source client? closes? =>
    exact .inl (PooledBackend.create_evolves source client? closes? w)
  | closeBackend id => exact .inl (PooledBackend.close_evolves id w)
  | table id name => exact .inl (PooledBackend.tableNumber_evolves id name w)
  | execute id query => exact .inl (PooledBackend.execute_evolves id query w)
  | call id name c => exact .inl (PooledBackend.call_evolves id name c w)

/-- What happens between the moves: callbacks and rehearsed databases are called, and faults and
responses are planned. -/
structure Meanwhile (w u : World) : Prop where
  clients : u.clients = w.clients
  cache : u.cache = w.cache
  backends : u.backends = w.backends
  journal : ∃ es, u.journal = w.journal ++ es ∧ ∀ e ∈ es, e.site? = none

theorem Meanwhile.change {w u : World} (h : Meanwhile w u) : Change w u := by
  obtain ⟨es, hes, hall⟩ := h.journal
  refine .aside h.clients h.cache ⟨es, hes, fun e he => ?_⟩
  have hs := hall e he
  cases e with
  | asked | called | resumed => trivial
  | pool | acquire | send | commit | rollback | release | closeAll => simp at hs

/-- A move, and the world that it finds. -/
structure Turn where
  before : World
  move : Move

/-- The histories that begin with one world, with the turns they take and the world they come to. -/
inductive History (start : World) : List Turn → World → Prop
  | start : History start [] start
  | meanwhile {ts : List Turn} {w u : World} (h : History start ts w) (m : Meanwhile w u) :
      History start ts u
  | turn {ts : List Turn} {w : World} (h : History start ts w) (m : Move) :
      History start (ts ++ [⟨w, m⟩]) (m.effect w)

end TableAccess
