import TableAccess.Proofs.Client.History
import TableAccess.Proofs.Value.Equality

/-! The cache of clients along a history. `Orderly` is what every move preserves: cached clients are
open and stored under their own keys, no two keys are equal, and the journal has the closing of a pool
exactly if its client is closed. From it follows what sharing, closing and failing can do to the cache
(`cache_kept`). -/

namespace TableAccess

namespace Client

theorem cacheWithout_cons_of_not {id : Nat} {key : Value} {e : Value × Nat}
    {cache : List (Value × Nat)} (h : ¬ leadsTo id key e = true) :
    cacheWithout id (some key) (e :: cache) = e :: cacheWithout id (some key) cache := by
  simp only [cacheWithout, List.find?_cons_of_neg h, List.eraseP_cons_of_neg h]
  split <;> rfl

theorem cacheWithout_cons_of_leads {id : Nat} {key : Value} {e : Value × Nat}
    {cache : List (Value × Nat)} (h : leadsTo id key e = true) :
    cacheWithout id (some key) (e :: cache) = if e.2 = id then cache else e :: cache := by
  simp [cacheWithout, List.find?_cons_of_pos h, List.eraseP_cons_of_pos h]

theorem filter_other_eq_self {id : Nat} {cache : List (Value × Nat)} (h : ∀ e ∈ cache, e.2 ≠ id) :
    cache.filter (·.2 != id) = cache :=
  List.filter_eq_self.mpr fun e he => bne_iff_ne.mpr (h e he)

/-- The cache without a client that is there under its own key only, if at all. -/
theorem cacheWithout_eq_filter {id : Nat} {key : Value} {cache : List (Value × Nat)}
    (own : ∀ e ∈ cache, e.2 = id → e.1 = key)
    (apart : cache.Pairwise fun a b => a.2 ≠ b.2 ∧ a.1.same b.1 = false) :
    cacheWithout id (some key) cache = cache.filter (·.2 != id) := by
  induction cache with
  | nil => rfl
  | cons e rest ih =>
    obtain ⟨hown, hrest⟩ := List.forall_mem_cons.mp own
    obtain ⟨hapart, hpair⟩ := List.pairwise_cons.mp apart
    by_cases hid : e.2 = id
    · -- The client is found, and it is nowhere else.
      have hothers : ∀ f ∈ rest, f.2 ≠ id := fun f hf he => (hapart f hf).1 (hid.trans he.symm)
      rw [cacheWithout_cons_of_leads (by simp [leadsTo, hid]), if_pos hid,
        List.filter_cons_of_neg (by simp [hid]), filter_other_eq_self hothers]
    · rw [List.filter_cons_of_pos (by simp [hid])]
      cases hs : e.1.same key with
      | true =>
        -- Another client has an equal key, so this one is not there.
        have hothers : ∀ f ∈ rest, f.2 ≠ id := fun f hf he => by
          have hne := (hapart f hf).2
          rw [hrest f hf he, hs] at hne
          cases hne
        rw [cacheWithout_cons_of_leads (by simp [leadsTo, hs]), if_neg hid,
          filter_other_eq_self hothers]
      | false =>
        rw [cacheWithout_cons_of_not (by simp [leadsTo, hid, hs]), ih hrest hpair]

theorem cacheWithout_subset {id : Nat} {key? : Option Value} {cache : List (Value × Nat)} :
    cacheWithout id key? cache ⊆ cache := by
  unfold cacheWithout
  split
  · exact List.Subset.refl _
  · split
    · exact List.eraseP_subset
    · exact List.Subset.refl _

theorem mem_of_lookup {key : Value} {cache : List (Value × Nat)} {id : Nat}
    (h : lookup key cache = some id) : ∃ k, (k, id) ∈ cache ∧ k.same key = true := by
  induction cache with
  | nil => cases h
  | cons e rest ih =>
    obtain ⟨k, other⟩ := e
    unfold lookup at h
    split at h
    · rename_i hs
      obtain rfl := Option.some.inj h
      exact ⟨k, List.mem_cons_self, hs⟩
    · obtain ⟨k', hm, hs⟩ := ih h
      exact ⟨k', List.mem_cons_of_mem _ hm, hs⟩

theorem not_same_of_lookup {key : Value} {cache : List (Value × Nat)} (h : lookup key cache = none) :
    ∀ e ∈ cache, e.1.same key = false := by
  induction cache with
  | nil => simp
  | cons e rest ih =>
    unfold lookup at h
    split at h
    · cases h
    · rename_i hs
      exact List.forall_mem_cons.mpr ⟨by simpa using hs, ih h⟩

theorem store_eq_append {key : Value} {id : Nat} {cache : List (Value × Nat)}
    (h : ∀ e ∈ cache, e.1.same key = false) : store key id cache = cache ++ [(key, id)] := by
  induction cache with
  | nil => rfl
  | cons e rest ih =>
    obtain ⟨he, hrest⟩ := List.forall_mem_cons.mp h
    rw [store, if_neg (by simp [he]), ih hrest]
    rfl

/-- A key leads to the one entry whose key it equals. -/
theorem lookup_of_mem {key k : Value} {id : Nat} {cache : List (Value × Nat)}
    (keys : ∀ e ∈ cache, e.1.isKey = true)
    (apart : cache.Pairwise fun a b => a.2 ≠ b.2 ∧ a.1.same b.1 = false)
    (hm : (k, id) ∈ cache) (hs : k.same key = true) : lookup key cache = some id := by
  have hback := Value.same_symm (keys _ hm) hs
  induction cache with
  | nil => simp at hm
  | cons e rest ih =>
    obtain ⟨hkey, hkeys⟩ := List.forall_mem_cons.mp keys
    obtain ⟨hapart, hpair⟩ := List.pairwise_cons.mp apart
    rcases List.mem_cons.mp hm with rfl | hm
    · rw [lookup, if_pos hs]
    · have hne : e.1.same key = false := by
        by_contra he
        have := (hapart _ hm).2
        rw [Value.same_trans hkey (by simpa using he) hback] at this
        cases this
      rw [lookup, if_neg (by simp [hne])]
      exact ih hkeys hpair hm

end Client

open Client

/-- What every move preserves. -/
structure Orderly (w : World) : Prop where
  closed_iff : ∀ id, .closeAll id ∈ w.journal ↔ w.closed? id = some true
  ended : w.journal.Pairwise fun a b => ∀ id, a = .closeAll id → b ≠ .closeAll id ∧ b ≠ .acquire id
  cached : ∀ e ∈ w.cache, w.closed? e.2 = some false ∧ w.key? e.2 = some e.1
  keys : ∀ e ∈ w.cache, e.1.isKey = true
  apart : w.cache.Pairwise fun a b => a.2 ≠ b.2 ∧ a.1.same b.1 = false

theorem Orderly.empty : Orderly .empty where
  closed_iff id := by simp [World.empty, World.closed?]
  ended := .nil
  cached := by simp [World.empty]
  keys := by simp [World.empty]
  apart := .nil

/-- What persists from one world of a history to a later one. -/
structure Onward (w u : World) : Prop where
  closed : ∀ id, w.closed? id = some true → u.closed? id = some true
  key : ∀ id key, w.key? id = some key → u.key? id = some key
  journal : w.journal <+: u.journal
  cache : ∀ e ∈ w.cache, e ∈ u.cache ∨ u.closed? e.2 = some true

namespace Onward

theorem refl (w : World) : Onward w w :=
  ⟨fun _ h => h, fun _ _ h => h, List.prefix_rfl, fun _ h => .inl h⟩

theorem trans {w u v : World} (h : Onward w u) (h' : Onward u v) : Onward w v where
  closed id hc := h'.closed id (h.closed id hc)
  key id key hk := h'.key id key (h.key id key hk)
  journal := h.journal.trans h'.journal
  cache e he := by
    rcases h.cache e he with hu | hc
    · exact h'.cache e hu
    · exact .inr (h'.closed _ hc)

end Onward

namespace Orderly

variable {w u : World}

theorem there (h : Orderly w) : ∀ e ∈ w.cache, (w.closed? e.2).isSome := fun e he => by
  rw [(h.cached e he).1]
  rfl

theorem without (h : Orderly w) (id : Nat) :
    cacheWithout id (w.key? id) w.cache = w.cache.filter (·.2 != id) := by
  cases hk : w.key? id with
  | none =>
    refine (filter_other_eq_self fun e he hid => ?_).symm
    have hkey := (h.cached e he).2
    rw [hid, hk] at hkey
    cases hkey
  | some key =>
    refine cacheWithout_eq_filter (fun e he hid => ?_) h.apart
    have hkey := (h.cached e he).2
    rw [hid, hk] at hkey
    exact (Option.some.inj hkey).symm

/-- The journal grows by steps that close nothing and get no connection from a closed client. -/
theorem ended_append (h : Orderly w) {es : List Event}
    (hes : ∀ e ∈ es, e.IsAside ∨ ∃ id, e = .acquire id ∧ w.closed? id = some false) :
    (w.journal ++ es).Pairwise fun a b => ∀ id, a = .closeAll id → b ≠ .closeAll id ∧ b ≠ .acquire id := by
  have hclose : ∀ e ∈ es, ∀ id, e ≠ .closeAll id := by
    rintro e he id rfl
    rcases hes _ he with ha | ⟨other, ha, -⟩
    · exact ha
    · cases ha
  refine List.pairwise_append.mpr ⟨h.ended, ?_, ?_⟩
  · exact List.pairwise_of_forall_mem_list fun a ha b _ id he => absurd he (hclose a ha id)
  · rintro a ha b hb id rfl
    refine ⟨hclose b hb id, ?_⟩
    rintro rfl
    rcases hes _ hb with hb | ⟨other, hb, ho⟩
    · exact hb
    · cases hb
      rw [(h.closed_iff _).mp ha] at ho
      cases ho

/-- The same clients and the same cache, and steps of others in the journal. -/
theorem aside (h : Orderly w) {es : List Event} (clients : u.clients = w.clients)
    (cache : u.cache = w.cache) (journal : u.journal = w.journal ++ es)
    (hes : ∀ e ∈ es, e.IsAside ∨ ∃ id, e = .acquire id ∧ w.closed? id = some false) : Orderly u where
  closed_iff id := by
    rw [World.closed?_congr clients, ← h.closed_iff, journal, List.mem_append]
    refine or_iff_left fun hm => ?_
    rcases hes _ hm with ha | ⟨other, ha, -⟩
    · exact ha
    · cases ha
  ended := journal ▸ h.ended_append hes
  cached := by
    rw [cache]
    exact fun e he => by
      rw [World.closed?_congr clients, World.key?_congr clients]
      exact h.cached e he
  keys := cache ▸ h.keys
  apart := cache ▸ h.apart

theorem closed (h : Orderly w) {id : Nat} (isOpen : w.closed? id = some false)
    (clients : u.clients = w.clients.modify id fun c => { c with closed := true })
    (cache : u.cache = cacheWithout id (w.key? id) w.cache)
    (journal : u.journal = w.journal ++ [.closeAll id]) : Orderly u := by
  rw [h.without] at cache
  constructor
  · intro other
    rw [World.closed?_marked clients, journal, List.mem_append, h.closed_iff]
    split
    · rename_i ho
      subst ho
      simp [isOpen]
    · rename_i ho
      simp [Ne.symm ho]
  · rw [journal]
    refine List.pairwise_append.mpr ⟨h.ended, List.pairwise_singleton _ _, ?_⟩
    rintro a ha b hb other rfl
    obtain rfl := List.mem_singleton.mp hb
    refine ⟨fun he => ?_, by simp⟩
    cases he
    rw [(h.closed_iff _).mp ha] at isOpen
    cases isOpen
  · rw [cache]
    intro e he
    obtain ⟨he, hid⟩ := List.mem_filter.mp he
    rw [World.closed?_marked clients, if_neg (Ne.symm (bne_iff_ne.mp hid)), World.key?_marked clients]
    exact h.cached e he
  · rw [cache]
    exact fun e he => h.keys e (List.mem_filter.mp he).1
  · rw [cache]
    exact h.apart.filter _

/-- A client that is made is in nobody's way. -/
theorem made (h : Orderly w) {c : Client} (isOpen : c.closed = false)
    (clients : u.clients = w.clients ++ [c]) (cache : u.cache = w.cache)
    (journal : u.journal = w.journal) : Orderly u where
  closed_iff id := by
    rw [World.closed?_added clients, journal, h.closed_iff]
    split
    · rename_i hid
      rw [World.closed?, List.getElem?_eq_none (by omega), isOpen]
      simp
    · rfl
  ended := journal ▸ h.ended
  cached := by
    rw [cache]
    intro e he
    have hne : e.2 ≠ w.clients.length := fun hid => by
      have ho := (h.cached e he).1
      rw [World.closed?, List.getElem?_eq_none (by omega)] at ho
      cases ho
    rw [World.closed?_added clients, World.key?_added clients, if_neg hne, if_neg hne]
    exact h.cached e he
  keys := cache ▸ h.keys
  apart := cache ▸ h.apart

/-- A client that is there is stored under its own key, if nothing is stored under an equal one. -/
theorem stored (h : Orderly w) (id : Nat) {key : Value} (isOpen : w.closed? id = some false)
    (own : w.key? id = some key) (isKey : key.isKey = true) (fresh : ∀ e ∈ w.cache, e.2 ≠ id)
    (vacant : ∀ e ∈ w.cache, e.1.same key = false) (clients : u.clients = w.clients)
    (cache : u.cache = store key id w.cache) (journal : u.journal = w.journal) : Orderly u := by
  rw [store_eq_append vacant] at cache
  refine ⟨fun other => ?_, journal ▸ h.ended, ?_, ?_, ?_⟩
  · rw [World.closed?_congr clients, journal]
    exact h.closed_iff other
  · rw [cache]
    refine List.forall_mem_append.mpr ⟨fun e he => ?_, List.forall_mem_singleton.mpr ?_⟩
    · rw [World.closed?_congr clients, World.key?_congr clients]
      exact h.cached e he
    · rw [World.closed?_congr clients, World.key?_congr clients]
      exact ⟨isOpen, own⟩
  · rw [cache]
    exact List.forall_mem_append.mpr ⟨h.keys, List.forall_mem_singleton.mpr isKey⟩
  · rw [cache]
    refine List.pairwise_append.mpr ⟨h.apart, List.pairwise_singleton _ _, fun e he f hf => ?_⟩
    obtain rfl := List.mem_singleton.mp hf
    exact ⟨fresh e he, vacant e he⟩

theorem emptied (h : Orderly w) : Orderly { w with cache := [] } :=
  ⟨h.closed_iff, h.ended, by simp, by simp, .nil⟩

end Orderly

namespace Change

variable {w u : World}

theorem orderly (c : Change w u) (h : Orderly w) : Orderly u := by
  cases c with
  | aside clients cache journal =>
    obtain ⟨es, hes, hall⟩ := journal
    exact h.aside clients cache hes fun e he => .inl (hall e he)
  | acquired id isOpen clients cache journal =>
    exact h.aside clients cache journal (List.forall_mem_singleton.mpr (.inr ⟨id, rfl, isOpen⟩))
  | closed id isOpen clients cache journal => exact h.closed isOpen clients cache journal
  | made c isOpen clients cache journal => exact h.made isOpen clients cache journal

theorem onward (c : Change w u) (h : Orderly w) : Onward w u where
  closed id hc := Changes.closed (.single c) hc
  key id key hk := by
    cases c with
    | aside clients | acquired _ _ clients => rwa [World.key?_congr clients]
    | closed _ _ clients => rwa [World.key?_marked clients]
    | made _ _ clients =>
      have hne : id ≠ w.clients.length := fun hid => by
        rw [World.key?, List.getElem?_eq_none (by omega)] at hk
        cases hk
      rwa [World.key?_added clients, if_neg hne]
  journal := by
    cases c with
    | aside _ _ journal =>
      obtain ⟨es, hes, -⟩ := journal
      exact ⟨es, hes.symm⟩
    | acquired id _ _ _ journal => exact ⟨_, journal.symm⟩
    | closed id _ _ _ journal => exact ⟨_, journal.symm⟩
    | made _ _ _ _ journal => exact journal ▸ List.prefix_rfl
  cache := by
    cases c with
    | aside _ cache | acquired _ _ _ cache | made _ _ _ cache =>
      exact fun e he => .inl (cache ▸ he)
    | closed id isOpen clients cache =>
      intro e he
      by_cases hid : e.2 = id
      · right
        rw [World.closed?_marked clients, if_pos hid.symm, hid, isOpen]
        rfl
      · left
        rw [cache, h.without]
        exact List.mem_filter.mpr ⟨he, bne_iff_ne.mpr hid⟩

theorem cache_subset (c : Change w u) : u.cache ⊆ w.cache := by
  cases c with
  | aside _ cache | acquired _ _ _ cache | made _ _ _ cache => exact cache ▸ List.Subset.refl _
  | closed id _ _ cache => exact cache ▸ cacheWithout_subset

end Change

namespace Changes

variable {w u : World}

theorem orderly (c : Changes w u) (h : Orderly w) : Orderly u := by
  induction c with
  | refl => exact h
  | tail _ hstep ih => exact hstep.orderly ih

theorem onward (c : Changes w u) (h : Orderly w) : Onward w u := by
  induction c with
  | refl => exact .refl w
  | tail hpast hstep ih => exact ih.trans (hstep.onward (Changes.orderly hpast h))

theorem cache_subset (c : Changes w u) : u.cache ⊆ w.cache := by
  induction c with
  | refl => exact List.Subset.refl _
  | tail _ hstep ih => exact List.Subset.trans hstep.cache_subset ih

end Changes

/-- The world in which a shared client has been made. -/
theorem Client.shared_made {o : Order} {w v : World} (h : Orderly w) (change : Change w v)
    (clients : v.clients = w.clients) (cache : v.cache = w.cache) (isKey : o.key.isKey = true)
    (vacant : ∀ id, lookup o.key w.cache = some id → w.closed? id = some true) :
    let u := { v with clients := w.clients ++ [o.client (some o.key)],
                      cache := store o.key w.clients.length w.cache }
    Orderly u ∧ Onward w u ∧ u.cache = w.cache ++ [(o.key, w.clients.length)] := by
  intro u
  let made : World := { v with clients := w.clients ++ [o.client (some o.key)] }
  have hmade : Changes w made :=
    .tail (.single change) (.made (o.client (some o.key)) rfl (by rw [clients]) rfl rfl)
  have hnone : lookup o.key w.cache = none := by
    -- Whatever the key leads to is open.
    cases hl : lookup o.key w.cache with
    | none => rfl
    | some id =>
      obtain ⟨k, hm, -⟩ := mem_of_lookup hl
      have hopen := (h.cached _ hm).1
      rw [vacant id hl] at hopen
      cases hopen
  have hvacant := not_same_of_lookup hnone
  have hcache : u.cache = w.cache ++ [(o.key, w.clients.length)] := store_eq_append hvacant
  refine ⟨?_, ?_, hcache⟩
  · have hadded : made.clients = w.clients ++ [o.client (some o.key)] := rfl
    have hfresh : ∀ e ∈ made.cache, e.2 ≠ w.clients.length := fun e he hid => by
      have hopen := (h.cached e (cache ▸ he)).1
      rw [World.closed?, List.getElem?_eq_none (by omega)] at hopen
      cases hopen
    refine (hmade.orderly h).stored w.clients.length ?_ ?_ isKey hfresh
      (fun e he => hvacant e (cache ▸ he)) rfl ?_ rfl
    · rw [World.closed?_added hadded, if_pos rfl]
      rfl
    · rw [World.key?_added hadded, if_pos rfl]
      rfl
    · show store o.key w.clients.length w.cache = store o.key w.clients.length v.cache
      rw [cache]
  · have honward := hmade.onward h
    refine ⟨honward.closed, honward.key, honward.journal, fun e he => .inl ?_⟩
    rw [hcache]
    exact List.mem_append_left _ he

/-- A turn makes a client and stores it under a key: it shares a client that was not there before. -/
def Turn.Files (t : Turn) (key : Value) (id : Nat) : Prop :=
  ∃ o, t.move = .share o ∧ o.key = key ∧
    shared o t.before = (.ok id, t.move.effect t.before) ∧ t.before.clients[id]? = none

/-- What a move preserves, and where it finds new entries for the cache. -/
structure Move.Fair (m : Move) (w : World) : Prop where
  orderly : Orderly (m.effect w)
  onward : Onward w (m.effect w)
  filed : ∀ e ∈ (m.effect w).cache, e ∈ w.cache ∨ Turn.Files ⟨w, m⟩ e.1 e.2

theorem Move.fair_of_changes {m : Move} {w : World} (h : Orderly w) (c : Changes w (m.effect w)) :
    m.Fair w :=
  ⟨c.orderly h, c.onward h, fun _ he => .inl (c.cache_subset he)⟩

theorem Move.share_fair (o : Order) {w : World} (h : Orderly w) : Move.Fair (.share o) w := by
  have hshares := shared_shares o w
  have heffect : (Move.share o).effect w = (shared o w).2 := rfl
  obtain ⟨r, u, hu⟩ : ∃ r u, shared o w = (r, u) := ⟨_, _, rfl⟩
  rw [hu] at hshares heffect
  dsimp only at hshares heffect
  cases hshares with
  | refused e change => exact fair_of_changes h (heffect ▸ .single change)
  | found id => exact fair_of_changes h (by rw [heffect])
  | made change clients cache isKey vacant =>
    obtain ⟨horderly, honward, hcache⟩ := shared_made h change clients cache isKey vacant
    rw [← heffect] at horderly honward hcache
    refine ⟨horderly, honward, fun e he => ?_⟩
    rw [hcache] at he
    refine (List.mem_append.mp he).imp_right fun he => ?_
    obtain rfl := List.mem_singleton.mp he
    exact ⟨o, rfl, rfl, hu.trans (by rw [heffect]), List.getElem?_eq_none (Nat.le_refl _)⟩

theorem Move.closeCached_fair {w : World} (h : Orderly w) : Move.Fair .closeCached w := by
  obtain ⟨u, hu, hchanges, hall⟩ := closeCached_run h.there
  have heffect : Move.closeCached.effect w = u := congrArg Prod.snd hu
  have honward := hchanges.onward h.emptied
  constructor
  · rw [heffect]
    exact hchanges.orderly h.emptied
  · rw [heffect]
    exact ⟨honward.closed, honward.key, honward.journal, fun e he => .inr (hall e he)⟩
  · rw [heffect]
    intro e he
    have := hchanges.cache_subset he
    simp at this

theorem Move.fair (m : Move) {w : World} (h : Orderly w) : m.Fair w := by
  rcases m.effect_cases w with hc | ⟨o, rfl⟩ | rfl
  · exact fair_of_changes h hc
  · exact share_fair o h
  · exact closeCached_fair h

namespace History

variable {w u : World} {ts : List Turn}

theorem orderly_onward (h : History w ts u) (hw : Orderly w) : Orderly u ∧ Onward w u := by
  induction h with
  | start => exact ⟨hw, .refl w⟩
  | meanwhile _ m ih => exact ⟨m.change.orderly ih.1, ih.2.trans (m.change.onward ih.1)⟩
  | turn _ m ih => exact ⟨(m.fair ih.1).orderly, ih.2.trans (m.fair ih.1).onward⟩

/-- Whatever a history from the empty world comes to is orderly. -/
theorem orderly (h : History .empty ts w) : Orderly w := (h.orderly_onward .empty).1

/-- Every entry of the cache was made by a turn. -/
theorem filed (h : History .empty ts w) : ∀ e ∈ w.cache, ∃ t ∈ ts, t.Files e.1 e.2 := by
  induction h with
  | start => simp [World.empty]
  | meanwhile _ m ih => exact m.cache ▸ ih
  | @turn ts w past m ih =>
    intro e he
    rcases (m.fair past.orderly).filed e he with he | hfiles
    · obtain ⟨t, ht, hfiles⟩ := ih e he
      exact ⟨t, List.mem_append_left _ ht, hfiles⟩
    · exact ⟨⟨w, m⟩, by simp, hfiles⟩

end History

namespace Client

/-- A client that sharing gives is in the cache, under the key it was asked for if it has just been
made, and else under an equal one. -/
theorem shared_cached {o : Order} {w u : World} {id : Nat} (h : Orderly w)
    (hs : shared o w = (.ok id, u)) : Orderly u ∧ Onward w u ∧ o.key.isKey = true ∧
      ∃ k, (k, id) ∈ u.cache ∧ (k = o.key ∧ w.key? id = none ∨ k.same o.key = true) := by
  have hshares := shared_shares o w
  have hfair := Move.share_fair o h
  have heffect : (Move.share o).effect w = u := congrArg Prod.snd hs
  have hu := heffect ▸ hfair.orderly
  have honward := heffect ▸ hfair.onward
  rw [hs] at hshares
  dsimp only at hshares
  cases hshares with
  | found _ entry isOpen =>
    obtain ⟨k, hm, hk⟩ := mem_of_lookup entry
    exact ⟨h, .refl w, Value.isKey_of_same (h.keys _ hm) hk, k, hm, .inr hk⟩
  | made change clients cache isKey vacant =>
    obtain ⟨-, -, hcache⟩ := shared_made h change clients cache isKey vacant
    have hm : (o.key, w.clients.length) ∈ w.cache ++ [(o.key, w.clients.length)] := by simp
    rw [← hcache] at hm
    have hnew : w.key? w.clients.length = none := by
      rw [World.key?, List.getElem?_eq_none (Nat.le_refl _)]
      rfl
    exact ⟨hu, honward, isKey, o.key, hm, .inl ⟨rfl, hnew⟩⟩

theorem shared_found {o : Order} {w : World} {id : Nat} (isKey : o.key.isKey = true)
    (entry : lookup o.key w.cache = some id) (isOpen : w.closed? id = some false) :
    shared o w = (.ok id, w) := by
  rw [shared_run isKey, entry]
  exact (Act.bind_ok (isClosed_run isOpen)).trans rfl

/-- The client that sharing gives is given again for an equal key, until it is closed. -/
theorem shared_again {o o' : Order} {w u v : World} {id : Nat} {ts : List Turn} {es : List Event}
    (h : Orderly w) (first : shared o w = (.ok id, u)) (later : History u ts v)
    (journal : v.journal = u.journal ++ es) (kept : .closeAll id ∉ es)
    (same : o.key.same o'.key = true) : shared o' v = (.ok id, v) := by
  obtain ⟨hu, -, hkey, k, hm, hcached⟩ := shared_cached h first
  have hopen := (hu.cached _ hm).1
  have hk : k.same o'.key = true := by
    rcases hcached with ⟨rfl, -⟩ | hk
    · exact same
    · exact Value.same_trans (hu.keys _ hm) hk same
  obtain ⟨hv, honward⟩ := later.orderly_onward hu
  rcases honward.cache _ hm with hm | hc
  · have hl := lookup_of_mem hv.keys hv.apart hm hk
    exact shared_found (Value.isKey_of_same hkey same) hl (hv.cached _ hm).1
  · -- Its closing is in the journal, but not in what has been added, and before it was open.
    have hj := (hv.closed_iff id).mpr hc
    rw [journal, List.mem_append, hu.closed_iff, hopen] at hj
    rcases hj with hj | hj
    · cases hj
    · exact absurd hj kept

/-- Closing one client takes it out of the cache, and nothing else. -/
theorem close_cache (id : Nat) {w : World} (h : Orderly w) :
    (close id w).2.cache = w.cache.filter (·.2 != id) := by
  have hothers (hc : w.closed? id ≠ some false) : w.cache.filter (·.2 != id) = w.cache :=
    filter_other_eq_self fun e he hid => hc (hid ▸ (h.cached e he).1)
  cases hc : w.closed? id with
  | none => rw [close_missing hc, hothers (by simp [hc])]
  | some closed =>
    cases closed with
    | true => rw [close_closed hc, hothers (by simp [hc])]
    | false =>
      obtain ⟨flag, u, hu, -, hcache, -⟩ := close_open hc
      rw [hu, ← h.without]
      exact hcache

/-- What one can rely on about the cache. -/
structure CacheKept (ts : List Turn) (w : World) : Prop where
  /-- A cached client is open, was made by sharing, and is there under its own key. -/
  cached : ∀ key id, (key, id) ∈ w.cache → w.closed? id = some false ∧ w.key? id = some key ∧
    ∃ t ∈ ts, t.Files key id
  /-- No client is there twice, and no two keys are equal. -/
  apart : w.cache.Pairwise fun a b => a.2 ≠ b.2 ∧ a.1.same b.1 = false
  shared_open : ∀ o id u, shared o w = (.ok id, u) → u.closed? id = some false
  shared_again : ∀ o o' id u ts v es, shared o w = (.ok id, u) → History u ts v →
    v.journal = u.journal ++ es → .closeAll id ∉ es → o.key.same o'.key = true →
    shared o' v = (.ok id, v)
  /-- Failing to share a client leaves the cache as it is. -/
  shared_failed : ∀ o e u, shared o w = (.error e, u) → u.cache = w.cache
  close_one : ∀ id, (close id w).2.cache = w.cache.filter (·.2 != id)
  /-- Whatever is done, a client stays in the cache unless it is closed itself. -/
  stays : ∀ m : Move, ∀ e ∈ w.cache, e ∈ (m.effect w).cache ∨ (m.effect w).closed? e.2 = some true

/-- Wherever a history has come to, the cache is kept. -/
theorem cache_kept {ts : List Turn} {w : World} (h : History .empty ts w) : CacheKept ts w where
  cached key id hm :=
    ⟨(h.orderly.cached _ hm).1, (h.orderly.cached _ hm).2, h.filed _ hm⟩
  apart := h.orderly.apart
  shared_open o id u hs := by
    obtain ⟨hu, -, -, k, hm, -⟩ := shared_cached h.orderly hs
    exact (hu.cached _ hm).1
  shared_again o o' id u ts v es hs later journal kept same :=
    Client.shared_again h.orderly hs later journal kept same
  shared_failed o e u hs := by
    have hshares := shared_shares o w
    rw [hs] at hshares
    dsimp only at hshares
    cases hshares with
    | refused _ _ _ cache => exact cache
  close_one id := close_cache id h.orderly
  stays m := (m.fair h.orderly).onward.cache

/-- A shared client is closed and shared again, which makes another one. -/
theorem cache_kept_reopened :
    let o : Order := ⟨[("host", .text "localhost")], [], .int 1, .int 10⟩
    let first := (Move.share o).effect .empty
    let second := (Move.close 0).effect first
    let third := (Move.share o).effect second
    first.cache.map (·.2) = [0] ∧ second.cache.map (·.2) = [] ∧ third.cache.map (·.2) = [1] ∧
      CacheKept [⟨.empty, .share o⟩, ⟨first, .close 0⟩, ⟨second, .share o⟩] third := by
  intro o first second third
  refine ⟨by decide +kernel, by decide +kernel, by decide +kernel, ?_⟩
  exact cache_kept (((History.start.turn (.share o)).turn (.close 0)).turn (.share o))

end Client

end TableAccess
