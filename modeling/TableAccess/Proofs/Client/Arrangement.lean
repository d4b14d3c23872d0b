import Mathlib.Data.List.Perm.Basic
import TableAccess.Proofs.Client.Keys

/-! The order in which settings are given. Entries with distinct names have one arrangement in the order
of their names, and whoever sorts them as pairs never comes to compare two values (`Entries.pairLess_of_ne`).
So the key of an order, and the pool and the client that are made for it, do not depend on how its
settings were arranged, and the client that was cached for one arrangement is given for every other
(`arrangement_irrelevant`), unless a NaN among the settings, which does not equal itself, keeps the key
from being found again. A setting whose hash fails in another way than by its type (`Keyed`) keeps every
arrangement from having a key (`memoryview_refused`). -/

namespace TableAccess

namespace Value

mutual
/-- Whether a value equals itself where it is a part of a key: a NaN does not, and neither does a
document on its way to the database, which is no setting. What is in a list or a mapping does not
count, since no key holds it. -/
def nanFree : Value → Bool
  | .float .nan => false
  | .decimal (.nan ..) => false
  | .json _ => false
  | .tuple xs => nanFreeAll xs
  | _ => true

def nanFreeAll : List Value → Bool
  | [] => true
  | x :: xs => nanFree x && nanFreeAll xs
end

theorem nanFreeAll_iff {xs : List Value} : nanFreeAll xs = true ↔ ∀ x ∈ xs, x.nanFree = true := by
  induction xs with
  | nil => simp [nanFreeAll]
  | cons x xs ih => rw [nanFreeAll, Bool.and_eq_true, ih, List.forall_mem_cons]

mutual
theorem denoted_of_nanFree : (v : Value) → v.isKey = true → v.nanFree = true → v.denoted?.isSome = true
  | .tuple xs, hk, hn => by
    rw [denoted?, Option.isSome_map]
    exact denotedAll_of_nanFree xs hk hn
  | .float x, _, hn => by cases x <;> simp_all [denoted?, size?, Size.denoted?, nanFree]
  | .decimal x, _, hn => by cases x <;> simp_all [denoted?, size?, Size.denoted?, nanFree]
  | .list _, hk, _ | .map _, hk, _ => by simp [isKey] at hk
  | .json _, _, hn => by simp [nanFree] at hn
  | .object o, hk, _ => by simp [denoted?, Option.isNone_iff_eq_none.mp hk]
  | .null, _, _ | .bool _, _, _ | .int _, _, _ | .fraction _, _, _ | .text _, _, _ | .ragged _, _, _
  | .bytes _, _, _ | .date _, _, _ | .time _, _, _ | .moment _, _, _ | .reference _, _, _ => rfl

theorem denotedAll_of_nanFree : (xs : List Value) → areKeys xs = true → nanFreeAll xs = true →
    (denotedAll? xs).isSome = true
  | [], _, _ => by rw [denotedAll?_nil]; rfl
  | x :: xs, hk, hn => by
    rw [areKeys, Bool.and_eq_true] at hk
    rw [nanFreeAll, Bool.and_eq_true] at hn
    obtain ⟨d, hd⟩ := Option.isSome_iff_exists.mp (denoted_of_nanFree x hk.1 hn.1)
    obtain ⟨ds, hds⟩ := Option.isSome_iff_exists.mp (denotedAll_of_nanFree xs hk.2 hn.2)
    rw [denotedAll?_cons_eq_some_iff.mpr ⟨d, ds, rfl, hd, hds⟩]
    rfl
end

theorem same_self {v : Value} (hk : v.isKey = true) (hn : v.nanFree = true) : v.same v = true := by
  obtain ⟨d, hd⟩ := Option.isSome_iff_exists.mp (denoted_of_nanFree v hk hn)
  exact (same_iff_denoted v v hk).mpr ⟨d, hd, hd⟩

theorem exists_of_hashedAll_error {xs : List Value} {f : Failure} (h : hashedAll xs = .error f) :
    ∃ x ∈ xs, x.hashed = .error f := by
  induction xs with
  | nil => contradiction
  | cons x xs ih =>
    rw [hashedAll] at h
    split at h
    next =>
      obtain ⟨y, hy, hf⟩ := ih h
      exact ⟨y, List.mem_cons_of_mem _ hy, hf⟩
    next hx => exact ⟨x, List.mem_cons_self, hx.trans h⟩

end Value

namespace Entries

variable {es fs : Entries}

/-- Mappings with the same values under all names have the same entries in the order of the names. -/
theorem sorted_eq_of_get? (distinct : es.keys.Nodup) (distinct' : fs.keys.Nodup)
    (h : ∀ name, es.get? name = fs.get? name) : es.sorted = fs.sorted := by
  have hrelated : Related Eq es fs := by
    intro name
    rw [h name]
    cases fs.get? name with
    | none => exact .none
    | some v => exact .some rfl
  have hall := (forall₂_sorted_iff distinct distinct').mpr hrelated
  exact List.forall₂_eq_eq_eq ▸ hall.imp fun e f hef => Prod.ext hef.1 hef.2

theorem keys_nodup_perm (h : es.Perm fs) (distinct : es.keys.Nodup) : fs.keys.Nodup :=
  (perm_keys h).nodup_iff.mp distinct

theorem sorted_eq_of_perm (distinct : es.keys.Nodup) (h : es.Perm fs) : es.sorted = fs.sorted :=
  sorted_eq_of_get? distinct (keys_nodup_perm h distinct) (get?_perm h distinct)

theorem keys_nodup_put (distinct : es.keys.Nodup) (key : String) (value : Value) :
    (es.put key value).keys.Nodup := by
  rw [keys_put]
  split
  next => exact distinct
  next hnot => exact List.nodup_append_comm.mp (List.nodup_cons.mpr ⟨hnot, distinct⟩)

theorem keys_nodup_filter (distinct : es.keys.Nodup) (p : String × Value → Bool) :
    keys (es.filter p) |>.Nodup :=
  distinct.sublist (List.filter_sublist.map _)

/-- Compares two entries as pairs: by their names and, where these are equal, by their values, in
whatever way these are compared, if they can be. -/
def pairLess (less : Value → Value → Except Failure Bool) (a b : String × Value) :
    Except Failure Bool :=
  if a.1 = b.1 then less a.2 b.2 else .ok (decide (a.1 < b.1))

variable (less : Value → Value → Except Failure Bool)

theorem pairLess_of_ne {a b : String × Value} (h : a.1 ≠ b.1) :
    pairLess less a b = .ok (decide (a.1 < b.1)) := if_neg h

/-- No two entries with distinct names are told apart by their values, in either direction. -/
theorem compared_by_name (distinct : es.keys.Nodup) :
    es.Pairwise fun a b => pairLess less a b = .ok (decide (a.1 < b.1)) ∧
      pairLess less b a = .ok (decide (b.1 < a.1)) :=
  (List.pairwise_map.mp distinct).imp fun hne =>
    ⟨pairLess_of_ne less hne, pairLess_of_ne less (Ne.symm hne)⟩

theorem pairwise_pairLess_iff (distinct : es.keys.Nodup) :
    es.Pairwise (fun a b => pairLess less a b = .ok true) ↔ es.keys.Pairwise (· < ·) := by
  have hcompared := compared_by_name less distinct
  rw [keys, List.pairwise_map]
  constructor
  · intro h
    refine (h.and hcompared).imp fun hab => ?_
    rw [hab.2.1] at hab
    simpa using hab.1
  · intro h
    refine (h.and hcompared).imp fun hab => ?_
    rw [hab.2.1, decide_eq_true hab.1]

/-- Whatever sorts entries with distinct names as pairs comes to their order by names. -/
theorem pairwise_pairLess_iff_eq_sorted (distinct : es.keys.Nodup) {line : Entries}
    (hperm : line.Perm es) :
    line.Pairwise (fun a b => pairLess less a b = .ok true) ↔ line = es.sorted := by
  have hline : line.keys.Nodup := keys_nodup_perm hperm.symm distinct
  rw [pairwise_pairLess_iff less hline, ← sorted_eq_of_perm hline hperm]
  constructor
  · intro h
    have hle : line.Pairwise fun a b => decide (a.1 ≤ b.1) = true :=
      (List.pairwise_map.mp h).imp fun hab =>
        decide_eq_true ((String.le_total _ _).resolve_right (String.not_le.mpr hab))
    exact (List.mergeSort_of_pairwise hle).symm
  · intro h
    exact ascending_of_nodup (h ▸ keys_sorted line) hline

end Entries

namespace Client

section

variable {given given' kept kept' : Entries}

theorem settingsKey_eq_sorted (es : Entries) :
    settingsKey es = es.sorted.map fun e => .tuple [.text e.1, keyPart e.2] := rfl

theorem settingsKey_perm (distinct : given.keys.Nodup) (h : given.Perm given') :
    settingsKey given = settingsKey given' := by
  rw [settingsKey_eq_sorted, settingsKey_eq_sorted, Entries.sorted_eq_of_perm distinct h]

/-- A setting that a key has a part for: it has a hash, or is of a type that has none. -/
def Keyed (v : Value) : Prop := ∀ f, v.hashed = .error f → f.family = .type

theorem isKey_keyPart_iff (v : Value) : (keyPart v).isKey = true ↔ Keyed v := by
  unfold keyPart isSpelled Keyed
  cases h : v.hashed with
  | ok _ => simp [v.hashed_eq_ok_iff.mp h]
  | error f =>
    have hnot : v.isKey = false := by
      rw [← Bool.not_eq_true, ← v.hashed_eq_ok_iff, h]
      simp
    by_cases hf : f.family = .type <;> simp [hf, hnot, Value.isKey]

theorem areKeys_settingsKey_iff (es : Entries) :
    Value.areKeys (settingsKey es) = true ↔ ∀ e ∈ es, Keyed e.2 := by
  have hpair (e : String × Value) :
      (Value.tuple [.text e.1, keyPart e.2]).isKey = true ↔ Keyed e.2 := by
    simp [Value.isKey, Value.areKeys, isKey_keyPart_iff]
  rw [Value.areKeys_iff, settingsKey_eq_sorted, List.forall_mem_map]
  exact forall_congr' fun e => imp_congr (Entries.sorted_perm es).mem_iff (hpair e)

instance (v : Value) : Decidable (Keyed v) := decidable_of_iff _ (isKey_keyPart_iff v)

/-- Whoever makes a key fails as one of the settings does, and not by its type. -/
theorem exists_of_cacheKey_error {es : Entries} {f : Failure} (h : cacheKey es = .error f) :
    ∃ e ∈ es, e.2.hashed = .error f ∧ f.family ≠ .type := by
  have hall : Value.hashedAll (settingsKey es) = .error f := by
    unfold cacheKey at h
    cases hhashed : Value.hashedAll (settingsKey es) <;> rw [hhashed] at h
    · exact congrArg Except.error (Except.error.inj h)
    · contradiction
  obtain ⟨x, hx, hf⟩ := Value.exists_of_hashedAll_error hall
  rw [settingsKey_eq_sorted] at hx
  obtain ⟨e, he, rfl⟩ := List.mem_map.mp hx
  obtain ⟨y, hy, hf⟩ := Value.exists_of_hashedAll_error hf
  obtain rfl | rfl : y = .text e.1 ∨ y = keyPart e.2 := by simpa using hy
  · contradiction
  · unfold keyPart at hf
    split at hf
    next => contradiction
    next hspelled =>
      refine ⟨e, (Entries.sorted_perm es).mem_iff.mp he, hf, fun htype => hspelled ?_⟩
      simp [isSpelled, hf, htype]

namespace Order

theorem settings_perm (h : given.Perm given') (kept kept' : Entries) :
    (ofEntries given kept).settings.Perm (ofEntries given' kept').settings :=
  (h.filter _).filter _

theorem settings_distinct (distinct : given.keys.Nodup) (kept : Entries) :
    (ofEntries given kept).settings.keys.Nodup :=
  Entries.keys_nodup_filter (Entries.keys_nodup_filter distinct _) _

theorem smallest_perm (distinct : given.keys.Nodup) (h : given.Perm given') (kept kept' : Entries) :
    (ofEntries given kept).smallest = (ofEntries given' kept').smallest := by
  simp only [ofEntries, Entries.get?_perm h distinct]

theorem largest_perm (distinct : given.keys.Nodup) (h : given.Perm given') (kept kept' : Entries) :
    (ofEntries given kept).largest = (ofEntries given' kept').largest := by
  simp only [ofEntries, Entries.get?_perm h distinct]

theorem key_perm (distinct : given.keys.Nodup) (h : given.Perm given') (kept kept' : Entries) :
    (ofEntries given kept).key = (ofEntries given' kept').key := by
  rw [key, key, smallest_perm distinct h kept kept', largest_perm distinct h kept kept',
    settingsKey_perm (settings_distinct distinct kept) (settings_perm h kept kept')]

theorem orDefault_perm (distinct : given.keys.Nodup) (h : given.Perm given') (name : String) :
    orDefault given name = orDefault given' name := by
  rw [orDefault, orDefault, Entries.get?_perm h distinct]

/-- A pool is made with the same settings, in the order of their names. -/
theorem poolSettings_perm {o o' : Order} (distinct : o.settings.keys.Nodup)
    (h : o.settings.Perm o'.settings) : o.poolSettings = o'.poolSettings := by
  have distinct' := Entries.keys_nodup_perm h distinct
  refine Entries.sorted_eq_of_get? ?_ ?_ fun name => ?_
  · exact Entries.keys_nodup_put (Entries.keys_nodup_put (Entries.keys_nodup_filter distinct _) _ _) _ _
  · exact Entries.keys_nodup_put (Entries.keys_nodup_put (Entries.keys_nodup_filter distinct' _) _ _) _ _
  · rw [Entries.get?_put, Entries.get?_put, Entries.get?_put, Entries.get?_put,
      orDefault_perm distinct h, orDefault_perm distinct h,
      Entries.get?_perm (h.filter _) (Entries.keys_nodup_filter distinct _)]

theorem client_perm (distinct : kept.keys.Nodup) (h : kept.Perm kept') (key? : Option Value) :
    (ofEntries given kept).client key? = (ofEntries given' kept').client key? := by
  have hget : ∀ name, kept.get name = kept'.get name := fun name => by
    rw [Entries.get, Entries.get, Entries.get?_perm h distinct]
  simp only [client, ofEntries, orDefault_perm distinct h, hget]

theorem nanFree_key (h : ∀ e ∈ given, e.2.nanFree = true) (kept : Entries) :
    (ofEntries given kept).key.nanFree = true := by
  have hpair : ∀ name v, v.nanFree = true → (Value.tuple [.text name, v]).nanFree = true := by
    intro name v hv
    simp [Value.nanFree, Value.nanFreeAll, hv]
  have hsize : ∀ name n, ((given.get? name).getD (.int n)).nanFree = true := by
    intro name n
    cases hg : given.get? name with
    | none => rfl
    | some v => exact h _ (Entries.mem_of_get?_eq_some hg)
  rw [key, Value.nanFree, Value.nanFreeAll_iff, List.forall_mem_append, settingsKey_eq_sorted,
    List.forall_mem_map]
  refine ⟨fun e he => hpair e.1 _ ?_, ?_⟩
  · have hgiven : e ∈ given :=
      List.mem_of_mem_filter (List.mem_of_mem_filter ((Entries.sorted_perm _).mem_iff.mp he))
    unfold keyPart
    split
    next => rfl
    next => exact h e hgiven
  · simpa using ⟨hpair _ _ (hsize "minconn" 1), hpair _ _ (hsize "maxconn" 10)⟩

/-- The settings of an order are all that it was given but the sizes of its pool. -/
theorem mem_settings_iff {e : String × Value} :
    e ∈ (ofEntries given kept).settings ↔ e ∈ given ∧ e.1 ≠ "minconn" ∧ e.1 ≠ "maxconn" := by
  simp [ofEntries, Entries.erase, and_comm]

end Order

/-- Sharing depends on an order through its key, its pool and its client only. -/
theorem shared_congr {o o' : Order} (parts : settingsKey o.settings = settingsKey o'.settings)
    (key : o.key = o'.key) (smallest : o.smallest = o'.smallest)
    (largest : o.largest = o'.largest) (settings : o.poolSettings = o'.poolSettings)
    (client : ∀ key?, o.client key? = o'.client key?) : shared o = shared o' := by
  have hcreate : create o = create o' := by
    funext key?
    simp only [create, smallest, largest, settings, client]
  simp only [shared, cacheKey, createCached, parts, key, hcreate]

/-- What is left as it is when settings are given in another order. -/
structure SameArranged (given given' : Entries) : Prop where
  /-- Sorting the settings as pairs compares no two of their values, whatever that would do. -/
  compared (less : Value → Value → Except Failure Bool) :
    given'.Pairwise fun a b => Entries.pairLess less a b = .ok (decide (a.1 < b.1)) ∧
      Entries.pairLess less b a = .ok (decide (b.1 < a.1))
  /-- Both are sorted into one line. -/
  sorted (less : Value → Value → Except Failure Bool) (line : Entries) : line.Perm given' →
    line.Pairwise (fun a b => Entries.pairLess less a b = .ok true) → line = given.sorted
  /-- Both have the same key, or fail in the same way. -/
  key : cacheKey given' = cacheKey given
  /-- There is a key exactly if no setting fails in another way than by its type. -/
  usable : (∃ parts, cacheKey given' = .ok parts) ↔ ∀ e ∈ given, Keyed e.2
  unusable (f : Failure) : cacheKey given' = .error f →
    ∃ e ∈ given, e.2.hashed = .error f ∧ f.family ≠ .type
  order (kept kept' : Entries) : (Order.ofEntries given' kept').key = (Order.ofEntries given kept).key
  /-- An order has a key unless a setting fails so, or one of the sizes of its pool has no hash. -/
  refused (kept' : Entries) : (Order.ofEntries given' kept').key.isKey = true ↔
    (∀ e ∈ given, e.1 ≠ "minconn" → e.1 ≠ "maxconn" → Keyed e.2) ∧
      ((given.get? "minconn").getD (.int 1)).isKey = true ∧
      ((given.get? "maxconn").getD (.int 10)).isKey = true
  /-- In every world, sharing does the same. -/
  sharing (kept kept' : Entries) : kept.keys.Nodup → kept.Perm kept' →
    shared (.ofEntries given' kept') = shared (.ofEntries given kept)
  /-- Whatever happens after a client was shared, it is given for the other arrangement until it is
  closed. -/
  again (kept kept' : Entries) (ts ts' : List Turn) (w u v : World) (id : Nat) (es : List Event) :
    (∀ e ∈ given, e.2.nanFree = true) → History .empty ts w →
    shared (.ofEntries given kept) w = (.ok id, u) → History u ts' v →
    v.journal = u.journal ++ es → .closeAll id ∉ es →
    shared (.ofEntries given' kept') v = (.ok id, v)

/-- The order in which settings are given has no part in sharing. -/
theorem arrangement_irrelevant (distinct : given.keys.Nodup) (h : given.Perm given') :
    SameArranged given given' where
  compared less := Entries.compared_by_name less (Entries.keys_nodup_perm h distinct)
  sorted less line hperm hline := by
    rw [Entries.sorted_eq_of_perm distinct h]
    exact (Entries.pairwise_pairLess_iff_eq_sorted less (Entries.keys_nodup_perm h distinct)
      hperm).mp hline
  key := by rw [cacheKey, cacheKey, settingsKey_perm distinct h]
  usable := by
    simp only [cacheKey_eq_ok_iff, exists_and_left, exists_eq', and_true, areKeys_settingsKey_iff,
      h.mem_iff]
  unusable f hf := by
    obtain ⟨e, he, hhashed⟩ := exists_of_cacheKey_error hf
    exact ⟨e, h.mem_iff.mpr he, hhashed⟩
  order kept kept' := (Order.key_perm distinct h kept kept').symm
  refused kept' := by
    rw [Order.isKey_key_iff, ← Order.smallest_perm distinct h [] kept',
      ← Order.largest_perm distinct h [] kept', areKeys_settingsKey_iff]
    simp only [Order.mem_settings_iff, h.mem_iff, and_imp]
    rfl
  sharing kept kept' hkept hperm :=
    (shared_congr (settingsKey_perm (Order.settings_distinct distinct kept)
        (Order.settings_perm h kept kept'))
      (Order.key_perm distinct h kept kept') (Order.smallest_perm distinct h kept kept')
      (Order.largest_perm distinct h kept kept')
      (Order.poolSettings_perm (Order.settings_distinct distinct kept)
        (Order.settings_perm h kept kept'))
      (Order.client_perm hkept hperm)).symm
  again kept kept' ts ts' w u v id es hnan past first later journal open' := by
    obtain ⟨-, -, hkey, -⟩ := shared_cached past.orderly first
    have hsame : (Order.ofEntries given kept).key.same (Order.ofEntries given' kept').key = true := by
      rw [← Order.key_perm distinct h kept kept']
      exact Value.same_self hkey (Order.nanFree_key hnan kept)
    exact shared_again past.orderly first later journal open' hsame

theorem shared_empty {o : Order} (hkey : o.key.isKey = true) : (shared o .empty).1 = .ok 0 := by
  rw [shared_run hkey]
  rfl

/-- A list and a mapping among the settings, which are neither compared nor part of a key as they are,
and sizes of the pool between them. -/
theorem arrangement_irrelevant_reversed :
    let given : Entries := [("user", .text "app"), ("maxconn", .int 3), ("options", .list [.int 1]),
      ("port", .decimal (.finite false 5432 0)), ("ssl", .map [("mode", .null)])]
    let o : Order := .ofEntries given []
    let u := (Client.shared o .empty).2
    given.keys.Nodup ∧ given.Perm given.reverse ∧ SameArranged given given.reverse ∧
      Client.shared o .empty = (.ok 0, u) ∧
      Client.shared (.ofEntries given.reverse []) u = (.ok 0, u) := by
  intro given o u
  have distinct : given.keys.Nodup := by decide
  have hperm : given.Perm given.reverse := given.reverse_perm.symm
  have hsame : SameArranged given given.reverse := arrangement_irrelevant distinct hperm
  have hkeyed : ∀ e ∈ o.settings, Keyed e.2 := by decide
  have hkey : o.key.isKey = true :=
    (Order.isKey_key_iff o).mpr ⟨(areKeys_settingsKey_iff _).mpr hkeyed, by decide, by decide⟩
  have hfirst : Client.shared o .empty = (.ok 0, u) := Prod.ext (shared_empty hkey) rfl
  exact ⟨distinct, hperm, hsame, hfirst,
    hsame.again [] [] [] [] .empty u u 0 [] (by decide) .start hfirst .start (by simp) (by simp)⟩

/-- A view of bytes that can be written to, whose hash fails by what it is and not by its type. -/
def writableView : Value :=
  .object ⟨1, .other, "<memory at 0x7f6d4c0a1e40>", true,
    some (.value, "cannot hash writable memoryview object")⟩

/-- There is no key for such a setting. -/
theorem memoryview_refused :
    let failure : Failure := .outside .value "cannot hash writable memoryview object"
    Entries.keys [("options", writableView)] = ["options"] ∧ writableView.nanFree = true ∧
      cacheKey [("options", writableView)] = .error failure ∧ failure.family = .value ∧
      Client.shared (.ofEntries [("options", writableView)] []) .empty = (.error failure, .empty) :=
  ⟨rfl, rfl, by with_unfolding_all rfl, rfl, by with_unfolding_all rfl⟩

end

end Client

end TableAccess
