import Mathlib.Data.List.Forall2
import Mathlib.Data.List.Sort
import TableAccess.Proofs.Condition.Mapping
import TableAccess.Value.Equality

/-! Mappings name by name. Two mappings with distinct names are related if under every name both have
nothing or related values; that does not depend on the order of their entries, so that it can be read
off from both in the order of their names (`forall₂_sorted_iff`). Equality of mappings is one such
relation (`same_map_iff`). -/

namespace TableAccess

namespace Entries

/-- Under every name, both mappings have nothing or related values. -/
def Related (r : Value → Value → Prop) (es fs : Entries) : Prop :=
  ∀ name, Option.Rel r (es.get? name) (fs.get? name)

variable {r : Value → Value → Prop} {es fs : Entries}

theorem get?_cons (e : String × Value) (es : Entries) (name : String) :
    get? (e :: es) name = if e.1 = name then some e.2 else get? es name := by
  by_cases h : e.1 = name
  · simp [get?, h]
  · have hb : (e.1 == name) = false := by simp [h]
    simp [get?, h, hb]

theorem get?_eq_none_iff {name : String} : es.get? name = none ↔ name ∉ es.keys := by
  induction es with
  | nil => simp [get?, keys]
  | cons e es ih =>
    have hkeys : keys (e :: es) = e.1 :: keys es := rfl
    rw [get?_cons, hkeys, List.mem_cons, not_or, ← ih]
    by_cases h : e.1 = name
    · simp [h]
    · simp [h, Ne.symm h]

theorem perm_keys (h : es.Perm fs) : es.keys.Perm fs.keys := h.map _

theorem get?_eq_some_iff (distinct : es.keys.Nodup) {name : String} {v : Value} :
    es.get? name = some v ↔ (name, v) ∈ es := by
  refine ⟨mem_of_get?_eq_some, fun h => ?_⟩
  induction es with
  | nil => simp at h
  | cons e es ih =>
    obtain ⟨hnot, hrest⟩ := List.nodup_cons.mp distinct
    rw [get?_cons]
    rcases List.mem_cons.mp h with rfl | h
    · rw [if_pos rfl]
    · have hne : e.1 ≠ name := by
        rintro rfl
        exact hnot (List.mem_map.mpr ⟨_, h, rfl⟩)
      rw [if_neg hne, ih hrest h]

theorem get?_perm (h : es.Perm fs) (distinct : es.keys.Nodup) (name : String) :
    es.get? name = fs.get? name := by
  have hfs : fs.keys.Nodup := (perm_keys h).nodup_iff.mp distinct
  refine Option.ext fun v => ?_
  rw [get?_eq_some_iff distinct, get?_eq_some_iff hfs, h.mem_iff]

theorem Related.mem_keys_iff (h : Related r es fs) (name : String) :
    name ∈ es.keys ↔ name ∈ fs.keys := by
  rw [← not_iff_not, ← get?_eq_none_iff, ← get?_eq_none_iff]
  have hname := h name
  generalize es.get? name = x, fs.get? name = y at hname ⊢
  cases hname with
  | none => simp
  | some => simp

theorem Related.keys_perm (h : Related r es fs) (distinct : es.keys.Nodup)
    (distinct' : fs.keys.Nodup) : es.keys.Perm fs.keys :=
  (List.perm_ext_iff_of_nodup distinct distinct').mpr h.mem_keys_iff

theorem related_of_forall₂ (h : List.Forall₂ (fun e f => e.1 = f.1 ∧ r e.2 f.2) es fs) :
    Related r es fs := by
  intro name
  induction h with
  | nil => exact .none
  | @cons e f es fs hef _ ih =>
    rw [get?_cons, get?_cons, ← hef.1]
    split
    · exact .some hef.2
    · exact ih

theorem Related.forall₂ (h : Related r es fs) (hkeys : es.keys = fs.keys) (distinct : es.keys.Nodup) :
    List.Forall₂ (fun e f => e.1 = f.1 ∧ r e.2 f.2) es fs := by
  induction es generalizing fs with
  | nil =>
    obtain rfl : fs = [] := List.map_eq_nil_iff.mp hkeys.symm
    exact .nil
  | cons e es ih =>
    cases fs with
    | nil => cases hkeys
    | cons f fs =>
      obtain ⟨hname, hrest⟩ := List.cons.inj hkeys
      obtain ⟨hnot, hdistinct⟩ := List.nodup_cons.mp distinct
      have hef := h e.1
      rw [get?_cons, get?_cons, if_pos rfl, if_pos hname.symm] at hef
      refine .cons ⟨hname, by cases hef; assumption⟩ (ih (fun name => ?_) hrest hdistinct)
      by_cases hn : e.1 = name
      · -- Behind its entry, neither has the name again.
        have hf : name ∉ keys fs := by
          rw [← hn, ← show List.map (·.1) es = keys fs from hrest]
          exact hnot
        rw [get?_eq_none_iff.mpr (hn ▸ hnot), get?_eq_none_iff.mpr hf]
        exact .none
      · have hother := h name
        rwa [get?_cons, get?_cons, if_neg hn, if_neg fun hf => hn (hname.trans hf)] at hother

/-- Names in order, and none of them twice. -/
theorem ascending_of_nodup {names : List String} (ordered : names.Pairwise (· ≤ ·))
    (distinct : names.Nodup) : names.Pairwise (· < ·) :=
  (ordered.and distinct).imp fun h =>
    String.not_le.mp fun hle => h.2 (String.le_antisymm h.1 hle)

/-- The entries in the order of their names. -/
def sorted (es : Entries) : Entries := es.mergeSort fun a b => decide (a.1 ≤ b.1)

theorem sorted_perm (es : Entries) : (sorted es).Perm es := List.mergeSort_perm _ _

theorem keys_sorted (es : Entries) : (sorted es).keys.Pairwise (· ≤ ·) := by
  have h : (sorted es).Pairwise fun a b => decide (a.1 ≤ b.1) = true := List.pairwise_mergeSort
    (fun a b c hab hbc => by simpa using String.le_trans (by simpa using hab) (by simpa using hbc))
    (fun a b => by simpa using String.le_total a.1 b.1) es
  exact List.pairwise_map.mpr (h.imp (by simp))

/-- Two mappings are related exactly if they are, entry by entry, in the order of their names. -/
theorem forall₂_sorted_iff (distinct : es.keys.Nodup) (distinct' : fs.keys.Nodup) :
    List.Forall₂ (fun e f => e.1 = f.1 ∧ r e.2 f.2) (sorted es) (sorted fs) ↔ Related r es fs := by
  have hes : (sorted es).keys.Nodup := (perm_keys (sorted_perm es)).nodup_iff.mpr distinct
  have hfs : (sorted fs).keys.Nodup := (perm_keys (sorted_perm fs)).nodup_iff.mpr distinct'
  have hiff : Related r (sorted es) (sorted fs) ↔ Related r es fs := by
    unfold Related
    simp only [get?_perm (sorted_perm es) hes, get?_perm (sorted_perm fs) hfs]
  rw [← hiff]
  refine ⟨related_of_forall₂, fun h => h.forall₂ ?_ hes⟩
  exact (h.keys_perm hes hfs).eq_of_pairwise' (keys_sorted es) (keys_sorted fs)

end Entries

namespace Value

theorem sameAll_iff (xs ys : List Value) :
    sameAll xs ys = true ↔ List.Forall₂ (fun x y => x.same y = true) xs ys := by
  induction xs generalizing ys with
  | nil => cases ys <;> simp [sameAll]
  | cons x xs ih =>
    cases ys with
    | nil => simp [sameAll]
    | cons y ys => rw [sameAll, Bool.and_eq_true, ih, List.forall₂_cons]

theorem sameEntries_iff (es fs : Entries) : sameEntries es fs = true ↔
    ∀ e ∈ es, ∃ y, fs.get? e.1 = some y ∧ e.2.same y = true := by
  induction es with
  | nil => simp [sameEntries]
  | cons e es ih =>
    rw [sameEntries, Bool.and_eq_true, ih, List.forall_mem_cons]
    refine and_congr_left fun _ => ?_
    cases fs.get? e.1 <;> simp

/-- Mappings are equal if they have the same names and equal values under each. -/
theorem same_map_iff {es fs : Entries} (distinct : es.keys.Nodup) (distinct' : fs.keys.Nodup) :
    (Value.map es).same (.map fs) = true ↔ es.Related (fun x y => x.same y = true) fs := by
  rw [same, Bool.and_eq_true, beq_iff_eq, sameEntries_iff]
  constructor
  · rintro ⟨hlength, hall⟩ name
    have hsub : es.keys ⊆ fs.keys := fun k hk => by
      obtain ⟨e, he, rfl⟩ := List.mem_map.mp hk
      obtain ⟨y, hy, -⟩ := hall e he
      by_contra hnot
      rw [Entries.get?_eq_none_iff.mpr hnot] at hy
      cases hy
    have hperm : es.keys.Perm fs.keys :=
      (List.subperm_of_subset distinct hsub).perm_of_length_le (by simp [Entries.keys, hlength])
    cases hx : es.get? name with
    | none =>
      have hnot : name ∉ fs.keys := hperm.mem_iff.not.mp (Entries.get?_eq_none_iff.mp hx)
      rw [Entries.get?_eq_none_iff.mpr hnot]
      exact .none
    | some x =>
      obtain ⟨y, hy, hxy⟩ := hall _ ((Entries.get?_eq_some_iff distinct).mp hx)
      rw [hy]
      exact .some hxy
  · intro h
    refine ⟨?_, fun e he => ?_⟩
    · simpa [Entries.keys] using (h.keys_perm distinct distinct').length_eq
    · have hname := h e.1
      rw [(Entries.get?_eq_some_iff distinct).mpr he] at hname
      cases hy : fs.get? e.1 with
      | none =>
        rw [hy] at hname
        cases hname
      | some y =>
        rw [hy] at hname
        cases hname with
        | some hxy => exact ⟨y, rfl, hxy⟩

end Value

end TableAccess
