import Mathlib.Data.List.Sort
import TableAccess.Proofs.Value.Mapping
import TableAccess.Registry

/-! What a registry answers. As long as no name is in it twice (`Distinct`), which registering and
unregistering preserve, the names that it lists are those under which it finds something, in strictly
ascending order, and it counts as many. -/

namespace TableAccess

namespace Registry

variable {α : Type} {r : Registry α}

/-- No name is in the registry twice. -/
def Distinct (r : Registry α) : Prop := (r.entries.map (·.1)).Nodup

theorem Distinct.empty : (empty : Registry α).Distinct := List.nodup_nil

theorem Distinct.without (h : r.Distinct) (name : String) : (r.without name).Distinct :=
  h.sublist (List.filter_sublist.map _)

theorem Distinct.register (h : r.Distinct) (name : String) (a : α) : (r.register name a).Distinct := by
  refine List.nodup_cons.mpr ⟨fun hm => ?_, h.without name⟩
  obtain ⟨e, he, heq⟩ := List.mem_map.mp hm
  have hne := (List.mem_filter.mp he).2
  simp [heq] at hne

theorem find?_isSome_iff {name : String} : (r.find? name).isSome = true ↔ name ∈ r.entries.map (·.1) := by
  rw [find?, Option.isSome_map, List.find?_isSome]
  simp

theorem mem_names_iff {name : String} : name ∈ r.names ↔ (r.find? name).isSome = true := by
  rw [names, List.mem_mergeSort, find?_isSome_iff]

theorem names_ascending (h : r.Distinct) : r.names.Pairwise (· < ·) := by
  have hordered : r.names.Pairwise fun a b => decide (a ≤ b) = true := List.pairwise_mergeSort
    (fun a b c hab hbc => by simpa using String.le_trans (by simpa using hab) (by simpa using hbc))
    (fun a b => by simpa using String.le_total a b) _
  have hdistinct : r.names.Nodup := (List.mergeSort_perm _ _).nodup_iff.mpr h
  exact Entries.ascending_of_nodup (hordered.imp (by simp)) hdistinct

theorem length_names : r.names.length = r.size := by
  rw [names, List.length_mergeSort, List.length_map, size]

end Registry

end TableAccess
