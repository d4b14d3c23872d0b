import Mathlib.Data.List.Basic
import TableAccess.Proofs.Condition.Mapping

/-! The levels of a condition mapping, one after the other. `flat` lists the entries outside the
reserved key, those of a mapping before those of its members, at every depth; what a condition gives
level by level, such as its keys, it gives for the entries of this list (`read_tree`). -/

namespace TableAccess

namespace Entries

/-- The entries of every level, those of a mapping before those of its members. -/
def flat (es : Entries) : Entries :=
  es.own ++ es.members.attach.flatMap fun member => flat member.1
termination_by sizeOf es
decreasing_by exact sizeOf_lt_of_mem_members member.2

theorem flat_eq (es : Entries) : es.flat = es.own ++ es.members.flatMap flat := by
  rw [flat, List.flatMap_subtype, List.unattach_attach]
  exact fun m hm => rfl

end Entries

namespace Condition

open Entries

/-- What a condition gives for its own entries and then for its alternatives, it gives for the entries
of every level. -/
theorem read_tree {α : Type} {read : Condition → List α} {ofEntry : String × Value → α}
    (level : ∀ own alternatives,
      read (.node own alternatives) = own.map ofEntry ++ alternatives.flatMap read)
    {es : Entries} (h : WellFormed es) : read (tree es) = es.flat.map ofEntry := by
  induction h with
  | @intro es shape inner ih =>
    have hm : ∀ m ∈ es.members, read (tree m) = m.flat.map ofEntry := by
      intro m hm
      obtain ⟨v, hv, hmv⟩ := mem_entry_of_mem_members hm
      exact ih v hv m hmv
    rw [tree_eq (.intro shape inner), level, flat_eq, List.map_append, List.map_flatMap,
      List.flatMap_map, List.flatMap_congr hm]

theorem keysAll_eq (cs : List Condition) : keysAll cs = cs.flatMap keys := by
  induction cs with
  | nil => rfl
  | cons c cs ih => rw [keysAll, ih, List.flatMap_cons]

theorem keys_tree {es : Entries} (h : WellFormed es) : (tree es).keys = es.flat.map (·.1) :=
  read_tree (fun own alternatives => by rw [keys, keysAll_eq]) h

end Condition

end TableAccess
