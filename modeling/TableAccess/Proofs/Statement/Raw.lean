import TableAccess.Proofs.Condition.Mapping
import TableAccess.Statement.Raw

/-! Statements about the rows that satisfy a well-formed condition. Selecting them, counting them and
updating them is said of a table in one text each, and the text ends in the same clause. -/

namespace TableAccess.Statement.Raw

/-- The select of the rows that satisfy a condition. -/
def selectWhere (table : String) (condition : Condition) : String :=
  "SELECT * FROM " ++ table ++ condition.clause

/-- The count of the rows that satisfy a condition. -/
def countWhere (table : String) (condition : Condition) : String :=
  "SELECT count(id) FROM " ++ table ++ condition.clause

/-- The update of the rows that satisfy a condition. -/
def updateWhere (table : String) (sets : Entries) (condition : Condition) : String :=
  "UPDATE " ++ table ++ " SET " ++ ", ".intercalate (sets.map assignment) ++ condition.clause

variable {es : Entries} (table : String) (h : es.WellFormed)
include h

theorem whereClause_tree : whereClause (.map es) = .ok (Condition.tree es).clause := by
  have hc : Condition.ofValue (.map es) = .ok (.tree es) := Condition.ofEntries_ok_iff.mpr ⟨h, rfl⟩
  unfold whereClause
  rw [hc]
  rfl

theorem select_tree : select table (.map es) .null = .ok (selectWhere table (.tree es)) := by
  unfold select
  rw [whereClause_tree h]
  show Except.ok ("SELECT * FROM " ++ table ++ (Condition.tree es).clause ++ "" ++ "" ++ "") = _
  simp only [String.append_empty]
  rfl

theorem count_tree : count table (.map es) = .ok (countWhere table (.tree es)) := by
  unfold count
  rw [whereClause_tree h]
  rfl

theorem update_tree (sets : Entries) :
    update table (.map sets) (.map es) = .ok (updateWhere table sets (.tree es)) := by
  unfold update
  rw [whereClause_tree h]
  rfl

end TableAccess.Statement.Raw
