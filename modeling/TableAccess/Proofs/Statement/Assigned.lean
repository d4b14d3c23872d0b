import TableAccess.Proofs.Number.Numerals
import TableAccess.Proofs.Statement.Literals

/-! What an update sets a name to. Null is written as a word of its own, a number as a numeral and
everything else as a string constant, so that no value can be taken for the name of a column: with the
exception of the numbers that no numeral stands for. NaN and the infinite ones are written as bare words, and
a fraction that is not whole is written as a quotient (`set_values_constant_iff`). -/

namespace TableAccess

open Number (Numeral Quotient Sign Word)

/-- A number that is none, or that has no bounds. -/
def Value.isSpecial : Value → Bool
  | .float x => !x.isFinite
  | .decimal x => !x.isFinite
  | _ => false

/-- A fraction that is not whole. -/
def Value.isQuotient : Value → Bool
  | .fraction q => q.den != 1
  | _ => false

namespace Statement

/-- The constants of a statement that can stand for a value. -/
inductive Constant : Value → List Char → Prop
  | null : Constant .null "NULL".toList
  | whole {n : Int} {cs : List Char} (numeral : Numeral cs) : Constant (.int n) cs
  | binary {x : Number.Binary} {cs : List Char} (numeral : Numeral cs) : Constant (.float x) cs
  | decimal {x : Number.Decimal} {cs : List Char} (numeral : Numeral cs) : Constant (.decimal x) cs
  | fraction {q : Rat} {cs : List Char} (numeral : Numeral cs) : Constant (.fraction q) cs
  | text {v : Value} {t : List Char} (quoted : constantText? v = some t) : Constant v (Text.sqlString t)

variable {v : Value}

theorem constant_literal (h : v.isSpecial = false) (hwhole : v.isQuotient = false) :
    Constant v (literal v) := by
  cases hv : constantText? v with
  | some t =>
    rw [literal_of_some hv]
    exact .text hv
  | none =>
    cases v with
    | null => exact .null
    | int n => exact .whole (Number.numeral_wholeText n)
    | float x => exact .binary (x.numeral_toText (by simpa [Value.isSpecial] using h))
    | decimal x => exact .decimal (x.numeral_toText (by simpa [Value.isSpecial] using h))
    | fraction q => exact .fraction (Number.numeral_fractionText (by simpa [Value.isQuotient] using hwhole))
    | _ => contradiction

theorem word_literal (h : v.isSpecial = true) :
    ∃ sign word, Sign sign ∧ Word word ∧ literal v = sign ++ word := by
  cases v with
  | float x => exact x.word_toText (by simpa [Value.isSpecial] using h)
  | decimal x => exact x.word_toText (by simpa [Value.isSpecial] using h)
  | _ => contradiction

theorem quotient_literal (h : v.isQuotient = true) : Quotient (literal v) := by
  cases v with
  | fraction q => exact Number.quotient_fractionText (by simpa [Value.isQuotient] using h)
  | _ => contradiction

/-- Only a numeral is a constant for a number that is not null, and a text for no number. -/
theorem numeral_of_constant {cs : List Char} (h : Constant v cs)
    (hv : v.isSpecial = true ∨ v.isQuotient = true) : Numeral cs := by
  cases h with
  | null => simp [Value.isSpecial, Value.isQuotient] at hv
  | whole _ => simp [Value.isSpecial, Value.isQuotient] at hv
  | binary numeral => exact numeral
  | decimal numeral => exact numeral
  | fraction numeral => exact numeral
  | text quoted =>
    cases v <;> first | contradiction | simp [Value.isSpecial, Value.isQuotient] at hv

/-- A special number is written as a word, a fraction that is not whole as a quotient, and only a numeral
would be a constant for one of them. -/
theorem constant_literal_iff :
    Constant v (literal v) ↔ v.isSpecial = false ∧ v.isQuotient = false := by
  refine ⟨fun h => ⟨?_, ?_⟩, fun h => constant_literal h.1 h.2⟩
  · by_contra hspecial
    rw [Bool.not_eq_false] at hspecial
    obtain ⟨sign, word, hsign, hword, hliteral⟩ := word_literal hspecial
    exact Number.not_numeral_word hsign hword (hliteral ▸ numeral_of_constant h (.inl hspecial))
  · by_contra hquotient
    rw [Bool.not_eq_false] at hquotient
    exact Number.not_numeral_quotient (quotient_literal hquotient)
      (numeral_of_constant h (.inr hquotient))

namespace Raw

variable {table clause : String} {data : Entries} {conditions : Value}

theorem update_of_clause (h : whereClause conditions = .ok clause) :
    ∃ statement, update table (.map data) conditions = .ok statement ∧
      statement.toList = updateHead table ++ settings data clause := by
  have hupdate : update table (.map data) conditions =
      .ok ("UPDATE " ++ table ++ " SET " ++ ", ".intercalate (data.map assignment) ++ clause) := by
    unfold update
    rw [h]
    rfl
  refine ⟨_, hupdate, ?_⟩
  obtain ⟨clause', hclause, htext⟩ := update_eq_ok hupdate
  obtain rfl : clause = clause' := Except.ok.inj (h.symm.trans hclause)
  exact htext

/-- A value ends where the next name, the condition or nothing stands. -/
theorem head?_behind (h : whereClause conditions = .ok clause) (right : Entries) :
    ∀ c ∈ (settingsBehind right clause).head?, c = ',' ∨ c = ' ' := by
  cases right with
  | nil =>
    obtain ⟨c, -, h⟩ := ok_of_bind h
    obtain rfl : c.clause = clause := Except.ok.inj h
    unfold settingsBehind Condition.clause
    dsimp only
    split
    · simp
    · simp [String.toList_append]
  | cons e right => simp [settingsBehind]

end Raw

open Raw

/-- An update is written whenever its condition is, and sets each name to a constant for the value, or to a
bare word if this is a special number, or to a quotient if it is a fraction that is not whole. -/
theorem set_values_constant_iff {table clause : String} {data : Entries} {conditions : Value}
    (h : whereClause conditions = .ok clause) :
    ∃ statement, update table (.map data) conditions = .ok statement ∧
      ∀ left key value right, data = left ++ (key, value) :: right →
        statement.toList = updateHead table ++
          (settingsBefore left key ++ literal value ++ settingsBehind right clause) ∧
        (∀ c ∈ (settingsBehind right clause).head?, c = ',' ∨ c = ' ') ∧
        (Constant value (literal value) ↔ value.isSpecial = false ∧ value.isQuotient = false) ∧
        (value.isSpecial = true → ∃ sign word, Sign sign ∧ Word word ∧ literal value = sign ++ word) ∧
        (value.isQuotient = true → Quotient (literal value)) := by
  obtain ⟨statement, hupdate, htext⟩ := @update_of_clause table clause data conditions h
  refine ⟨statement, hupdate, fun left key value right hdata =>
    ⟨?_, head?_behind h right, constant_literal_iff, word_literal, quotient_literal⟩⟩
  rw [htext, hdata, settings_eq]

/-- A number with a power of ten and a number that is none, in front of a condition. -/
theorem set_values_constant_iff_decimal :
    ∃ statement,
      update "users" (.map [("balance", .decimal (.finite true 15 2)), ("ratio", .float .nan)])
        (.map [("id >", .int 3)]) = .ok statement ∧
      statement.toList = "UPDATE users SET balance = -1.5E+3, ratio = nan WHERE id > 3".toList ∧
      Constant (.decimal (.finite true 15 2)) "-1.5E+3".toList ∧
      ¬ Constant (.float .nan) "nan".toList := by
  have hclause : whereClause (.map [("id >", .int 3)]) = .ok " WHERE id > 3" :=
    congrArg Except.ok
      (by decide +kernel : (Condition.node [("id >", .int 3)] []).clause = " WHERE id > 3")
  obtain ⟨statement, hupdate, hsets⟩ := @set_values_constant_iff "users" _
    [("balance", .decimal (.finite true 15 2)), ("ratio", .float .nan)] _ hclause
  obtain ⟨htext, -, hbalance, -⟩ := hsets [] _ _ _ rfl
  obtain ⟨-, -, hratio, -⟩ := hsets [_] _ _ [] rfl
  have hliteral : literal (.decimal (.finite true 15 2)) = "-1.5E+3".toList := by decide +kernel
  rw [hliteral] at hbalance
  refine ⟨statement, hupdate, ?_, hbalance.mpr ⟨rfl, rfl⟩, fun hnan => absurd (hratio.mp hnan).1 (by decide)⟩
  rw [htext]
  decide +kernel

/-- A score that is no number is written like the column `nan`, and one without bounds like `inf`. -/
theorem special_numbers_bare :
    update "users" (.map [("score", .float .nan)]) .null = .ok "UPDATE users SET score = nan" ∧
      ¬ Constant (.float .nan) "nan".toList ∧ Word "nan".toList ∧
    update "users" (.map [("score", .decimal (.infinite true))]) .null =
        .ok "UPDATE users SET score = -Infinity" ∧
      ¬ Constant (.decimal (.infinite true)) "-Infinity".toList := by
  have hnan : ¬ Constant (.float .nan) (literal (.float .nan)) :=
    fun h => absurd (constant_literal_iff.mp h).1 (by decide)
  have hinfinite : ¬ Constant (.decimal (.infinite true)) (literal (.decimal (.infinite true))) :=
    fun h => absurd (constant_literal_iff.mp h).1 (by decide)
  exact ⟨rfl, hnan, .of_all (by decide), rfl, hinfinite⟩

end Statement

end TableAccess
