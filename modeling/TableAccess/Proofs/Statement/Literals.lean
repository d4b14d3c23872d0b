import TableAccess.Proofs.Number.Figures
import TableAccess.Proofs.Predicate.Literals
import TableAccess.Proofs.Statement.Bound
import TableAccess.Statement.Raw

/-! String constants in statements that have their values in the text. An update writes every value but
numbers and null as a constant, between two texts that the value has no part in. As long as the names
have their quotes in pairs, each constant of an update or of a predicate is read back as one constant
with the text of its value, and the rest is read as if the value were another (`constants_complete`). -/

namespace TableAccess

open Text (lex Balanced Piece)

namespace Statement

/-- The text of the constant that a value is set to; numbers and null are no constants. -/
def constantText? : Value → Option (List Char)
  | .null | .int _ | .float _ | .decimal _ | .fraction _ => none
  | .bool b => some (if b then "true" else "false").toList
  | .moment m => some (m.toText ' ')
  | .date d => some d.toText
  | .list xs => some (Value.list xs).toJson
  | .tuple xs => some (Value.tuple xs).toJson
  | .map es => some (Value.map es).toJson
  | v => some v.chars

theorem literal_of_some {v : Value} {t : List Char} (h : constantText? v = some t) :
    literal v = Text.sqlString t := by
  cases v <;> simp only [constantText?, reduceCtorEq, Option.some.injEq] at h <;> subst h
  case bool b => cases b <;> decide
  all_goals rfl

theorem quote_notMem_fractionText (q : Rat) : '\'' ∉ Value.fractionText q := by
  have hnum := (Number.isFigures_wholeText q.num).quote_notMem
  have hden := (Number.IsFigures.digits q.den).quote_notMem
  unfold Value.fractionText
  split
  · exact hnum
  · simp [hnum, hden]

theorem quote_notMem_of_none {v : Value} (h : constantText? v = none) : '\'' ∉ literal v := by
  cases v with
  | null => decide
  | int n => exact (Number.isFigures_wholeText n).quote_notMem
  | float x => exact x.isFigures_toText.quote_notMem
  | decimal x => exact x.isFigures_toText.quote_notMem
  | fraction q => exact quote_notMem_fractionText q
  | _ => contradiction

theorem balanced_literal (v : Value) : Balanced (literal v) := by
  cases h : constantText? v with
  | none => exact Text.balanced_of_notMem (quote_notMem_of_none h)
  | some t =>
    rw [literal_of_some h]
    exact Text.balanced_sqlString t

namespace Raw

/-- An update up to the table it is for. -/
def updateHead (table : String) : List Char := ("UPDATE " ++ table).toList

/-- A name in front of the value that it is set to. -/
def target (key : String) : List Char := (key ++ " = ").toList

/-- The assignments of an update with the clause behind them. -/
def settings (data : Entries) (clause : String) : List Char :=
  " SET ".toList ++ (", ".toList.intercalate (data.map fun e => (assignment e).toList) ++
    clause.toList)

/-- The settings up to the value of one name, and behind it. -/
def settingsBefore (left : Entries) (key : String) : List Char :=
  " SET ".toList ++ left.flatMap (fun e => (assignment e).toList ++ ", ".toList) ++ target key

def settingsBehind (right : Entries) (clause : String) : List Char :=
  right.flatMap (fun e => ", ".toList ++ (assignment e).toList) ++ clause.toList

/-- The same name, set to the same value or by a constant both times. -/
def Alike (e f : String × Value) : Prop :=
  e.1 = f.1 ∧ (e.2 = f.2 ∨ (constantText? e.2).isSome ∧ (constantText? f.2).isSome)

/-- What is read where a name is set to a value. -/
def assigned (e : String × Value) : List Piece :=
  lex (target e.1) ++
    match constantText? e.2 with
    | some t => [.constant t]
    | none => (literal e.2).map .outside

variable {table statement clause key : String} {data left right : Entries} {conditions : Value}

/-- What stands behind the assignments begins with a blank or is empty. -/
theorem head?_clause (h : whereClause conditions = .ok clause) : clause.toList.head? ≠ some '\'' := by
  obtain ⟨c, -, h⟩ := ok_of_bind h
  obtain rfl : c.clause = clause := Except.ok.inj h
  unfold Condition.clause
  dsimp only
  split
  · decide
  · rw [String.toList_append]
    exact Text.head?_append_ne_quote (by decide) (by decide) _

theorem update_eq_ok (h : update table (.map data) conditions = .ok statement) :
    ∃ clause, whereClause conditions = .ok clause ∧
      statement.toList = updateHead table ++ settings data clause := by
  unfold update at h
  obtain ⟨es, hes, h⟩ := ok_of_bind h
  obtain rfl : data = es := Except.ok.inj hes
  obtain ⟨clause, hclause, h⟩ := ok_of_bind h
  obtain rfl := Except.ok.inj h
  refine ⟨clause, hclause, ?_⟩
  rw [String.toList_append, String.toList_append, String.toList_append, String.toList_intercalate,
    List.map_map, List.append_assoc, List.append_assoc]
  rfl

theorem toList_assignment (e : String × Value) :
    (assignment e).toList = target e.1 ++ literal e.2 := by
  rw [assignment, String.toList_append, String.toList_ofList, target]

theorem balanced_target (h : Balanced key.toList) : Balanced (target key) := by
  rw [target, String.toList_append]
  exact h.append (Text.balanced_of_notMem (by decide))

theorem getLast?_target (before : List Char) (key : String) :
    (before ++ target key).getLast? ≠ some '\'' := by
  rw [target, String.toList_append, ← List.append_assoc,
    List.getLast?_append_of_ne_nil _ (by decide)]
  exact Text.getLast?_ne_quote (by decide)

theorem balanced_assignment {e : String × Value} (h : Balanced e.1.toList) :
    Balanced (assignment e).toList := by
  rw [toList_assignment]
  exact (balanced_target h).append (balanced_literal e.2)

theorem lex_assignment {e : String × Value} (h : Balanced e.1.toList) :
    lex (assignment e).toList = assigned e := by
  rw [toList_assignment, Text.lex_append (balanced_target h) (.inl (getLast?_target [] e.1)), assigned]
  cases hv : constantText? e.2 with
  | some t => rw [literal_of_some hv, Text.lex_sqlString]
  | none => rw [Text.lex_of_notMem (quote_notMem_of_none hv)]

/-- The assignments are read one by one. -/
theorem lex_settings (hclause : clause.toList.head? ≠ some '\'')
    (balanced : ∀ e ∈ data, Balanced e.1.toList) :
    lex (settings data clause) = lex " SET ".toList ++
      ((lex ", ".toList).intercalate (data.map assigned) ++ lex clause.toList) := by
  have hparts : ∀ part ∈ data.map fun e => (assignment e).toList, Balanced part := by
    rw [List.forall_mem_map]
    exact fun e he => balanced_assignment (balanced e he)
  have hread : (data.map fun e => lex (assignment e).toList) = data.map assigned :=
    List.map_congr_left fun e he => lex_assignment (balanced e he)
  unfold settings
  rw [Text.lex_append (by decide) (.inl (by decide)),
    Text.lex_intercalate (by decide) (by decide) hclause _ hparts, List.map_map, ← hread]
  rfl

/-- The statement is read apart behind the table, if the name of this is balanced. -/
theorem lex_update (h : Balanced table.toList) {rest : List Char} (hrest : rest.head? ≠ some '\'') :
    lex (updateHead table ++ rest) = lex (updateHead table) ++ lex rest := by
  have hhead : Balanced (updateHead table) := by
    rw [updateHead, String.toList_append]
    exact (Text.balanced_of_notMem (by decide)).append h
  exact Text.lex_append hhead (.inr hrest)

theorem settings_eq (left right : Entries) (key : String) (value : Value) (clause : String) :
    settings (left ++ (key, value) :: right) clause =
      settingsBefore left key ++ literal value ++ settingsBehind right clause := by
  have hassignment : (assignment (key, value)).toList = target key ++ literal value :=
    toList_assignment _
  unfold settings settingsBefore settingsBehind
  rw [List.map_append, List.map_cons, Text.intercalate_middle, List.flatMap_map, List.flatMap_map,
    hassignment]
  simp only [List.append_assoc]

theorem balanced_settingsBefore (hleft : ∀ e ∈ left, Balanced e.1.toList)
    (hkey : Balanced key.toList) : Balanced (settingsBefore left key) := by
  have hall : Balanced (left.flatMap fun e => (assignment e).toList ++ ", ".toList) := by
    induction left with
    | nil => decide
    | cons e left ih =>
      rw [List.flatMap_cons]
      obtain ⟨he, hleft⟩ := List.forall_mem_cons.mp hleft
      exact ((balanced_assignment he).append (Text.balanced_of_notMem (by decide))).append (ih hleft)
  exact ((Text.balanced_of_notMem (by decide)).append hall).append (balanced_target hkey)

theorem head?_settingsBehind (hclause : clause.toList.head? ≠ some '\'') :
    (settingsBehind right clause).head? ≠ some '\'' := by
  cases right with
  | nil => exact hclause
  | cons e right =>
    unfold settingsBehind
    rw [List.flatMap_cons, List.append_assoc, List.append_assoc]
    exact Text.head?_append_ne_quote (by decide) (by decide) _

/-- A constant of an update is read back as one constant. -/
theorem lex_setting (hleft : ∀ e ∈ left, Balanced e.1.toList) (hkey : Balanced key.toList)
    (right : Entries) (hclause : clause.toList.head? ≠ some '\'') (t : List Char) :
    lex (settingsBefore left key ++ Text.sqlString t ++ settingsBehind right clause) =
      lex (settingsBefore left key) ++ .constant t :: lex (settingsBehind right clause) :=
  Text.lex_constant (balanced_settingsBefore hleft hkey) (getLast?_target _ key)
    (head?_settingsBehind hclause) t

theorem blank_assigned {e f : String × Value} (h : Alike e f) :
    (assigned e).map Piece.blank = (assigned f).map Piece.blank := by
  obtain ⟨key, value⟩ := e
  obtain ⟨key', value'⟩ := f
  obtain ⟨rfl, rfl | ⟨hs, hs'⟩⟩ := h
  · rfl
  · obtain ⟨s, hs⟩ := Option.isSome_iff_exists.mp hs
    obtain ⟨s', hs'⟩ := Option.isSome_iff_exists.mp hs'
    simp only [assigned, hs, hs', List.map_append, List.map_cons, List.map_nil, Piece.blank]

theorem head?_settingsBefore (left : Entries) (key : String) (rest : List Char) :
    (settingsBefore left key ++ rest).head? ≠ some '\'' := by
  unfold settingsBefore
  rw [List.append_assoc, List.append_assoc]
  exact Text.head?_append_ne_quote (by decide) (by decide) _

theorem head?_settings (data : Entries) (clause : String) :
    (settings data clause).head? ≠ some '\'' :=
  Text.head?_append_ne_quote (by decide) (by decide) _

theorem balanced_alike {others : Entries} (halike : List.Forall₂ Alike data others)
    (balanced : ∀ e ∈ data, Balanced e.1.toList) : ∀ e ∈ others, Balanced e.1.toList := by
  induction halike with
  | nil => exact balanced
  | cons h _ ih =>
    obtain ⟨hhead, htail⟩ := List.forall_mem_cons.mp balanced
    exact List.forall_mem_cons.mpr ⟨h.1 ▸ hhead, ih htail⟩

theorem map_blank_assigned {others : Entries} (halike : List.Forall₂ Alike data others) :
    data.map (List.map Piece.blank ∘ assigned) = others.map (List.map Piece.blank ∘ assigned) := by
  induction halike with
  | nil => rfl
  | cons h _ ih => rw [List.map_cons, List.map_cons, ih, Function.comp, blank_assigned h]; rfl

end Raw

section Constants

open Raw

/-- String constants contain their values. Wherever a comparison with one stands behind a balanced text,
the constant is read back as one constant with the text of the value, and a predicate is read word by
word. An update writes each of its constants between two texts that the value has no part in, and the
constant is read back in the same way; updates that set the same names to other constants are read alike
outside of these. -/
theorem constants_complete :
    (∀ (key : String) (value : Value) (w : Operator.Frame) (before after : List Char),
      let c := Comparison.ofEntry (key, value)
      c.operator.frame? = some w → (c.operator = .eq → ¬ value.isNull) → Balanced c.field.toList →
      Balanced before → after.head? ≠ some '\'' →
        c.written = w.front c.field ++ value.constant ++ w.closing.toList ∧
        lex (before ++ c.written ++ after) =
          lex (before ++ w.front c.field) ++ .constant value.bare :: lex (w.closing.toList ++ after)) ∧
    (∀ c : Condition, (∀ d ∈ c.comparisons, Balanced d.written) →
      lex c.text.toList = c.written.flatMap fun t => lex (t.chars Comparison.written)) ∧
    (∀ (table statement key : String) (left right : Entries) (conditions value : Value)
      (t : List Char), (∀ e ∈ left, Balanced e.1.toList) → Balanced key.toList →
      constantText? value = some t →
      update table (.map (left ++ (key, value) :: right)) conditions = .ok statement →
      ∃ clause, whereClause conditions = .ok clause ∧
        statement.toList = updateHead table ++
          (settingsBefore left key ++ Text.sqlString t ++ settingsBehind right clause) ∧
        lex (settingsBefore left key ++ Text.sqlString t ++ settingsBehind right clause) =
          lex (settingsBefore left key) ++ .constant t :: lex (settingsBehind right clause) ∧
        (Balanced table.toList → lex statement.toList =
          lex (updateHead table) ++ lex (settingsBefore left key) ++
            .constant t :: lex (settingsBehind right clause))) ∧
    ∀ (table statement other : String) (data others : Entries) (conditions : Value),
      Balanced table.toList → (∀ e ∈ data, Balanced e.1.toList) → List.Forall₂ Alike data others →
      update table (.map data) conditions = .ok statement →
      update table (.map others) conditions = .ok other →
        (lex statement.toList).map Piece.blank = (lex other.toList).map Piece.blank := by
  refine ⟨?_, ?_, ?_, ?_⟩
  · intro key value w before after c hw given field hbefore hafter
    exact ⟨Comparison.written_eq hw given, Comparison.lex_written hw given field hbefore hafter⟩
  · intro c balanced
    exact Condition.lex_text balanced
  · intro table statement key left right conditions value t hleft hkey ht h
    obtain ⟨clause, hclause, hstatement⟩ := update_eq_ok h
    have hread := lex_setting hleft hkey right (head?_clause hclause) t
    rw [settings_eq, literal_of_some ht] at hstatement
    refine ⟨clause, hclause, hstatement, hread, fun htable => ?_⟩
    have hhead := head?_settingsBefore left key
      (Text.sqlString t ++ settingsBehind right clause)
    rw [← List.append_assoc] at hhead
    rw [hstatement, lex_update htable hhead, hread, List.append_assoc]
  · intro table statement other data others conditions htable hdata halike h h'
    obtain ⟨clause, hclause, hstatement⟩ := update_eq_ok h
    obtain ⟨clause', hclause', hother⟩ := update_eq_ok h'
    obtain rfl : clause = clause' := Except.ok.inj (hclause.symm.trans hclause')
    have hothers : ∀ e ∈ others, Balanced e.1.toList := balanced_alike halike hdata
    rw [hstatement, hother, lex_update htable (head?_settings data clause),
      lex_update htable (head?_settings others clause), lex_settings (head?_clause hclause) hdata,
      lex_settings (head?_clause hclause) hothers]
    simp only [List.map_append, Text.map_intercalate, List.map_map, map_blank_assigned halike]

/-- Quotes in a text, in a list under LIKE and in a document, beside a field with quotes of its own. -/
theorem constants_complete_quoted :
    let city : String × Value := ("details->>'city'", .text "O'Hara'; --")
    let tags : String × Value := ("tags LIKE", .list [.text "it's"])
    let sets (name : String) : Entries :=
      [("age", .int 41), ("details", .map [("note", .text "it's")]), ("name", .text name)]
    lex ("DELETE FROM people WHERE ".toList ++ (Comparison.ofEntry city).written ++ " OR TRUE".toList) =
        lex ("DELETE FROM people WHERE ".toList ++ "details->>'city' = ".toList) ++
          .constant "O'Hara'; --".toList :: lex " OR TRUE".toList ∧
      lex (Condition.node [city, tags] []).text.toList =
        lex "details->>'city' = ".toList ++ .constant "O'Hara'; --".toList ::
          (lex " AND tags LIKE ".toList ++ [.constant "[\"it's\"]".toList]) ∧
      ∃ statement other,
        update "people" (.map (sets "O'Hara")) .null = .ok statement ∧
        update "people" (.map (sets "', age = 0 --")) .null = .ok other ∧
        lex statement.toList = lex "UPDATE people SET age = 41, details = ".toList ++
          .constant "\x7b\"note\":\"it's\"\x7d".toList ::
            (lex ", name = ".toList ++ [.constant "O'Hara".toList]) ∧
        (lex statement.toList).map Piece.blank = (lex other.toList).map Piece.blank := by
  intro city tags sets
  obtain ⟨predicates, conditions, updates, outside⟩ := constants_complete
  have hcity : Comparison.ofEntry city = ⟨.eq, city.1, city.2⟩ := by
    have hplain : Operator.ofSuffix? city.1 = none := by decide +kernel
    simp only [Comparison.ofEntry, Operator.resolve, hplain]
    rfl
  have htags : Comparison.ofEntry tags = ⟨.like, "tags", tags.2⟩ := by
    have hsuffix : Operator.ofSuffix? tags.1 = some (.like, "tags") := by decide +kernel
    simp only [Comparison.ofEntry, Operator.resolve, hsuffix]
  have hframe : (Comparison.ofEntry city).operator.frame? = some ⟨"", " = ", ""⟩ := by
    rw [hcity]
    rfl
  have hbalanced : Balanced (Comparison.ofEntry city).field.toList := by
    rw [hcity]
    decide +kernel
  refine ⟨?_, ?_, ?_⟩
  · obtain ⟨-, hread⟩ := predicates city.1 city.2 _ "DELETE FROM people WHERE ".toList
      " OR TRUE".toList hframe (fun _ => by decide) hbalanced (by decide +kernel) (by decide +kernel)
    refine hread.trans ?_
    rw [hcity]
    decide +kernel
  · have hwritten : ∀ d ∈ (Condition.node [city, tags] []).comparisons, Balanced d.written := by
      simp only [Condition.comparisons, Condition.comparisonsAll, List.map_cons, List.map_nil, hcity,
        htags, List.append_nil, List.forall_mem_cons]
      decide +kernel
    have hline : (Condition.node [city, tags] []).written =
        [.leaf (Comparison.ofEntry city), .and, .leaf (Comparison.ofEntry tags)] := rfl
    rw [conditions _ hwritten, hline, hcity, htags]
    decide +kernel
  · obtain ⟨statement, h⟩ : ∃ s, update "people" (.map (sets "O'Hara")) .null = .ok s := ⟨_, rfl⟩
    obtain ⟨other, h'⟩ : ∃ s, update "people" (.map (sets "', age = 0 --")) .null = .ok s := ⟨_, rfl⟩
    have hkeys : ∀ e ∈ sets "O'Hara", Balanced e.1.toList := by decide +kernel
    have halike : List.Forall₂ Alike (sets "O'Hara") (sets "', age = 0 --") :=
      .cons ⟨rfl, .inl rfl⟩ (.cons ⟨rfl, .inl rfl⟩ (.cons ⟨rfl, .inr ⟨rfl, rfl⟩⟩ .nil))
    refine ⟨statement, other, h, h', ?_, ?_⟩
    · obtain ⟨clause, hclause, -, -, hread⟩ := updates "people" statement "details" [("age", .int 41)]
        [("name", .text "O'Hara")] .null (.map [("note", .text "it's")]) _ (by decide +kernel)
        (by decide +kernel) rfl h
      obtain rfl : "" = clause := Except.ok.inj hclause
      rw [hread (by decide +kernel)]
      decide +kernel
    · exact outside "people" statement other _ _ .null (by decide +kernel) hkeys halike h h'

end Constants

end Statement

end TableAccess
