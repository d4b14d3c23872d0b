import TableAccess.Proofs.Column.Table
import TableAccess.Proofs.Operator.Grammar
import TableAccess.Proofs.Statement.Percent

/-! The names of a search, clause by clause. A field is cut at its dots where it is compared and where it
is ordered by, and not in the list of columns, where its dots go between the quotes
(`clauses_agree_iff`). So a name without dots, whatever else is in it, denotes one column in all three
clauses, and a qualified name another one in the list of columns than behind it
(`qualified_column_apart`). -/

namespace TableAccess

namespace Fragment

/-- The parts of a field, as its dots separate them. -/
def parts (f : String) : List String := (Text.split '.' f.toList).map String.ofList

/-- Two lists of parts that are written alike are the same. -/
theorem chars_name_injective {parts others : List String}
    (h : (name parts).chars = (name others).chars) : parts = others := by
  have hlex := congrArg Lexeme.lex h
  rw [chars, chars, Lexeme.lex_dotted, Lexeme.lex_dotted] at hlex
  exact Text.dotted_injective (Option.some.inj hlex)

/-- A name in one piece is written as the field of that name exactly if it has no dot. -/
theorem chars_name_singleton_iff (f : String) :
    (name [f]).chars = (name (parts f)).chars ↔ '.' ∉ f.toList := by
  rw [← Text.split_eq_singleton_iff]
  constructor
  · intro h
    have hparts := congrArg (List.map String.toList) (chars_name_injective h)
    simpa [parts, Function.comp_def] using hparts.symm
  · intro h
    rw [parts, h, List.map_singleton, String.ofList_toList]

end Fragment

namespace Comparison

open Fragment (names parts)

theorem names_bound (c : Comparison) : names c.bound = c.fieldTexts.map parts := by
  unfold fieldTexts bound
  cases c.operator
  case isIn | notIn =>
    unfold boundMembership
    rcases c.value.items? with _ | _ | ⟨x, xs⟩ <;> rfl
  case eq => cases c.value <;> rfl
  all_goals rfl

/-- A key without a suffix is the field that is compared, unless an empty list or tuple decides. -/
theorem fieldTexts_of_not_hasSuffix {e : String × Value} (h : Operator.hasSuffix e.1 = false)
    (hvalue : e.2.isEmptySequence = false) : (ofEntry e).fieldTexts = [e.1] := by
  have hfield : (ofEntry e).field = e.1 :=
    congrArg Prod.snd (Operator.resolve_of_not_hasSuffix h e.2)
  have hitems : (ofEntry e).value.items? ≠ some [] := by
    intro hi
    rw [Value.isEmptySequence, show e.2.items? = some [] from hi] at hvalue
    contradiction
  unfold fieldTexts
  split
  next hi => exact absurd hi hitems
  next hi => exact absurd hi hitems
  next => rw [hfield]

end Comparison

namespace Statement

open Fragment (names parts)

/-- The fields that conditions compare, at every level. -/
def comparedFields (conditions : Value) : List String :=
  ((conditions.entries?.getD []).flat.map Comparison.ofEntry).flatMap Comparison.fieldTexts

/-- The fields that options order by. -/
def orderedFields (options : Entries) : List String :=
  (Entries.mappings (options.get "order")).map orderedBy

namespace Bound

theorem names_columns {options : Entries} {pieces : List Fragment}
    (h : columns (options.get "columns") = .ok pieces) :
    names pieces = (columnNames options).map ([·]) := by
  unfold columns at h
  unfold columnNames
  dsimp only at h ⊢
  by_cases ht : (options.get "columns").truthy = true
  · rw [if_neg (by simpa using ht)] at h
    rw [if_pos ht]
    obtain ⟨xs, hxs, h⟩ := ok_of_bind h
    obtain ⟨texts, htexts, h⟩ := ok_of_bind h
    obtain rfl := Except.ok.inj h
    obtain rfl := texts_eq_ok htexts
    have hcolumn : ∀ n : String, names [.name [n]] = [[n]] := fun _ => rfl
    rw [elements?_of_elements hxs, names_joined, List.flatMap_map, List.map_eq_flatMap]
    simp [hcolumn]
  · rw [if_pos (by simpa using ht)] at h
    obtain rfl := Except.ok.inj h
    rw [if_neg ht]
    rfl

theorem names_condition {conditions : Value} {c : Condition} {pieces : List Fragment}
    (hc : Condition.ofValue conditions = .ok c) (h : condition conditions = .ok pieces) :
    names pieces = (comparedFields conditions).map parts := by
  have hline : names (c.bound.flatMap (Token.fragments Comparison.bound)) =
      (comparedFields conditions).map parts := by
    rw [Fragment.names_leaves, c.leaves_bound, comparisons_eq hc, comparedFields, List.map_flatMap]
    simp only [Comparison.names_bound]
  rw [condition_eq hc] at h
  obtain rfl := Except.ok.inj h
  split
  next hb =>
    rw [List.isEmpty_iff.mp hb] at hline
    exact hline
  next => exact hline

theorem names_orderItem {item : Entries} {pieces : List Fragment}
    (h : orderItem (.map item) = .ok pieces) : names pieces = [parts (orderedBy item)] := by
  obtain ⟨_, direction, hitem, -, rfl⟩ := orderItem_eq_ok h
  obtain rfl := Value.map.inj hitem
  split <;> rfl

theorem names_orderItems {xs : List Value} {written : List (List Fragment)}
    (h : List.Forall₂ (fun x part => orderItem x = .ok part) xs written) :
    ∃ items : List Entries, xs = items.map .map ∧
      written.flatMap names = (items.map orderedBy).map parts := by
  induction h with
  | nil => exact ⟨[], rfl, rfl⟩
  | cons hx _ ih =>
    obtain ⟨item, -, rfl, -⟩ := orderItem_eq_ok hx
    obtain ⟨items, rfl, hnames⟩ := ih
    refine ⟨item :: items, rfl, ?_⟩
    rw [List.flatMap_cons, names_orderItem hx, hnames]
    rfl

theorem names_ordering {options : Entries} {pieces : List Fragment}
    (h : ordering options = .ok pieces) : names pieces = (orderedFields options).map parts := by
  unfold ordering at h
  dsimp only at h
  by_cases ht : (options.get "order").truthy = true
  · rw [if_neg (by simpa using ht)] at h
    obtain ⟨xs, hxs, h⟩ := ok_of_bind h
    obtain ⟨written, hwritten, h⟩ := ok_of_bind h
    obtain rfl := Except.ok.inj h
    obtain ⟨items, rfl, hnames⟩ := names_orderItems (mapM_eq_ok_iff.mp hwritten)
    rw [orderedFields, ← orders_eq_mappings (orders_of_elements ht hxs), ← hnames, ← names_joined ", "]
    rfl
  · rw [if_pos (by simpa using ht)] at h
    obtain rfl := Except.ok.inj h
    rw [orderedFields, ← orders_eq_mappings (.inl ⟨by simpa using ht, rfl⟩)]
    rfl

theorem names_paging {keyword option : String} {options : Entries} {pieces : List Fragment}
    (h : paging keyword option options = .ok pieces) : names pieces = [] := by
  unfold paging at h
  dsimp only at h
  split at h
  · obtain rfl := Except.ok.inj h
    rfl
  · split at h
    · obtain rfl := Except.ok.inj h
      rfl
    · contradiction

/-- The names of an accepted search, in the order of its clauses. -/
theorem names_search {table conditions : Value} {os : Entries} {pieces : List Fragment}
    (s : Search table conditions os pieces) :
    names pieces = (columnNames os).map ([·]) ++ names [Bound.table table] ++
      (comparedFields conditions).map parts ++ (orderedFields os).map parts := by
  rw [s.pieces_eq]
  simp only [Fragment.names_append, names_paging s.limits, names_paging s.skips, List.append_nil]
  rw [← names_columns s.selects, ← names_condition s.read s.restricts, ← names_ordering s.orders]
  rfl

end Bound

/-- The identifiers of an accepted search: its columns, its table, the fields that its conditions
compare and those that it orders by, each as the clause writes it. A key without a suffix is compared as
it is. What is compared and what is ordered by is cut at its dots, a column is not; so a name is one
identifier in all three clauses exactly if it has no dot. -/
theorem clauses_agree_iff {table conditions options : Value} {pieces : List Fragment}
    (h : Bound.find table conditions options = .ok pieces) :
    ∃ os, optionEntries options = .ok os ∧
      names pieces = (columnNames os).map ([·]) ++ names [Bound.table table] ++
        (comparedFields conditions).map parts ++ (orderedFields os).map parts ∧
      (∀ e ∈ (conditions.entries?.getD []).flat, Operator.hasSuffix e.1 = false →
        e.2.isEmptySequence = false → e.1 ∈ comparedFields conditions) ∧
      ∀ name, (Fragment.name [name]).chars = (Fragment.name (parts name)).chars ↔
        '.' ∉ name.toList := by
  obtain ⟨os, hos, ⟨s⟩⟩ := Bound.search_of_find h
  refine ⟨os, hos, Bound.names_search s, fun e he hplain hvalue => ?_,
    Fragment.chars_name_singleton_iff⟩
  refine List.mem_flatMap.mpr ⟨.ofEntry e, List.mem_map_of_mem he, ?_⟩
  rw [Comparison.fieldTexts_of_not_hasSuffix hplain hvalue]
  exact List.mem_singleton_self e.1

/-- A name with blanks, quotes and a percent sign in it, and no dot. -/
theorem clauses_agree_iff_undotted :
    let name := "full \"na%me\" "
    let options : Entries := [("columns", .list [.text name]),
      ("order", .tuple [.map [("field", .text name), ("direction", .text "desc")]])]
    ∃ pieces, Bound.find (.text "users") (.map [(name, .int 1)]) (.map options) = .ok pieces ∧
      names pieces = [[name], ["users"], parts name, parts name] ∧
      (Fragment.name [name]).chars = (Fragment.name (parts name)).chars := by
  intro name options
  have hok : (Bound.find (.text "users") (.map [(name, .int 1)]) (.map options)).isOk = true := by
    decide +kernel
  obtain ⟨pieces, hfind⟩ := ok_of_isOk hok
  obtain ⟨os, hos, hnames, -, hagree⟩ := clauses_agree_iff hfind
  obtain rfl : options = os := Except.ok.inj hos
  have hclauses : (columnNames options).map ([·]) ++ names [Bound.table (.text "users")] ++
      (comparedFields (.map [(name, .int 1)])).map parts ++ (orderedFields options).map parts =
        [[name], ["users"], parts name, parts name] := by decide +kernel
  exact ⟨pieces, hfind, hnames.trans hclauses, (hagree name).mpr (by decide +kernel)⟩

/-- A qualified name in all three clauses: in the list of columns it is a column with a dot in its
name. -/
theorem qualified_column_apart :
    let options : Entries := [("columns", .list [.text "u.name"]),
      ("order", .list [.map [("field", .text "u.name")]])]
    ∃ pieces, Bound.find (.text "users") (.map [("u.name", .int 1)]) (.map options) = .ok pieces ∧
      Fragment.text pieces =
        "SELECT \"u.name\" FROM \"users\" WHERE \"u\".\"name\" = %s ORDER BY \"u\".\"name\" ASC" ∧
      names pieces = [["u.name"], ["users"], ["u", "name"], ["u", "name"]] ∧
      (Fragment.name ["u.name"]).chars ≠ (Fragment.name (parts "u.name")).chars := by
  intro options
  let found := Bound.find (.text "users") (.map [("u.name", .int 1)]) (.map options)
  have hok : found.isOk = true := by decide +kernel
  have htext : found.toOption.map Fragment.text = some
      "SELECT \"u.name\" FROM \"users\" WHERE \"u\".\"name\" = %s ORDER BY \"u\".\"name\" ASC" := by
    decide +kernel
  have hnames : found.toOption.map names =
      some [["u.name"], ["users"], ["u", "name"], ["u", "name"]] := by decide +kernel
  obtain ⟨pieces, hfind⟩ := ok_of_isOk hok
  rw [hfind] at htext hnames
  exact ⟨pieces, hfind, Option.some.inj htext, Option.some.inj hnames, by decide +kernel⟩

end Statement

end TableAccess
