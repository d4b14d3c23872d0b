import TableAccess.Proofs.Column.Table

/-! Table names that come quoted. Such a name is cut and quoted like any other: the quotes around its parts
are taken off, but two quotes inside a part are not made one again, and its first dot is taken for the one
behind a schema, even between quotes. So a quoted name is kept exactly if no part has a quote and only the
last has dots, and a name that is written once keeps its text when it is written again exactly if it has
no quote (`quoted_table_kept_iff`). -/

namespace TableAccess

open Text (sqlName cut trim double)
open Column (unquoted)

namespace Fragment

/-- Quoted names are told apart by their parts. -/
theorem chars_name_inj {parts others : List String} :
    (name parts).chars = (name others).chars ↔ parts = others := by
  refine ⟨fun h => ?_, congrArg fun parts => (name parts).chars⟩
  have hlex := congrArg Lexeme.lex h
  rw [chars, chars, Lexeme.lex_dotted, Lexeme.lex_dotted] at hlex
  exact Text.dotted_injective (Option.some.inj hlex)

end Fragment

namespace Statement.Bound

variable {v : Value} {cs part schema : List Char}

theorem ofList_inj {ds : List Char} : String.ofList cs = String.ofList ds ↔ cs = ds := by
  rw [← String.toList_inj, String.toList_ofList, String.toList_ofList]

/-! ### What is left of a quoted name -/

/-- Nothing is trimmed off a text with quotes at its ends. -/
theorem trim_text (hhead : cs.head? = some '"') (hlast : cs.getLast? = some '"') :
    trim (Value.text (.ofList cs)).chars = cs := by
  have hchars : (Value.text (.ofList cs)).chars = cs := String.toList_ofList
  rw [hchars]
  refine Text.trimBy_eq_self (fun c hc => ?_) fun c hc => ?_
  · obtain rfl := Option.some.inj (hhead.symm.trans hc)
    decide
  · obtain rfl := Option.some.inj (hlast.symm.trans hc)
    decide

theorem getLast?_sqlName (before part : List Char) :
    (before ++ sqlName part).getLast? = some '"' := by
  rw [sqlName, ← List.append_assoc, List.getLast?_concat]

theorem mem_sqlName_iff {c : Char} (h : c ≠ '"') : c ∈ sqlName part ↔ c ∈ part := by
  simp [sqlName, h, Text.mem_double_iff]

/-- Taking off its outer quotes gives a part back exactly if it has no quotes of its own. -/
theorem unquoted_sqlName_iff : unquoted (sqlName part) = part ↔ '"' ∉ part := by
  have hdouble : unquoted (sqlName part) = unquoted (double '"' part) := by
    rw [sqlName, Column.unquoted_concat, Column.unquoted_cons]
  rw [hdouble]
  refine ⟨Column.free_of_unquoted_double, fun free => ?_⟩
  rw [Text.double_eq_self_iff.mpr free, Column.unquoted_eq_self free]

/-! ### Names that are written again -/

/-- A table is asked by one name, or by two of which the first has no dot. -/
theorem table_cases (v : Value) :
    (∃ part, '.' ∉ part ∧ table v = .name [.ofList part]) ∨
      ∃ schema part, '.' ∉ schema ∧ table v = .name [.ofList schema, .ofList part] := by
  obtain ⟨first, rest?, hcut⟩ : ∃ first rest?, cut '.' (trim v.chars) = (first, rest?) := ⟨_, _, rfl⟩
  have undotted : '.' ∉ unquoted first := fun h => Text.notMem_of_cut hcut (Text.mem_of_mem_trimBy h)
  cases rest? with
  | none => exact .inl ⟨_, undotted, Column.table_of_cut_none hcut⟩
  | some rest => exact .inr ⟨_, _, undotted, Column.table_of_cut_some hcut⟩

theorem chars_table_eq_iff {parts : List String} :
    (table v).chars = (Fragment.name parts).chars ↔ table v = .name parts := by
  obtain ⟨part, -, hv⟩ | ⟨schema, part, -, hv⟩ := table_cases v <;>
    rw [hv, Fragment.chars_name_inj, Fragment.name.injEq]

theorem table_sole_iff :
    table (.text (.ofList (sqlName part))) = .name [.ofList part] ↔ '"' ∉ part ∧ '.' ∉ part := by
  have htrim := @trim_text (sqlName part) rfl (getLast?_sqlName [] part)
  by_cases dotted : '.' ∈ part
  · refine iff_of_false (fun h => ?_) fun h => h.2 dotted
    -- the dot between the quotes makes two parts of the name
    obtain ⟨before, after, hcut⟩ := Text.exists_cut_of_mem ((mem_sqlName_iff (by decide)).mpr dotted)
    rw [Column.table_of_cut_some (htrim.symm ▸ hcut)] at h
    simp at h
  · have hcut := Text.cut_of_notMem fun h => dotted ((mem_sqlName_iff (by decide)).mp h)
    rw [← htrim] at hcut
    rw [Column.table_of_cut_none hcut, htrim, Fragment.name.injEq, List.singleton_inj, ofList_inj,
      unquoted_sqlName_iff, and_iff_left dotted]

theorem table_qualified_iff :
    table (.text (.ofList (sqlName schema ++ '.' :: sqlName part))) =
      .name [.ofList schema, .ofList part] ↔ ('"' ∉ schema ∧ '.' ∉ schema) ∧ '"' ∉ part := by
  have hlast : (sqlName schema ++ '.' :: sqlName part).getLast? = some '"' := by
    rw [List.append_cons]
    exact getLast?_sqlName _ part
  have htrim := @trim_text (sqlName schema ++ '.' :: sqlName part) rfl hlast
  by_cases dotted : '.' ∈ schema
  · refine iff_of_false (fun h => ?_) fun h => h.1.2 dotted
    -- what the name is cut into has a first part without dots
    obtain ⟨first, -, hv⟩ | ⟨first, rest, undotted, hv⟩ :=
      table_cases (.text (.ofList (sqlName schema ++ '.' :: sqlName part)))
    · rw [hv, Fragment.name.injEq] at h
      simp at h
    · rw [hv, Fragment.name.injEq, List.cons.injEq, ofList_inj] at h
      exact undotted (h.1 ▸ dotted)
  · have hcut := Text.cut_append_cons (fun h => dotted ((mem_sqlName_iff (by decide)).mp h))
      (sqlName part)
    rw [Column.table_of_cut_some (htrim.symm ▸ hcut), Fragment.name.injEq, List.cons.injEq,
      List.singleton_inj, ofList_inj, ofList_inj, unquoted_sqlName_iff, unquoted_sqlName_iff,
      and_iff_left dotted]

/-- A quoted name, with or without a schema, is kept exactly if there is no quote in it to double and no dot
in front of its last part; and the name that a statement has for a table is kept in the next one exactly if
none of its parts has a quote. -/
theorem quoted_table_kept_iff (schema part : List Char) (v : Value) :
    ((table (.text (.ofList (sqlName part)))).chars = sqlName part ↔ '"' ∉ part ∧ '.' ∉ part) ∧
    ((table (.text (.ofList (sqlName schema ++ '.' :: sqlName part)))).chars =
      sqlName schema ++ '.' :: sqlName part ↔ ('"' ∉ schema ∧ '.' ∉ schema) ∧ '"' ∉ part) ∧
    ∃ parts, table v = .name parts ∧
      (table (.text (.ofList (table v).chars)) = .name parts ↔ ∀ part ∈ parts, '"' ∉ part.toList) := by
  refine ⟨?_, ?_, ?_⟩
  · rw [← table_sole_iff, ← chars_table_eq_iff, Column.chars_name_one]
  · rw [← table_qualified_iff, ← chars_table_eq_iff, Column.chars_name_two]
  · obtain ⟨part, undotted, hv⟩ | ⟨schema, part, undotted, hv⟩ := table_cases v
    · refine ⟨_, hv, ?_⟩
      rw [hv, Column.chars_name_one, table_sole_iff, and_iff_left undotted]
      simp
    · refine ⟨_, hv, ?_⟩
      rw [hv, Column.chars_name_two, table_qualified_iff, and_iff_left undotted]
      simp

/-- A quoted name with a quote in it becomes a longer one, and a dot between its quotes parts it in two. -/
theorem quoted_table_altered :
    sqlName "a\"b".toList = "\"a\"\"b\"".toList ∧
      (table (.text "\"a\"\"b\"")).chars = "\"a\"\"\"\"b\"".toList ∧
      sqlName "a.b".toList = "\"a.b\"".toList ∧
      (table (.text "\"a.b\"")).chars = "\"a\".\"b\"".toList := by
  refine ⟨?_, ?_, ?_, ?_⟩ <;> decide +kernel

end Statement.Bound

end TableAccess
