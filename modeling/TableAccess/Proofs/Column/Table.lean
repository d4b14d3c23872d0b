import Mathlib.Data.List.Basic
import TableAccess.Column
import TableAccess.Proofs.Predicate.Lexemes
import TableAccess.Proofs.Statement.Bound
import TableAccess.Proofs.Text.Doubled
import TableAccess.Proofs.Text.Split
import TableAccess.Statement.Bound

/-! The table that is created and the table that is asked. A statement that creates a table puts quotes
around its name as it is; a statement about its rows takes blanks and quotes off, cuts the name at its
first dot and quotes what is left. Both write one name for one relation exactly if there is nothing in
the name to take off, cut or double, or if the name brings the quotes around its dot along
(`created_asked_iff`): a name with a schema creates a table that no statement asks
(`created_elsewhere`). -/

namespace TableAccess

namespace Text

/-- What can stand between the quotes of a name: something, without the null character. -/
def Nameable (part : List Char) : Prop := part ≠ [] ∧ '\x00' ∉ part

instance (part : List Char) : Decidable (Nameable part) := instDecidableAnd

/-- A written name with its parts: quoted names with dots between them, and nothing else. -/
inductive Names : List Char → List (List Char) → Prop
  | sole {part : List Char} (nameable : Nameable part) : Names (sqlName part) [part]
  | qualified {part cs : List Char} {parts : List (List Char)} (nameable : Nameable part)
      (rest : Names cs parts) : Names (sqlName part ++ '.' :: cs) (part :: parts)

namespace Names

variable {cs : List Char} {parts : List (List Char)}

theorem eq_join (h : Names cs parts) : cs = join ['.'] (parts.map sqlName) := by
  induction h with
  | sole _ => rfl
  | @qualified part cs parts _ rest ih =>
    cases rest with
    | sole _ => simp [join]
    | qualified _ _ => simp [join, ih]

end Names

theorem dotted_injective {parts others : List String}
    (h : Lexeme.dotted parts = Lexeme.dotted others) : parts = others := by
  match parts, others with
  | [], [] => rfl
  | [], [_] | [], _ :: _ :: _ => simp [Lexeme.dotted] at h
  | [_], [] | _ :: _ :: _, [] => simp [Lexeme.dotted] at h
  | [p], [q] => simpa [Lexeme.dotted] using h
  | [_], _ :: _ :: _ | _ :: _ :: _, [_] => simp [Lexeme.dotted] at h
  | p :: next :: rest, q :: next' :: rest' =>
    simp only [Lexeme.dotted, List.cons.injEq, Lexeme.name.injEq, true_and] at h
    rw [h.1, dotted_injective h.2]

theorem Names.nameable {cs : List Char} {parts : List (List Char)} (h : Names cs parts) :
    ∀ part ∈ parts, Nameable part := by
  induction h with
  | sole nameable => exact List.forall_mem_singleton.mpr nameable
  | qualified nameable _ ih => exact List.forall_mem_cons.mpr ⟨nameable, ih⟩

/-- A lexer for quoted names reads the parts back, so a written name has one list of parts. -/
theorem Names.parts_eq {name : List String} {parts : List (List Char)}
    (h : Names (Fragment.name name).chars parts) : parts = name.map String.toList := by
  have hjoin : (Fragment.name name).chars =
      join ['.'] ((parts.map String.ofList).map Fragment.quotedName) := by
    rw [h.eq_join, List.map_map]
    simp [Function.comp_def, Fragment.quotedName]
  have hlex := congrArg Lexeme.lex hjoin
  rw [Fragment.chars, Lexeme.lex_dotted, Lexeme.lex_dotted] at hlex
  rw [dotted_injective (Option.some.inj hlex)]
  simp [Function.comp_def]

end Text

namespace Column

open Text (Names Nameable sqlName cut trim trimBy)
open Statement.Bound (isQuote)

/-- A name as the statement that creates its table writes it. -/
def written (name : List Char) : List Char := '"' :: name ++ ['"']

/-- The names that both statements write for one relation: those in which there is nothing to take off,
to cut or to double, and those that have their dot between quotes. -/
inductive NamedAlike : List Char → Prop
  | sole {name : List Char} (nameable : Nameable name) (unquoted : '"' ∉ name) (undotted : '.' ∉ name)
      (trimmed : trim name = name) : NamedAlike name
  | qualified {schema rest : List Char} (nameable : Nameable schema) (nameable' : Nameable rest)
      (unquoted : '"' ∉ schema) (unquoted' : '"' ∉ rest) (undotted : '.' ∉ schema)
      (trimmed : trim (schema ++ ['"', '.', '"'] ++ rest) = schema ++ ['"', '.', '"'] ++ rest) :
      NamedAlike (schema ++ ['"', '.', '"'] ++ rest)

/-- What is left of a part of a name. -/
def unquoted (part : List Char) : List Char := trimBy isQuote part

theorem bare_unquoted (part : List Char) : Text.bare (unquoted part) = Text.bare part :=
  Text.bare_trimBy (fun _ h => beq_iff_eq.mp h) part

theorem table_of_cut_none {v : Value} {name : List Char} (h : cut '.' (trim v.chars) = (name, none)) :
    Statement.Bound.table v = .name [String.ofList (unquoted name)] := by
  unfold Statement.Bound.table
  simp only [h]
  rfl

theorem table_of_cut_some {v : Value} {schema rest : List Char}
    (h : cut '.' (trim v.chars) = (schema, some rest)) :
    Statement.Bound.table v =
      .name [String.ofList (unquoted schema), String.ofList (unquoted rest)] := by
  unfold Statement.Bound.table
  simp only [h]
  rfl

theorem chars_name_one (part : List Char) :
    (Fragment.name [String.ofList part]).chars = sqlName part := by
  simp [Fragment.chars, Text.join, Fragment.quotedName]

theorem chars_name_two (part other : List Char) :
    (Fragment.name [String.ofList part, String.ofList other]).chars =
      sqlName part ++ '.' :: sqlName other := by
  simp [Fragment.chars, Text.join, Fragment.quotedName]

/-- Quotes apart, a table is asked without the blanks around its name and by all else. -/
theorem bare_chars_table (v : Value) :
    Text.bare (Statement.Bound.table v).chars = Text.bare (trim v.chars) := by
  obtain ⟨first, rest?, hcut⟩ : ∃ first rest?, cut '.' (trim v.chars) = (first, rest?) := ⟨_, _, rfl⟩
  rw [Text.of_cut hcut]
  cases rest? with
  | none =>
    rw [table_of_cut_none hcut, chars_name_one, Text.bare_sqlName, bare_unquoted]
    simp
  | some rest =>
    have hdot : ∀ cs : List Char, Text.bare ('.' :: cs) = '.' :: Text.bare cs := fun _ => rfl
    rw [table_of_cut_some hcut, chars_name_two, Text.bare_append, hdot, Text.bare_sqlName,
      Text.bare_sqlName, bare_unquoted, bare_unquoted]
    simp [hdot]

/-! ### What is left of a part -/

theorem unquoted_concat (part : List Char) : unquoted (part ++ ['"']) = unquoted part := by
  have hend : ∀ c ∈ ['"'], isQuote c = true := by simp [isQuote]
  exact Text.trimBy_append hend part

theorem unquoted_cons (part : List Char) : unquoted ('"' :: part) = unquoted part := by
  have hfront : isQuote '"' = true := rfl
  exact Text.trimBy_cons hfront part

theorem unquoted_eq_self {part : List Char} (h : '"' ∉ part) : unquoted part = part :=
  Text.trimBy_of_forall fun c hc => by
    have hne : c ≠ '"' := by rintro rfl; exact h hc
    simpa [isQuote] using hne

/-- A part that is what is left of its own doubled form has no quote to double. -/
theorem free_of_unquoted_double {part : List Char} (h : unquoted (Text.double '"' part) = part) :
    '"' ∉ part := by
  have hkept : unquoted (Text.double '"' part) = Text.double '"' part := by
    refine Text.trimBy_eq_self (fun c hc => ?_) fun c hc => ?_
    · rw [Text.head?_double, ← h] at hc
      exact Text.head?_trimBy hc
    · rw [Text.getLast?_double, ← h] at hc
      exact Text.getLast?_trimBy hc
  exact Text.double_eq_self_iff.mp (hkept.symm.trans h)

theorem sqlName_eq {part : List Char} (h : '"' ∉ part) : sqlName part = '"' :: part ++ ['"'] := by
  rw [sqlName, Text.double_eq_self_iff.mpr h]

/-! ### Names for one relation -/

variable {v : Value} {parts : List (List Char)} {first rest : List Char}

/-- Where both statements write one name, nothing is taken off. -/
theorem trimmed_of_same (h : written v.chars = (Statement.Bound.table v).chars) :
    trim v.chars = v.chars := by
  refine Text.trim_eq_self_of_bare ?_
  rw [← bare_chars_table, ← h]
  simp [written, Text.bare]

theorem alike_of_uncut (hcut : cut '.' v.chars = (first, none)) (trimmed : trim v.chars = v.chars)
    (same : written v.chars = sqlName (unquoted first))
    (nameable : Nameable (unquoted first)) : NamedAlike v.chars := by
  have hname : v.chars = first := by simpa using Text.of_cut hcut
  have hfirst : Text.double '"' (unquoted first) = first := by
    simpa [written, sqlName, hname] using same.symm
  have free : '"' ∉ unquoted first := free_of_unquoted_double (congrArg unquoted hfirst)
  rw [Text.double_eq_self_iff.mpr free] at hfirst
  rw [hfirst] at nameable free
  have undotted := Text.notMem_of_cut hcut
  rw [hname] at trimmed ⊢
  exact .sole nameable free undotted trimmed

/-- The first dot of such a name stands between quotes that the name brings along. -/
theorem alike_of_cut (hcut : cut '.' v.chars = (first, some rest)) (trimmed : trim v.chars = v.chars)
    (same : written v.chars = sqlName (unquoted first) ++ '.' :: sqlName (unquoted rest))
    (nameable : Nameable (unquoted first)) (nameable' : Nameable (unquoted rest)) :
    NamedAlike v.chars := by
  have undotted : '.' ∉ unquoted first := fun h => Text.notMem_of_cut hcut (Text.mem_of_mem_trimBy h)
  have hclosed : v.chars ++ ['"'] = (Text.double '"' (unquoted first) ++ ['"'] ++
      '.' :: ('"' :: Text.double '"' (unquoted rest))) ++ ['"'] := by
    simpa [written, sqlName] using same
  have hname := List.append_cancel_right hclosed
  have hdotless : '.' ∉ Text.double '"' (unquoted first) ++ ['"'] := by
    simpa [Text.mem_double_iff] using undotted
  have hcut' := Text.cut_append_cons hdotless ('"' :: Text.double '"' (unquoted rest))
  rw [← hname, hcut, Prod.mk.injEq, Option.some.injEq] at hcut'
  obtain ⟨hfirst, hrest⟩ := hcut'
  have free : '"' ∉ unquoted first :=
    free_of_unquoted_double (by rw [← unquoted_concat, ← hfirst])
  have free' : '"' ∉ unquoted rest :=
    free_of_unquoted_double (by rw [← unquoted_cons, ← hrest])
  rw [Text.double_eq_self_iff.mpr free, Text.double_eq_self_iff.mpr free'] at hname
  have hplain : v.chars = unquoted first ++ ['"', '.', '"'] ++ unquoted rest := by simpa using hname
  rw [hplain] at trimmed ⊢
  exact .qualified nameable nameable' free free' undotted trimmed

theorem alike_of_names (created : Names (written v.chars) parts)
    (asked : Names (Statement.Bound.table v).chars parts) : NamedAlike v.chars := by
  have same : written v.chars = (Statement.Bound.table v).chars :=
    created.eq_join.trans asked.eq_join.symm
  have trimmed := trimmed_of_same same
  obtain ⟨first, rest?, hcut⟩ : ∃ first rest?, cut '.' v.chars = (first, rest?) := ⟨_, _, rfl⟩
  have hcut' := trimmed.symm ▸ hcut
  cases rest? with
  | none =>
    rw [table_of_cut_none hcut'] at asked same
    have nameable : Nameable (unquoted first) := asked.nameable _ (by simp [asked.parts_eq])
    exact alike_of_uncut hcut trimmed (same.trans (chars_name_one _)) nameable
  | some rest =>
    rw [table_of_cut_some hcut'] at asked same
    obtain ⟨nameable, nameable'⟩ : Nameable (unquoted first) ∧ Nameable (unquoted rest) := by
      simpa [asked.parts_eq] using asked.nameable
    exact alike_of_cut hcut trimmed (same.trans (chars_name_two _ _)) nameable nameable'

theorem names_of_alike (h : NamedAlike v.chars) : ∃ parts,
    Names (written v.chars) parts ∧ Names (Statement.Bound.table v).chars parts := by
  generalize hname : v.chars = name at h
  cases h with
  | sole nameable free undotted trimmed =>
    have hcut : cut '.' (trim v.chars) = (name, none) := by
      rw [hname, trimmed, Text.cut_of_notMem undotted]
    rw [table_of_cut_none hcut, chars_name_one, unquoted_eq_self free, written, ← sqlName_eq free]
    exact ⟨[name], .sole nameable, .sole nameable⟩
  | @qualified schema rest nameable nameable' free free' undotted trimmed =>
    have hcut : cut '.' (trim v.chars) = (schema ++ ['"'], some ('"' :: rest)) := by
      have hdotless : '.' ∉ schema ++ ['"'] := by simpa using undotted
      rw [hname, trimmed, ← Text.cut_append_cons hdotless]
      simp
    have hwritten : written (schema ++ ['"', '.', '"'] ++ rest) =
        sqlName schema ++ '.' :: sqlName rest := by
      simp [written, sqlName_eq free, sqlName_eq free']
    rw [table_of_cut_some hcut, chars_name_two, unquoted_concat, unquoted_cons, unquoted_eq_self free,
      unquoted_eq_self free', hwritten]
    have hnames := Names.qualified nameable (.sole nameable')
    exact ⟨[schema, rest], hnames, hnames⟩

/-! ### The statement that creates a table -/

theorem createTable_eq (table columns : Value) : createTable table columns =
    if !table.truthy then .error (.refused (.columnSpec [.text "Table name must be defined."]))
    else if columns.text?.isSome then
      .error (.refused (.columnSpec [.text "Columns must be a sequence of column specs."]))
    else if !columns.truthy then .error (.refused (.columnMissing [.text "Columns missing."]))
    else (Statement.elements columns >>= List.mapM spec) >>= fun definitions =>
      .ok (createText table.toText definitions) := by
  unfold createTable
  split
  · rfl
  · split
    · rfl
    · split
      · rfl
      · exact (bind_assoc ..).symm

theorem createTable_list {table : Value} {specs : List Value} {definitions : List String}
    (given : table.truthy = true) (listed : specs ≠ []) (h : specs.mapM spec = .ok definitions) :
    createTable table (.list specs) = .ok (createText table.toText definitions) := by
  have htruthy : (Value.list specs).truthy = true := by simpa [Value.truthy] using listed
  have helements : Statement.elements (.list specs) = .ok specs := rfl
  rw [createTable_eq, given, htruthy, helements]
  show (specs.mapM spec >>= fun definitions => Except.ok (createText table.toText definitions)) = _
  rw [h]
  rfl

theorem eq_createText {table columns : Value} {statement : String}
    (h : createTable table columns = .ok statement) :
    ∃ definitions, statement = createText table.toText definitions := by
  rw [createTable_eq] at h
  split_ifs at h
  obtain ⟨definitions, -, h⟩ := ok_of_bind h
  exact ⟨definitions, (Except.ok.inj h).symm⟩

/-- The name between its quotes stands behind the words that create a table. -/
theorem createText_eq (table : Value) (definitions : List String) :
    createText table.toText definitions = "CREATE TABLE IF NOT EXISTS " ++
      String.ofList (written table.chars) ++ " ( " ++
        ", ".intercalate (idDefinition :: definitions) ++ " )" := by
  have hname : String.ofList (written table.chars) = "\"" ++ table.toText ++ "\"" := by
    rw [← String.toList_inj]
    simp [written, Value.toText]
  have hframe : ∀ head head' rest rest' name body last : String, head = head' ++ "\"" →
      rest = "\"" ++ rest' → head ++ name ++ rest ++ body ++ last =
        head' ++ ("\"" ++ name ++ "\"") ++ rest' ++ body ++ last := by
    rintro _ head' _ rest' name body last rfl rfl
    simp only [String.append_assoc]
  calc createText table.toText definitions
      = "CREATE TABLE IF NOT EXISTS " ++ ("\"" ++ table.toText ++ "\"") ++ " ( " ++
          ", ".intercalate (idDefinition :: definitions) ++ " )" :=
        hframe _ _ _ _ _ _ _ (by decide +kernel) (by decide +kernel)
    _ = _ := by rw [hname]

/-- The statement that creates a table puts quotes around its name; what it creates is what statements
about its rows ask exactly for the names that are written alike. -/
theorem created_asked_iff {table columns : Value} {statement : String}
    (accepted : createTable table columns = .ok statement) :
    (∃ definitions, statement = "CREATE TABLE IF NOT EXISTS " ++
      String.ofList (written table.chars) ++ " ( " ++
        ", ".intercalate (idDefinition :: definitions) ++ " )") ∧
    ((∃ parts, Names (written table.chars) parts ∧
        Names (Statement.Bound.table table).chars parts) ↔ NamedAlike table.chars) := by
  refine ⟨?_, fun ⟨parts, created, asked⟩ => alike_of_names created asked, names_of_alike⟩
  obtain ⟨definitions, rfl⟩ := eq_createText accepted
  exact ⟨definitions, createText_eq table definitions⟩

/-- The one column of the tables below. -/
theorem mapM_spec_age : [Value.text "age:int"].mapM spec = .ok ["age integer"] := by
  have htype : expandType "int" = "integer" := by decide +kernel
  have hparse : parse "age:int" = .ok ⟨"age", expandType "int", false, false, none⟩ := rfl
  have hspec : spec (.text "age:int") = .ok "age integer" := by
    simp only [spec, Value.text?_text]
    rw [hparse, htype]
    rfl
  rw [List.mapM_cons, hspec]
  rfl

theorem createTable_age {table : String} (given : (Value.text table).truthy = true)
    {statement : String} (h : createText (Value.text table).toText ["age integer"] = statement) :
    createTable (.text table) (.list [.text "age:int"]) = .ok statement :=
  h ▸ createTable_list given (List.cons_ne_nil _ _) mapM_spec_age

/-- A name that brings the quotes around its dot along. -/
theorem created_asked_iff_quoted :
    let table : Value := .text "public\".\"users"
    createTable table (.list [.text "age:int"]) = .ok
        "CREATE TABLE IF NOT EXISTS \"public\".\"users\" ( id serial primary key, age integer )" ∧
      NamedAlike table.chars ∧
      ∃ parts, Names (written table.chars) parts ∧ Names (Statement.Bound.table table).chars parts := by
  intro table
  have accepted : createTable table (.list [.text "age:int"]) = .ok
      "CREATE TABLE IF NOT EXISTS \"public\".\"users\" ( id serial primary key, age integer )" :=
    createTable_age (by decide +kernel) (by decide +kernel)
  have hparts : NamedAlike ("public".toList ++ ['"', '.', '"'] ++ "users".toList) :=
    .qualified (by decide +kernel) (by decide +kernel) (by decide +kernel) (by decide +kernel)
      (by decide +kernel) (by decide +kernel)
  have hchars : "public".toList ++ ['"', '.', '"'] ++ "users".toList = table.chars := by
    decide +kernel
  have alike : NamedAlike table.chars := hchars ▸ hparts
  exact ⟨accepted, alike, (created_asked_iff accepted).2.mpr alike⟩

/-- A table with a schema is created under one name and asked under two. -/
theorem created_elsewhere :
    let table : Value := .text "public.users"
    createTable table (.list [.text "age:int"]) = .ok
        "CREATE TABLE IF NOT EXISTS \"public.users\" ( id serial primary key, age integer )" ∧
      Names (written table.chars) ["public.users".toList] ∧
      Names (Statement.Bound.table table).chars ["public".toList, "users".toList] ∧
      ¬ ∃ parts, Names (written table.chars) parts ∧
        Names (Statement.Bound.table table).chars parts := by
  intro table
  have hwritten : written table.chars = (Fragment.name ["public.users"]).chars := by decide +kernel
  have hasked : (Statement.Bound.table table).chars = (Fragment.name ["public", "users"]).chars := by
    decide +kernel
  refine ⟨createTable_age (by decide +kernel) (by decide +kernel), ?_, ?_, ?_⟩
  · rw [hwritten]
    exact .sole (by decide +kernel)
  · rw [hasked]
    have hpublic : Nameable "public".toList := by decide +kernel
    have husers : Nameable "users".toList := by decide +kernel
    exact .qualified hpublic (.sole husers)
  · rintro ⟨parts, created, asked⟩
    rw [hwritten] at created
    rw [hasked] at asked
    have hsame := created.parts_eq.symm.trans asked.parts_eq
    simp at hsame

end Column

end TableAccess
