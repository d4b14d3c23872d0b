import TableAccess.Proofs.Column.Table
import TableAccess.Proofs.Text.Split

/-! The grammar of column specs. A spec is a name, a type and up to three options with colons between
them, and each option asks for a clause or for none (`Specifies`). Reading a spec gives what it asks for
and refuses everything else; a table is refused for want of a name or of columns, and else for the sake of
the first of its specs that is none (`specs_read_exactly`). -/

namespace TableAccess

namespace Text

/-- A word is recognised in capital and in small letters. The one other character that is folded into a
small letter is none of a word without that letter. -/
theorem lower_eq_iff {s word : String} (h : 'k' ∉ word.toList) (h' : '\u212a' ∉ word.toList) :
    lower s = word ↔ s.toList.map Char.toLower = word.toList := by
  have hkelvin {c : Char} : c = '\u212a' → smallLetter c = 'k' ∧ c.toLower = '\u212a' := by
    rintro rfl
    exact ⟨rfl, rfl⟩
  rw [lower, ← String.toList_inj, String.toList_map]
  by_cases hmem : '\u212a' ∈ s.toList
  · refine iff_of_false (fun heq => h ?_) fun heq => h' ?_
    · exact heq ▸ List.mem_map.mpr ⟨_, hmem, rfl⟩
    · exact heq ▸ List.mem_map.mpr ⟨_, hmem, rfl⟩
  · have hsame : s.toList.map smallLetter = s.toList.map Char.toLower := by
      refine List.map_congr_left fun c hc => if_neg ?_
      rintro rfl
      exact hmem hc
    rw [hsame]

end Text

namespace Column

/-! ### The grammar -/

/-- A word in any letter case. -/
def Spelt (word s : String) : Prop := s.toList.map Char.toLower = word.toList

/-- Short names of types, and what they stand for. -/
def shortcuts : List (String × String) :=
  [("int", "integer"), ("bool", "boolean"), ("timestampz", "timestamp with time zone")]

/-- A type as a definition has it. -/
inductive TypeFor (type : String) : String → Prop
  | shortcut {short long : String} (known : (short, long) ∈ shortcuts) (spelt : Spelt short type) :
      TypeFor type long
  | given (unknown : ∀ e ∈ shortcuts, ¬ Spelt e.1 type) : TypeFor type type

/-- An option is a word that asks for a clause, or one that asks for none. -/
inductive Clause (asking silent clause : String) (word : String) : String → Prop
  | asked (spelt : Spelt asking word) : Clause asking silent clause word clause
  | silent (spelt : Spelt silent word) : Clause asking silent clause word ""

abbrev Index : String → String → Prop := Clause "unique" "noindex" " UNIQUE"

abbrev Nullable : String → String → Prop := Clause "notnull" "null" " NOT NULL"

/-- Options in their order, with the clauses that they ask for. -/
inductive Options : List String → String → Prop
  | none : Options [] ""
  | index {i a : String} (index : Index i a) : Options [i] a
  | nullable {i a n b : String} (index : Index i a) (nullable : Nullable n b) : Options [i, n] (a ++ b)
  | default {i a n b word : String} (index : Index i a) (nullable : Nullable n b) (given : word ≠ "") :
      Options [i, n, word] (a ++ b ++ (" DEFAULT " ++ word))

/-- The parts of a spec and the definition that they ask for. -/
inductive Defines : List String → String → Prop
  | mk {name type written clauses : String} {options : List String} (named : name ≠ "")
      (typed : type ≠ "") (type_written : TypeFor type written) (asked : Options options clauses) :
      Defines (name :: type :: options) (name ++ " " ++ written ++ clauses)

/-- A spec and the definition that it asks for. -/
inductive Specifies : String → String → Prop
  | mk {parts : List String} {definition : String} (apart : ∀ part ∈ parts, ':' ∉ part.toList)
      (defines : Defines parts definition) : Specifies (":".intercalate parts) definition

/-! ### Words -/

variable {s name type word written written' clause clauses clauses' d d' : String}
  {options parts : List String}

theorem Spelt.unique {word' : String} (h : Spelt word s) (h' : Spelt word' s) : word = word' :=
  String.toList_inj.mp (h.symm.trans h')

/-- The words of the grammar are recognised in any letter case. -/
theorem lower_keyword_iff {keyword : String} (h : keyword ∈ ["int", "bool", "timestampz", "unique",
    "noindex", "notnull", "null"]) : Text.lower s = keyword ↔ Spelt keyword s := by
  have hletters : ∀ keyword ∈ ["int", "bool", "timestampz", "unique", "noindex", "notnull", "null"],
      'k' ∉ keyword.toList ∧ '\u212a' ∉ keyword.toList := by decide
  exact Text.lower_eq_iff (hletters keyword h).1 (hletters keyword h).2

theorem TypeFor.unique (h : TypeFor type written) (h' : TypeFor type written') : written = written' := by
  have hkeys : ∀ e ∈ shortcuts, ∀ e' ∈ shortcuts, e.1 = e'.1 → e.2 = e'.2 := by decide
  cases h with
  | shortcut known spelt =>
    cases h' with
    | shortcut known' spelt' => exact hkeys _ known _ known' (spelt.unique spelt')
    | given unknown => exact absurd spelt (unknown _ known)
  | given unknown =>
    cases h' with
    | shortcut known spelt => exact absurd spelt (unknown _ known)
    | given => rfl

theorem typeFor_expandType (type : String) : TypeFor type (expandType type) := by
  unfold expandType
  split
  next h => exact .shortcut (by decide) ((lower_keyword_iff (by decide)).mp h)
  next h => exact .shortcut (by decide) ((lower_keyword_iff (by decide)).mp h)
  next h => exact .shortcut (by decide) ((lower_keyword_iff (by decide)).mp h)
  next hint hbool htime =>
    refine .given ?_
    simp only [shortcuts, List.forall_mem_cons, List.not_mem_nil, false_implies, implies_true, and_true]
    exact ⟨fun h => hint ((lower_keyword_iff (by decide)).mpr h),
      fun h => hbool ((lower_keyword_iff (by decide)).mpr h),
      fun h => htime ((lower_keyword_iff (by decide)).mpr h)⟩

/-- What is read of an option: whether it asks for its clause, or a fault where it asks for nothing. -/
inductive Read (asks : String → Prop) (clause : String) : Except Fault Bool → Prop
  | asked {b : Bool} (h : asks (if b then clause else "")) : Read asks clause (.ok b)
  | refused {fault : Fault} (h : ∀ clause, ¬ asks clause) : Read asks clause (.error fault)

theorem Clause.unique {asking silent : String} (hne : asking ≠ silent)
    (h : Clause asking silent clause word written) (h' : Clause asking silent clause word written') :
    written = written' := by
  cases h with
  | asked spelt =>
    cases h' with
    | asked => rfl
    | silent spelt' => exact absurd (spelt.unique spelt') hne
  | silent spelt =>
    cases h' with
    | asked spelt' => exact absurd (spelt'.unique spelt) hne
    | silent => rfl

theorem parseIndex_read (word : String) : Read (Index word) " UNIQUE" (parseIndex word) := by
  unfold parseIndex
  split
  next h => exact .asked (.asked ((lower_keyword_iff (by decide)).mp h))
  next h => exact .asked (.silent ((lower_keyword_iff (by decide)).mp h))
  next hunique hnoindex =>
    refine .refused ?_
    rintro _ (spelt | spelt)
    · exact hunique ((lower_keyword_iff (by decide)).mpr spelt)
    · exact hnoindex ((lower_keyword_iff (by decide)).mpr spelt)

theorem parseNullable_read (word : String) : Read (Nullable word) " NOT NULL" (parseNullable word) := by
  unfold parseNullable
  split
  next h => exact .asked (.asked ((lower_keyword_iff (by decide)).mp h))
  next h => exact .asked (.silent ((lower_keyword_iff (by decide)).mp h))
  next hnotNull hnull =>
    refine .refused ?_
    rintro _ (spelt | spelt)
    · exact hnotNull ((lower_keyword_iff (by decide)).mpr spelt)
    · exact hnull ((lower_keyword_iff (by decide)).mpr spelt)

/-! ### Specs -/

theorem Options.unique (h : Options options clauses) (h' : Options options clauses') :
    clauses = clauses' := by
  cases h <;> cases h'
  case none => rfl
  case index index index' => exact index.unique (by decide) index'
  case nullable index nullable _ _ index' nullable' =>
    rw [index.unique (by decide) index', nullable.unique (by decide) nullable']
  case default index nullable _ _ _ index' nullable' _ =>
    rw [index.unique (by decide) index', nullable.unique (by decide) nullable']

theorem Defines.unique (h : Defines parts d) (h' : Defines parts d') : d = d' := by
  obtain ⟨-, -, htype, hoptions⟩ := h
  obtain ⟨-, -, htype', hoptions'⟩ := h'
  rw [htype.unique htype', hoptions.unique hoptions']

/-- What becomes of the parts of a spec. -/
inductive Becomes (parts : List String) : Except Fault Column → Prop
  | read {c : Column} (h : Defines parts c.definition) : Becomes parts (.ok c)
  | refused {fault : Fault} (h : ∀ d, ¬ Defines parts d) : Becomes parts (.error fault)

/-- An option decides: nothing is defined where it asks for nothing. -/
theorem Read.becomes {asks : String → Prop} {parsed : Except Fault Bool} {f : Bool → Except Fault Column}
    (h : Read asks clause parsed) (needed : ∀ d, Defines parts d → ∃ clause, asks clause)
    (asked : ∀ b : Bool, asks (if b then clause else "") → Becomes parts (f b)) :
    Becomes parts (parsed >>= f) := by
  cases h with
  | asked h => exact asked _ h
  | refused h =>
    refine .refused fun d hd => ?_
    obtain ⟨clause, hclause⟩ := needed d hd
    exact h clause hclause

theorem Defines.asked (h : Defines (name :: type :: options) d) : ∃ clauses, Options options clauses := by
  cases h with
  | mk _ _ _ asked => exact ⟨_, asked⟩

theorem Defines.index (h : Defines (name :: type :: word :: options) d) : ∃ clause, Index word clause := by
  obtain ⟨clauses, hoptions⟩ := h.asked
  cases hoptions with
  | index index => exact ⟨_, index⟩
  | nullable index => exact ⟨_, index⟩
  | default index => exact ⟨_, index⟩

theorem Defines.nullable {first : String} (h : Defines (name :: type :: first :: word :: options) d) :
    ∃ clause, Nullable word clause := by
  obtain ⟨clauses, hoptions⟩ := h.asked
  cases hoptions with
  | nullable _ nullable => exact ⟨_, nullable⟩
  | default _ nullable => exact ⟨_, nullable⟩

theorem Becomes.of_options {c : Column} (named : name ≠ "") (typed : type ≠ "")
    (asked : Options options clauses) (h : c.definition = name ++ " " ++ expandType type ++ clauses) :
    Becomes (name :: type :: options) (.ok c) :=
  .read (h ▸ .mk named typed (typeFor_expandType type) asked)

theorem ofParts_eq (s name type : String) (options : List String) :
    ofParts s (name :: type :: options) =
      if name.isEmpty || type.isEmpty then .error (.format s)
      else match options with
        | [] => .ok ⟨name, expandType type, false, false, none⟩
        | [index] => parseIndex index >>= fun unique =>
          .ok ⟨name, expandType type, unique, false, none⟩
        | [index, nullable] => parseIndex index >>= fun unique =>
          parseNullable nullable >>= fun notNull => .ok ⟨name, expandType type, unique, notNull, none⟩
        | [index, nullable, word] => parseIndex index >>= fun unique =>
          parseNullable nullable >>= fun notNull => parseDefault name word >>= fun word =>
            .ok ⟨name, expandType type, unique, notNull, some word⟩
        | _ => .error (.format s) := by
  match options with
  | [] | [_] | [_, _] | [_, _, _] | _ :: _ :: _ :: _ :: _ =>
    dsimp only [ofParts]
    cases name.isEmpty || type.isEmpty <;> rfl

theorem ofParts_becomes (s : String) (parts : List String) : Becomes parts (ofParts s parts) := by
  match parts with
  | [] => exact .refused (by rintro _ ⟨⟩)
  | [_] => exact .refused (by rintro _ ⟨⟩)
  | name :: type :: options =>
    rw [ofParts_eq]
    split
    next h =>
      refine .refused fun _ hdefines => ?_
      obtain ⟨named, typed, -, -⟩ := hdefines
      simp [named, typed] at h
    next h =>
      obtain ⟨named, typed⟩ : name ≠ "" ∧ type ≠ "" := by simpa using h
      match options with
      | [] => exact .of_options named typed .none (by simp [definition])
      | [index] =>
        refine (parseIndex_read index).becomes (fun _ h => h.index) fun unique hindex => ?_
        exact .of_options named typed (.index hindex) (by simp [definition])
      | [index, nullable] =>
        refine (parseIndex_read index).becomes (fun _ h => h.index) fun unique hindex => ?_
        refine (parseNullable_read nullable).becomes (fun _ h => h.nullable) fun notNull hnullable => ?_
        exact .of_options named typed (.nullable hindex hnullable)
          (by simp [definition, String.append_assoc])
      | [index, nullable, word] =>
        refine (parseIndex_read index).becomes (fun _ h => h.index) fun unique hindex => ?_
        refine (parseNullable_read nullable).becomes (fun _ h => h.nullable) fun notNull hnullable => ?_
        unfold parseDefault
        split
        next hempty =>
          refine .refused fun _ h => ?_
          obtain ⟨_, _ | _ | _ | ⟨-, -, given⟩⟩ := h.asked
          simp [given] at hempty
        next hgiven =>
          exact .of_options named typed (.default hindex hnullable (by simpa using hgiven))
            (by simp [definition, String.append_assoc])
      | _ :: _ :: _ :: _ :: _ =>
        refine .refused fun _ h => ?_
        obtain ⟨_, _ | _⟩ := h.asked

theorem specifies_iff : Specifies s d ↔ Defines ((Text.split ':' s.toList).map String.ofList) d := by
  have hjoin (parts : List String) :
      (":".intercalate parts).toList = Text.join [':'] (parts.map String.toList) := by
    rw [String.toList_intercalate, Text.join_eq_intercalate]
    rfl
  constructor
  · rintro @⟨parts, _, apart, hdefines⟩
    have hne : parts.map String.toList ≠ [] := by
      cases hdefines
      exact List.cons_ne_nil _ _
    have hsplit : Text.split ':' (":".intercalate parts).toList = parts.map String.toList :=
      Text.split_eq_iff.mpr ⟨hne, hjoin parts, List.forall_mem_map.mpr apart⟩
    rw [hsplit, List.map_map]
    simpa [Function.comp_def] using hdefines
  · intro hdefines
    have hs : s = ":".intercalate ((Text.split ':' s.toList).map String.ofList) := by
      rw [← String.toList_inj, hjoin, List.map_map]
      simp [Function.comp_def, Text.join_split]
    have hspecifies : Specifies (":".intercalate ((Text.split ':' s.toList).map String.ofList)) d := by
      refine .mk ?_ hdefines
      rw [List.forall_mem_map]
      intro piece hpiece
      rw [String.toList_ofList]
      exact Text.notMem_of_mem_split hpiece
    exact hs ▸ hspecifies

/-- The failure that a fault is reported with. -/
def Fault.failure (fault : Fault) : Failure := .refused (.columnSpec [.text fault.message])

theorem spec_of_parse {c : Column} (h : parse s = .ok c) : spec (.text s) = .ok c.definition := by
  simp only [spec, Value.text?_text, h]

theorem spec_of_fault {fault : Fault} (h : parse s = .error fault) :
    spec (.text s) = .error fault.failure := by
  simp only [spec, Value.text?_text, h, Fault.failure]

theorem spec_text (s : String) : (∃ d, spec (.text s) = .ok d ∧ Specifies s d) ∨
    ∃ fault : Fault, spec (.text s) = .error fault.failure ∧ ∀ d, ¬ Specifies s d := by
  have hbecomes := ofParts_becomes s ((Text.split ':' s.toList).map String.ofList)
  rw [← parse] at hbecomes
  generalize hparse : parse s = parsed at hbecomes
  cases hbecomes with
  | read h => exact .inl ⟨_, spec_of_parse hparse, specifies_iff.mpr h⟩
  | refused h => exact .inr ⟨_, spec_of_fault hparse, fun d hd => h d (specifies_iff.mp hd)⟩

theorem spec_text_iff : spec (.text s) = .ok d ↔ Specifies s d := by
  obtain ⟨d', hd', hspecifies⟩ | ⟨fault, hfault, hnone⟩ := spec_text s
  · rw [hd', Except.ok.injEq]
    constructor
    · rintro rfl
      exact hspecifies
    · intro h
      exact (specifies_iff.mp hspecifies).unique (specifies_iff.mp h)
  · rw [hfault]
    exact iff_of_false (by simp) (hnone d)

/-! ### Tables -/

variable {table : String} {specs : List String}

theorem mapM_spec (specs : List String) :
    (specs.map Value.text).mapM spec = specs.mapM fun s => spec (.text s) := List.mapM_map

/-- What becomes of a table and its specs. -/
theorem createTable_texts (table : String) (specs : List String) :
    createTable (.text table) (.list (specs.map .text)) =
      if table = "" then .error (.refused (.columnSpec [.text "Table name must be defined."]))
      else if specs = [] then .error (.refused (.columnMissing [.text "Columns missing."]))
      else (specs.mapM fun s => spec (.text s)) >>= fun definitions =>
        .ok (createText table definitions) := by
  have hnone : (Value.list (specs.map .text)).text?.isSome = false := rfl
  have htable : (!(Value.text table).truthy) = true ↔ table = "" := by simp [Value.truthy]
  have hspecs : (!(Value.list (specs.map .text)).truthy) = true ↔ specs = [] := by simp [Value.truthy]
  have htext : (Value.text table).toText = table := String.ofList_toList
  have helements : Statement.elements (.list (specs.map .text)) = .ok (specs.map .text) := rfl
  rw [createTable_eq, hnone, htext, helements, ← mapM_spec]
  simp only [htable, hspecs, Bool.false_eq_true, if_false]
  rfl

theorem createTable_given (given : table ≠ "") (listed : specs ≠ []) :
    createTable (.text table) (.list (specs.map .text)) =
      (specs.mapM fun s => spec (.text s)) >>= fun definitions =>
        .ok (createText table definitions) := by
  rw [createTable_texts, if_neg given, if_neg listed]

/-- The first spec that is none is what a table is refused for. -/
theorem createTable_first {before after : List String} {e : Failure} (given : table ≠ "")
    (good : ∀ s ∈ before, ∃ d, Specifies s d) (bad : spec (.text s) = .error e) :
    createTable (.text table) (.list ((before ++ s :: after).map .text)) = .error e := by
  have hgood : ∀ s ∈ before, ∃ d, spec (.text s) = .ok d := by simpa only [spec_text_iff] using good
  rw [createTable_given given (by simp), mapM_eq_error_iff.mpr ⟨before, s, after, rfl, hgood, bad⟩]
  rfl

theorem createTable_all {definitions : List String} (given : table ≠ "") (listed : specs ≠ [])
    (h : List.Forall₂ Specifies specs definitions) :
    createTable (.text table) (.list (specs.map .text)) = .ok (createText table definitions) := by
  have hread : specs.mapM (fun s => spec (.text s)) = .ok definitions :=
    mapM_eq_ok_iff.mpr (h.imp fun _ _ => spec_text_iff.mpr)
  rw [createTable_given given listed, hread]
  rfl

theorem createTable_error_iff : (∃ e, createTable (.text table) (.list (specs.map .text)) = .error e) ↔
    table = "" ∨ specs = [] ∨ ∃ s ∈ specs, ∀ d, ¬ Specifies s d := by
  rw [createTable_texts]
  by_cases htable : table = ""
  · simp [htable]
  by_cases hspecs : specs = []
  · simp [htable, hspecs]
  simp only [htable, hspecs, if_false, false_or]
  cases hread : specs.mapM fun s => spec (.text s) with
  | ok definitions =>
    refine iff_of_false (fun ⟨_, h⟩ => nomatch h) ?_
    rintro ⟨s, hs, hnone⟩
    have hall := (mapM_eq_ok_iff.mp hread).imp fun s d h =>
      (⟨⟨d, spec_text_iff.mp h⟩, h⟩ : (∃ d, Specifies s d) ∧ spec (.text s) = .ok d)
    obtain ⟨d, hd⟩ := ((List.forall₂_and_left _ _).mp hall).1 s hs
    exact hnone d hd
  | error e =>
    refine iff_of_true ⟨e, rfl⟩ ?_
    obtain ⟨before, s, after, rfl, -, hbad⟩ := mapM_eq_error_iff.mp hread
    refine ⟨s, by simp, fun d hd => ?_⟩
    rw [spec_text_iff.mpr hd] at hbad
    exact nomatch hbad

/-- Specs are read exactly. A spec gives a definition if it is in the grammar, which is then the one that it
asks for, and a failure that says it is none otherwise. A table is refused exactly if it has no name or no
specs or one of its specs is none, and then for the sake of the first of these. -/
theorem specs_read_exactly :
    (∀ s, (∀ d, spec (.text s) = .ok d ↔ Specifies s d) ∧
      ((∀ d, ¬ Specifies s d) → ∃ fault : Fault, spec (.text s) = .error fault.failure)) ∧
    ∀ table specs, let created := createTable (.text table) (.list (specs.map .text))
      ((∃ e, created = .error e) ↔ table = "" ∨ specs = [] ∨ ∃ s ∈ specs, ∀ d, ¬ Specifies s d) ∧
      (table ≠ "" → ∀ before s after e, specs = before ++ s :: after →
        (∀ good ∈ before, ∃ d, Specifies good d) → spec (.text s) = .error e → created = .error e) ∧
      (table ≠ "" → specs ≠ [] → ∀ definitions, List.Forall₂ Specifies specs definitions →
        created = .ok (createText table definitions)) := by
  refine ⟨fun s => ⟨fun d => spec_text_iff, fun hnone => ?_⟩, fun table specs => ?_⟩
  · obtain ⟨d, -, hd⟩ | ⟨fault, hfault, -⟩ := spec_text s
    · exact absurd hd (hnone d)
    · exact ⟨fault, hfault⟩
  · refine ⟨createTable_error_iff, fun given before s after e hspecs good bad => ?_,
      fun given listed definitions h => createTable_all given listed h⟩
    exact hspecs ▸ createTable_first given good bad

end Column

end TableAccess
