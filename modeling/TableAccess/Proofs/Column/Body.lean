import TableAccess.Proofs.Column.Specs
import TableAccess.Proofs.Column.Table
import TableAccess.Proofs.Text.Doubled
import TableAccess.Proofs.Text.Split
import TableAccess.Proofs.Text.Trim

/-! The columns of a created table. Whoever reads the statement takes what stands in its parentheses apart
at the commas that are in no inner parentheses and in no quotes (`items?`). What a spec asks for gets there
as it is, its name without quotes, so the statement has one column for each spec exactly if each definition
is one such item on its own (`column_per_spec_iff`); a name with a comma makes two columns
(`name_makes_columns`). -/

namespace TableAccess

namespace Column

open Text (Names join sqlName trim isBlank)

/-! ### Items -/

/-- Where a reader of items stands: so deep in parentheses, and in a constant or a name between quotes. -/
inductive Ground where
  | plain (depth : Nat)
  | constant (depth : Nat)
  | name (depth : Nat)
  deriving DecidableEq

/-- Reads one character of an item. A comma outside parentheses is in no item, and nothing closes a
parenthesis that is not open. -/
def Ground.step : Ground → Char → Option Ground
  | .plain depth, c =>
    if c = '(' then some (.plain (depth + 1))
    else if c = ')' then if depth = 0 then none else some (.plain (depth - 1))
    else if c = '\'' then some (.constant depth)
    else if c = '"' then some (.name depth)
    else if c = ',' ∧ depth = 0 then none
    else some (.plain depth)
  | .constant depth, c => some (if c = '\'' then .plain depth else .constant depth)
  | .name depth, c => some (if c = '"' then .plain depth else .name depth)

def walk : Ground → List Char → Option Ground
  | g, [] => some g
  | g, c :: cs => (g.step c).bind fun g => walk g cs

/-- An item: its parentheses and quotes are closed, and there is no comma outside them. -/
def Whole (cs : List Char) : Prop := walk (.plain 0) cs = some (.plain 0)

instance (cs : List Char) : Decidable (Whole cs) := inferInstanceAs (Decidable (_ = _))

/-- A character in front of the first item. -/
def extend (c : Char) : List (List Char) → List (List Char)
  | [] => [[c]]
  | item :: items => (c :: item) :: items

def itemsFrom : Ground → List Char → Option (List (List Char))
  | g, [] => if g = .plain 0 then some [[]] else none
  | g, c :: cs =>
    if g = .plain 0 ∧ c = ',' then (itemsFrom (.plain 0) cs).map ([] :: ·)
    else (g.step c).bind fun g => (itemsFrom g cs).map (extend c)

/-- A text split at the commas that are outside parentheses and outside quotes, if these are closed. -/
def items? (cs : List Char) : Option (List (List Char)) := itemsFrom (.plain 0) cs

variable {g : Ground} {cs p : List Char} {ps qs : List (List Char)}

theorem join_extend (c : Char) (p : List Char) (ps : List (List Char)) :
    join [','] ((c :: p) :: ps) = c :: join [','] (p :: ps) := by
  cases ps <;> rfl

/-- A comma that is read is inside parentheses or quotes. -/
theorem not_outside {c : Char} {g' : Ground} (h : g.step c = some g') : ¬ (g = .plain 0 ∧ c = ',') := by
  rintro ⟨rfl, rfl⟩
  exact nomatch h

theorem join_of_itemsFrom (h : itemsFrom g cs = some ps) : ∃ p rest, ps = p :: rest ∧
    cs = join [','] ps ∧ walk g p = some (.plain 0) ∧ ∀ q ∈ rest, Whole q := by
  induction cs generalizing g ps with
  | nil =>
    rw [itemsFrom] at h
    split at h
    next hg =>
      obtain rfl := Option.some.inj h
      exact ⟨[], [], rfl, rfl, congrArg some hg, by simp⟩
    next => contradiction
  | cons c cs ih =>
    rw [itemsFrom] at h
    split at h
    next hcomma =>
      obtain ⟨rfl, rfl⟩ := hcomma
      obtain ⟨qs, hqs, rfl⟩ := Option.map_eq_some_iff.mp h
      obtain ⟨q, rest, rfl, rfl, hq, hrest⟩ := ih hqs
      exact ⟨[], _, rfl, rfl, rfl, List.forall_mem_cons.mpr ⟨hq, hrest⟩⟩
    next =>
      obtain ⟨g', hstep, hmap⟩ := Option.bind_eq_some_iff.mp h
      obtain ⟨qs, hqs, rfl⟩ := Option.map_eq_some_iff.mp hmap
      obtain ⟨q, rest, rfl, rfl, hq, hrest⟩ := ih hqs
      refine ⟨c :: q, rest, rfl, (join_extend c q rest).symm, ?_, hrest⟩
      rw [walk, hstep]
      exact hq

theorem itemsFrom_extend {c : Char} {g' : Ground} (hstep : g.step c = some g')
    (h : itemsFrom g' (join [','] (p :: ps)) = some (p :: ps)) :
    itemsFrom g (join [','] ((c :: p) :: ps)) = some ((c :: p) :: ps) := by
  rw [join_extend, itemsFrom, if_neg (not_outside hstep), hstep, Option.bind_some, h]
  rfl

theorem itemsFrom_join (hp : walk g p = some (.plain 0)) (hps : ∀ q ∈ ps, Whole q) :
    itemsFrom g (join [','] (p :: ps)) = some (p :: ps) := by
  induction ps generalizing g p with
  | nil =>
    induction p generalizing g with
    | nil =>
      obtain rfl := Option.some.inj hp
      rfl
    | cons c p ih =>
      obtain ⟨g', hstep, hwalk⟩ := Option.bind_eq_some_iff.mp hp
      exact itemsFrom_extend hstep (ih hwalk)
  | cons q rest ihrest =>
    induction p generalizing g with
    | nil =>
      obtain ⟨hq, hrest⟩ := List.forall_mem_cons.mp hps
      obtain rfl := Option.some.inj hp
      have hjoin : join [','] ([] :: q :: rest) = ',' :: join [','] (q :: rest) := rfl
      rw [hjoin, itemsFrom, if_pos ⟨rfl, rfl⟩, ihrest hq hrest]
      rfl
    | cons c p ih =>
      obtain ⟨g', hstep, hwalk⟩ := Option.bind_eq_some_iff.mp hp
      exact itemsFrom_extend hstep (ih hwalk)

/-- The items of a text are the only ones that it is joined from. -/
theorem items?_eq_some_iff : items? cs = some ps ↔
    ps ≠ [] ∧ cs = join [','] ps ∧ ∀ p ∈ ps, Whole p := by
  constructor
  · intro h
    obtain ⟨p, rest, rfl, hcs, hp, hrest⟩ := join_of_itemsFrom h
    exact ⟨List.cons_ne_nil _ _, hcs, List.forall_mem_cons.mpr ⟨hp, hrest⟩⟩
  · rintro ⟨hne, rfl, hall⟩
    obtain ⟨p, rest, rfl⟩ := List.exists_cons_of_ne_nil hne
    obtain ⟨hp, hrest⟩ := List.forall_mem_cons.mp hall
    exact itemsFrom_join hp hrest

/-! ### Blanks -/

theorem step_blank (g : Ground) : g.step ' ' = some g := by
  cases g with
  | plain depth => simp [Ground.step]
  | constant depth => rfl
  | name depth => rfl

theorem walk_append (g : Ground) (cs ds : List Char) :
    walk g (cs ++ ds) = (walk g cs).bind fun g => walk g ds := by
  induction cs generalizing g with
  | nil => rfl
  | cons c cs ih =>
    rw [List.cons_append, walk, walk, Option.bind_assoc]
    exact congrArg _ (funext ih)

/-- Blanks around an item have no part in it. -/
theorem whole_spaced_iff (cs : List Char) : Whole (' ' :: cs) ↔ Whole cs := by
  rw [Whole, walk, step_blank]
  rfl

theorem whole_append_blank_iff (cs : List Char) : Whole (cs ++ [' ']) ↔ Whole cs := by
  have hblank (g : Ground) : walk g [' '] = some g := by
    rw [walk, step_blank]
    rfl
  rw [Whole, walk_append]
  simp only [hblank, Option.bind_fun_some]
  rfl

/-- Items as a statement has them: a blank in front of each, and one behind the last. -/
def spaced : List (List Char) → List (List Char)
  | [] => []
  | [p] => [' ' :: (p ++ [' '])]
  | p :: q :: ps => (' ' :: p) :: spaced (q :: ps)

theorem spaced_ne_nil (p : List Char) (ps : List (List Char)) : spaced (p :: ps) ≠ [] := by
  cases ps <;> exact List.cons_ne_nil _ _

theorem join_spaced (p : List Char) (ps : List (List Char)) :
    join [','] (spaced (p :: ps)) = ' ' :: (join [',', ' '] (p :: ps) ++ [' ']) := by
  induction ps generalizing p with
  | nil => rfl
  | cons q ps ih =>
    obtain ⟨r, rest, hspaced⟩ := List.exists_cons_of_ne_nil (spaced_ne_nil q ps)
    rw [spaced, hspaced, Text.join_cons_cons, ← hspaced, ih]
    simp [join]

theorem map_trim_spaced (ps : List (List Char)) : (spaced ps).map trim = ps.map trim := by
  have hfront (p : List Char) : trim (' ' :: p) = trim p := Text.trimBy_cons rfl p
  match ps with
  | [] => rfl
  | [p] =>
    have hbehind : trim (p ++ [' ']) = trim p := Text.trimBy_append (by simp [isBlank]) p
    rw [spaced, List.map_singleton, List.map_singleton, hfront, hbehind]
  | p :: q :: ps =>
    rw [spaced, List.map_cons, List.map_cons, hfront, map_trim_spaced (q :: ps)]

theorem forall_whole_spaced_iff (ps : List (List Char)) :
    (∀ p ∈ spaced ps, Whole p) ↔ ∀ p ∈ ps, Whole p := by
  match ps with
  | [] => rfl
  | [p] =>
    rw [spaced, List.forall_mem_singleton, List.forall_mem_singleton, whole_spaced_iff,
      whole_append_blank_iff]
  | p :: q :: ps =>
    rw [spaced, List.forall_mem_cons, List.forall_mem_cons, whole_spaced_iff,
      forall_whole_spaced_iff (q :: ps)]

/-! ### Items that are alike -/

theorem count_trim {c : Char} (h : isBlank c = false) (cs : List Char) :
    (trim cs).count c = cs.count c := Text.count_trimBy h cs

theorem count_eq_of_trim {c : Char} (h : isBlank c = false) {q : List Char} (htrim : trim p = trim q) :
    p.count c = q.count c := by
  rw [← count_trim h p, htrim, count_trim h]

/-- Items that are alike but for blanks have as many commas. -/
theorem count_join_eq (h : ps.map trim = qs.map trim) :
    (join [','] ps).count ',' = (join [','] qs).count ',' := by
  induction ps generalizing qs with
  | nil =>
    obtain rfl := List.map_eq_nil_iff.mp h.symm
    rfl
  | cons p ps ih =>
    obtain ⟨q, rest, rfl⟩ := List.exists_cons_of_ne_nil (l := qs) (by rintro rfl; simp at h)
    obtain ⟨hp, hps⟩ := List.cons.inj h
    have hcount := count_eq_of_trim (c := ',') rfl hp
    have hlength : ps.length = rest.length := by simpa using congrArg List.length hps
    match ps, rest with
    | [], [] => exact hcount
    | p' :: ps, q' :: rest =>
      rw [Text.join_cons_cons, Text.join_cons_cons, List.count_append, List.count_append,
        List.count_cons_self, List.count_cons_self, hcount, ih hps]

/-- Two ways to split a text are one if their items are alike: what is behind a comma has as many commas
either way. -/
theorem join_inj_of_trim {ps qs : List (List Char)} (h : join [','] ps = join [','] qs)
    (htrim : ps.map trim = qs.map trim) : ps = qs := by
  match ps, qs with
  | [], [] => rfl
  | [], _ :: _ | _ :: _, [] => simp at htrim
  | [p], [q] => rw [show p = q from h]
  | [_], _ :: _ :: _ | _ :: _ :: _, [_] => simp at htrim
  | p :: p' :: ps, q :: q' :: qs =>
    have hrest : (p' :: ps).map trim = (q' :: qs).map trim := (List.cons.inj htrim).2
    rw [Text.join_cons_cons, Text.join_cons_cons] at h
    obtain ⟨rfl, hjoin⟩ := Text.append_cons_inj_of_count h (count_join_eq hrest)
    rw [join_inj_of_trim hjoin hrest]

/-- The same behind other texts: the first items are taken together with these. -/
theorem append_join_inj {front front' q : List Char}
    (h : front ++ join [','] (p :: ps) = front' ++ join [','] (q :: qs))
    (htrim : ps.map trim = qs.map trim) : front ++ p = front' ++ q ∧ ps = qs := by
  match ps, qs with
  | [], [] => exact ⟨h, rfl⟩
  | [], _ :: _ | _ :: _, [] => simp at htrim
  | p' :: ps, q' :: qs =>
    rw [Text.join_cons_cons, Text.join_cons_cons, ← List.append_assoc, ← List.append_assoc] at h
    obtain ⟨hfront, hjoin⟩ := Text.append_cons_inj_of_count h (count_join_eq htrim)
    exact ⟨hfront, join_inj_of_trim hjoin htrim⟩

/-! ### The statement -/

/-- The words of a statement around its name and its body. -/
def creation (name body : List Char) : List Char :=
  "CREATE TABLE IF NOT EXISTS ".toList ++ (name ++ ([' ', '('] ++ (body ++ [')'])))

/-- What a statement creates: a table with a written name, and columns in its parentheses. -/
def Creates (statement : List Char) (columns : List (List Char)) : Prop :=
  ∃ name body parts items, Names name parts ∧ items? body = some items ∧
    statement = creation name body ∧ columns = items.map trim

/-- A written name ends where a blank comes behind it. -/
theorem names_append_inj {name name' xs ys : List Char} {parts parts' : List (List Char)}
    (named : Names name parts) (named' : Names name' parts') (h : name ++ ' ' :: xs = name' ++ ' ' :: ys) :
    name = name' ∧ xs = ys := by
  induction named generalizing name' parts' with
  | sole _ =>
    cases named' with
    | sole _ =>
      obtain ⟨rfl, hrest⟩ := Text.sqlName_append_inj (by simp) (by simp) h
      exact ⟨rfl, (List.cons.inj hrest).2⟩
    | qualified _ _ =>
      rw [List.append_assoc] at h
      have hrest := (Text.sqlName_append_inj (by simp) (by simp) h).2
      simp at hrest
  | qualified _ _ ih =>
    rw [List.append_assoc] at h
    cases named' with
    | sole _ =>
      have hrest := (Text.sqlName_append_inj (by simp) (by simp) h).2
      simp at hrest
    | qualified _ rest' =>
      rw [List.append_assoc] at h
      obtain ⟨rfl, hrest⟩ := Text.sqlName_append_inj (by simp) (by simp) h
      obtain ⟨rfl, rfl⟩ := ih rest' (List.cons.inj hrest).2
      exact ⟨rfl, rfl⟩

theorem creation_inj {name name' body body' : List Char} {parts parts' : List (List Char)}
    (named : Names name parts) (named' : Names name' parts') (h : creation name body = creation name' body') :
    name = name' ∧ body = body' := by
  obtain ⟨hname, hrest⟩ := names_append_inj named named' (List.append_cancel_left h)
  exact ⟨hname, List.append_cancel_right (List.cons.inj hrest).2⟩

/-- A statement creates columns in one way, if at all. -/
theorem Creates.unique {statement : List Char} (h : Creates statement ps) (h' : Creates statement qs) :
    ps = qs := by
  obtain ⟨name, body, parts, items, named, listed, hstatement, rfl⟩ := h
  obtain ⟨name', body', parts', items', named', listed', hstatement', rfl⟩ := h'
  obtain ⟨rfl, rfl⟩ := creation_inj named named' (hstatement.symm.trans hstatement')
  obtain rfl := Option.some.inj (listed.symm.trans listed')
  rfl

theorem toList_createText (table : String) (definitions : List String) :
    (createText table definitions).toList = creation (written table.toList)
      (join [','] (spaced ((idDefinition :: definitions).map String.toList))) := by
  have hopening : " ( ".toList = [' ', '(', ' '] := by decide +kernel
  have hclosing : " )".toList = [' ', ')'] := by decide +kernel
  have hcomma : ", ".toList = [',', ' '] := by decide +kernel
  have htext : (Value.text table).toText = table := String.ofList_toList
  have hchars : (Value.text table).chars = table.toList := rfl
  have hwritten := createText_eq (.text table) definitions
  rw [htext] at hwritten
  rw [hwritten, List.map_cons, join_spaced, Text.join_eq_intercalate]
  unfold creation
  simp only [String.toList_append, String.toList_ofList, String.toList_intercalate, hopening, hclosing,
    hcomma, hchars, List.map_cons, List.append_assoc, List.cons_append, List.nil_append]

variable {table : String} {definitions : List String}

/-- The columns that a table should have: its number, and one for each definition. -/
def columns (definitions : List String) : List (List Char) :=
  idDefinition.toList :: definitions.map fun d => trim d.toList

theorem columns_eq (definitions : List String) :
    columns definitions = (spaced ((idDefinition :: definitions).map String.toList)).map trim := by
  have hid : trim idDefinition.toList = idDefinition.toList := by decide +kernel
  rw [map_trim_spaced, List.map_cons, List.map_cons, hid, List.map_map]
  rfl

theorem forall_whole_iff (definitions : List String) :
    (∀ p ∈ spaced ((idDefinition :: definitions).map String.toList), Whole p) ↔
      ∀ d ∈ definitions, Whole d.toList := by
  have hid : Whole idDefinition.toList := by decide +kernel
  rw [forall_whole_spaced_iff, List.map_cons, List.forall_mem_cons, and_iff_right hid,
    List.forall_mem_map]

theorem creates_columns_iff (table : String) (definitions : List String) :
    Creates (createText table definitions).toList (columns definitions) ↔
      (∃ parts, Names (written table.toList) parts) ∧ ∀ d ∈ definitions, Whole d.toList := by
  rw [← forall_whole_iff, columns_eq, toList_createText]
  obtain ⟨p, ps, hspaced⟩ := List.exists_cons_of_ne_nil
    (spaced_ne_nil idDefinition.toList (definitions.map String.toList))
  rw [List.map_cons, hspaced]
  constructor
  · rintro ⟨name, body, parts, items, named, listed, htext, htrim⟩
    obtain ⟨hne, rfl, hwhole⟩ := items?_eq_some_iff.mp listed
    obtain ⟨q, qs, rfl⟩ := List.exists_cons_of_ne_nil hne
    obtain ⟨hfirst, hrest⟩ := List.cons.inj htrim
    have hclosed : (written table.toList ++ [' ', '('] ++ join [','] (p :: ps)) ++ [')'] =
        (name ++ [' ', '('] ++ join [','] (q :: qs)) ++ [')'] := by
      simpa using List.append_cancel_left htext
    have hjoined := List.append_cancel_right hclosed
    obtain ⟨hfront, rfl⟩ := append_join_inj hjoined hrest
    have hcut : (written table.toList ++ [' ']) ++ '(' :: p = (name ++ [' ']) ++ '(' :: q := by
      simpa using hfront
    obtain ⟨hname, rfl⟩ := Text.append_cons_inj_of_count hcut (count_eq_of_trim rfl hfirst)
    rw [List.append_cancel_right hname]
    exact ⟨⟨parts, named⟩, hwhole⟩
  · rintro ⟨⟨parts, named⟩, hwhole⟩
    exact ⟨_, _, parts, p :: ps, named,
      items?_eq_some_iff.mpr ⟨List.cons_ne_nil _ _, rfl, hwhole⟩, rfl, rfl⟩

/-- One column per spec. An accepted statement creates the serial number and then each definition, and so
one column more than there are specs, exactly if its table has a written name and each definition is an item
on its own. -/
theorem column_per_spec_iff {specs : List String} {statement : String}
    (accepted : createTable (.text table) (.list (specs.map .text)) = .ok statement) :
    ∃ definitions, List.Forall₂ (fun s d => spec (.text s) = .ok d) specs definitions ∧
      (Creates statement.toList (columns definitions) ↔
        (∃ parts, Names (written table.toList) parts) ∧ ∀ d ∈ definitions, Whole d.toList) ∧
      ∀ others, Creates statement.toList (columns definitions) → Creates statement.toList others →
        others.length = specs.length + 1 ∧ others.head? = some idDefinition.toList := by
  rw [createTable_texts] at accepted
  split_ifs at accepted
  obtain ⟨definitions, hdefinitions, haccepted⟩ := ok_of_bind accepted
  obtain rfl := Except.ok.inj haccepted
  have hall := mapM_eq_ok_iff.mp hdefinitions
  refine ⟨definitions, hall, creates_columns_iff table definitions, fun others hcreates hothers => ?_⟩
  obtain rfl := hothers.unique hcreates
  exact ⟨by simp [columns, hall.length_eq], rfl⟩

theorem names_users : Names (written "users".toList) ["users".toList] := by
  have hwritten : written "users".toList = sqlName "users".toList := by decide +kernel
  rw [hwritten]
  exact .sole (by decide +kernel)

/-- A type with a comma in its parentheses, and a default with one in its quotes. -/
theorem column_per_spec_iff_commas :
    let specs := ["price:numeric(10,2):unique", "kind:text:noindex:null:'a,b'"]
    let statement := "CREATE TABLE IF NOT EXISTS \"users\" ( id serial primary key, " ++
      "price numeric(10,2) UNIQUE, kind text DEFAULT 'a,b' )"
    createTable (.text "users") (.list (specs.map .text)) = .ok statement ∧
      Creates statement.toList (["id serial primary key", "price numeric(10,2) UNIQUE",
        "kind text DEFAULT 'a,b'"].map String.toList) ∧
      ∀ others, Creates statement.toList others → others.length = 3 := by
  intro specs statement
  have hread : specs.mapM (fun s => spec (.text s)) =
      .ok ["price numeric(10,2) UNIQUE", "kind text DEFAULT 'a,b'"] := by
    have hprice : parse "price:numeric(10,2):unique" =
        .ok ⟨"price", "numeric(10,2)", true, false, none⟩ := by decide +kernel
    have hkind : parse "kind:text:noindex:null:'a,b'" =
        .ok ⟨"kind", "text", false, false, some "'a,b'"⟩ := by decide +kernel
    exact mapM_eq_ok_iff.mpr (.cons (spec_of_parse hprice) (.cons (spec_of_parse hkind) .nil))
  have accepted : createTable (.text "users") (.list (specs.map .text)) = .ok statement := by
    rw [createTable_given (by decide) (List.cons_ne_nil _ _), hread]
    exact congrArg Except.ok (by decide +kernel)
  obtain ⟨definitions, hall, hiff, hcount⟩ := column_per_spec_iff accepted
  obtain rfl := Except.ok.inj ((mapM_eq_ok_iff.mpr hall).symm.trans hread)
  have hcreates := hiff.mpr ⟨⟨_, names_users⟩, by decide +kernel⟩
  have hcolumns : columns ["price numeric(10,2) UNIQUE", "kind text DEFAULT 'a,b'"] =
      ["id serial primary key", "price numeric(10,2) UNIQUE", "kind text DEFAULT 'a,b'"].map
        String.toList := by decide +kernel
  exact ⟨accepted, hcolumns ▸ hcreates, fun others h => (hcount others hcreates h).1⟩

/-- One spec makes two columns, since nothing is put around its name. -/
theorem name_makes_columns :
    let statement := "CREATE TABLE IF NOT EXISTS \"users\" ( id serial primary key, a,b integer )"
    createTable (.text "users") (.list [.text "a,b:int"]) = .ok statement ∧
      Creates statement.toList (["id serial primary key", "a", "b integer"].map String.toList) ∧
      ¬ ∃ columns, Creates statement.toList columns ∧ columns.length = 2 := by
  intro statement
  have hparse : parse "a,b:int" = .ok ⟨"a,b", "integer", false, false, none⟩ := by decide +kernel
  have hread : ["a,b:int"].mapM (fun s => spec (.text s)) = .ok ["a,b integer"] :=
    mapM_eq_ok_iff.mpr (.cons (spec_of_parse hparse) .nil)
  have accepted : createTable (.text "users") (.list (["a,b:int"].map .text)) = .ok statement := by
    rw [createTable_given (by decide) (List.cons_ne_nil _ _), hread]
    exact congrArg Except.ok (by decide +kernel)
  have hcreates : Creates statement.toList
      (["id serial primary key", "a", "b integer"].map String.toList) := by
    refine ⟨written "users".toList, " id serial primary key, a,b integer ".toList, _,
      [" id serial primary key", " a", "b integer "].map String.toList, names_users, ?_, ?_, ?_⟩ <;>
      decide +kernel
  refine ⟨accepted, hcreates, ?_⟩
  rintro ⟨columns, h, hlength⟩
  obtain rfl := h.unique hcreates
  contradiction

end Column

end TableAccess
