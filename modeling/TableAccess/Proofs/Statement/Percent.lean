import TableAccess.Proofs.Operator.Field
import TableAccess.Proofs.Statement.Parameters
import TableAccess.Proofs.Text.Doubled
import TableAccess.Proofs.Text.Split

/-! Percent signs in structured statements. A driver that is given parameters reads every `%` of the
text as the beginning of a marker. The markers of a statement are read as such; the other percent signs
are those of the names and order types of the request, which go into the text as they are. So a driver
reads as many markers as there are parameters exactly if no such text has a percent sign
(`find_safe_iff` and the like). -/

namespace TableAccess

namespace Fragment

/-- The number of markers that a driver reads in a text, if it can read every `%` as one. -/
def markersRead : List Char → Option Nat
  | [] => some 0
  | '%' :: 's' :: cs => (markersRead cs).map (· + 1)
  | '%' :: _ => none
  | _ :: cs => markersRead cs

theorem markersRead_cons {c : Char} (h : c ≠ '%') (cs : List Char) :
    markersRead (c :: cs) = markersRead cs := by
  rw [markersRead]
  · simp [h]
  · simp [h]

theorem markersRead_append {cs : List Char} (h : '%' ∉ cs) (rest : List Char) :
    markersRead (cs ++ rest) = markersRead rest := by
  induction cs with
  | nil => rfl
  | cons c cs ih =>
    rw [List.mem_cons, not_or] at h
    rw [List.cons_append, markersRead_cons (Ne.symm h.1), ih h.2]

theorem count_of_markersRead {cs : List Char} {n : Nat} (h : markersRead cs = some n) :
    cs.count '%' = n := by
  fun_induction markersRead cs generalizing n with
  | case1 => exact Option.some.inj h
  | case2 cs ih =>
    obtain ⟨m, hm, rfl⟩ := Option.map_eq_some_iff.mp h
    simp [ih hm]
  | case3 => contradiction
  | case4 c cs _ hc ih =>
    rw [List.count_cons_of_ne (by simpa using hc), ih h]

/-- A marker, or a piece of text without percent signs. -/
def Plain : Fragment → Prop
  | .marker _ => True
  | f => '%' ∉ f.chars

instance : DecidablePred Plain
  | .marker _ => .isTrue trivial
  | .words s => inferInstanceAs (Decidable ('%' ∉ s.toList))
  | .name parts => inferInstanceAs (Decidable ('%' ∉ (name parts).chars))

theorem markers_cons_marker (v : Value) (fs : List Fragment) :
    markers (.marker v :: fs) = markers fs + 1 := List.countP_cons_of_pos rfl

theorem markers_cons_of_none {f : Fragment} (h : f.parameter? = none) (fs : List Fragment) :
    markers (f :: fs) = markers fs := List.countP_cons_of_neg (by simp [h])

theorem count_marker (v : Value) : (marker v).chars.count '%' = 1 := rfl

theorem plain_iff_count {f : Fragment} (h : f.parameter? = none) :
    f.Plain ↔ f.chars.count '%' = 0 := by
  cases f with
  | marker v => contradiction
  | _ => exact List.count_eq_zero.symm

theorem markers_le_count (fs : List Fragment) : markers fs ≤ (fs.flatMap chars).count '%' := by
  induction fs with
  | nil => exact Nat.le_refl 0
  | cons f fs ih =>
    rw [List.flatMap_cons, List.count_append]
    cases f with
    | marker v =>
      rw [markers_cons_marker, count_marker]
      omega
    | _ =>
      rw [markers_cons_of_none rfl]
      omega

/-- The percent signs beyond those of the markers stand in pieces that are not plain. -/
theorem count_eq_markers_iff (fs : List Fragment) :
    (fs.flatMap chars).count '%' = markers fs ↔ ∀ f ∈ fs, f.Plain := by
  induction fs with
  | nil => simp [markers]
  | cons f fs ih =>
    have hle := markers_le_count fs
    rw [List.flatMap_cons, List.count_append, List.forall_mem_cons, ← ih]
    cases f with
    | marker v =>
      have hplain : (marker v).Plain := trivial
      rw [markers_cons_marker, count_marker, and_iff_right hplain]
      omega
    | _ =>
      rw [markers_cons_of_none rfl, plain_iff_count rfl]
      omega

/-- A driver reads the markers of a statement exactly if every other piece is plain. -/
theorem markersRead_text_iff (fs : List Fragment) :
    markersRead (text fs).toList = some (markers fs) ↔ ∀ f ∈ fs, f.Plain := by
  rw [text, String.toList_ofList]
  constructor
  · -- where a reader stands need not be followed: it reads as many markers as there are percent signs
    exact fun h => (count_eq_markers_iff fs).mp (count_of_markersRead h)
  · intro h
    induction fs with
    | nil => rfl
    | cons f fs ih =>
      obtain ⟨hf, hfs⟩ := List.forall_mem_cons.mp h
      rw [List.flatMap_cons]
      cases f with
      | marker v =>
        show (markersRead (fs.flatMap chars)).map (· + 1) = _
        rw [ih hfs, markers_cons_marker]
        rfl
      | _ => rw [markersRead_append hf, ih hfs, markers_cons_of_none rfl]

theorem percent_mem_quotedName (part : String) : '%' ∈ quotedName part ↔ '%' ∈ part.toList := by
  simp [quotedName, Text.sqlName, Text.mem_double_iff]

theorem plain_name_iff (parts : List String) :
    (name parts).Plain ↔ ∀ part ∈ parts, '%' ∉ part.toList := by
  have hchars : '%' ∈ (name parts).chars ↔ ∃ part ∈ parts, '%' ∈ part.toList := by
    rw [chars, Text.mem_join_iff (by decide)]
    simp [percent_mem_quotedName]
  show ¬ '%' ∈ (name parts).chars ↔ _
  rw [hchars]
  simp

theorem plain_field_iff (f : String) : (field f).Plain ↔ '%' ∉ f.toList := by
  have hsplit : '%' ∈ f.toList ↔ ∃ piece ∈ Text.split '.' f.toList, '%' ∈ piece :=
    Text.mem_split_iff (by decide)
  rw [field, plain_name_iff, List.forall_mem_map, hsplit]
  simp

end Fragment

namespace Statement

open Fragment (Plain markers markersRead)

theorem percent_mem_trimBy {p : Char → Bool} (h : p '%' = false) (cs : List Char) :
    '%' ∈ Text.trimBy p cs ↔ '%' ∈ cs := by
  obtain ⟨before, after, hcs, hb, ha⟩ := Text.eq_append_trimBy p cs
  have hbefore : '%' ∉ before := fun hm => by simpa [h] using hb _ hm
  have hafter : '%' ∉ after := fun hm => by simpa [h] using ha _ hm
  conv_rhs => rw [hcs]
  simp [hbefore, hafter]

/-- Of a table name only blanks, quotes and the first dot are taken off. -/
theorem plain_table_iff (v : Value) : (Bound.table v).Plain ↔ '%' ∉ v.toText.toList := by
  have hblank : Text.isBlank '%' = false := rfl
  have hquote : Bound.isQuote '%' = false := rfl
  have htrim : '%' ∈ v.toText.toList ↔ '%' ∈ Text.trim v.chars := by
    rw [Value.toText, String.toList_ofList]
    exact (percent_mem_trimBy hblank _).symm
  rw [htrim]
  unfold Bound.table
  dsimp only
  split
  next schema rest hcut =>
    rw [Text.of_cut hcut, Fragment.plain_name_iff]
    simp [percent_mem_trimBy hquote]
  next name hcut =>
    rw [Text.of_cut hcut, Fragment.plain_name_iff]
    simp [percent_mem_trimBy hquote]

end Statement

/-- None of the texts has a percent sign. -/
def PercentFree (texts : List String) : Prop := ∀ text ∈ texts, '%' ∉ text.toList

instance (texts : List String) : Decidable (PercentFree texts) := List.decidableBAll _ _

theorem percentFree_cons (text : String) (texts : List String) :
    PercentFree (text :: texts) ↔ '%' ∉ text.toList ∧ PercentFree texts := List.forall_mem_cons

theorem percentFree_append (xs ys : List String) :
    PercentFree (xs ++ ys) ↔ PercentFree xs ∧ PercentFree ys := List.forall_mem_append

namespace Comparison

/-- The field, unless the comparison is decided without it. -/
def fieldTexts (c : Comparison) : List String :=
  match c.operator, c.value.items? with
  | .isIn, some [] | .notIn, some [] => []
  | _, _ => [c.field]

theorem fieldTexts_cases (c : Comparison) :
    (.field c.field ∈ c.bound ∧ c.fieldTexts = [c.field]) ∨
      (.field c.field ∉ c.bound ∧ c.fieldTexts = []) := by
  unfold fieldTexts bound
  cases c.operator
  case isIn | notIn =>
    unfold boundMembership
    rcases c.value.items? with _ | _ | ⟨x, xs⟩ <;> simp [simple, Fragment.field]
  case ilike | notIlike => simp [boundFolded]
  case eq => cases c.value <;> simp [simple]
  all_goals simp [simple]

theorem plain_bound_iff (c : Comparison) :
    (∀ f ∈ c.bound, f.Plain) ↔ PercentFree c.fieldTexts := by
  have hpieces : (∀ f ∈ c.bound, f.Plain) ↔ (.field c.field ∈ c.bound → '%' ∉ c.field.toList) := by
    constructor
    · exact fun h hf => (Fragment.plain_field_iff _).mp (h _ hf)
    · intro h f hf
      obtain rfl | ⟨s, rfl, hs⟩ | ⟨v, rfl⟩ := piece_of_mem_bound hf
      · exact (Fragment.plain_field_iff _).mpr (h hf)
      · exact hs
      · trivial
  obtain ⟨hf, ht⟩ | ⟨hf, ht⟩ := c.fieldTexts_cases
  · rw [hpieces, ht]
    simp [hf, PercentFree]
  · rw [hpieces, ht]
    simp [hf, PercentFree]

end Comparison

namespace Statement

theorem orders_eq_mappings {os : Entries} {items : List Entries} (h : Orders os items) :
    items = Entries.mappings (os.get "order") := by
  obtain ⟨hf, rfl⟩ | hi := h
  · cases hv : os.get "order" <;> simp_all [Value.truthy, Entries.mappings, Value.items?]
  · rw [Entries.mappings, hi]
    simp [List.filterMap_map, Function.comp_def, Value.entries?]

/-- What of a search goes into its text as it is: the names of its table, columns and fields, and its
order types. -/
def searchTexts (table conditions : Value) (os : Entries) : List String :=
  let items := Entries.mappings (os.get "order")
  table.toText :: columnNames os ++
    ((conditions.entries?.getD []).flat.map Comparison.ofEntry).flatMap Comparison.fieldTexts ++
      items.map orderedBy ++ items.flatMap orderTypes

/-- The same of a row. -/
def rowTexts (table data : Value) : List String :=
  table.toText :: (data.entries?.getD []).map (·.1)

theorem comparisons_eq {conditions : Value} {c : Condition}
    (h : Condition.ofValue conditions = .ok c) :
    c.comparisons = (conditions.entries?.getD []).flat.map .ofEntry := by
  unfold Condition.ofValue at h
  split at h
  next es =>
    obtain ⟨wellFormed, rfl⟩ := Condition.ofEntries_ok_iff.mp h
    exact Condition.comparisons_tree wellFormed
  next hmap =>
    split at h
    · contradiction
    · obtain rfl := Except.ok.inj h
      have hnone : conditions.entries? = none := by
        cases conditions <;> first | rfl | exact absurd rfl (hmap _)
      rw [hnone, Option.getD_none, Entries.flat_eq]
      rfl

theorem paging_plain {keyword option : String} {os : Entries} {pieces : List Fragment}
    (hk : '%' ∉ keyword.toList) (h : Bound.paging keyword option os = .ok pieces) :
    ∀ f ∈ pieces, f.Plain := by
  unfold Bound.paging at h
  dsimp only at h
  split at h
  · obtain rfl := Except.ok.inj h
    simp
  · split at h
    · obtain rfl := Except.ok.inj h
      rw [List.forall_mem_cons, List.forall_mem_singleton]
      exact ⟨hk, trivial⟩
    · contradiction

theorem ordering_plain_iff {os : Entries} {pieces : List Fragment}
    (h : Bound.ordering os = .ok pieces) :
    (∀ f ∈ pieces, f.Plain) ↔
      PercentFree ((Entries.mappings (os.get "order")).map orderedBy) ∧
        PercentFree ((Entries.mappings (os.get "order")).flatMap orderTypes) := by
  obtain ⟨items, horders, hiff⟩ := Bound.forall_mem_ordering (P := Fragment.Plain) (fun _ h => h) h
  obtain rfl := orders_eq_mappings horders
  simp only [hiff, Fragment.plain_field_iff, PercentFree, List.forall_mem_map,
    List.forall_mem_flatMap]
  exact forall₂_and

theorem search_plain_iff {table conditions : Value} {os : Entries} {pieces : List Fragment}
    (s : Bound.Search table conditions os pieces) :
    (∀ f ∈ pieces, f.Plain) ↔ PercentFree (searchTexts table conditions os) := by
  have hwords : ∀ text : String, '%' ∉ text.toList → (Fragment.words text).Plain := fun _ h => h
  have hcolumns : (∀ f ∈ s.columns, f.Plain) ↔ PercentFree (columnNames os) := by
    rw [Bound.forall_mem_columns hwords s.selects]
    simp [Fragment.plain_name_iff, PercentFree]
  have hpredicate : (∀ f ∈ s.predicate, f.Plain) ↔ PercentFree
      (((conditions.entries?.getD []).flat.map Comparison.ofEntry).flatMap Comparison.fieldTexts) := by
    rw [Bound.forall_mem_condition hwords s.read s.restricts, comparisons_eq s.read]
    simp only [Comparison.plain_bound_iff, PercentFree, List.forall_mem_flatMap]
  have hselect : (Fragment.words "SELECT ").Plain := hwords _ (by decide)
  have hfrom : (∀ f ∈ [.words " FROM ", Bound.table table], f.Plain) ↔ '%' ∉ table.toText.toList := by
    rw [List.forall_mem_cons, List.forall_mem_singleton, plain_table_iff,
      and_iff_right (hwords _ (by decide))]
  have hlimit := paging_plain (by decide) s.limits
  have hoffset := paging_plain (by decide) s.skips
  rw [s.pieces_eq, List.forall_mem_append, List.forall_mem_append, List.forall_mem_append,
    List.forall_mem_append, List.forall_mem_append, List.forall_mem_cons, hcolumns, hfrom, hpredicate,
    ordering_plain_iff s.orders, and_iff_left hlimit, and_iff_left hoffset, and_iff_right hselect]
  simp only [searchTexts, List.cons_append, percentFree_cons, percentFree_append, and_assoc]
  exact and_left_comm

/-- A driver reads as many markers as there are parameters. -/
def Prepared.Safe (p : Prepared) : Prop :=
  Fragment.markersRead (Fragment.text p.pieces).toList = some p.parameters.length

theorem safe_iff {p : Prepared} (counts : Fragment.markers p.pieces = p.parameters.length) :
    p.Safe ↔ ∀ f ∈ p.pieces, f.Plain := by
  rw [Prepared.Safe, ← counts, Fragment.markersRead_text_iff]

theorem find_safe_iff {table conditions options : Value} {p : Prepared}
    (h : Prepared.find table conditions options = .ok p) :
    ∃ os, optionEntries options = .ok os ∧
      (p.Safe ↔ PercentFree (searchTexts table conditions os)) := by
  obtain ⟨os, hos, s, hp⟩ := search_of_prepared h
  exact ⟨os, hos, (safe_iff (s.lined_up hp).counts).trans (search_plain_iff s)⟩

theorem byId_plain (id : Value) : ∀ f ∈ Bound.byId id, f.Plain := by
  simp only [Bound.byId, List.forall_mem_cons]
  exact ⟨by decide, by decide, by decide, trivial, by simp⟩

/-- A statement with a table name behind its first words. -/
theorem table_plain_iff {verb : String} (hverb : '%' ∉ verb.toList) (table : Value)
    (rest : List Fragment) :
    (∀ f ∈ [.words verb, Bound.table table] ++ rest, f.Plain) ↔
      '%' ∉ table.toText.toList ∧ ∀ f ∈ rest, f.Plain := by
  have hwords : (Fragment.words verb).Plain := hverb
  rw [List.forall_mem_append, List.forall_mem_cons, List.forall_mem_singleton, and_iff_right hwords,
    plain_table_iff]

theorem markers_table (verb : String) (table : Value) (rest : List Fragment) :
    Fragment.markers ([.words verb, Bound.table table] ++ rest) = Fragment.markers rest := by
  rw [List.cons_append, List.singleton_append, Fragment.markers_cons_of_none rfl,
    Fragment.markers_cons_of_none (table_glue table)]

theorem percentFree_singleton (text : String) : PercentFree [text] ↔ '%' ∉ text.toList :=
  List.forall_mem_singleton

theorem findOne_safe_iff (table id : Value) :
    (Prepared.findOne table id).Safe ↔ PercentFree [table.toText] := by
  rw [safe_iff (markers_table _ table (Bound.byId id)), percentFree_singleton]
  exact (table_plain_iff (by decide) table _).trans (and_iff_left (byId_plain id))

theorem deleteById_safe_iff (table id : Value) :
    (Prepared.deleteById table id).Safe ↔ PercentFree [table.toText] := by
  have hrest : ∀ f ∈ Bound.byId id ++ [.words " RETURNING *"], f.Plain := by
    rw [List.forall_mem_append, List.forall_mem_singleton]
    exact ⟨byId_plain id, by decide⟩
  rw [safe_iff (markers_table _ table (Bound.byId id ++ _)), percentFree_singleton]
  exact (table_plain_iff (by decide) table _).trans (and_iff_left hrest)

theorem map_of_entries {v : Value} {es : Entries} (h : entries v = .ok es) : v = .map es := by
  cases v with
  | map es => exact congrArg _ (Except.ok.inj h)
  | _ => contradiction

/-- A row that is accepted is a mapping with entries, if one without them is refused. -/
theorem row_of_bind {α β : Type} {accepted : Value → Except Failure α} {data : Value}
    {finish : α → Entries → Except Failure β} {b : β} (refused : (accepted (.map [])).isOk = false)
    (h : (do finish (← accepted data) (← entries data)) = .ok b) :
    ∃ es : Entries, data = .map es ∧ es ≠ [] := by
  obtain ⟨a, ha, h⟩ := ok_of_bind h
  obtain ⟨es, hes, -⟩ := ok_of_bind h
  obtain rfl := map_of_entries hes
  refine ⟨es, rfl, ?_⟩
  rintro rfl
  rw [ha] at refused
  contradiction

/-- Parts that each have one column name, and otherwise nothing of the request. -/
theorem columns_plain_iff {part : String × Value → List Fragment}
    (h : ∀ e, (∀ f ∈ part e, f.Plain) ↔ '%' ∉ e.1.toList) (data : Entries) :
    (∀ f ∈ Bound.joined ", " (data.map part), f.Plain) ↔ PercentFree (data.map (·.1)) := by
  rw [Bound.forall_mem_joined (P := Fragment.Plain) (fun _ h => h) (by decide), List.forall_mem_map,
    PercentFree, List.forall_mem_map]
  exact forall₂_congr fun e _ => h e

theorem insert_safe_iff {table data : Value} {p : Prepared} (h : Prepared.insert table data = .ok p) :
    p.Safe ↔ PercentFree (rowTexts table data) := by
  obtain ⟨es, rfl, hne⟩ := row_of_bind rfl h
  obtain ⟨_, hp, hlined, -⟩ := insert_lined_up table hne
  obtain rfl := Except.ok.inj (h.symm.trans hp)
  obtain rfl := Except.ok.inj (h.symm.trans (insert_eq table hne))
  have hnames : (∀ f ∈ Bound.joined ", " (es.map fun e => [.name [e.1]]), f.Plain) ↔
      PercentFree (es.map (·.1)) :=
    columns_plain_iff (fun e => by simp [Fragment.plain_name_iff]) es
  have hmarkers : ∀ f ∈ Bound.joined ", " (es.map fun e => [.marker (Bound.adapted e.2)]),
      f.Plain := by
    rw [Bound.forall_mem_joined (P := Fragment.Plain) (fun _ h => h) (by decide), List.forall_mem_map]
    exact fun e _ => List.forall_mem_singleton.mpr trivial
  have hopening : ∀ f ∈ [Fragment.words " ("], f.Plain := by decide
  have hvalues : ∀ f ∈ [Fragment.words ") VALUES ("], f.Plain := by decide
  have hend : ∀ f ∈ [Fragment.words ") RETURNING *"], f.Plain := by decide
  have hrest : (∀ f ∈ [.words " ("] ++ Bound.joined ", " (es.map fun e => [.name [e.1]]) ++
      [.words ") VALUES ("] ++ Bound.joined ", " (es.map fun e => [.marker (Bound.adapted e.2)]) ++
      [.words ") RETURNING *"], f.Plain) ↔ PercentFree (es.map (·.1)) := by
    rw [List.forall_mem_append, List.forall_mem_append, List.forall_mem_append,
      List.forall_mem_append, and_iff_left hend, and_iff_left hmarkers, and_iff_left hvalues,
      and_iff_right hopening, hnames]
  rw [safe_iff hlined.counts, rowTexts, percentFree_cons]
  exact (table_plain_iff (by decide) table _).trans (and_congr_right fun _ => hrest)

theorem updateById_safe_iff {table id data : Value} {p : Prepared}
    (h : Prepared.updateById table id data = .ok p) :
    p.Safe ↔ PercentFree (rowTexts table data) := by
  obtain ⟨es, rfl, hne⟩ := row_of_bind rfl h
  obtain ⟨_, hp, hlined⟩ := update_lined_up table id hne
  obtain rfl := Except.ok.inj (h.symm.trans hp)
  obtain rfl := Except.ok.inj (h.symm.trans (update_eq table id hne))
  have hequals : (Fragment.words " = ").Plain := by decide
  have hmarker : ∀ v, (Fragment.marker v).Plain := fun _ => trivial
  have hnames : (∀ f ∈ Bound.joined ", " (es.map fun e => [.name [e.1], .words " = ",
      .marker (Bound.adapted e.2)]), f.Plain) ↔ PercentFree (es.map (·.1)) :=
    columns_plain_iff (fun e => by simp [Fragment.plain_name_iff, hequals, hmarker]) es
  have hset : ∀ f ∈ [Fragment.words " SET "], f.Plain := by decide
  have hend : ∀ f ∈ [Fragment.words " RETURNING *"], f.Plain := by decide
  have hrest : (∀ f ∈ [.words " SET "] ++ Bound.joined ", " (es.map fun e => [.name [e.1],
      .words " = ", .marker (Bound.adapted e.2)]) ++ Bound.byId id ++ [.words " RETURNING *"],
      f.Plain) ↔ PercentFree (es.map (·.1)) := by
    rw [List.forall_mem_append, List.forall_mem_append, List.forall_mem_append, and_iff_left hend,
      and_iff_left (byId_plain id), and_iff_right hset, hnames]
  rw [safe_iff hlined.counts, rowTexts, percentFree_cons]
  exact (table_plain_iff (by decide) table _).trans (and_congr_right fun _ => hrest)

end Statement

end TableAccess
