import TableAccess.Proofs.Statement.Bound

/-! The parameters of structured statements. They are collected apart from the text, so that the first
of them stands for the first marker is a theorem. A statement is woven from shares, one for each entry
of the condition, for each paging option, or for each column of a row, with words and names between
them; what a share adds to the parameters is the value of its own marker, if it has one. Hence the
`i`-th marker and the `i`-th parameter belong to one share (`markers_lined_up`). -/

namespace TableAccess

namespace Fragment

/-- The number of markers. -/
def markers (fs : List Fragment) : Nat := fs.countP fun f => f.parameter?.isSome

theorem length_parameters (fs : List Fragment) : (parameters fs).length = markers fs :=
  List.length_filterMap_eq_countP

theorem markers_append (fs gs : List Fragment) : markers (fs ++ gs) = markers fs + markers gs :=
  List.countP_append

end Fragment

namespace Comparison

variable (c : Comparison)

theorem parameters_bound : Fragment.parameters c.bound = c.parameters := by
  have hmembership : ∀ negated,
      Fragment.parameters (c.boundMembership negated) = c.membershipParameters := by
    intro negated
    unfold boundMembership membershipParameters
    split <;> rfl
  unfold bound parameters
  cases c.operator
  case isIn | notIn => exact hmembership _
  case eq =>
    dsimp only
    split <;> rfl
  all_goals rfl

/-- The comparison is a constant, or a test for null. -/
def Silent : Prop :=
  c.bound = [.words "TRUE"] ∨ c.bound = [.words "FALSE"] ∨ c.bound = [.field c.field, .words " IS NULL"]

theorem parameters_eq_nil_iff : c.parameters = [] ↔ c.Silent := by
  constructor
  · intro h
    have hmembership : ∀ negated, c.membershipParameters = [] →
        c.boundMembership negated = [.words (if negated then "TRUE" else "FALSE")] := by
      intro negated hm
      unfold membershipParameters at hm
      unfold boundMembership
      split at hm <;> simp_all
    unfold parameters at h
    unfold Silent bound
    cases ho : c.operator <;> simp only [ho, List.cons_ne_self] at h ⊢
    case isIn => exact .inr (.inl (hmembership false h))
    case notIn => exact .inl (hmembership true h)
    case eq => split at h <;> simp_all
  · rintro (h | h | h)
    all_goals
      rw [← parameters_bound, h]
      rfl

theorem length_parameters_le : c.parameters.length ≤ 1 := by
  unfold parameters membershipParameters
  split
  · split <;> simp
  · split <;> simp
  · split <;> simp
  · simp

end Comparison

namespace Condition

mutual
theorem parameters_eq : (c : Condition) → c.parameters = c.comparisons.flatMap Comparison.parameters
  | .node own alternatives => by
    rw [parameters, comparisons, List.flatMap_append, List.flatMap_map, parametersAll_eq alternatives]

/-- An alternative that is passed over compares nothing. -/
theorem parametersAll_eq :
    (cs : List Condition) → parametersAll cs = (comparisonsAll cs).flatMap Comparison.parameters
  | [] => rfl
  | c :: cs => by
    rw [parametersAll, comparisonsAll, List.flatMap_append, ← parametersAll_eq cs]
    split
    next h =>
      have hc := leaves_bound c
      rw [List.isEmpty_iff.mp h] at hc
      rw [← hc]
      rfl
    next => rw [parameters_eq c]
end

end Condition

namespace Statement

open Fragment (markers names)

/-- What one part of a request adds to a statement: pieces of its text, and parameters. -/
structure Share where
  pieces : List Fragment
  values : List Value

namespace Share

def ofComparison (c : Comparison) : Share := ⟨c.bound, c.parameters⟩

/-- An entry of a condition. -/
def ofEntry (e : String × Value) : Share := ofComparison (Comparison.ofEntry e)

/-- A paging option, if it is given. -/
def ofPaging (keyword option : String) (options : Entries) : List Share :=
  let v := options.get option
  if v.isNull then [] else [⟨[.words keyword, .marker v], [v]⟩]

/-- A column of a row that is inserted. -/
def ofColumn (e : String × Value) : Share := ⟨[.marker (Bound.adapted e.2)], [Bound.adapted e.2]⟩

/-- A column that an update sets. -/
def ofAssignment (e : String × Value) : Share :=
  ⟨[.name [e.1], .words " = ", .marker (Bound.adapted e.2)], [Bound.adapted e.2]⟩

/-- The row with an identifier. -/
def ofId (id : Value) : Share := ⟨Bound.byId id, [id]⟩

/-- The share has one value at most, and its marker is made for it. -/
structure Paired (s : Share) : Prop where
  values : Fragment.parameters s.pieces = s.values
  one : s.values.length ≤ 1

theorem ofComparison_paired (c : Comparison) : (ofComparison c).Paired :=
  ⟨c.parameters_bound, c.length_parameters_le⟩

theorem ofPaging_paired {keyword option : String} {options : Entries} :
    ∀ s ∈ ofPaging keyword option options, s.Paired := by
  intro s hs
  unfold ofPaging at hs
  dsimp only at hs
  split at hs
  · simp at hs
  · obtain rfl := List.mem_singleton.mp hs
    exact ⟨rfl, by simp⟩

end Share

/-- The shares stand in their order, with words and names between them. -/
inductive Woven : List Share → List Fragment → Prop
  | nil : Woven [] []
  | glue {shares : List Share} {f : Fragment} {fs : List Fragment} :
      f.parameter? = none → Woven shares fs → Woven shares (f :: fs)
  | share {s : Share} {shares : List Share} {fs : List Fragment} :
      Woven shares fs → Woven (s :: shares) (s.pieces ++ fs)

namespace Woven

variable {shares others : List Share} {fs gs : List Fragment}

theorem append (h : Woven shares fs) (h' : Woven others gs) : Woven (shares ++ others) (fs ++ gs) := by
  induction h with
  | nil => exact h'
  | glue hf _ ih => exact .glue hf ih
  | share _ ih =>
    rw [List.append_assoc]
    exact .share ih

theorem of_forall (h : ∀ f ∈ fs, f.parameter? = none) : Woven [] fs := by
  induction fs with
  | nil => exact .nil
  | cons f fs ih => exact .glue (h f (by simp)) (ih fun g hg => h g (by simp [hg]))

theorem after (h : Woven shares fs) (h' : Woven [] gs) : Woven shares (fs ++ gs) := by
  simpa using h.append h'

theorem single (s : Share) : Woven [s] s.pieces := by
  simpa using Woven.share (s := s) .nil

/-- The `i`-th value belongs to a share, which stands behind `i` markers. -/
theorem owner (h : Woven shares fs) (paired : ∀ s ∈ shares, s.Paired) {i : Nat} {v : Value}
    (hv : (shares.flatMap (·.values))[i]? = some v) :
    ∃ before s after front back, shares = before ++ s :: after ∧ s.values = [v] ∧
      (before.flatMap (·.values)).length = i ∧ fs = front ++ s.pieces ++ back ∧ markers front = i := by
  induction h generalizing i with
  | nil => simp at hv
  | @glue _ f _ hf _ ih =>
    obtain ⟨before, s, after, front, back, hshares, hs, hbefore, rfl, hfront⟩ := ih paired hv
    refine ⟨before, s, after, f :: front, back, hshares, hs, hbefore, rfl, ?_⟩
    rw [markers, List.countP_cons_of_neg (by simp [hf])]
    exact hfront
  | @share first shares fs _ ih =>
    obtain ⟨hvalues, hone⟩ := paired first (by simp)
    have hmarkers : markers first.pieces = first.values.length := by
      rw [← Fragment.length_parameters, hvalues]
    by_cases hi : i < first.values.length
    · -- the first share has one value, and this is it
      obtain rfl : i = 0 := by omega
      obtain ⟨w, hw⟩ := List.length_eq_one_iff.mp (show first.values.length = 1 by omega)
      rw [List.flatMap_cons, hw] at hv
      obtain rfl := Option.some.inj hv
      exact ⟨[], first, shares, [], fs, rfl, hw, rfl, rfl, rfl⟩
    · rw [List.flatMap_cons, List.getElem?_append_right (by omega)] at hv
      obtain ⟨before, s, after, front, back, rfl, hs, hbefore, rfl, hfront⟩ :=
        ih (fun s hs => paired s (by simp [hs])) hv
      refine ⟨first :: before, s, after, first.pieces ++ front, back, rfl, hs, ?_, by simp, ?_⟩
      · rw [List.flatMap_cons, List.length_append, hbefore]
        omega
      · rw [Fragment.markers_append, hmarkers, hfront]
        omega

theorem parameters_eq (h : Woven shares fs) (paired : ∀ s ∈ shares, s.Paired) :
    Fragment.parameters fs = shares.flatMap (·.values) := by
  induction h with
  | nil => rfl
  | glue hf _ ih => rw [Fragment.parameters, List.filterMap_cons_none hf, ← Fragment.parameters, ih paired]
  | share _ ih =>
    rw [Fragment.parameters_append, (paired _ (by simp)).values, List.flatMap_cons,
      ih fun s hs => paired s (by simp [hs])]

end Woven

/-- Markers and parameters of a statement that is made of shares: as many of these as of those, and
the `i`-th marker stands in the share that the `i`-th parameter comes from. -/
structure LinedUp (shares : List Share) (p : Prepared) : Prop where
  woven : Woven shares p.pieces
  values : p.parameters = shares.flatMap (·.values)
  counts : markers p.pieces = p.parameters.length
  owner : ∀ i v, p.parameters[i]? = some v →
    ∃ before s after front back, shares = before ++ s :: after ∧ s.values = [v] ∧
      Fragment.parameters s.pieces = [v] ∧ (before.flatMap (·.values)).length = i ∧
      p.pieces = front ++ s.pieces ++ back ∧ markers front = i

theorem LinedUp.of_woven {shares : List Share} {p : Prepared} (woven : Woven shares p.pieces)
    (values : p.parameters = shares.flatMap (·.values)) (paired : ∀ s ∈ shares, s.Paired) :
    LinedUp shares p where
  woven := woven
  values := values
  counts := by rw [← Fragment.length_parameters, woven.parameters_eq paired, values]
  owner i v hv := by
    rw [values] at hv
    obtain ⟨before, s, after, front, back, rfl, hs, hi, hpieces, hfront⟩ := woven.owner paired hv
    exact ⟨before, s, after, front, back, rfl, hs, ((paired s (by simp)).values.trans hs), hi,
      hpieces, hfront⟩

namespace Woven

/-- A line of words is woven from its comparisons. -/
theorem line (line : List (Token Comparison)) :
    Woven ((Token.leaves line).map .ofComparison)
      (line.flatMap (Token.fragments Comparison.bound)) := by
  induction line with
  | nil => exact .nil
  | cons t line ih =>
    cases t
    case leaf c => exact .share (s := .ofComparison c) ih
    all_goals exact .glue rfl ih

theorem condition {conditions : Value} {c : Condition} {pieces : List Fragment}
    (hc : Condition.ofValue conditions = .ok c) (h : Bound.condition conditions = .ok pieces) :
    Woven (c.comparisons.map .ofComparison) pieces := by
  rw [Bound.condition_eq hc] at h
  obtain rfl := Except.ok.inj h
  rw [← c.leaves_bound]
  split
  next hb =>
    rw [List.isEmpty_iff.mp hb]
    exact .nil
  next => exact .glue rfl (.line c.bound)

theorem paging {keyword option : String} {options : Entries} {pieces : List Fragment}
    (h : Bound.paging keyword option options = .ok pieces) :
    Woven (Share.ofPaging keyword option options) pieces := by
  unfold Bound.paging at h
  unfold Share.ofPaging
  dsimp only at h ⊢
  split at h
  next hn =>
    obtain rfl := Except.ok.inj h
    rw [if_pos hn]
    exact .nil
  next hn =>
    rw [if_neg hn]
    split at h
    · obtain rfl := Except.ok.inj h
      exact .single _
    · contradiction

/-- Shares in a row, with one text between neighbours. -/
theorem joined {α : Type} (share : α → Share) (separator : String) (xs : List α) :
    Woven (xs.map share) (Bound.joined separator (xs.map fun x => (share x).pieces)) := by
  match xs with
  | [] => exact .nil
  | [x] => exact .single (share x)
  | x :: next :: rest => exact .share (.glue rfl (joined share separator (next :: rest)))

end Woven

theorem paging_values (keyword option : String) (options : Entries) :
    Prepared.paging option options = (Share.ofPaging keyword option options).flatMap (·.values) := by
  unfold Prepared.paging Share.ofPaging
  dsimp only
  split <;> rfl

theorem table_glue (tableName : Value) : (Bound.table tableName).parameter? = none := by
  unfold Bound.table
  dsimp only
  split <;> rfl

theorem Bound.Search.woven {tableName conditions : Value} {os : Entries} {pieces : List Fragment}
    (s : Bound.Search tableName conditions os pieces) :
    Woven (s.condition.comparisons.map .ofComparison ++ Share.ofPaging " LIMIT " "limit" os ++
      Share.ofPaging " OFFSET " "offset" os) pieces := by
  have hcolumns : Woven [] s.columns :=
    .of_forall ((Bound.forall_mem_columns (P := fun f => f.parameter? = none) (fun _ _ => rfl)
      s.selects).mpr fun _ _ => rfl)
  have hordering : Woven [] s.ordering := by
    obtain ⟨items, -, hiff⟩ := Bound.forall_mem_ordering (P := fun f => f.parameter? = none)
      (fun _ _ => rfl) s.orders
    exact .of_forall (hiff.mpr fun item _ => ⟨rfl, fun _ _ => rfl⟩)
  have htable : Woven [] [.words " FROM ", Bound.table tableName] :=
    .glue rfl (.glue (table_glue tableName) .nil)
  have hhead := (Woven.glue (f := .words "SELECT ") rfl hcolumns).append htable
  have hbody := ((hhead.append (Woven.condition s.read s.restricts)).append hordering).append
    ((Woven.paging s.limits).append (Woven.paging s.skips))
  simpa [s.pieces_eq] using hbody

/-- The shares of a search: the entries of its condition at every level, and its paging. -/
def Share.ofSearch (es options : Entries) : List Share :=
  es.flat.map .ofEntry ++ ofPaging " LIMIT " "limit" options ++ ofPaging " OFFSET " "offset" options

theorem search_of_prepared {table conditions options : Value} {p : Prepared}
    (h : Prepared.find table conditions options = .ok p) :
    ∃ os, optionEntries options = .ok os ∧ ∃ s : Bound.Search table conditions os p.pieces,
      p.parameters =
        s.condition.parameters ++ Prepared.paging "limit" os ++ Prepared.paging "offset" os := by
  obtain ⟨pieces, hpieces, h⟩ := ok_of_bind h
  obtain ⟨c, hc, h⟩ := ok_of_bind h
  obtain ⟨os, hos, h⟩ := ok_of_bind h
  obtain rfl := Except.ok.inj h
  obtain ⟨_, hos', ⟨s⟩⟩ := Bound.search_of_find hpieces
  obtain rfl := Except.ok.inj (hos.symm.trans hos')
  obtain rfl := Except.ok.inj (hc.symm.trans s.read)
  exact ⟨os, hos, s, rfl⟩

theorem Bound.Search.lined_up {table conditions : Value} {os : Entries} {p : Prepared}
    (s : Bound.Search table conditions os p.pieces) (h : p.parameters =
      s.condition.parameters ++ Prepared.paging "limit" os ++ Prepared.paging "offset" os) :
    LinedUp (s.condition.comparisons.map .ofComparison ++ Share.ofPaging " LIMIT " "limit" os ++
      Share.ofPaging " OFFSET " "offset" os) p := by
  refine .of_woven s.woven ?_ ?_
  · rw [h, List.flatMap_append, List.flatMap_append, List.flatMap_map, ← paging_values,
      ← paging_values]
    exact congrArg (· ++ _ ++ _) s.condition.parameters_eq
  · rw [List.forall_mem_append, List.forall_mem_append, List.forall_mem_map]
    exact ⟨⟨fun c _ => Share.ofComparison_paired c, Share.ofPaging_paired⟩, Share.ofPaging_paired⟩

theorem find_lined_up {table options : Value} {es : Entries} {p : Prepared}
    (h : Prepared.find table (.map es) options = .ok p) :
    ∃ os, optionEntries options = .ok os ∧ LinedUp (Share.ofSearch es os) p := by
  obtain ⟨os, hos, s, hp⟩ := search_of_prepared h
  have hlined := s.lined_up hp
  obtain ⟨wellFormed, htree⟩ := Condition.ofEntries_ok_iff.mp s.read
  rw [htree, Condition.comparisons_tree wellFormed, List.map_map] at hlined
  exact ⟨os, hos, hlined⟩

theorem truthy_map {data : Entries} (h : data ≠ []) : (Value.map data).truthy = true := by
  simpa [Value.truthy] using h

theorem names_joined (separator : String) (parts : List (List Fragment)) :
    names (Bound.joined separator parts) = parts.flatMap names := by
  match parts with
  | [] => rfl
  | [part] => simp [Bound.joined]
  | part :: next :: rest =>
    have ih := names_joined separator (next :: rest)
    show names (part ++ .words separator :: Bound.joined separator (next :: rest)) = _
    rw [Fragment.names_append, List.flatMap_cons, ← ih]
    rfl

theorem insert_eq (table : Value) {data : Entries} (h : data ≠ []) :
    Prepared.insert table (.map data) = .ok ⟨[.words "INSERT INTO ", Bound.table table,
      .words " ("] ++ Bound.joined ", " (data.map fun e => [.name [e.1]]) ++ [.words ") VALUES ("] ++
      Bound.joined ", " (data.map fun e => [.marker (Bound.adapted e.2)]) ++
      [.words ") RETURNING *"], data.map fun e => Bound.adapted e.2⟩ := by
  unfold Prepared.insert Bound.insert
  rw [truthy_map h]
  rfl

/-- A row is inserted with its columns, and as many markers in the same order. -/
theorem insert_lined_up (table : Value) {data : Entries} (h : data ≠ []) :
    ∃ p, Prepared.insert table (.map data) = .ok p ∧ LinedUp (data.map .ofColumn) p ∧
      names p.pieces = names [Bound.table table] ++ data.map fun e => [e.1] := by
  have hcolumns : Woven [] (Bound.joined ", " (data.map fun e => [.name [e.1]])) := by
    refine .of_forall ((Bound.forall_mem_joined (P := fun f => f.parameter? = none)
      (fun _ _ => rfl) (by decide) _).mpr ?_)
    rw [List.forall_mem_map]
    exact fun e _ f hf => by rw [List.mem_singleton.mp hf]; rfl
  refine ⟨_, insert_eq table h, .of_woven ?_ ?_ ?_, ?_⟩
  · have hhead : Woven [] [.words "INSERT INTO ", Bound.table table, .words " ("] :=
      .glue rfl (.glue (table_glue table) (.glue rfl .nil))
    have hvalues : Woven [] [.words ") VALUES ("] := .glue rfl .nil
    exact ((((hhead.append hcolumns).append hvalues).append
      (.joined .ofColumn ", " data)).after (.glue rfl .nil))
  · rw [List.flatMap_map]
    exact List.map_eq_flatMap
  · rw [List.forall_mem_map]
    exact fun e _ => ⟨rfl, Nat.le_refl 1⟩
  · have hhead : names [.words "INSERT INTO ", Bound.table table, .words " ("] =
        names [Bound.table table] := by
      unfold Bound.table
      dsimp only
      split <;> rfl
    have hkeys : (data.map fun e => [Fragment.name [e.1]]).flatMap names =
        data.map fun e => [e.1] := by
      rw [List.flatMap_map, List.map_eq_flatMap]
      rfl
    have hmarkers : (data.map fun e => [Fragment.marker (Bound.adapted e.2)]).flatMap names = [] := by
      rw [List.flatMap_map]
      exact List.flatMap_eq_nil_iff.mpr fun e _ => rfl
    have hwords : ∀ text, names [.words text] = [] := fun _ => rfl
    simp only [Fragment.names_append, names_joined, hhead, hkeys, hmarkers, hwords, List.append_nil]

theorem update_eq (table id : Value) {data : Entries} (h : data ≠ []) :
    Prepared.updateById table id (.map data) = .ok ⟨[.words "UPDATE ", Bound.table table,
      .words " SET "] ++ Bound.joined ", " (data.map fun e => [.name [e.1], .words " = ",
      .marker (Bound.adapted e.2)]) ++ Bound.byId id ++ [.words " RETURNING *"],
      data.map (fun e => Bound.adapted e.2) ++ [id]⟩ := by
  unfold Prepared.updateById Bound.updateById
  rw [truthy_map h]
  rfl

theorem update_lined_up (table id : Value) {data : Entries} (h : data ≠ []) :
    ∃ p, Prepared.updateById table id (.map data) = .ok p ∧
      LinedUp (data.map .ofAssignment ++ [.ofId id]) p := by
  refine ⟨_, update_eq table id h, .of_woven ?_ ?_ ?_⟩
  · have hhead : Woven [] [.words "UPDATE ", Bound.table table, .words " SET "] :=
      .glue rfl (.glue (table_glue table) (.glue rfl .nil))
    exact ((hhead.append (.joined .ofAssignment ", " data)).append
      (.single (.ofId id))).after (.glue rfl .nil)
  · rw [List.flatMap_append, List.flatMap_map]
    exact congrArg (· ++ [id]) List.map_eq_flatMap
  · rw [List.forall_mem_append, List.forall_mem_map, List.forall_mem_singleton]
    exact ⟨fun e _ => ⟨rfl, Nat.le_refl 1⟩, rfl, Nat.le_refl 1⟩

/-- Markers and parameters line up: in every search, under the entries of its condition at any depth and
its paging options; in every insertion and every update, under the columns of the row. An entry adds no
parameter exactly if it is a constant or a test for null. -/
theorem markers_lined_up (table : Value) :
    (∀ (es : Entries) (options : Value) (p : Prepared),
      Prepared.find table (.map es) options = .ok p →
        ∃ os, optionEntries options = .ok os ∧ LinedUp (Share.ofSearch es os) p) ∧
    (∀ e, (Share.ofEntry e).values = [] ↔ (Comparison.ofEntry e).Silent) ∧
    (∀ data : Entries, data ≠ [] →
      ∃ p, Prepared.insert table (.map data) = .ok p ∧ LinedUp (data.map .ofColumn) p ∧
        names p.pieces = names [Bound.table table] ++ data.map fun e => [e.1]) ∧
    ∀ (id : Value) (data : Entries), data ≠ [] →
      ∃ p, Prepared.updateById table id (.map data) = .ok p ∧
        LinedUp (data.map .ofAssignment ++ [.ofId id]) p :=
  ⟨fun _ _ _ h => find_lined_up h, fun _ => Comparison.parameters_eq_nil_iff _,
    fun _ h => insert_lined_up table h, fun id _ h => update_lined_up table id h⟩

/-- A search with a condition of three levels, an alternative that asks for nothing, entries without
markers, and paging; and a row that is inserted or set. -/
theorem markers_lined_up_nested :
    let es : Entries := [("a", .null), ("b >", .int 1), ("or", .list [.map [],
      .map [("c", .list []), ("or", .tuple [.map [("d", .list [.int 2, .int 3])]])],
      .map [("e ILIKE", .text "x%")]])]
    let os : Entries := [("offset", .int 5), ("limit", .int 4)]
    let row : Entries := [("name", .text "ann"), ("tags", .map [])]
    (∃ p, Prepared.find (.text "users") (.map es) (.map os) = .ok p ∧
      Fragment.text p.pieces = "SELECT * FROM \"users\" WHERE \"a\" IS NULL AND \"b\" > %s AND " ++
        "((FALSE AND ((\"d\" IN %s))) OR (LOWER(\"e\") LIKE LOWER(%s))) LIMIT %s OFFSET %s" ∧
      LinedUp (Share.ofSearch es os) p) ∧
    (∃ p, Prepared.insert (.text "users") (.map row) = .ok p ∧
      p.parameters = [.text "ann", .json (.map [])] ∧ LinedUp (row.map .ofColumn) p) ∧
    ∃ p, Prepared.updateById (.text "users") (.int 7) (.map row) = .ok p ∧
      p.parameters = [.text "ann", .json (.map []), .int 7] ∧
      LinedUp (row.map .ofAssignment ++ [.ofId (.int 7)]) p := by
  intro es os row
  obtain ⟨hsearch, -, hinsert, hupdate⟩ := markers_lined_up (.text "users")
  refine ⟨?_, ?_, ?_⟩
  · have htext : (Prepared.find (.text "users") (.map es) (.map os)).toOption.map
        (fun p => Fragment.text p.pieces) =
          some ("SELECT * FROM \"users\" WHERE \"a\" IS NULL AND \"b\" > %s AND " ++
            "((FALSE AND ((\"d\" IN %s))) OR (LOWER(\"e\") LIKE LOWER(%s))) LIMIT %s OFFSET %s") := by
      decide +kernel
    obtain ⟨p, hp⟩ : ∃ p, Prepared.find (.text "users") (.map es) (.map os) = .ok p :=
      ok_of_isOk (by decide +kernel)
    obtain ⟨_, hos, hlined⟩ := hsearch es (.map os) p hp
    obtain rfl := Except.ok.inj (hos.symm.trans (optionEntries_map os))
    rw [hp] at htext
    exact ⟨p, hp, Option.some.inj htext, hlined⟩
  · obtain ⟨p, hp, hlined, -⟩ := hinsert row (by simp [row])
    exact ⟨p, hp, hlined.values, hlined⟩
  · obtain ⟨p, hp, hlined⟩ := hupdate (.int 7) row (by simp [row])
    exact ⟨p, hp, hlined.values, hlined⟩

end Statement

end TableAccess
