import Mathlib.Data.List.Forall2
import TableAccess.Collection.Perform
import TableAccess.Proofs.Act
import TableAccess.Proofs.Condition.Levels
import TableAccess.Proofs.Operator.Field
import TableAccess.Proofs.Statement.Bound
import TableAccess.Proofs.Text.Split

/-! The way of a search. The route is chosen by whole keys, before any suffix is taken off them; but a
suffix has no part of a marker, so a key shows a JSON path exactly if its field does
(`showsPath_resolve`). A search is sent raw exactly if some field, of a condition at any depth or of
its order, shows a path, and the names in the condition and the ordering of every other one are free
of paths (`search_routed`). -/

namespace TableAccess

namespace Text

theorem occurs_iff (word cs : List Char) : occurs word cs = true ↔ word <:+: cs := by
  induction cs with
  | nil => simp [occurs]
  | cons c cs ih =>
    rw [occurs, Bool.or_eq_true, ih, List.isPrefixOf_iff_prefix, List.infix_cons_iff]

end Text

namespace Route

open Statement
open Fragment (names)

/-- One of the two markers of a JSON path is in the text. -/
def ShowsPath (s : String) : Prop := ['-', '>'] <:+: s.toList ∨ ['#', '>'] <:+: s.toList

instance (s : String) : Decidable (ShowsPath s) := inferInstanceAs (Decidable (_ ∨ _))

theorem isJsonPath_iff (s : String) : isJsonPath s = true ↔ ShowsPath s := by
  simp [isJsonPath, markers, Text.occurs_iff, ShowsPath]

/-- No suffix has a letter that a marker begins with. -/
theorem not_sameLetter_letters {op : Operator} {s : Suffix} (h : s ∈ op.suffixes) :
    ∀ letter ∈ s.letters, Text.sameLetter letter '-' = false ∧ Text.sameLetter letter '#' = false := by
  have hall : (op.suffixes.all fun s => s.letters.all fun letter =>
      !Text.sameLetter letter '-' && !Text.sameLetter letter '#') = true := by
    cases op <;> decide +kernel
  intro letter hl
  simpa using List.all_eq_true.mp (List.all_eq_true.mp hall s h) letter hl

theorem showsPath_resolve (key : String) (value : Value) :
    ShowsPath (Operator.resolve key value).2 ↔ ShowsPath key := by
  obtain h | ⟨op, -, s, hs, hf⟩ := Operator.resolve_field key value
  · rw [h]
  · have hletters := not_sameLetter_letters hs
    have hminus : ∀ c ∈ ['-', '>'], Text.isBlank c = false := by simp [Text.isBlank]
    have hhash : ∀ c ∈ ['#', '>'], Text.isBlank c = false := by simp [Text.isBlank]
    unfold ShowsPath
    rw [Suffix.isInfix_field_iff hf hminus fun l hl => (hletters l hl).1,
      Suffix.isInfix_field_iff hf hhash fun l hl => (hletters l hl).2]

theorem orderField_eq_ok_iff {v : Value} {field : String} :
    orderField v = .ok field ↔ ∃ item, v = .map item ∧ field = orderedBy item := by
  constructor
  · intro h
    cases v with
    | map item =>
      refine ⟨item, rfl, ?_⟩
      cases hf : Entries.get? item "field" with
      | none =>
        simpa [orderField, orderedBy, keyed, hf, bind, Except.bind, pure, Except.pure, eq_comm] using h
      | some value =>
        simpa [orderField, orderedBy, keyed, hf, bind, Except.bind, pure, Except.pure, eq_comm] using h
    | object o =>
      obtain ⟨number, kind, text, given⟩ := o
      cases kind <;> contradiction
    | _ => contradiction
  · rintro ⟨item, rfl, rfl⟩
    cases hf : Entries.get? item "field" <;>
      simp [orderField, orderedBy, keyed, hf, bind, Except.bind, pure, Except.pure]

theorem items_of_orderFields {xs : List Value} {fields : List String}
    (h : List.Forall₂ (fun x field => orderField x = .ok field) xs fields) :
    ∃ items : List Entries, xs = items.map .map ∧ fields = items.map orderedBy := by
  induction h with
  | nil => exact ⟨[], rfl, rfl⟩
  | cons hx _ ih =>
    obtain ⟨item, rfl, rfl⟩ := orderField_eq_ok_iff.mp hx
    obtain ⟨items, rfl, rfl⟩ := ih
    exact ⟨item :: items, rfl, rfl⟩

theorem orderFields_eq_ok_iff {os : Entries} {fields : List String} :
    orderFields (.map os) = .ok fields ↔ ∃ items, Orders os items ∧ fields = items.map orderedBy := by
  have hread : orderFields (.map os) = if (os.get "order").truthy = true
      then (elements (os.get "order")).bind (List.mapM orderField) else .ok [] := by
    unfold orderFields
    rw [optionEntries_map]
    show (if (!(os.get "order").truthy) = true then Except.ok []
      else (elements (os.get "order")).bind (List.mapM orderField)) = _
    cases (os.get "order").truthy <;> rfl
  rw [hread]
  by_cases ht : (os.get "order").truthy = true
  · rw [if_pos ht]
    constructor
    · intro h
      obtain ⟨xs, hxs, h⟩ := ok_of_bind h
      obtain ⟨items, rfl, rfl⟩ := items_of_orderFields (mapM_eq_ok_iff.mp h)
      exact ⟨items, orders_of_elements ht hxs, rfl⟩
    · rintro ⟨items, horders, rfl⟩
      rw [elements_of_orders horders ht]
      refine mapM_eq_ok_iff.mpr ?_
      rw [List.forall₂_map_left_iff, List.forall₂_map_right_iff, List.forall₂_same]
      exact fun item _ => orderField_eq_ok_iff.mpr ⟨item, rfl, rfl⟩
  · have hf : (os.get "order").truthy = false := by simpa using ht
    rw [if_neg ht]
    constructor
    · intro h
      exact ⟨[], .inl ⟨hf, rfl⟩, (Except.ok.inj h).symm⟩
    · rintro ⟨items, horders, rfl⟩
      rw [horders.eq_nil hf]
      rfl

/-- The fields that a search compares, at every depth of its condition, and those it orders by. -/
def fields (es : Entries) (items : List Entries) : List String :=
  es.flat.map (fun e => (Operator.resolve e.1 e.2).2) ++ items.map orderedBy

theorem fields_eq {es : Entries} (h : es.WellFormed) (items : List Entries) :
    fields es items = (Condition.tree es).comparisons.map (·.field) ++ items.map orderedBy := by
  rw [fields, Condition.comparisons_tree h, List.map_map]
  rfl

theorem any_isJsonPath_iff (es : Entries) (items : List Entries) :
    (es.flat.map (·.1) ++ items.map orderedBy).any isJsonPath = true ↔
      ∃ f ∈ fields es items, ShowsPath f := by
  have hfields : (∃ f ∈ fields es items, ShowsPath f) ↔
      (∃ e ∈ es.flat, ShowsPath (Operator.resolve e.1 e.2).2) ∨
        ∃ item ∈ items, ShowsPath (orderedBy item) := by
    simp [fields, or_and_right, exists_or]
  simp only [List.any_append, List.any_map, Bool.or_eq_true, List.any_eq_true,
    Function.comp_apply, isJsonPath_iff, hfields, showsPath_resolve]

theorem needsRaw_eq_ok_iff {es os : Entries} {raw : Bool} :
    needsRaw (.map es) (.map os) = .ok raw ↔ es.WellFormed ∧
      ∃ items, Orders os items ∧ raw = decide (∃ f ∈ fields es items, ShowsPath f) := by
  have hdecide : ∀ items : List Entries, (es.flat.map (·.1) ++ items.map orderedBy).any isJsonPath =
      decide (∃ f ∈ fields es items, ShowsPath f) := fun items => by
    rw [Bool.eq_iff_iff, any_isJsonPath_iff, decide_eq_true_iff]
  constructor
  · intro h
    obtain ⟨keys, hkeys, h⟩ := ok_of_bind h
    obtain ⟨ordered, hordered, h⟩ := ok_of_bind h
    obtain ⟨items, horders, rfl⟩ := orderFields_eq_ok_iff.mp hordered
    cases hc : Condition.ofEntries es with
    | error e => simp [conditionKeys, hc, Except.map] at hkeys
    | ok c =>
      obtain ⟨wellFormed, rfl⟩ := Condition.ofEntries_ok_iff.mp hc
      obtain rfl : (Condition.tree es).keys = keys := by
        simpa [conditionKeys, hc, Except.map] using hkeys
      refine ⟨wellFormed, items, horders, ?_⟩
      rw [← hdecide, ← Condition.keys_tree wellFormed]
      exact (Except.ok.inj h).symm
  · rintro ⟨wellFormed, items, horders, rfl⟩
    have hkeys : conditionKeys (.map es) = .ok (es.flat.map (·.1)) := by
      rw [conditionKeys, Condition.ofEntries_ok_iff.mpr ⟨wellFormed, rfl⟩, Except.map,
        Condition.keys_tree wellFormed]
    rw [← hdecide, needsRaw, hkeys, orderFields_eq_ok_iff.mpr ⟨items, horders, rfl⟩]
    rfl

theorem search_eq {σ : Type} (table : String) (execute : String → Act σ Value)
    (find : Value → Value → Act σ Value) {conditions options : Value} {raw : Bool}
    (h : needsRaw conditions options = .ok raw) :
    Collection.search table execute find conditions options =
      if raw = true then Act.settle (Raw.select table conditions options) >>= execute
      else find conditions options := by
  rw [Collection.search, h, Act.settle_ok_bind]

theorem search_refused {σ : Type} (table : String) (execute : String → Act σ Value)
    (find : Value → Value → Act σ Value) {conditions options : Value} {e : Failure}
    (h : needsRaw conditions options = .error e) :
    Collection.search table execute find conditions options = Act.settle (.error e) := by
  rw [Collection.search, h, Act.settle_error_bind]

/-- No part of a name shows a path. -/
def FreeOfPaths (f : Fragment) : Prop :=
  ∀ parts, f.name? = some parts → ∀ part ∈ parts, ¬ ShowsPath part

theorem freeOfPaths_words (s : String) : FreeOfPaths (.words s) := fun _ h => by contradiction

theorem freeOfPaths_marker (v : Value) : FreeOfPaths (.marker v) := fun _ h => by contradiction

/-- The parts of a field are cut out of it, so a path in one of them is a path in the field. -/
theorem freeOfPaths_field {field : String} (h : ¬ ShowsPath field) : FreeOfPaths (.field field) := by
  intro parts hparts part hpart hshows
  obtain rfl := Option.some.inj hparts
  obtain ⟨piece, hpiece, rfl⟩ := List.mem_map.mp hpart
  rw [ShowsPath, String.toList_ofList] at hshows
  have hinfix := Text.isInfix_of_mem_split hpiece
  exact h (hshows.imp (·.trans hinfix) (·.trans hinfix))

theorem freeOfPaths_bound {c : Comparison} (h : ¬ ShowsPath c.field) :
    ∀ f ∈ c.bound, FreeOfPaths f := by
  intro f hf
  obtain rfl | ⟨s, rfl, -⟩ | ⟨v, rfl⟩ := Comparison.piece_of_mem_bound hf
  · exact freeOfPaths_field h
  · exact freeOfPaths_words s
  · exact freeOfPaths_marker v

variable {es os : Entries} {items : List Entries} {name : Value} {pieces : List Fragment}

theorem freeOfPaths_predicate (wellFormed : es.WellFormed)
    (free : ∀ f ∈ fields es items, ¬ ShowsPath f) (s : Bound.Search name (.map es) os pieces) :
    ∀ f ∈ s.predicate, FreeOfPaths f := by
  refine (Bound.forall_mem_condition (fun s _ => freeOfPaths_words s) s.read s.restricts).mpr ?_
  intro c hc
  obtain ⟨-, htree⟩ := Condition.ofEntries_ok_iff.mp s.read
  rw [htree, Condition.comparisons_tree wellFormed] at hc
  obtain ⟨e, he, rfl⟩ := List.mem_map.mp hc
  exact freeOfPaths_bound (free _ (List.mem_append_left _ (List.mem_map_of_mem he)))

theorem freeOfPaths_ordering (orders : Orders os items)
    (free : ∀ f ∈ fields es items, ¬ ShowsPath f) (s : Bound.Search name (.map es) os pieces) :
    ∀ f ∈ s.ordering, FreeOfPaths f := by
  obtain ⟨others, horders, hiff⟩ :=
    Bound.forall_mem_ordering (fun s _ => freeOfPaths_words s) s.orders
  obtain rfl := horders.unique orders
  refine hiff.mpr fun item hitem => ⟨freeOfPaths_field ?_, fun type _ => freeOfPaths_words type⟩
  exact free _ (List.mem_append_right _ (List.mem_map_of_mem hitem))

/-- A search goes the raw way exactly if some field, of a condition at any depth or of the order,
shows a JSON path. The condition and the ordering of a structured search name no path. -/
theorem search_routed {σ : Type} (table : String) (execute : String → Act σ Value)
    (find : Value → Value → Act σ Value) (es os : Entries) :
    (¬ (es.WellFormed ∧ ∃ items, Orders os items) →
      ∃ e, Collection.search table execute find (.map es) (.map os) = Act.settle (.error e)) ∧
    ∀ items, es.WellFormed → Orders os items →
      Collection.search table execute find (.map es) (.map os) =
        (if ∃ f ∈ fields es items, ShowsPath f
          then Act.settle (Raw.select table (.map es) (.map os)) >>= execute
          else find (.map es) (.map os)) ∧
      ((∀ f ∈ fields es items, ¬ ShowsPath f) →
        ∀ name pieces, Bound.find name (.map es) (.map os) = .ok pieces →
          ∃ s : Bound.Search name (.map es) os pieces,
            ∀ parts ∈ names (s.predicate ++ s.ordering), ∀ part ∈ parts, ¬ ShowsPath part) := by
  refine ⟨fun refused => ?_, fun items wellFormed orders => ⟨?_, fun free name pieces hfind => ?_⟩⟩
  · cases hraw : needsRaw (.map es) (.map os) with
    | error e => exact ⟨e, search_refused table execute find hraw⟩
    | ok raw =>
      obtain ⟨wellFormed, items, orders, -⟩ := needsRaw_eq_ok_iff.mp hraw
      exact absurd ⟨wellFormed, items, orders⟩ refused
  · rw [search_eq table execute find
      (needsRaw_eq_ok_iff.mpr ⟨wellFormed, items, orders, rfl⟩)]
    simp only [decide_eq_true_eq]
  · obtain ⟨options, hoptions, ⟨s⟩⟩ := Bound.search_of_find hfind
    obtain rfl : options = os := Except.ok.inj (hoptions.symm.trans (optionEntries_map os))
    refine ⟨s, fun parts hparts => ?_⟩
    obtain ⟨f, hf, hname⟩ := List.mem_filterMap.mp hparts
    rcases List.mem_append.mp hf with hf | hf
    · exact freeOfPaths_predicate wellFormed free s f hf parts hname
    · exact freeOfPaths_ordering orders free s f hf parts hname

/-- One search of a table whose suffixes are made of the marks of a path, one for a path in an
alternative, and one with alternatives that are none. -/
theorem search_routed_nested :
    let execute : String → Act Unit Value := fun statement => pure (.text statement)
    let find : Value → Value → Act Unit Value := fun _ _ => pure (.list [])
    let structured : Entries :=
      [("a.b >", .int 1), ("or", .list [.map [("c <>", .list [.int 2]), ("d", .null)]])]
    let path : Entries := [("e", .int 1), ("or", .list [.map [("data->>'age' >", .int 18)]])]
    let unreadable : Entries := [("or", .int 1)]
    let os : Entries := [("order", .list [.map [("field", .text "f.g"), ("direction", .text "desc")]])]
    Collection.search "users" execute find (.map structured) (.map os) = pure (.list []) ∧
      Collection.search "users" execute find (.map path) (.map os) =
        Act.settle (Raw.select "users" (.map path) (.map os)) >>= execute ∧
      (∃ e, Collection.search "users" execute find (.map unreadable) (.map os) =
        Act.settle (.error e)) ∧
      ∃ pieces, Bound.find (.text "users") (.map structured) (.map os) = .ok pieces ∧
        ∃ s : Bound.Search (.text "users") (.map structured) os pieces,
          ∀ parts ∈ names (s.predicate ++ s.ordering), ∀ part ∈ parts, ¬ ShowsPath part := by
  intro execute find structured path unreadable os
  have hstructured : structured.WellFormed := Condition.wellFormed_of_isSome structured rfl
  have hpath : path.WellFormed := Condition.wellFormed_of_isSome path rfl
  have orders : Orders os [[("field", .text "f.g"), ("direction", .text "desc")]] := .inr rfl
  obtain ⟨hnormal, hfree⟩ :=
    (search_routed "users" execute find structured os).2 _ hstructured orders
  obtain ⟨hraw, -⟩ := (search_routed "users" execute find path os).2 _ hpath orders
  have hunreadable : ¬ unreadable.WellFormed := fun h =>
    Bool.false_ne_true (Condition.isSome_of_wellFormed h)
  have hrefused :=
    (search_routed "users" execute find unreadable os).1 fun h => hunreadable h.1
  rw [fields_eq hstructured] at hnormal hfree
  rw [fields_eq hpath] at hraw
  have hfound : (Bound.find (.text "users") (.map structured) (.map os)).isOk = true := by
    decide +kernel
  obtain ⟨pieces, hpieces⟩ := ok_of_isOk hfound
  refine ⟨?_, ?_, hrefused, pieces, hpieces, hfree (by decide +kernel) _ _ hpieces⟩
  · rw [hnormal, if_neg (by decide +kernel)]
  · rw [hraw, if_pos (by decide +kernel)]

end Route

end TableAccess
