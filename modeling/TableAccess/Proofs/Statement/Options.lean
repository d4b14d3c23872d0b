import TableAccess.Proofs.Statement.Bound
import TableAccess.Proofs.Statement.Raw

/-! What is wrong with the options of a search. Whichever way the search is sent, its order items are
looked at one after the other, then its limit, then its offset, and the first flaw decides (`FailsBy`).
The two ways call a flaw by different names, and they disagree on one: an order item names its field for
the written search if the field counts as given, and for the structured search if it is there at all
(`Raw.itemFlaw?_eq_none_iff`). -/

namespace TableAccess

/-- A computation that gives a result unless there is a flaw, and then fails as the flaw says. -/
def FailsBy {φ ε α : Type} (failure : φ → ε) (flaw? : Option φ) (x : Except ε α) : Prop :=
  match flaw? with
  | none => ∃ a, x = .ok a
  | some flaw => x = .error (failure flaw)

namespace FailsBy

variable {φ ε α β : Type} {failure : φ → ε} {p q : Option φ} {x : Except ε α} {f : α → Except ε β}

theorem ok (a : α) : FailsBy failure none (.ok a : Except ε α) := ⟨a, rfl⟩

/-- The first flaw decides, and what comes behind it is not looked at. -/
theorem bind (hx : FailsBy failure p x) (hf : ∀ a, FailsBy failure q (f a)) :
    FailsBy failure (p.or q) (x >>= f) := by
  cases p with
  | none =>
    obtain ⟨a, rfl⟩ := hx
    exact hf a
  | some flaw =>
    obtain rfl : x = .error (failure flaw) := hx
    rfl

theorem map (hx : FailsBy failure p x) (g : α → β) : FailsBy failure p (do return g (← x)) := by
  have h : FailsBy failure (p.or none) (do return g (← x)) := hx.bind fun a => ok (g a)
  rwa [Option.or_none] at h

theorem mapM {g : α → Except ε β} {flaw? : α → Option φ} {xs : List α}
    (h : ∀ x ∈ xs, FailsBy failure (flaw? x) (g x)) :
    FailsBy failure (xs.findSome? flaw?) (xs.mapM g) := by
  induction xs with
  | nil => exact ok []
  | cons x xs ih =>
    obtain ⟨hx, hxs⟩ := List.forall_mem_cons.mp h
    have hrest := hx.bind fun y => (ih hxs).map (y :: ·)
    have hflaw : (x :: xs).findSome? flaw? = (flaw? x).or (xs.findSome? flaw?) := by
      cases hf : flaw? x <;> simp [hf]
    rw [List.mapM_cons, hflaw]
    exact hrest

theorem exists_ok_iff (hx : FailsBy failure p x) : (∃ a, x = .ok a) ↔ p = none := by
  cases p with
  | none => exact iff_of_true hx rfl
  | some flaw => simp [show x = .error (failure flaw) from hx]

end FailsBy

namespace Statement

/-- What can be wrong with options: an order item without a field, one with another direction than ASC
and DESC, and a limit or an offset that is no whole number or a negative one. -/
inductive Flaw where
  | field
  | direction
  | paging (option : String)
  deriving DecidableEq

def pagingFlaw? (options : Entries) (option : String) : Option Flaw :=
  if (options.get option).isNull ∨ (count? (options.get option)).isSome then none
  else some (.paging option)

/-- The first flaw of options, given how an order item is looked at. -/
def firstFlaw? (itemFlaw? : Entries → Option Flaw) (options : Entries) (items : List Entries) :
    Option Flaw :=
  (items.findSome? itemFlaw?).or ((pagingFlaw? options "limit").or (pagingFlaw? options "offset"))

/-- The columns that options ask for, where they ask for columns by name. -/
def Columns (options : Entries) (names : List String) : Prop :=
  (options.get "columns").truthy = false ∧ names = [] ∨
    (options.get "columns").items? = some (names.map .text)

variable {os es : Entries} {items : List Entries} {names : List String}

theorem keyed_map (es : Entries) : keyed (.map es) = pure es := rfl

theorem elements_of_items? {v : Value} {xs : List Value} (h : v.items? = some xs) :
    elements v = .ok xs := by
  unfold elements
  cases v <;> simp only [Value.items?, reduceCtorEq, Option.some.injEq] at h
  all_goals
    subst h
    rfl

theorem texts_map (names : List String) : texts (names.map .text) = .ok names := by
  refine mapM_eq_ok_iff.mpr ?_
  rw [List.forall₂_map_left_iff, List.forall₂_same]
  exact fun _ _ => rfl

/-- Asking for columns by name never fails. -/
theorem columns_cases (h : Columns os names) : (os.get "columns").truthy = false ∨
    (os.get "columns").truthy = true ∧
      elements (os.get "columns") = .ok (names.map .text) := by
  obtain ⟨hf, -⟩ | hi := h
  · exact .inl hf
  · cases ht : (os.get "columns").truthy with
    | false => exact .inl rfl
    | true =>
      exact .inr ⟨rfl, elements_of_items? hi⟩

theorem failsBy_items {α : Type} {failure : Flaw → Failure} {itemFlaw? : Entries → Option Flaw}
    {orderItem : Value → Except Failure α}
    (h : ∀ item, FailsBy failure (itemFlaw? item) (orderItem (.map item))) (items : List Entries) :
    FailsBy failure (items.findSome? itemFlaw?) ((items.map Value.map).mapM orderItem) := by
  rw [List.mapM_map]
  exact .mapM fun item _ => h item

namespace Raw

/-- A field has to count as given. -/
def itemFlaw? (item : Entries) : Option Flaw :=
  if (item.get "field").truthy = false then some .field
  else if direction? item = none then some .direction
  else none

def failure : Flaw → Failure
  | .field => .invalidFormat "order.field"
  | .direction => .invalidFormat "order.direction"
  | .paging option => .invalidFormat option

theorem failsBy_orderItem (item : Entries) :
    FailsBy failure (itemFlaw? item) (orderItem (.map item)) := by
  unfold orderItem itemFlaw?
  simp only [keyed_map, pure_bind]
  cases (item.get "field").truthy with
  | false => rfl
  | true =>
    cases direction? item with
    | none => rfl
    | some direction => exact ⟨_, rfl⟩

theorem failsBy_ordering (orders : Orders os items) :
    FailsBy failure (items.findSome? itemFlaw?) (ordering os) := by
  unfold ordering
  dsimp only
  cases ht : (os.get "order").truthy with
  | true =>
    simp only [order, elements_of_orders orders ht]
    exact ((failsBy_items failsBy_orderItem items).map (", ".intercalate ·)).map (" ORDER BY " ++ ·)
  | false =>
    obtain rfl := orders.eq_nil ht
    exact .ok ""

theorem failsBy_paging (keyword option : String) (os : Entries) :
    FailsBy failure (pagingFlaw? os option) (paging keyword option os) := by
  unfold paging pagingFlaw?
  dsimp only
  cases (os.get option).isNull with
  | true => exact .ok ""
  | false =>
    cases count? (os.get option) with
    | none => rfl
    | some n => exact ⟨_, rfl⟩

theorem columns_ok (h : Columns os names) : ∃ s, columns (os.get "columns") = .ok s := by
  unfold columns
  obtain hf | ⟨ht, hnames⟩ := columns_cases h
  · rw [hf]
    exact ⟨"*", rfl⟩
  · rw [ht, hnames]
    exact ⟨_, congrArg (·.map (", ".intercalate ·)) (texts_map names)⟩

/-- A written search whose condition and columns are in order fails by the flaw of its options. -/
theorem failsBy_select (table : String) (wellFormed : es.WellFormed) (orders : Orders os items)
    (named : ∃ s, columns (os.get "columns") = .ok s) :
    FailsBy failure (firstFlaw? itemFlaw? os items) (select table (.map es) (.map os)) := by
  obtain ⟨names, hnames⟩ := named
  have hrest := (failsBy_ordering orders).bind fun ordering =>
    (failsBy_paging "LIMIT" "limit" os).bind fun limit =>
      (failsBy_paging "OFFSET" "offset" os).map fun offset =>
        "SELECT " ++ names ++ " FROM " ++ table ++ (Condition.tree es).clause ++ ordering ++ limit ++ offset
  unfold select
  rw [optionEntries_map, whereClause_tree wellFormed]
  show FailsBy _ _ (Raw.columns (os.get "columns") >>= _)
  rw [hnames]
  exact hrest

theorem whereClause_refused (malformed : ¬ es.WellFormed) :
    whereClause (.map es) = .error (.invalidFormat Condition.orKey) := by
  have hcondition : Condition.ofValue (.map es) = .error (.invalidFormat Condition.orKey) :=
    Condition.ofEntries_error malformed
  unfold whereClause
  rw [hcondition]
  rfl

theorem select_refused (table : String) (malformed : ¬ es.WellFormed) (columns : Columns os names) :
    select table (.map es) (.map os) = .error (.invalidFormat Condition.orKey) := by
  obtain ⟨s, hs⟩ := columns_ok columns
  unfold select
  rw [optionEntries_map, whereClause_refused malformed]
  show (Raw.columns (os.get "columns") >>= fun _ => Except.error _) = _
  rw [hs]
  rfl

end Raw

namespace Bound

/-- A field has to be there. -/
def itemFlaw? (item : Entries) : Option Flaw :=
  if direction? item = none then some .direction
  else if item.get? "field" = none then some .field
  else none

def failure : Flaw → Failure
  | .field => .noKey "field"
  | .direction => .orderDirection
  | .paging option => .notNonNegative option

theorem failsBy_orderItem (item : Entries) :
    FailsBy failure (itemFlaw? item) (orderItem (.map item)) := by
  unfold orderItem itemFlaw?
  simp only [keyed_map, pure_bind]
  cases direction? item with
  | none => rfl
  | some direction =>
    cases item.get? "field" with
    | none => rfl
    | some field => exact ⟨_, rfl⟩

theorem failsBy_ordering (orders : Orders os items) :
    FailsBy failure (items.findSome? itemFlaw?) (ordering os) := by
  unfold ordering
  dsimp only
  cases ht : (os.get "order").truthy with
  | true =>
    rw [elements_of_orders orders ht]
    exact (failsBy_items failsBy_orderItem items).map (.words " ORDER BY " :: joined ", " ·)
  | false =>
    obtain rfl := orders.eq_nil ht
    exact .ok []

theorem failsBy_paging (keyword option : String) (os : Entries) :
    FailsBy failure (pagingFlaw? os option) (paging keyword option os) := by
  unfold paging pagingFlaw?
  dsimp only
  cases (os.get option).isNull with
  | true => exact .ok []
  | false =>
    cases count? (os.get option) with
    | none => rfl
    | some n => exact ⟨_, rfl⟩

theorem columns_ok (h : Columns os names) : ∃ pieces, columns (os.get "columns") = .ok pieces := by
  unfold columns
  obtain hf | ⟨ht, hnames⟩ := columns_cases h
  · rw [hf]
    exact ⟨_, rfl⟩
  · rw [ht, hnames]
    exact ⟨_, congrArg (·.map fun names => joined ", " (names.map fun n => [.name [n]]))
      (texts_map names)⟩

end Bound

/-- A structured search whose condition and columns are in order fails by the flaw of its options. -/
theorem Prepared.failsBy_find (tableName : Value) (wellFormed : es.WellFormed)
    (orders : Orders os items) (columns : Columns os names) :
    FailsBy Bound.failure (firstFlaw? Bound.itemFlaw? os items)
      (find tableName (.map es) (.map os)) := by
  have hcondition : Condition.ofValue (.map es) = .ok (.tree es) :=
    Condition.ofEntries_ok_iff.mpr ⟨wellFormed, rfl⟩
  obtain ⟨selected, hselected⟩ := Bound.columns_ok columns
  have hpieces : FailsBy Bound.failure (firstFlaw? Bound.itemFlaw? os items)
      (Bound.find tableName (.map es) (.map os)) := by
    have hrest := fun predicate : List Fragment => (Bound.failsBy_ordering orders).bind fun ordering =>
      (Bound.failsBy_paging " LIMIT " "limit" os).bind fun limit =>
        (Bound.failsBy_paging " OFFSET " "offset" os).map fun offset =>
          .words "SELECT " :: selected ++ [.words " FROM ", Bound.table tableName] ++ predicate ++
            ordering ++ limit ++ offset
    unfold Bound.find
    rw [optionEntries_map, Bound.condition_eq hcondition]
    show FailsBy _ _ (Bound.columns (os.get "columns") >>= _)
    rw [hselected]
    exact hrest _
  unfold find
  rw [hcondition, optionEntries_map]
  exact hpieces.map _

theorem Prepared.find_refused (tableName : Value) (malformed : ¬ es.WellFormed)
    (columns : Columns os names) :
    find tableName (.map es) (.map os) = .error (.invalidFormat Condition.orKey) := by
  have hcondition : Condition.ofValue (.map es) = .error (.invalidFormat Condition.orKey) :=
    Condition.ofEntries_error malformed
  obtain ⟨selected, hselected⟩ := Bound.columns_ok columns
  have hpieces : Bound.find tableName (.map es) (.map os) = .error (.invalidFormat Condition.orKey) := by
    unfold Bound.find Bound.condition
    rw [optionEntries_map, hcondition]
    show (Bound.columns (os.get "columns") >>= fun _ => Except.error _) = _
    rw [hselected]
    rfl
  unfold find
  rw [hpieces]
  rfl

/-- The ways agree on an order item unless its field is there but does not count as given. -/
theorem Raw.itemFlaw?_eq_none_iff (item : Entries) :
    Raw.itemFlaw? item = none ↔ Bound.itemFlaw? item = none ∧ (item.get "field").truthy = true := by
  have hmissing : item.get? "field" = none → (item.get "field").truthy = false := by
    intro h
    rw [Entries.get, h]
    rfl
  unfold Raw.itemFlaw? Bound.itemFlaw?
  by_cases hdirection : direction? item = none
  · cases (item.get "field").truthy <;> simp [hdirection]
  · cases hfield : item.get? "field" with
    | none => simp [hmissing hfield]
    | some field => simp [hdirection]

/-- What is right with all options for the written search is right for the structured one, and all
fields of its order count as given. -/
theorem Raw.firstFlaw?_eq_none_iff (os : Entries) (items : List Entries) :
    firstFlaw? Raw.itemFlaw? os items = none ↔
      firstFlaw? Bound.itemFlaw? os items = none ∧ ∀ item ∈ items, (item.get "field").truthy = true := by
  simp only [firstFlaw?, Option.or_eq_none_iff, List.findSome?_eq_none_iff, Raw.itemFlaw?_eq_none_iff]
  constructor
  · rintro ⟨hitems, hpaging⟩
    exact ⟨⟨fun item hi => (hitems item hi).1, hpaging⟩, fun item hi => (hitems item hi).2⟩
  · rintro ⟨⟨hitems, hpaging⟩, hgiven⟩
    exact ⟨fun item hi => ⟨hitems item hi, hgiven item hi⟩, hpaging⟩

end Statement

end TableAccess
