import Mathlib.Data.List.Forall2
import TableAccess.Proofs.Condition.Levels
import TableAccess.Proofs.Statement.Pieces
import TableAccess.Statement.Bound

/-! What structured statements are made of. An accepted search is a fixed frame around its columns, its
condition, its ordering and its paging (`Search`). Apart from words that never change, these consist of
the names that the request gives, of its order types, and of markers; so what holds of every fixed word
and every marker holds of the whole exactly if it holds of those names and types
(`forall_mem_columns`, `forall_mem_condition`, `forall_mem_ordering`). -/

namespace TableAccess

theorem ok_of_bind {ε α β : Type} {x : Except ε α} {f : α → Except ε β} {b : β}
    (h : (x >>= f) = .ok b) : ∃ a, x = .ok a ∧ f a = .ok b := by
  cases x with
  | error e => contradiction
  | ok a => exact ⟨a, rfl, h⟩

theorem ok_of_isOk {ε α : Type} {x : Except ε α} (h : x.isOk = true) : ∃ a, x = .ok a := by
  cases x with
  | error e => contradiction
  | ok a => exact ⟨a, rfl⟩

theorem mapM_eq_ok_iff {ε α β : Type} {f : α → Except ε β} {xs : List α} {ys : List β} :
    xs.mapM f = .ok ys ↔ List.Forall₂ (fun x y => f x = .ok y) xs ys := by
  induction xs generalizing ys with
  | nil => cases ys <;> simp [pure, Except.pure]
  | cons x xs ih =>
    rw [List.mapM_cons]
    constructor
    · intro h
      obtain ⟨y, hy, h⟩ := ok_of_bind h
      obtain ⟨rest, hrest, h⟩ := ok_of_bind h
      obtain rfl := Except.ok.inj h
      exact .cons hy (ih.mp hrest)
    · rintro (_ | ⟨hy, hrest⟩)
      rw [hy, ih.mpr hrest]
      rfl

theorem mapM_eq_error_iff {ε α β : Type} {f : α → Except ε β} {xs : List α} {e : ε} :
    xs.mapM f = .error e ↔ ∃ before x after, xs = before ++ x :: after ∧
      (∀ y ∈ before, ∃ b, f y = .ok b) ∧ f x = .error e := by
  induction xs with
  | nil => simp [pure, Except.pure]
  | cons x xs ih =>
    rw [List.mapM_cons]
    constructor
    · intro h
      cases hx : f x with
      | error e' =>
        rw [hx] at h
        obtain rfl : e' = e := Except.error.inj h
        exact ⟨[], x, xs, rfl, by simp, hx⟩
      | ok b =>
        rw [hx] at h
        cases hxs : xs.mapM f with
        | ok bs =>
          rw [hxs] at h
          cases h
        | error e' =>
          rw [hxs] at h
          obtain rfl : e' = e := Except.error.inj h
          obtain ⟨before, y, after, rfl, hbefore, hy⟩ := ih.mp hxs
          exact ⟨x :: before, y, after, rfl, List.forall_mem_cons.mpr ⟨⟨b, hx⟩, hbefore⟩, hy⟩
    · rintro ⟨_ | ⟨y, before⟩, z, after, hxs, hbefore, hz⟩
      · obtain ⟨rfl, rfl⟩ := List.cons.inj hxs
        rw [hz]
        rfl
      · obtain ⟨rfl, rfl⟩ := List.cons.inj hxs
        obtain ⟨⟨b, hb⟩, hrest⟩ := List.forall_mem_cons.mp hbefore
        rw [hb, ih.mpr ⟨before, z, after, rfl, hrest, hz⟩]
        rfl

namespace Condition

theorem comparisonsAll_eq (cs : List Condition) : comparisonsAll cs = cs.flatMap comparisons := by
  induction cs with
  | nil => rfl
  | cons c cs ih => rw [comparisonsAll, ih, List.flatMap_cons]

theorem comparisons_tree {es : Entries} (h : es.WellFormed) :
    (tree es).comparisons = es.flat.map .ofEntry :=
  read_tree (fun own alternatives => by rw [comparisons, comparisonsAll_eq]) h

end Condition

namespace Comparison

/-- A piece of a bound comparison: its field, words that never change, or a marker. -/
def Piece (c : Comparison) (f : Fragment) : Prop :=
  f = .field c.field ∨ (∃ s, f = .words s ∧ '%' ∉ s.toList) ∨ ∃ v, f = .marker v

variable {c : Comparison} {f : Fragment}

theorem piece_of_mem_simple {operator : String} {v : Value} (h : f ∈ c.simple operator v)
    (ho : '%' ∉ operator.toList) : c.Piece f := by
  simp only [simple, List.mem_cons, List.not_mem_nil, or_false] at h
  rcases h with hfield | hwords | hmarker
  · exact .inl hfield
  · exact .inr (.inl ⟨operator, hwords, ho⟩)
  · exact .inr (.inr ⟨v, hmarker⟩)

theorem piece_of_mem_boundFolded {operator : String} (h : f ∈ c.boundFolded operator)
    (ho : '%' ∉ operator.toList) : c.Piece f := by
  simp only [boundFolded, List.mem_cons, List.not_mem_nil, or_false] at h
  rcases h with hlower | hfield | hwords | hmarker | hclosing
  · exact .inr (.inl ⟨_, hlower, by decide⟩)
  · exact .inl hfield
  · exact .inr (.inl ⟨operator, hwords, ho⟩)
  · exact .inr (.inr ⟨_, hmarker⟩)
  · exact .inr (.inl ⟨_, hclosing, by decide⟩)

theorem piece_of_mem_boundMembership {negated : Bool} (h : f ∈ c.boundMembership negated) :
    c.Piece f := by
  unfold boundMembership at h
  split at h
  · exact .inr (.inl ⟨_, List.mem_singleton.mp h, by cases negated <;> decide⟩)
  · exact piece_of_mem_simple h (by cases negated <;> decide)
  · exact piece_of_mem_simple h (by cases negated <;> decide)

/-- The field is the one name in a bound comparison. -/
theorem piece_of_mem_bound (h : f ∈ c.bound) : c.Piece f := by
  unfold bound at h
  split at h
  case h_5 | h_7 => exact piece_of_mem_boundMembership h
  case h_10 | h_11 => exact piece_of_mem_boundFolded h (by decide)
  case h_14 =>
    split at h
    · simp only [List.mem_cons, List.not_mem_nil, or_false] at h
      rcases h with hfield | hwords
      · exact .inl hfield
      · exact .inr (.inl ⟨_, hwords, by decide⟩)
    · exact piece_of_mem_simple h (by decide)
    · exact piece_of_mem_simple h (by decide)
  all_goals exact piece_of_mem_simple h (by decide)

end Comparison

namespace Statement

theorem optionEntries_map (es : Entries) : optionEntries (.map es) = .ok es := by
  cases es <;> rfl

/-- The order items of options. There is none where nothing counts as given. -/
def Orders (options : Entries) (items : List Entries) : Prop :=
  (options.get "order").truthy = false ∧ items = [] ∨
    (options.get "order").items? = some (items.map .map)

theorem Orders.eq_nil {options : Entries} {items : List Entries} (h : Orders options items)
    (hf : (options.get "order").truthy = false) : items = [] := by
  obtain ⟨-, rfl⟩ | hi := h
  · rfl
  · cases hv : options.get "order" <;> simp_all [Value.items?, Value.truthy]

theorem Orders.unique {options : Entries} {items others : List Entries} (h : Orders options items)
    (h' : Orders options others) : items = others := by
  by_cases ht : (options.get "order").truthy = true
  · obtain ⟨hf, -⟩ | hi := h
    · simp [ht] at hf
    obtain ⟨hf, -⟩ | hi' := h'
    · simp [ht] at hf
    exact (List.map_injective_iff.mpr fun _ _ => Value.map.inj)
      (Option.some.inj (hi.symm.trans hi'))
  · have hf : (options.get "order").truthy = false := by simpa using ht
    rw [h.eq_nil hf, h'.eq_nil hf]

/-- The field of an order item, as a text. -/
def orderedBy (item : Entries) : String := ((item.get? "field").map Value.toText).getD ""

/-- The type of an order item, if it has one. -/
def orderTypes (item : Entries) : List String :=
  let type := item.get "type"
  if type.isNull then [] else [type.toText]

/-- The names of the columns that options ask for. -/
def columnNames (options : Entries) : List String :=
  let columns := options.get "columns"
  if columns.truthy then (columns.elements?.getD []).filterMap Value.text? else []

theorem elements?_of_elements {v : Value} {xs : List Value} (h : elements v = .ok xs) :
    v.elements? = some xs := by
  unfold elements at h
  split at h
  next hv => rw [hv, Except.ok.inj h]
  next => contradiction

/-- Values that are walked over and all are mappings are the items of a list or a tuple. -/
theorem items?_of_elements? {v : Value} {items : List Entries} (hv : v.truthy = true)
    (h : v.elements? = some (items.map .map)) : v.items? = some (items.map .map) := by
  -- what else can be walked over gives texts or numbers, and it is not empty
  have hne : ∀ x xs, v.elements? = some (x :: xs) → (∀ es, x ≠ .map es) →
      v.elements? ≠ some (items.map .map) := by
    intro x xs hx hmap h
    rw [hx] at h
    cases items with
    | nil => simp at h
    | cons item items => exact hmap item (List.cons.inj (Option.some.inj h)).1
  cases v with
  | list xs => exact h
  | tuple xs => exact h
  | text s =>
    obtain ⟨c, cs, hs⟩ : ∃ c cs, s.toList = c :: cs := by
      refine List.exists_cons_of_ne_nil fun hn => ?_
      simp [Value.truthy, String.toList_eq_nil_iff.mp hn] at hv
    exact absurd h (hne _ _ (by rw [Value.elements?, hs]; rfl) (by simp))
  | ragged t =>
    obtain ⟨p, ps, hp⟩ := List.exists_cons_of_ne_nil t.points_ne_nil
    refine absurd h (hne (Value.ofPoint p) _ (by rw [Value.elements?, hp]; rfl) fun es => ?_)
    cases p <;> simp [Value.ofPoint]
  | bytes bs =>
    cases bs with
    | nil => contradiction
    | cons b bs => exact absurd h (hne _ _ rfl (by simp))
  | map es =>
    cases es with
    | nil => contradiction
    | cons e es => exact absurd h (hne _ _ rfl (by simp))
  | _ => simp [Value.elements?] at h

theorem elements_of_orders {options : Entries} {items : List Entries} (h : Orders options items)
    (ht : (options.get "order").truthy = true) :
    elements (options.get "order") = .ok (items.map .map) := by
  obtain ⟨hf, -⟩ | hi := h
  · simp [hf] at ht
  · unfold elements
    cases hv : options.get "order" <;> rw [hv] at hi <;>
      simp only [Value.items?, reduceCtorEq, Option.some.injEq] at hi
    all_goals
      subst hi
      rfl

theorem orders_of_elements {options : Entries} {items : List Entries}
    (ht : (options.get "order").truthy = true)
    (h : elements (options.get "order") = .ok (items.map .map)) : Orders options items :=
  .inr (items?_of_elements? ht (elements?_of_elements h))

theorem texts_eq_ok {xs : List Value} {names : List String} (h : texts xs = .ok names) :
    names = xs.filterMap Value.text? := by
  have hall := mapM_eq_ok_iff.mp h
  clear h
  induction hall with
  | nil => rfl
  | @cons x name xs names hx _ ih =>
    cases htext : x.text? with
    | none =>
      rw [htext] at hx
      contradiction
    | some s =>
      rw [htext] at hx
      obtain rfl := Except.ok.inj hx
      rw [List.filterMap_cons_some htext, ih]

namespace Bound

theorem direction_cases {item : Entries} {direction : String} (h : direction? item = some direction) :
    direction = "ASC" ∨ direction = "DESC" := by
  unfold direction? at h
  dsimp only at h
  generalize Text.upper _ = word at h
  split at h
  next hd =>
    obtain rfl := Option.some.inj h
    exact hd
  next => contradiction

theorem orderItem_eq_ok {v : Value} {pieces : List Fragment} (h : orderItem v = .ok pieces) :
    ∃ (item : Entries) (direction : String), v = .map item ∧ (direction = "ASC" ∨ direction = "DESC") ∧
      pieces = (if (item.get "type").isNull then [.field (orderedBy item)]
        else [.words "(", .field (orderedBy item), .words ")::",
          .words (item.get "type").toText]) ++ [.words " ", .words direction] := by
  obtain ⟨item, hitem, hrest⟩ := ok_of_bind h
  obtain rfl : v = .map item := by
    unfold keyed at hitem
    split at hitem
    · exact congrArg _ (Except.ok.inj hitem)
    all_goals contradiction
  cases hd : direction? item with
  | none => simp [hd, throw, throwThe, MonadExceptOf.throw] at hrest
  | some direction =>
    cases hf : item.get? "field" with
    | none => simp [hd, hf, throw, throwThe, MonadExceptOf.throw] at hrest
    | some field =>
      have hfield : field.toText = orderedBy item := by simp [orderedBy, hf]
      simp only [hd, hf, hfield] at hrest
      exact ⟨item, direction, rfl, direction_cases hd, (Except.ok.inj hrest).symm⟩

/-- The parts of an accepted search. -/
structure Search (tableName conditions : Value) (options : Entries) (pieces : List Fragment) where
  condition : Condition
  columns : List Fragment
  predicate : List Fragment
  ordering : List Fragment
  limit : List Fragment
  offset : List Fragment
  read : Condition.ofValue conditions = .ok condition
  selects : Bound.columns (options.get "columns") = .ok columns
  restricts : Bound.condition conditions = .ok predicate
  orders : Bound.ordering options = .ok ordering
  limits : paging " LIMIT " "limit" options = .ok limit
  skips : paging " OFFSET " "offset" options = .ok offset
  pieces_eq : pieces = .words "SELECT " :: columns ++ [.words " FROM ", table tableName] ++
    predicate ++ ordering ++ limit ++ offset

theorem search_of_find {tableName conditions options : Value} {pieces : List Fragment}
    (h : find tableName conditions options = .ok pieces) :
    ∃ os, optionEntries options = .ok os ∧ Nonempty (Search tableName conditions os pieces) := by
  obtain ⟨os, hos, h⟩ := ok_of_bind h
  obtain ⟨columns, hcolumns, h⟩ := ok_of_bind h
  obtain ⟨predicate, hpredicate, h⟩ := ok_of_bind h
  obtain ⟨ordering, hordering, h⟩ := ok_of_bind h
  obtain ⟨limit, hlimit, h⟩ := ok_of_bind h
  obtain ⟨offset, hoffset, h⟩ := ok_of_bind h
  obtain ⟨c, hc, -⟩ := ok_of_bind hpredicate
  exact ⟨os, hos, ⟨⟨c, columns, predicate, ordering, limit, offset, hc, hcolumns, hpredicate,
    hordering, hlimit, hoffset, (Except.ok.inj h).symm⟩⟩⟩

/-- The predicate of a condition behind its keyword, if anything is asked. -/
theorem condition_eq {conditions : Value} {c : Condition} (h : Condition.ofValue conditions = .ok c) :
    Bound.condition conditions = .ok (if c.bound.isEmpty then []
      else .words " WHERE " :: c.bound.flatMap (Token.fragments Comparison.bound)) := by
  unfold Bound.condition
  rw [h]
  cases hb : c.bound <;> simp [hb, Condition.boundFragments?, bind, Except.bind, pure, Except.pure]

/-! ### What holds of every piece -/

section Pieces

variable {P : Fragment → Prop} (fixed : ∀ s : String, '%' ∉ s.toList → P (.words s))
include fixed

theorem forall_mem_joined {separator : String} (h : '%' ∉ separator.toList)
    (parts : List (List Fragment)) :
    (∀ f ∈ joined separator parts, P f) ↔ ∀ part ∈ parts, ∀ f ∈ part, P f := by
  match parts with
  | [] => simp [joined]
  | [part] => simp [joined]
  | part :: next :: rest =>
    have ih := forall_mem_joined h (next :: rest)
    rw [List.forall_mem_cons, ← ih]
    show (∀ f ∈ part ++ .words separator :: joined separator (next :: rest), P f) ↔ _
    rw [List.forall_mem_append, List.forall_mem_cons, and_iff_right (fixed separator h)]

theorem forall_mem_line (line : List (Token Comparison)) :
    (∀ f ∈ line.flatMap (Token.fragments Comparison.bound), P f) ↔
      ∀ c ∈ Token.leaves line, ∀ f ∈ c.bound, P f := by
  induction line with
  | nil => simp [Token.leaves]
  | cons t line ih =>
    have ht : (∀ f ∈ t.fragments Comparison.bound, P f) ↔
        ∀ c ∈ Token.leaves [t], ∀ f ∈ c.bound, P f := by
      cases t with
      | leaf c => simp [Token.fragments, Token.leaves, Token.leaf?]
      | _ => simpa [Token.fragments, Token.leaves, Token.leaf?] using fixed _ (by decide)
    rw [List.flatMap_cons, List.forall_mem_append, ih, ht, ← List.forall_mem_append,
      ← Token.leaves_append, List.singleton_append]

theorem forall_mem_condition {conditions : Value} {c : Condition} {pieces : List Fragment}
    (hc : Condition.ofValue conditions = .ok c) (h : Bound.condition conditions = .ok pieces) :
    (∀ f ∈ pieces, P f) ↔ ∀ comparison ∈ c.comparisons, ∀ f ∈ comparison.bound, P f := by
  rw [condition_eq hc] at h
  obtain rfl := Except.ok.inj h
  rw [← c.leaves_bound, ← forall_mem_line fixed]
  cases hb : c.bound with
  | nil => simp
  | cons t line =>
    rw [if_neg (by simp), List.forall_mem_cons, and_iff_right (fixed _ (by decide))]

theorem forall_mem_orderItem {item : Entries} {pieces : List Fragment}
    (h : orderItem (.map item) = .ok pieces) :
    (∀ f ∈ pieces, P f) ↔ P (.field (orderedBy item)) ∧ ∀ s ∈ orderTypes item, P (.words s) := by
  obtain ⟨_, direction, hitem, hd, rfl⟩ := orderItem_eq_ok h
  obtain rfl := Value.map.inj hitem
  have hdirection : P (.words direction) := by
    obtain rfl | rfl := hd <;> exact fixed _ (by decide)
  have hblank : P (.words " ") := fixed _ (by decide)
  have hopening : P (.words "(") := fixed _ (by decide)
  have hclosing : P (.words ")::") := fixed _ (by decide)
  unfold orderTypes
  by_cases ht : (item.get "type").isNull = true <;> simp [ht, hdirection, hblank, hopening, hclosing]

theorem forall_mem_orderItems {xs : List Value} {parts : List (List Fragment)}
    (h : List.Forall₂ (fun x part => orderItem x = .ok part) xs parts) :
    ∃ items : List Entries, xs = items.map .map ∧
      ((∀ part ∈ parts, ∀ f ∈ part, P f) ↔
        ∀ item ∈ items, P (.field (orderedBy item)) ∧ ∀ s ∈ orderTypes item, P (.words s)) := by
  induction h with
  | nil => exact ⟨[], rfl, by simp⟩
  | cons hx _ ih =>
    obtain ⟨item, -, rfl, -⟩ := orderItem_eq_ok hx
    obtain ⟨items, rfl, hiff⟩ := ih
    refine ⟨item :: items, rfl, ?_⟩
    rw [List.forall_mem_cons, List.forall_mem_cons, hiff, forall_mem_orderItem fixed hx]

theorem forall_mem_ordering {options : Entries} {pieces : List Fragment}
    (h : ordering options = .ok pieces) : ∃ items, Orders options items ∧
      ((∀ f ∈ pieces, P f) ↔
        ∀ item ∈ items, P (.field (orderedBy item)) ∧ ∀ s ∈ orderTypes item, P (.words s)) := by
  unfold ordering at h
  dsimp only at h
  by_cases ht : (options.get "order").truthy = true
  · rw [if_neg (by simpa using ht)] at h
    obtain ⟨xs, hxs, h⟩ := ok_of_bind h
    obtain ⟨parts, hparts, h⟩ := ok_of_bind h
    obtain rfl := Except.ok.inj h
    obtain ⟨items, rfl, hiff⟩ := forall_mem_orderItems fixed (mapM_eq_ok_iff.mp hparts)
    refine ⟨items, orders_of_elements ht hxs, ?_⟩
    rw [List.forall_mem_cons, and_iff_right (fixed _ (by decide)),
      forall_mem_joined fixed (by decide), hiff]
  · rw [if_pos (by simpa using ht)] at h
    obtain rfl := Except.ok.inj h
    exact ⟨[], .inl ⟨by simpa using ht, rfl⟩, by simp⟩

theorem forall_mem_columns {options : Entries} {pieces : List Fragment}
    (h : columns (options.get "columns") = .ok pieces) :
    (∀ f ∈ pieces, P f) ↔ ∀ name ∈ columnNames options, P (.name [name]) := by
  unfold columns at h
  unfold columnNames
  dsimp only at h ⊢
  by_cases ht : (options.get "columns").truthy = true
  · rw [if_neg (by simpa using ht)] at h
    rw [if_pos ht]
    obtain ⟨xs, hxs, h⟩ := ok_of_bind h
    obtain ⟨names, hnames, h⟩ := ok_of_bind h
    obtain rfl := Except.ok.inj h
    obtain rfl := texts_eq_ok hnames
    rw [elements?_of_elements hxs, Option.getD_some, forall_mem_joined fixed (by decide),
      List.forall_mem_map]
    simp only [List.forall_mem_singleton]
  · rw [if_pos (by simpa using ht)] at h
    obtain rfl := Except.ok.inj h
    simpa [ht] using fixed "*" (by decide)

end Pieces

end Bound

end Statement

end TableAccess
