import TableAccess.Proofs.Collection.Overlooked
import TableAccess.Proofs.Value.Mapping

/-! Walks over a condition mapping. A mapping is read before anything is made of it; a walk takes one
level after the other, makes of it what is to be made before it looks at the alternatives, refuses what
it cannot use when it comes to it, and passes over what is empty in a way of its own. There is a walk for the written predicate, one for the bound predicate and its
parameters, and one for the keys. Each gives what is made of the mapping that has been read (`walk_eq`),
so they refuse the same mappings (`refused_iff_malformed`). -/

namespace TableAccess

namespace Entries

open Condition

/-- Every key stands once, at every level. -/
inductive Distinct : Entries → Prop
  | intro {es : Entries} (keys : es.keys.Nodup) (inner : ∀ m ∈ es.members, Distinct m) : Distinct es

/-- At some depth, and with nothing but alternatives above it, the reserved key holds something else. -/
inductive Malformed : Entries → Prop
  | here {es : Entries} : ¬ IsAlternatives (es.get orKey) → Malformed es
  | within {es m : Entries} :
      IsAlternatives (es.get orKey) → m ∈ es.members → Malformed m → Malformed es

/-- Refuses what is under the reserved key, unless it is null or a sequence of mappings. -/
def checkAlternatives (es : Entries) : Except Failure Unit :=
  match es.get orKey with
  | .null => .ok ()
  | v => match v.items? with
    | some items => if items.all Value.isMap then .ok () else .error (.invalidFormat orKey)
    | none => .error (.invalidFormat orKey)

/-! ### The walks -/

def writtenConjunction (own : Entries) : String :=
  " AND ".intercalate (own.map fun e => String.ofList (Comparison.ofEntry e).written)

/-- A level of the written predicate, given its conjunction and the predicates of its members. -/
def writtenLevel (conjunction : String) (predicates : List String) : String :=
  let disjunction := " OR ".intercalate (predicates.filter fun p => !p.isEmpty)
  if conjunction.isEmpty then disjunction
  else if disjunction.isEmpty then conjunction
  else conjunction ++ " AND (" ++ disjunction ++ ")"

/-- The written predicate. -/
def writtenWalk (es : Entries) : Except Failure String :=
  if es.isEmpty then .ok ""
  else do
    let conjunction := writtenConjunction es.own
    checkAlternatives es
    if (es.get orKey).isNull then return conjunction
    let predicates ← es.members.attach.mapM fun m => writtenWalk m.1
    return writtenLevel conjunction predicates
termination_by sizeOf es
decreasing_by exact sizeOf_lt_of_mem_members m.2

/-- A predicate with markers, if anything is asked, and what is sent for the markers. -/
abbrev BoundPredicate := Option (List Fragment) × List Value

/-- Parts with AND between them, if there are any. -/
def boundConjunction (parts : List (List Fragment)) (parameters : List Value) : BoundPredicate :=
  if parts.isEmpty then (none, []) else (some (Statement.Bound.joined " AND " parts), parameters)

def boundParts (own : Entries) : List (List Fragment) := own.map fun e => (Comparison.ofEntry e).bound

def boundParameters (own : Entries) : List Value :=
  own.flatMap fun e => (Comparison.ofEntry e).parameters

def parenthesised (part : List Fragment) : List Fragment := .words "(" :: part ++ [.words ")"]

/-- A level of the bound predicate, given its own parts and parameters and the predicates of its members.
Of a member that asks for nothing, nothing is sent. -/
def boundLevel (parts : List (List Fragment)) (parameters : List Value)
    (predicates : List BoundPredicate) : BoundPredicate :=
  let asking := predicates.filterMap fun p => p.1.map fun predicate => (predicate, p.2)
  let alternatives := asking.map fun p => parenthesised p.1
  boundConjunction
    (parts ++ if alternatives.isEmpty then []
      else [parenthesised (Statement.Bound.joined " OR " alternatives)])
    (parameters ++ asking.flatMap (·.2))

/-- The bound predicate and its parameters. -/
def boundWalk (es : Entries) : Except Failure BoundPredicate :=
  if es.isEmpty then .ok (none, [])
  else do
    let parts := boundParts es.own
    let parameters := boundParameters es.own
    checkAlternatives es
    if es.members.isEmpty then return boundConjunction parts parameters
    let predicates ← es.members.attach.mapM fun m => boundWalk m.1
    return boundLevel parts parameters predicates
termination_by sizeOf es
decreasing_by exact sizeOf_lt_of_mem_members m.2

/-- A level of the keys, given its own and those of its members. -/
def keysLevel (keys : List String) (below : List (List String)) : List String := keys ++ below.flatten

/-- The keys outside the reserved one. -/
def keysWalk (es : Entries) : Except Failure (List String) := do
  let keys := es.own.keys
  checkAlternatives es
  let below ← es.members.attach.mapM fun m => keysWalk m.1
  return keysLevel keys below
termination_by sizeOf es
decreasing_by exact sizeOf_lt_of_mem_members m.2

/-! ### What is refused -/

theorem checkAlternatives_ok {es : Entries} (h : IsAlternatives (es.get orKey)) :
    es.checkAlternatives = .ok () := by
  have hall (ms : List Entries) : (ms.map Value.map).all Value.isMap = true := by
    simp [Value.isMap, Value.entries?]
  unfold checkAlternatives
  obtain h | ⟨ms, h | h⟩ := h
  · rw [h]
  · simp only [h, Value.items?, hall, if_true]
  · simp only [h, Value.items?, hall, if_true]

theorem isAlternatives_of_all {v : Value} {items : List Value} (h : v.items? = some items)
    (hall : items.all Value.isMap = true) : IsAlternatives v := by
  have hitems : items = (items.filterMap Value.entries?).map .map := by
    induction items generalizing v with
    | nil => rfl
    | cons x items ih =>
      simp only [List.all_cons, Bool.and_eq_true] at hall
      obtain ⟨hx, hall⟩ := hall
      cases x <;> simp only [Value.isMap, Value.entries?, Option.isSome, reduceCtorEq] at hx
      simpa [Value.entries?] using ih (v := .list items) rfl hall
  cases v <;> simp only [Value.items?, reduceCtorEq, Option.some.injEq] at h
  · exact .inr ⟨_, .inl (h ▸ congrArg Value.list hitems)⟩
  · exact .inr ⟨_, .inr (h ▸ congrArg Value.tuple hitems)⟩

theorem checkAlternatives_error {es : Entries} (h : ¬ IsAlternatives (es.get orKey)) :
    es.checkAlternatives = .error (.invalidFormat orKey) := by
  unfold checkAlternatives
  split
  next hnull => exact absurd (.inl hnull) h
  next =>
    split
    next items hitems =>
      exact if_neg fun hall => h (isAlternatives_of_all hitems hall)
    next => rfl

/-- Where every key stands once, only one value is under the reserved key. -/
theorem wellFormed_iff {es : Entries} (distinct : es.keys.Nodup) :
    es.WellFormed ↔ IsAlternatives (es.get orKey) ∧ ∀ m ∈ es.members, m.WellFormed := by
  have hget {v : Value} (hv : (orKey, v) ∈ es) : es.get orKey = v := by
    rw [get, (get?_eq_some_iff distinct).mpr hv, Option.getD_some]
  constructor
  · rintro ⟨shape, inner⟩
    refine ⟨?_, fun m hm => ?_⟩
    · cases h : es.get? orKey with
      | none => exact .inl (by rw [get, h, Option.getD_none])
      | some v =>
        rw [get, h, Option.getD_some]
        exact shape v (mem_of_get?_eq_some h)
    · obtain ⟨v, hv, hmv⟩ := mem_entry_of_mem_members hm
      exact inner v hv m hmv
  · rintro ⟨shape, inner⟩
    refine .intro (fun v hv => hget hv ▸ shape) fun v hv m hm => inner m ?_
    rw [members, hget hv]
    exact hm

theorem malformed_iff {es : Entries} (distinct : es.Distinct) : es.Malformed ↔ ¬ es.WellFormed := by
  induction distinct with
  | @intro es keys inner ih =>
    rw [wellFormed_iff keys]
    constructor
    · rintro (h | ⟨-, hm, h⟩) ⟨shape, wellFormed⟩
      · exact h shape
      · exact (ih _ hm).mp h (wellFormed _ hm)
    · intro h
      by_cases shape : IsAlternatives (es.get orKey)
      · obtain ⟨m, hm, hn⟩ : ∃ m ∈ es.members, ¬ m.WellFormed := by
          by_contra hall
          exact h ⟨shape, fun m hm => not_not.mp fun hn => hall ⟨m, hm, hn⟩⟩
        exact .within shape hm ((ih m hm).mpr hn)
      · exact .here shape

theorem mapM_ofEntries {ms : List Entries} (h : ∀ m ∈ ms, m.WellFormed) :
    ms.mapM ofEntries = .ok (ms.map tree) := by
  rw [mapM_eq_ok_iff, List.forall₂_map_right_iff, List.forall₂_same]
  exact fun m hm => ofEntries_ok_iff.mpr ⟨h m hm, rfl⟩

theorem mapM_ofEntries_error {ms : List Entries} (h : ¬ ∀ m ∈ ms, m.WellFormed) :
    ms.mapM ofEntries = .error (.invalidFormat orKey) := by
  induction ms with
  | nil => exact absurd (by simp) h
  | cons m ms ih =>
    rw [List.mapM_cons]
    by_cases hm : m.WellFormed
    · have hms : ¬ ∀ m ∈ ms, m.WellFormed := fun hms => h (List.forall_mem_cons.mpr ⟨hm, hms⟩)
      rw [ofEntries_ok_iff.mpr ⟨hm, rfl⟩, ih hms]
      rfl
    · rw [ofEntries_error hm]
      rfl

/-- A mapping is read as a walk would read it. -/
theorem ofEntries_level {es : Entries} (distinct : es.keys.Nodup) :
    ofEntries es = es.checkAlternatives >>= fun _ => (es.members.mapM ofEntries).map (.node es.own) := by
  by_cases wellFormed : es.WellFormed
  · obtain ⟨shape, inner⟩ := (wellFormed_iff distinct).mp wellFormed
    rw [ofEntries_ok_iff.mpr ⟨wellFormed, rfl⟩, tree_eq wellFormed, checkAlternatives_ok shape,
      mapM_ofEntries inner]
    rfl
  · rw [ofEntries_error wellFormed]
    by_cases shape : IsAlternatives (es.get orKey)
    · have inner : ¬ ∀ m ∈ es.members, m.WellFormed :=
        fun h => wellFormed ((wellFormed_iff distinct).mpr ⟨shape, h⟩)
      rw [checkAlternatives_ok shape, mapM_ofEntries_error inner]
      rfl
    · rw [checkAlternatives_error shape]
      rfl

/-! ### A walk gives what is made of the mapping read -/

theorem mapM_of_map {α : Type} {walk : Entries → Except Failure α} {read : Condition → α}
    {ms : List Entries} (h : ∀ m ∈ ms, walk m = (ofEntries m).map read) :
    ms.mapM walk = (ms.mapM ofEntries).map (List.map read) := by
  induction ms with
  | nil => rfl
  | cons m ms ih =>
    obtain ⟨hm, hms⟩ := List.forall_mem_cons.mp h
    rw [List.mapM_cons, List.mapM_cons, hm, ih hms]
    rcases ofEntries m with e | c
    · rfl
    · rcases ms.mapM ofEntries with e | cs <;> rfl

/-- A walk gives what is made of the mapping that has been read, if it makes of a level and of what it
has made of the members what is made of a condition and its alternatives. -/
theorem walk_eq {α : Type} {walk : Entries → Except Failure α} {read : Condition → α}
    {level : Entries → List α → α}
    (hwalk : ∀ es, walk es = es.checkAlternatives >>= fun _ => (es.members.mapM walk).map (level es.own))
    (hread : ∀ own alternatives, read (.node own alternatives) = level own (alternatives.map read))
    {es : Entries} (distinct : es.Distinct) : walk es = (ofEntries es).map read := by
  induction distinct with
  | @intro es keys inner ih =>
    rw [hwalk, ofEntries_level keys, mapM_of_map ih]
    rcases es.checkAlternatives with e | _
    · rfl
    · rcases es.members.mapM ofEntries with e | cs
      · rfl
      · exact congrArg Except.ok (hread es.own cs).symm

theorem mapM_attach {α : Type} (walk : Entries → Except Failure α) (ms : List Entries) :
    (ms.attach.mapM fun m => walk m.1) = ms.mapM walk := by
  have h := List.mapM_map (f := Subtype.val) (g := walk) (l := ms.attach)
  rwa [List.attach_map_subtype_val, eq_comm] at h

/-! ### The predicate with its values -/

theorem writtenLevel_nil (conjunction : String) : writtenLevel conjunction [] = conjunction := by
  unfold writtenLevel
  by_cases h : conjunction = ""
  · simp [h]
  · simp [h]

theorem members_eq_nil_of_isNull {es : Entries} (h : (es.get orKey).isNull = true) :
    es.members = [] := by
  unfold members
  cases hv : es.get orKey <;> simp_all [Value.isNull]

/-- Neither an empty mapping nor one without alternatives is passed over by anything but a shortcut. -/
theorem writtenWalk_level (es : Entries) : writtenWalk es =
    es.checkAlternatives >>= fun _ =>
      (es.members.mapM writtenWalk).map (writtenLevel (writtenConjunction es.own)) := by
  rw [writtenWalk, mapM_attach]
  cases es with
  | nil => rfl
  | cons e es =>
    rw [List.isEmpty_cons, if_neg Bool.false_ne_true]
    refine congrArg _ (funext fun _ => ?_)
    split
    next hnull =>
      rw [members_eq_nil_of_isNull hnull]
      exact congrArg Except.ok (writtenLevel_nil _).symm
    next => rcases List.mapM writtenWalk _ with e | ps <;> rfl

theorem lineText_joined (connective : Token Comparison) (parts : List (List (Token Comparison))) :
    lineText (Token.joined connective parts) =
      (lineText [connective]).intercalate (parts.map lineText) := by
  match parts with
  | [] => rfl
  | [part] => simp [Token.joined]
  | part :: next :: parts =>
    have ih := lineText_joined connective (next :: parts)
    rw [List.map_cons] at ih
    rw [List.map_cons, List.map_cons, String.intercalate_cons_cons, ← ih]
    simp [Token.joined, lineText, String.ofList_append, String.append_assoc]

theorem isEmpty_lineText (line : List (Token Comparison)) :
    (lineText line).isEmpty = line.isEmpty := by
  rw [Bool.eq_iff_iff, String.isEmpty_iff, List.isEmpty_iff, lineText_eq_empty_iff]

theorem lineText_present (parts : List (List (Token Comparison))) :
    (Token.present parts).map lineText = (parts.map lineText).filter fun p => !p.isEmpty := by
  rw [List.filter_map, Token.present]
  simp only [Function.comp_def, isEmpty_lineText]

theorem lineText_beside (conjunction disjunction : List (Token Comparison)) :
    lineText (Token.beside conjunction disjunction) =
      if (lineText conjunction).isEmpty then lineText disjunction
      else if (lineText disjunction).isEmpty then lineText conjunction
      else lineText conjunction ++ " AND (" ++ lineText disjunction ++ ")" := by
  simp only [isEmpty_lineText, Token.beside]
  split
  · rfl
  split
  · rfl
  have htext (a b : List (Token Comparison)) : lineText (a ++ b) = lineText a ++ lineText b := by
    rw [lineText, List.flatMap_append, String.ofList_append]
    rfl
  rw [htext, String.append_assoc, String.append_assoc]
  refine congrArg _ ?_
  show lineText ([.and, .opening] ++ (disjunction ++ [.closing])) = _
  rw [htext, htext, ← String.append_assoc]
  rfl

theorem text_node (own : Entries) (alternatives : List Condition) :
    (Condition.node own alternatives).text =
      writtenLevel (writtenConjunction own) (alternatives.map text) := by
  have hown : lineText (Token.joined .and (leaves own)) = writtenConjunction own := by
    rw [lineText_joined, leaves, List.map_map]
    simp [lineText, Token.chars, writtenConjunction, Function.comp_def]
  have halternatives : lineText (Token.joined .or (Token.present (writtenAll alternatives))) =
      " OR ".intercalate ((alternatives.map text).filter fun p => !p.isEmpty) := by
    rw [lineText_joined, lineText_present, writtenAll_eq, List.map_map]
    rfl
  show lineText (Condition.written _) = _
  rw [Condition.written, lineText_beside, hown, halternatives]
  rfl

theorem writtenWalk_eq {es : Entries} (distinct : es.Distinct) :
    writtenWalk es = (ofEntries es).map text :=
  walk_eq writtenWalk_level text_node distinct

/-! ### The predicate with markers -/

theorem boundLevel_nil (parts : List (List Fragment)) (parameters : List Value) :
    boundLevel parts parameters [] = boundConjunction parts parameters := by
  simp [boundLevel]

theorem boundWalk_level (es : Entries) : boundWalk es =
    es.checkAlternatives >>= fun _ =>
      (es.members.mapM boundWalk).map (boundLevel (boundParts es.own) (boundParameters es.own)) := by
  rw [boundWalk, mapM_attach]
  cases es with
  | nil => rfl
  | cons e es =>
    rw [List.isEmpty_cons, if_neg Bool.false_ne_true]
    refine congrArg _ (funext fun _ => ?_)
    split
    next hmembers =>
      rw [List.isEmpty_iff.mp hmembers]
      exact congrArg Except.ok (boundLevel_nil _ _).symm
    next => rcases List.mapM boundWalk _ with e | ps <;> rfl

/-- What is sent of a condition. -/
def boundPredicate (c : Condition) : BoundPredicate := (c.boundFragments?, c.parameters)

/-- The pieces of a line of bound comparisons. -/
def lineFragments (line : List (Token Comparison)) : List Fragment :=
  line.flatMap (Token.fragments Comparison.bound)

theorem lineFragments_joined {connective : Token Comparison} {separator : String}
    (h : connective.fragments Comparison.bound = [.words separator])
    (parts : List (List (Token Comparison))) :
    lineFragments (Token.joined connective parts) =
      Statement.Bound.joined separator (parts.map lineFragments) := by
  match parts with
  | [] => rfl
  | [part] => rfl
  | part :: next :: parts =>
    have ih := lineFragments_joined h (next :: parts)
    have hstep : lineFragments (Token.joined connective (part :: next :: parts)) =
        lineFragments part ++ ([.words separator] ++
          lineFragments (Token.joined connective (next :: parts))) := by
      simp only [lineFragments, Token.joined, List.flatMap_append, List.flatMap_cons, h]
    rw [hstep, ih]
    rfl

theorem lineFragments_enclosed (line : List (Token Comparison)) :
    lineFragments (Token.enclosed line) = parenthesised (lineFragments line) := by
  simp [lineFragments, Token.enclosed, Token.fragments, parenthesised]

/-- The members that ask for something, with what is sent of each. -/
theorem asking_eq (cs : List Condition) :
    (cs.map boundPredicate).filterMap (fun p => p.1.map fun predicate => (predicate, p.2)) =
      (cs.filter fun c => !c.bound.isEmpty).map fun c => (lineFragments c.bound, c.parameters) := by
  induction cs with
  | nil => rfl
  | cons c cs ih =>
    rw [List.map_cons, List.filterMap_cons, ih, List.filter_cons]
    cases h : c.bound.isEmpty <;> simp [boundPredicate, boundFragments?, h, lineFragments]

theorem parametersAll_asking (cs : List Condition) :
    parametersAll cs = (cs.filter fun c => !c.bound.isEmpty).flatMap Condition.parameters := by
  induction cs with
  | nil => rfl
  | cons c cs ih =>
    rw [parametersAll, ih, List.filter_cons]
    cases h : c.bound.isEmpty <;> simp

/-- The part of a bound line that stands for its alternatives. -/
def disjunctionOf (asking : List Condition) : List (List (Token Comparison)) :=
  if asking.isEmpty then []
  else [Token.enclosed (Token.joined .or (asking.map fun c => Token.enclosed c.bound))]

theorem bound_asking (own : Entries) (alternatives : List Condition) :
    (Condition.node own alternatives).bound = Token.joined .and
      (leaves own ++ disjunctionOf (alternatives.filter fun c => !c.bound.isEmpty)) := by
  have hpresent : Token.present (boundAll alternatives) =
      (alternatives.filter fun c => !c.bound.isEmpty).map Condition.bound := by
    rw [boundAll_eq, Token.present, List.filter_map]
    rfl
  rw [Condition.bound, hpresent]
  simp only [List.isEmpty_map, List.map_map]
  rfl

theorem lineFragments_disjunctionOf (asking : List Condition) :
    (disjunctionOf asking).map lineFragments = if asking.isEmpty then []
      else [parenthesised (Statement.Bound.joined " OR "
        (asking.map fun c => parenthesised (lineFragments c.bound)))] := by
  unfold disjunctionOf
  split
  · rfl
  · rw [List.map_singleton, lineFragments_enclosed, lineFragments_joined rfl, List.map_map]
    simp only [Function.comp_def, lineFragments_enclosed]

theorem ne_nil_of_mem_parts {own : Entries} {asking : List Condition} :
    ∀ p ∈ leaves own ++ disjunctionOf asking, p ≠ [] := by
  intro p hp
  rcases List.mem_append.mp hp with hp | hp
  · obtain ⟨e, -, rfl⟩ := List.mem_map.mp hp
    exact List.cons_ne_nil _ _
  · unfold disjunctionOf at hp
    split at hp
    · contradiction
    · exact List.mem_singleton.mp hp ▸ List.cons_ne_nil _ _

theorem boundPredicate_node (own : Entries) (alternatives : List Condition) :
    boundPredicate (.node own alternatives) =
      boundLevel (boundParts own) (boundParameters own) (alternatives.map boundPredicate) := by
  let asking := alternatives.filter fun c => !c.bound.isEmpty
  let parts := leaves own ++ disjunctionOf asking
  have hlevel :
      boundLevel (boundParts own) (boundParameters own) (alternatives.map boundPredicate) =
      boundConjunction (parts.map lineFragments)
        (boundParameters own ++ parametersAll alternatives) := by
    have hown : (leaves own).map lineFragments = boundParts own := by
      simp [leaves, lineFragments, Token.fragments, boundParts]
    rw [List.map_append, hown, lineFragments_disjunctionOf, boundLevel, asking_eq,
      parametersAll_asking]
    simp only [List.map_map, Function.comp_def, List.flatMap_map, List.isEmpty_map]
    rfl
  have hempty : (Token.joined .and parts).isEmpty = parts.isEmpty := by
    rw [Bool.eq_iff_iff, List.isEmpty_iff, List.isEmpty_iff, Token.joined_eq_nil ne_nil_of_mem_parts]
  have hline : lineFragments (Token.joined .and parts) =
      Statement.Bound.joined " AND " (parts.map lineFragments) := lineFragments_joined rfl parts
  rw [hlevel, boundPredicate, boundConjunction, boundFragments?, bound_asking, List.isEmpty_map,
    hempty, Condition.parameters]
  split
  next hparts =>
    obtain ⟨hown, hdisjunction⟩ := List.append_eq_nil_iff.mp (List.isEmpty_iff.mp hparts)
    have hasking : asking = [] := by
      unfold disjunctionOf at hdisjunction
      split at hdisjunction
      next h => exact List.isEmpty_iff.mp h
      next => contradiction
    rw [List.map_eq_nil_iff.mp hown, parametersAll_asking, show List.filter _ _ = [] from hasking]
    rfl
  next => exact congrArg (fun predicate => (some predicate, _)) hline

theorem boundWalk_eq {es : Entries} (distinct : es.Distinct) :
    boundWalk es = (ofEntries es).map boundPredicate :=
  walk_eq boundWalk_level boundPredicate_node distinct

/-! ### The keys -/

theorem keysWalk_level (es : Entries) : keysWalk es =
    es.checkAlternatives >>= fun _ => (es.members.mapM keysWalk).map (keysLevel es.own.keys) := by
  rw [keysWalk, mapM_attach]
  refine congrArg _ (funext fun _ => ?_)
  rcases es.members.mapM keysWalk with e | ks <;> rfl

theorem keys_node (own : Entries) (alternatives : List Condition) :
    (Condition.node own alternatives).keys =
      keysLevel own.keys (alternatives.map Condition.keys) := by
  rw [Condition.keys, keysAll_eq, keysLevel, List.flatMap_def]
  rfl

theorem keysWalk_eq {es : Entries} (distinct : es.Distinct) :
    keysWalk es = (ofEntries es).map Condition.keys :=
  walk_eq keysWalk_level keys_node distinct

/-! ### The same mappings are refused -/

/-- The format is refused exactly in one case, and always for the reserved key. -/
def RefusedIff {α : Type} (result : Except Failure α) (malformed : Prop) : Prop :=
  ∀ what, result = .error (.invalidFormat what) ↔ what = orKey ∧ malformed

theorem RefusedIff.refused {α : Type} {malformed : Prop} (h : malformed) :
    RefusedIff (.error (.invalidFormat orKey) : Except Failure α) malformed := by
  intro what
  simp [Failure.invalidFormat, h, eq_comm]

theorem RefusedIff.blameless {α : Type} {result : Except Failure α} {malformed : Prop}
    (h : ¬ malformed) (hresult : Blameless result) : RefusedIff result malformed :=
  fun _ => iff_of_false (fun he => hresult _ he trivial) fun hm => h hm.2

theorem RefusedIff.map_ofEntries {α : Type} {es : Entries} (distinct : es.Distinct)
    (read : Condition → α) : RefusedIff ((ofEntries es).map read) es.Malformed := by
  rw [malformed_iff distinct]
  by_cases wellFormed : es.WellFormed
  · rw [ofEntries_ok_iff.mpr ⟨wellFormed, rfl⟩]
    exact .blameless (not_not.mpr wellFormed) (.ok _)
  · rw [ofEntries_error wellFormed]
    exact .refused wellFormed

/-- The options of a search are not asked for alternatives. -/
theorem RefusedIff.needsRaw {es : Entries} (distinct : es.Distinct) {options : Value}
    (given : options = .null ∨ options.isMap = true) :
    RefusedIff (Route.needsRaw (.map es) options) es.Malformed := by
  rw [malformed_iff distinct]
  by_cases wellFormed : es.WellFormed
  · refine .blameless (not_not.mpr wellFormed) ?_
    obtain rfl | h := given
    · show Blameless (Route.needsRaw (.map es) (.map []))
      exact Route.needsRaw_blameless wellFormed
    · cases options <;> simp only [Value.isMap, Value.entries?, Option.isSome, reduceCtorEq] at h
      exact Route.needsRaw_blameless wellFormed
  · rw [Route.needsRaw_refused wellFormed]
    exact .refused wellFormed

/-- The predicate with its values, the one with markers, and the choice of the way of a search refuse
the same mappings, wherever and however deep what is wrong stands. Each of them gives what a walk gives
that comes to it in its own order. -/
theorem refused_iff_malformed {es : Entries} (distinct : es.Distinct) {options : Value}
    (given : options = .null ∨ options.isMap = true) :
    RefusedIff ((ofValue (.map es)).map text) es.Malformed ∧
      RefusedIff ((ofValue (.map es)).map boundPredicate) es.Malformed ∧
      RefusedIff (Route.needsRaw (.map es) options) es.Malformed ∧
      (ofValue (.map es)).map text = writtenWalk es ∧
      (ofValue (.map es)).map boundPredicate = boundWalk es ∧
      Route.conditionKeys (.map es) = keysWalk es :=
  ⟨.map_ofEntries distinct _, .map_ofEntries distinct _, .needsRaw distinct given,
    (writtenWalk_eq distinct).symm, (boundWalk_eq distinct).symm, (keysWalk_eq distinct).symm⟩

/-- The second member of the second member holds a text in the place of alternatives. -/
def astray : Entries :=
  [("a", .int 1),
    ("or", .list [.map [], .map [("or", .tuple [.map [("b", .null)], .map [("or", .text "c")]])]])]

theorem distinct_astray : astray.Distinct := by
  have leaf {es : Entries} (keys : es.keys.Nodup) (h : es.members = []) : es.Distinct :=
    .intro keys fun m hm => absurd (h ▸ hm) List.not_mem_nil
  have deep : Distinct [("or", .tuple [.map [("b", .null)], .map [("or", .text "c")]])] := by
    refine .intro (by decide) ?_
    show ∀ m ∈ [[("b", Value.null)], [("or", .text "c")]], Distinct m
    simp only [List.forall_mem_cons, List.not_mem_nil, false_implies, implies_true, and_true]
    exact ⟨leaf (by decide) rfl, leaf (by decide) rfl⟩
  refine .intro (by decide) ?_
  show ∀ m ∈ [[], [("or", .tuple [.map [("b", .null)], .map [("or", .text "c")]])]], Distinct m
  simp only [List.forall_mem_cons, List.not_mem_nil, false_implies, implies_true, and_true]
  exact ⟨leaf (by decide) rfl, deep⟩

theorem malformed_astray : astray.Malformed := by
  refine .within (m := [("or", .tuple [.map [("b", .null)], .map [("or", .text "c")]])]) ?_ ?_ ?_
  · exact .inr ⟨[[], _], .inl rfl⟩
  · exact .tail _ (.head _)
  · refine .within (m := [("or", .text "c")]) ?_ ?_ ?_
    · exact .inr ⟨[_, _], .inr rfl⟩
    · exact .tail _ (.head _)
    · refine .here ?_
      rintro (h | ⟨ms, h | h⟩) <;> cases h

theorem refused_iff_malformed_astray :
    astray.Distinct ∧ astray.Malformed ∧
      (ofValue (.map astray)).map text = .error (.invalidFormat orKey) ∧
      (ofValue (.map astray)).map boundPredicate = .error (.invalidFormat orKey) ∧
      Route.needsRaw (.map astray) .null = .error (.invalidFormat orKey) ∧
      writtenWalk astray = .error (.invalidFormat orKey) ∧
      boundWalk astray = .error (.invalidFormat orKey) := by
  obtain ⟨ht, hb, hr, hwritten, hbound, -⟩ := refused_iff_malformed distinct_astray (.inl rfl)
  have refused : orKey = orKey ∧ astray.Malformed := ⟨rfl, malformed_astray⟩
  exact ⟨distinct_astray, malformed_astray, (ht orKey).mpr refused, (hb orKey).mpr refused,
    (hr orKey).mpr refused, hwritten ▸ (ht orKey).mpr refused, hbound ▸ (hb orKey).mpr refused⟩

end Entries

end TableAccess
