import Mathlib.Data.List.Basic
import TableAccess.Proofs.Predicate.Meaning

/-! What the text of a bound predicate depends on. Values are sent apart, so of a value only its kind
shows in the text: whether it is null, a sequence, and a sequence of nothing. Two mappings with the same
keys at every level, and values of the same kinds, are alike (`Entries.Alike`), and alike mappings have
the same text (`boundText_alike`). -/

namespace TableAccess

/-- What a bound predicate shows of a value. -/
inductive Value.Kind where
  | null | emptySequence | sequence | other
  deriving DecidableEq

def Value.kind : Value → Value.Kind
  | .null => .null
  | .list [] | .tuple [] => .emptySequence
  | .list _ | .tuple _ => .sequence
  | _ => .other

mutual
/-- The same keys in the same order, values of the same kinds under them, and alike alternatives. -/
inductive Entries.Alike : Entries → Entries → Prop
  | nil : Entries.Alike [] []
  | entry {k : String} {v w : Value} {es fs : Entries} :
      k ≠ Condition.orKey → v.kind = w.kind → Entries.Alike es fs →
        Entries.Alike ((k, v) :: es) ((k, w) :: fs)
  | alternatives {v w : Value} {es fs : Entries} :
      Value.AlikeAlternatives v w → Entries.Alike es fs →
        Entries.Alike ((Condition.orKey, v) :: es) ((Condition.orKey, w) :: fs)

/-- Two sequences of alike members, or two values of the same kind that are no sequences. -/
inductive Value.AlikeAlternatives : Value → Value → Prop
  | sequences {v w : Value} {xs ys : List Value} :
      v.items? = some xs → w.items? = some ys → Value.AlikeMembers xs ys →
        Value.AlikeAlternatives v w
  | others {v w : Value} :
      v.items? = none → w.items? = none → v.kind = w.kind → Value.AlikeAlternatives v w

/-- As many members on both sides: alike mappings, or what is no mapping on either side. -/
inductive Value.AlikeMembers : List Value → List Value → Prop
  | nil : Value.AlikeMembers [] []
  | mapping {es fs : Entries} {xs ys : List Value} :
      Entries.Alike es fs → Value.AlikeMembers xs ys →
        Value.AlikeMembers (.map es :: xs) (.map fs :: ys)
  | other {v w : Value} {xs ys : List Value} :
      v.entries? = none → w.entries? = none → Value.AlikeMembers xs ys →
        Value.AlikeMembers (v :: xs) (w :: ys)
end

namespace Value

variable {v w : Value}

theorem kind_eq_null_iff : v.kind = .null ↔ v = .null := by
  cases v with
  | list xs => cases xs <;> simp [kind]
  | tuple xs => cases xs <;> simp [kind]
  | _ => simp [kind]

theorem kind_eq_emptySequence_iff : v.kind = .emptySequence ↔ v.items? = some [] := by
  unfold kind
  split <;> simp_all [items?]

theorem isSequence_iff : v.isSequence = true ↔ v.kind = .emptySequence ∨ v.kind = .sequence := by
  unfold kind isSequence
  split <;> simp_all [items?]

theorem isSequence_congr (h : v.kind = w.kind) : v.isSequence = w.isSequence := by
  rw [Bool.eq_iff_iff, isSequence_iff, isSequence_iff, h]

end Value

namespace Comparison

/-- The text of the bound comparison. -/
def boundText (c : Comparison) : List Char := c.bound.flatMap Fragment.chars

theorem chars_simple (c : Comparison) (operator : String) (v : Value) :
    (c.simple operator v).flatMap Fragment.chars =
      (Fragment.field c.field).chars ++ operator.toList ++ ['%', 's'] := by
  simp [simple, Fragment.chars]

theorem chars_boundMembership (c : Comparison) (negated : Bool) :
    (c.boundMembership negated).flatMap Fragment.chars =
      if c.value.kind = .emptySequence then (if negated then "TRUE" else "FALSE").toList
      else (Fragment.field c.field).chars ++ (if negated then " NOT IN " else " IN ").toList ++
        ['%', 's'] := by
  unfold boundMembership
  split
  next h =>
    rw [if_pos (Value.kind_eq_emptySequence_iff.mpr h)]
    simp [Fragment.chars]
  next hne h =>
    have hk : c.value.kind ≠ .emptySequence := by
      simpa [Value.kind_eq_emptySequence_iff, h] using hne
    rw [if_neg hk, chars_simple]
  next h =>
    have hk : c.value.kind ≠ .emptySequence := by simp [Value.kind_eq_emptySequence_iff, h]
    rw [if_neg hk, chars_simple]

theorem boundText_equality {c : Comparison} (h : c.operator = .eq) :
    c.boundText = (Fragment.field c.field).chars ++
      if c.value.kind = .null then " IS NULL".toList else " = %s".toList := by
  unfold boundText bound
  rw [h]
  dsimp only
  split
  next hv =>
    rw [if_pos (Value.kind_eq_null_iff.mpr hv)]
    simp [Fragment.chars]
  next hv =>
    rw [if_neg (by simp [Value.kind_eq_null_iff, hv]), chars_simple, List.append_assoc]
    rfl
  next hn _ =>
    rw [if_neg (by simpa [Value.kind_eq_null_iff] using hn), chars_simple, List.append_assoc]
    rfl

theorem boundText_congr {c d : Comparison} (ho : c.operator = d.operator) (hf : c.field = d.field)
    (hk : c.value.kind = d.value.kind) : c.boundText = d.boundText := by
  by_cases heq : c.operator = .eq
  · rw [boundText_equality heq, boundText_equality (ho ▸ heq), hf, hk]
  unfold boundText bound
  rw [← ho]
  cases h : c.operator
  case isIn | notIn => rw [chars_boundMembership, chars_boundMembership, hf, hk]
  case ilike | notIlike => simp [boundFolded, hf, Fragment.chars]
  case eq => exact absurd h heq
  all_goals rw [chars_simple, chars_simple, hf]

end Comparison

theorem Operator.resolve_congr {key : String} {v w : Value} (h : v.kind = w.kind) :
    Operator.resolve key v = Operator.resolve key w := by
  unfold resolve
  rw [Value.isSequence_congr h]

theorem Comparison.boundText_ofEntry {k : String} {v w : Value} (h : v.kind = w.kind) :
    (ofEntry (k, v)).boundText = (ofEntry (k, w)).boundText := by
  have hr : Operator.resolve k v = Operator.resolve k w := Operator.resolve_congr h
  exact boundText_congr (congrArg Prod.fst hr) (congrArg Prod.snd hr) h

namespace Token

variable {α β : Type}

/-- The same line with other leaves. -/
def map (f : α → β) : Token α → Token β
  | .leaf a => .leaf (f a)
  | .and => .and
  | .or => .or
  | .opening => .opening
  | .closing => .closing

variable (f : α → β)

theorem joined_map (connective : Token α) (parts : List (List (Token α))) :
    (joined connective parts).map (map f) =
      joined (connective.map f) (parts.map fun part => part.map (map f)) := by
  match parts with
  | [] => rfl
  | [part] => rfl
  | part :: next :: rest =>
    have ih := joined_map connective (next :: rest)
    show (part ++ connective :: joined connective (next :: rest)).map (map f) = _
    rw [List.map_append, List.map_cons, ih]
    rfl

theorem present_map (parts : List (List (Token α))) :
    (present parts).map (fun part => part.map (map f)) =
      present (parts.map fun part => part.map (map f)) := by
  rw [present, present, List.filter_map]
  simp [Function.comp_def]

theorem enclosed_map (part : List (Token α)) :
    (enclosed part).map (map f) = enclosed (part.map (map f)) := by
  simp [enclosed, map]

theorem chars_map (leafText : β → List Char) (line : List (Token α)) :
    (line.map (map f)).flatMap (chars leafText) = line.flatMap (chars fun a => leafText (f a)) := by
  rw [List.flatMap_map]
  refine List.flatMap_congr fun t _ => ?_
  cases t <;> rfl

/-- A level of a bound predicate: its own parts, and its alternatives in parentheses. -/
def level (own alternatives : List (List (Token α))) : List (Token α) :=
  let members := present alternatives
  joined .and (own ++ if members.isEmpty then [] else [enclosed (joined .or (members.map enclosed))])

theorem level_map (own alternatives : List (List (Token α))) :
    (level own alternatives).map (map f) =
      level (own.map (List.map (map f))) (alternatives.map (List.map (map f))) := by
  have hmembers : ((present alternatives).map enclosed).map (List.map (map f)) =
      ((present alternatives).map (List.map (map f))).map enclosed := by
    rw [List.map_map, List.map_map]
    exact List.map_congr_left fun part _ => enclosed_map f part
  unfold level
  dsimp only
  rw [joined_map, List.map_append, ← present_map, List.isEmpty_map, ← hmembers]
  split
  · rfl
  · rw [List.map_singleton, enclosed_map, joined_map]
    rfl

end Token

namespace Condition

theorem bound_node (own : Entries) (alternatives : List Condition) :
    bound (.node own alternatives) = Token.level (leaves own) (alternatives.map bound) := by
  rw [bound, boundAll_eq]
  rfl

/-- The line of a condition, with the texts of its comparisons for leaves. -/
def outline (c : Condition) : List (Token (List Char)) := c.bound.map (Token.map Comparison.boundText)

theorem outline_node (own : Entries) (alternatives : List Condition) :
    outline (.node own alternatives) =
      Token.level (own.map fun e => [.leaf (Comparison.ofEntry e).boundText])
        (alternatives.map outline) := by
  have hown : (leaves own).map (List.map (Token.map Comparison.boundText)) =
      own.map fun e => [.leaf (Comparison.ofEntry e).boundText] := List.map_map
  have halternatives : (alternatives.map bound).map (List.map (Token.map Comparison.boundText)) =
      alternatives.map outline := List.map_map
  rw [outline, bound_node, Token.level_map, hown, halternatives]

/-- What is shown of a condition. -/
def shown (c : Condition) : List (List (Token (List Char))) × List (List (Token (List Char))) :=
  match c with
  | .node own alternatives =>
    (own.map fun e => [.leaf (Comparison.ofEntry e).boundText], alternatives.map outline)

theorem outline_eq (c : Condition) : c.outline = Token.level c.shown.1 c.shown.2 := by
  cases c
  exact outline_node _ _

theorem ofEntries?_entry {k : String} (h : k ≠ orKey) (v : Value) (es : Entries) :
    ofEntries? ((k, v) :: es) = (ofEntries? es).map fun
      | .node own alternatives => .node ((k, v) :: own) alternatives := by
  rw [ofEntries?, if_neg h]
  rcases ofEntries? es with _ | ⟨own, alternatives⟩ <;> rfl

theorem ofEntries?_alternatives (v : Value) (es : Entries) :
    ofEntries? ((orKey, v) :: es) = (alternatives? v).bind fun alternatives =>
      (ofEntries? es).map fun
        | .node own _ => .node own alternatives := by
  rw [ofEntries?, if_pos rfl]
  rcases alternatives? v with _ | alternatives
  · rfl
  · rcases ofEntries? es with _ | ⟨own, _⟩ <;> rfl

theorem shown_alternatives (read : Option (List Condition)) (rest : Option Condition) :
    (read.bind fun alternatives => rest.map fun
      | .node own _ => .node own alternatives).map shown =
      (read.map (List.map outline)).bind fun outlines =>
        (rest.map shown).map fun s => (s.1, outlines) := by
  rcases read with _ | alternatives
  · rfl
  · rcases rest with _ | ⟨own, _⟩ <;> rfl

theorem outlines_members (es : Entries) (xs : List Value) :
    (members? (.map es :: xs)).map (List.map outline) =
      ((ofEntries? es).map shown).bind fun s =>
        ((members? xs).map (List.map outline)).map (Token.level s.1 s.2 :: ·) := by
  rw [members?]
  rcases ofEntries? es with _ | c
  · rfl
  · rcases members? xs with _ | cs
    · rfl
    · simp [outline_eq c]

theorem members?_other {v : Value} (h : v.entries? = none) (xs : List Value) :
    members? (v :: xs) = none := by
  cases v <;> first | rfl | contradiction

theorem alternatives?_items {v : Value} {xs : List Value} (h : v.items? = some xs) :
    alternatives? v = members? xs := by
  cases v <;> simp_all [Value.items?, alternatives?]

theorem alternatives?_other {v : Value} (h : v.items? = none) :
    alternatives? v = if v.kind = .null then some [] else none := by
  cases v <;> simp_all [Value.items?, alternatives?, Value.kind]

mutual
/-- The induction is on the likeness, with the readers of entries, alternatives and members. -/
theorem shown_alike {es fs : Entries} :
    es.Alike fs → (ofEntries? es).map shown = (ofEntries? fs).map shown
  | .nil => rfl
  | @Entries.Alike.entry k v w es fs hk hv h => by
    have hcons : ∀ v, (shown ∘ fun | .node own alternatives => .node ((k, v) :: own) alternatives) =
        (fun s => ([.leaf (Comparison.ofEntry (k, v)).boundText] :: s.1, s.2)) ∘ shown := by
      intro v
      funext ⟨own, alternatives⟩
      rfl
    rw [ofEntries?_entry hk, ofEntries?_entry hk, Option.map_map, Option.map_map, hcons, hcons,
      ← Option.map_map, shown_alike h, Option.map_map, Comparison.boundText_ofEntry hv]
  | .alternatives hv h => by
    rw [ofEntries?_alternatives, ofEntries?_alternatives, shown_alternatives, shown_alternatives,
      alternatives_alike hv, shown_alike h]

theorem alternatives_alike {v w : Value} : v.AlikeAlternatives w →
    (alternatives? v).map (List.map outline) = (alternatives? w).map (List.map outline)
  | .sequences hv hw h => by
    rw [alternatives?_items hv, alternatives?_items hw, members_alike h]
  | .others hv hw hk => by
    rw [alternatives?_other hv, alternatives?_other hw, hk]

theorem members_alike {xs ys : List Value} : Value.AlikeMembers xs ys →
    (members? xs).map (List.map outline) = (members? ys).map (List.map outline)
  | .nil => rfl
  | .mapping h hs => by
    rw [outlines_members, outlines_members, shown_alike h, members_alike hs]
  | .other hv hw _ => by
    rw [members?_other hv, members?_other hw]
end

/-- The text of the bound predicate, if there is one. -/
def boundText? (c : Condition) : Option String := c.boundFragments?.map Fragment.text

theorem boundText?_eq (c : Condition) : c.boundText? = if c.bound.isEmpty then none
    else some (String.ofList (c.bound.flatMap (Token.chars Comparison.boundText))) := by
  have htext : (c.bound.flatMap (Token.fragments Comparison.bound)).flatMap Fragment.chars =
      c.bound.flatMap (Token.chars Comparison.boundText) := by
    rw [List.flatMap_assoc]
    refine List.flatMap_congr fun t _ => ?_
    cases t <;> simp [Token.fragments, Token.chars, Comparison.boundText, Fragment.chars]
  unfold boundText? boundFragments?
  rw [← htext]
  dsimp only
  split <;> rfl

theorem boundText?_outline (c : Condition) : c.boundText? = if c.outline.isEmpty then none
    else some (String.ofList (c.outline.flatMap (Token.chars id))) := by
  rw [boundText?_eq, outline, List.isEmpty_map, Token.chars_map]
  rfl

/-- Alike mappings are refused alike, and have the same text. -/
theorem boundText_alike {es fs : Entries} (h : es.Alike fs) :
    (ofEntries es).map boundText? = (ofEntries fs).map boundText? := by
  have hshown := shown_alike h
  unfold ofEntries
  rcases hes : ofEntries? es with _ | c <;> rcases hfs : ofEntries? fs with _ | d <;>
    rw [hes, hfs] at hshown
  · contradiction
  · contradiction
  · have hcd : c.shown = d.shown := Option.some.inj hshown
    have houtline : c.outline = d.outline := by rw [outline_eq, outline_eq, hcd]
    show Except.ok c.boundText? = Except.ok d.boundText?
    rw [boundText?_outline, boundText?_outline, houtline]

end Condition

end TableAccess
