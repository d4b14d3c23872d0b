import TableAccess.Proofs.Condition.Mapping
import TableAccess.Proofs.Predicate.Formula

/-! What the predicates of a condition mean. A mapping holds if all entries of its own do and, as soon
as one of its members asks for something, one of those that do so holds too. Both layouts of a mapping,
with values in the text and with bound values, are empty exactly when the mapping asks for nothing
and otherwise have one reading, which means the mapping. -/

namespace TableAccess

namespace Entries

open Condition

/-- Whether a mapping holds, given the truth of its comparisons. -/
def Holds (v : Comparison → Prop) (es : Entries) : Prop :=
  (∀ e ∈ es.own, v (.ofEntry e)) ∧
    ((∃ m ∈ es.members, m.Asks) → ∃ m, ∃ _ : m ∈ es.members, m.Asks ∧ Holds v m)
termination_by sizeOf es
decreasing_by exact sizeOf_lt_of_mem_members ‹_›

theorem holds_iff {v : Comparison → Prop} {es : Entries} :
    es.Holds v ↔ (∀ e ∈ es.own, v (.ofEntry e)) ∧
      ((∃ m ∈ es.members, m.Asks) → ∃ m ∈ es.members, m.Asks ∧ m.Holds v) := by
  rw [Holds]
  simp only [exists_prop]

theorem asks_iff {es : Entries} : es.Asks ↔ es.own ≠ [] ∨ ∃ m ∈ es.members, m.Asks := by
  constructor
  · rintro (⟨h⟩ | ⟨hm, ha⟩)
    · exact .inl (List.ne_nil_of_mem h)
    · exact .inr ⟨_, hm, ha⟩
  · rintro (h | ⟨m, hm, ha⟩)
    · obtain ⟨e, he⟩ := List.exists_mem_of_ne_nil _ h
      exact .own he
    · exact .member hm ha

end Entries

namespace Token

variable {α : Type} {connective : Token α}

theorem joined_eq_nil {parts : List (List (Token α))} (h : ∀ p ∈ parts, p ≠ []) :
    joined connective parts = [] ↔ parts = [] := by
  match parts with
  | [] => simp [joined]
  | [p] => simpa [joined] using h p
  | p :: q :: parts => simp [joined]

theorem joined_concat {parts : List (List (Token α))} (h : parts ≠ []) (last : List (Token α)) :
    joined connective (parts ++ [last]) = joined connective parts ++ connective :: last := by
  induction parts, h using List.recNeNil with
  | singleton p => rfl
  | cons p parts h ih =>
    obtain ⟨q, qs, rfl⟩ := List.exists_cons_of_ne_nil h
    simpa [joined] using ih

end Token

theorem Token.chars_ne_nil {α : Type} {leafText : α → List Char} (h : ∀ a, leafText a ≠ [])
    (t : Token α) : t.chars leafText ≠ [] := by
  cases t
  case leaf a => exact h a
  all_goals simp [chars]

namespace Comparison

theorem membership_ne_nil (negated : Bool) (f : List Char) (v : Value) :
    membership negated f v ≠ [] := by
  unfold membership
  split <;> cases negated <;> simp

theorem folded_ne_nil (f : List Char) (op : String) (v : Value) : folded f op v ≠ [] := by
  unfold folded
  exact List.append_ne_nil_of_right_ne_nil _ (List.cons_ne_nil _ _)

theorem written_ne_nil (c : Comparison) : c.written ≠ [] := by
  unfold written
  cases c.operator
  case notIn | isIn => exact membership_ne_nil _ _ _
  case ilike | notIlike => exact folded_ne_nil _ _ _
  case eq =>
    dsimp only
    split <;> simp
  all_goals simp

end Comparison

namespace Condition

open Entries

/-- A line says a mapping: it is empty if the mapping asks for nothing, and means it otherwise. -/
structure Says (b : Binding) (line : List (Token Comparison)) (es : Entries) : Prop where
  nil : ¬ es.Asks → line = []
  reads : es.Asks → Reads b line fun v => es.Holds v

theorem Says.eq_nil_iff {b : Binding} {line : List (Token Comparison)} {es : Entries}
    (h : Says b line es) : line = [] ↔ ¬ es.Asks :=
  ⟨fun hn ha => (h.reads ha).ne_nil hn, h.nil⟩

theorem Says.sole {line : List (Token Comparison)} {es : Entries} (h : Says .conjunction line es) :
    Says .disjunction line es :=
  ⟨h.nil, fun ha => (h.reads ha).sole⟩

/-- The four kinds of levels: with and without entries of its own, with and without a member that
asks for something. -/
theorem Says.of_level {b : Binding} {line : List (Token Comparison)} {es : Entries}
    (neither : es.own = [] → (¬ ∃ m ∈ es.members, m.Asks) → line = [])
    (ownOnly : es.own ≠ [] → (¬ ∃ m ∈ es.members, m.Asks) →
      Reads b line fun v => ∀ e ∈ es.own, v (.ofEntry e))
    (membersOnly : es.own = [] → (∃ m ∈ es.members, m.Asks) →
      Reads b line fun v => ∃ m ∈ es.members, m.Asks ∧ m.Holds v)
    (both : es.own ≠ [] → (∃ m ∈ es.members, m.Asks) →
      Reads b line fun v =>
        (∀ e ∈ es.own, v (.ofEntry e)) ∧ ∃ m ∈ es.members, m.Asks ∧ m.Holds v) :
    Says b line es := by
  by_cases ho : es.own = [] <;> by_cases hm : ∃ m ∈ es.members, m.Asks
  · refine ⟨fun ha => absurd (asks_iff.mpr (.inr hm)) ha, fun _ => ?_⟩
    refine (membersOnly ho hm).congr fun v => ?_
    rw [holds_iff, forall_prop_of_true hm, ho]
    simp only [List.not_mem_nil, IsEmpty.forall_iff, implies_true, true_and]
  · refine ⟨fun _ => neither ho hm, fun ha => ?_⟩
    obtain h | h := asks_iff.mp ha
    · exact absurd ho h
    · exact absurd h hm
  · refine ⟨fun ha => absurd (asks_iff.mpr (.inl ho)) ha, fun _ => ?_⟩
    exact (both ho hm).congr fun v => by rw [holds_iff, forall_prop_of_true hm]
  · refine ⟨fun ha => absurd (asks_iff.mpr (.inl ho)) ha, fun _ => ?_⟩
    exact (ownOnly ho hm).congr fun v => by rw [holds_iff, forall_prop_of_false hm, and_true]

theorem joined_leaves_eq_nil {own : Entries} :
    Token.joined .and (leaves own) = [] ↔ own = [] := by
  have hne : ∀ p ∈ leaves own, p ≠ [] := by
    intro p hp
    obtain ⟨e, -, rfl⟩ := List.mem_map.mp hp
    exact List.cons_ne_nil _ _
  rw [Token.joined_eq_nil hne]
  simp [leaves]

theorem leaves_reads {own : Entries} (h : own ≠ []) :
    Reads .conjunction (Token.joined .and (leaves own)) fun v => ∀ e ∈ own, v (.ofEntry e) :=
  .all h fun e _ => (Reads.leaf (Comparison.ofEntry e)).single

section Members

variable {ms : List Entries} {lineOf : Entries → List (Token Comparison)}

theorem present_eq_nil_iff (h : ∀ m ∈ ms, Says .disjunction (lineOf m) m) :
    Token.present (ms.map lineOf) = [] ↔ ¬ ∃ m ∈ ms, m.Asks := by
  simp only [Token.present, List.filter_eq_nil_iff, List.mem_map, forall_exists_index, and_imp,
    forall_apply_eq_imp_iff₂, Bool.not_eq_true', not_exists, not_and, List.isEmpty_eq_false_iff,
    not_not]
  exact forall₂_congr fun m hm => (h m hm).eq_nil_iff

/-- Members between ORs, each put into a line of its own by `wrap`. -/
theorem members_read (wrap : List (Token Comparison) → List (Token Comparison))
    (hw : ∀ line m, Reads .disjunction line m → Reads .disjunction (wrap line) m)
    (h : ∀ m ∈ ms, Says .disjunction (lineOf m) m) (ha : ∃ m ∈ ms, m.Asks) :
    Reads .disjunction (Token.joined .or ((Token.present (ms.map lineOf)).map wrap))
      fun v => ∃ m ∈ ms, m.Asks ∧ m.Holds v := by
  let asking := ms.filter fun m => !(lineOf m).isEmpty
  have hasking : ∀ m, m ∈ asking ↔ m ∈ ms ∧ m.Asks := by
    intro m
    simp only [asking, List.mem_filter, Bool.not_eq_true', List.isEmpty_eq_false_iff]
    exact and_congr_right fun hm => not_iff_comm.mp (h m hm).eq_nil_iff.symm
  have hne : asking ≠ [] := by
    obtain ⟨m, hm, hma⟩ := ha
    exact List.ne_nil_of_mem ((hasking m).mpr ⟨hm, hma⟩)
  have hr : Reads .disjunction (Token.joined .or (asking.map fun m => wrap (lineOf m)))
      fun v => ∃ m ∈ asking, m.Holds v := by
    refine Reads.any hne fun m hm => hw _ _ ?_
    obtain ⟨hm, hma⟩ := (hasking m).mp hm
    exact (h m hm).reads hma
  rw [Token.present, List.filter_map, List.map_map]
  exact hr.congr fun v => by simp only [hasking, and_assoc]

end Members

theorem writtenAll_eq (cs : List Condition) : writtenAll cs = cs.map written := by
  induction cs with
  | nil => rfl
  | cons c cs ih => rw [writtenAll, ih, List.map_cons]

theorem boundAll_eq (cs : List Condition) : boundAll cs = cs.map bound := by
  induction cs with
  | nil => rfl
  | cons c cs ih => rw [boundAll, ih, List.map_cons]

theorem written_tree {es : Entries} (h : WellFormed es) :
    (tree es).written =
      Token.beside (Token.joined .and (leaves es.own))
        (Token.joined .or (Token.present (es.members.map fun m => (tree m).written))) := by
  rw [tree_eq h, written, writtenAll_eq, List.map_map]
  rfl

theorem bound_tree {es : Entries} (h : WellFormed es) :
    (tree es).bound =
      let members := Token.present (es.members.map fun m => (tree m).bound)
      Token.joined .and (leaves es.own ++
        if members.isEmpty then []
        else [Token.enclosed (Token.joined .or (members.map Token.enclosed))]) := by
  rw [tree_eq h, bound, boundAll_eq, List.map_map]
  rfl

theorem says_written {es : Entries} (h : WellFormed es) :
    Says .disjunction (tree es).written es := by
  induction h with
  | @intro es shape inner ih =>
    have hm : ∀ m ∈ es.members, Says .disjunction (tree m).written m := by
      intro m hm
      obtain ⟨v, hv, hmv⟩ := mem_entry_of_mem_members hm
      exact ih v hv m hmv
    have hnil := present_eq_nil_iff hm
    have hread := fun ha => members_read id (fun _ _ h => h) hm ha
    rw [List.map_id] at hread
    rw [written_tree (.intro shape inner), Token.beside]
    apply Says.of_level
    · intro ho hn
      simp [joined_leaves_eq_nil.mpr ho, hnil.mpr hn, Token.joined]
    · intro ho hn
      simpa [joined_leaves_eq_nil, ho, hnil.mpr hn, Token.joined] using (leaves_reads ho).sole
    · intro ho ha
      simpa [joined_leaves_eq_nil.mpr ho] using hread ha
    · intro ho ha
      have hne := (hread ha).ne_nil
      simpa [joined_leaves_eq_nil, ho, hne] using
        ((leaves_reads ho).and (hread ha).enclosed.single).sole

theorem says_bound {es : Entries} (h : WellFormed es) :
    Says .conjunction (tree es).bound es := by
  induction h with
  | @intro es shape inner ih =>
    have hm : ∀ m ∈ es.members, Says .disjunction (tree m).bound m := by
      intro m hm
      obtain ⟨v, hv, hmv⟩ := mem_entry_of_mem_members hm
      exact (ih v hv m hmv).sole
    have hnil := present_eq_nil_iff hm
    have hread := fun ha =>
      (members_read Token.enclosed (fun _ _ h => h.enclosed.single.sole) hm ha).enclosed.single
    rw [bound_tree (.intro shape inner)]
    apply Says.of_level
    · intro ho hn
      simp [ho, hnil.mpr hn, Token.joined, leaves]
    · intro ho hn
      simpa [hnil.mpr hn] using leaves_reads ho
    · intro ho ha
      have hsome : Token.present (es.members.map fun m => (tree m).bound) ≠ [] :=
        fun hn => hnil.mp hn ha
      simpa [ho, leaves, hsome, Token.joined] using hread ha
    · intro ho ha
      have hsome : Token.present (es.members.map fun m => (tree m).bound) ≠ [] :=
        fun hn => hnil.mp hn ha
      have hleaves : leaves es.own ≠ [] := by simpa [leaves] using ho
      simpa [hsome, Token.joined_concat hleaves] using (leaves_reads ho).and (hread ha)

/-- The text of a line of written comparisons. -/
def lineText (line : List (Token Comparison)) : String :=
  String.ofList (line.flatMap (Token.chars Comparison.written))

theorem lineText_eq_empty_iff {line : List (Token Comparison)} : lineText line = "" ↔ line = [] := by
  rw [lineText, String.ofList_eq_empty_iff, List.flatMap_eq_nil_iff]
  constructor
  · intro h
    refine List.eq_nil_iff_forall_not_mem.mpr fun t ht => ?_
    exact Token.chars_ne_nil Comparison.written_ne_nil t (h t ht)
  · intro h
    simp [h]

theorem text_eq_empty_iff {c : Condition} : c.text = "" ↔ c.written = [] := lineText_eq_empty_iff

theorem boundFragments?_eq_none_iff {c : Condition} : c.boundFragments? = none ↔ c.bound = [] := by
  unfold boundFragments?
  simp

/-- The predicate of a well-formed mapping, with AND before OR: it is there exactly when some level
has an entry of its own, and then it has one reading, which means the mapping. -/
theorem text_means {es : Entries} (h : es.WellFormed) :
    ∃ c, ofEntries es = .ok c ∧
      c.text = String.ofList (c.written.flatMap (Token.chars Comparison.written)) ∧
      (c.text = "" ↔ ¬ es.Asks) ∧
      (c.text ≠ "" → ∃ f, Formula.IsReading c.written f ∧ ∀ v, f.Holds v ↔ es.Holds v) := by
  have hs := says_written h
  refine ⟨tree es, ofEntries_ok_iff.mpr ⟨h, rfl⟩, rfl, text_eq_empty_iff.trans hs.eq_nil_iff, ?_⟩
  intro hne
  have ha : es.Asks := not_not.mp fun hn => hne (text_eq_empty_iff.mpr (hs.nil hn))
  obtain ⟨f, hf, hv⟩ := hs.reads ha
  exact ⟨f, Formula.isReading_of_tokens hf, hv⟩

/-- A mapping with an entry of its own, a member that holds only members, and an empty member. -/
def nested : Entries :=
  [("active", .bool true),
    ("or", .list [.map [("or", .tuple [.map [("a >", .int 1)], .map [("b", .null)]])], .map []])]

example : (ofEntries nested).toOption.map text =
    some "active = 'true' AND (a > 1 OR b IS NULL)" := rfl

theorem text_means_nested :
    nested.WellFormed ∧ ∃ c, ofEntries nested = .ok c ∧
      c.text = String.ofList (c.written.flatMap (Token.chars Comparison.written)) ∧
      (c.text = "" ↔ ¬ nested.Asks) ∧
      (c.text ≠ "" → ∃ f, Formula.IsReading c.written f ∧ ∀ v, f.Holds v ↔ nested.Holds v) :=
  have h := wellFormed_of_isSome nested rfl
  ⟨h, text_means h⟩

/-- The two layouts of a well-formed mapping are empty together, and otherwise the reading of one
means what the reading of the other means. -/
theorem layouts_agree {es : Entries} (h : es.WellFormed) :
    ∃ c, ofEntries es = .ok c ∧ (c.text = "" ↔ c.boundFragments? = none) ∧
      (c.text ≠ "" → ∃ f g, Formula.IsReading c.written f ∧ Formula.IsReading c.bound g ∧
        c.text = String.ofList (f.tokens.flatMap (Token.chars Comparison.written)) ∧
        c.boundFragments? = some (g.tokens.flatMap (Token.fragments Comparison.bound)) ∧
        ∀ v, f.Holds v ↔ g.Holds v) := by
  have hw := says_written h
  have hb := (says_bound h).sole
  refine ⟨tree es, ofEntries_ok_iff.mpr ⟨h, rfl⟩, ?_, ?_⟩
  · rw [text_eq_empty_iff, boundFragments?_eq_none_iff, hw.eq_nil_iff, hb.eq_nil_iff]
  · intro hne
    have ha : es.Asks := not_not.mp fun hn => hne (text_eq_empty_iff.mpr (hw.nil hn))
    obtain ⟨f, hf, hfv⟩ := hw.reads ha
    obtain ⟨g, hg, hgv⟩ := hb.reads ha
    refine ⟨f, g, Formula.isReading_of_tokens hf, Formula.isReading_of_tokens hg, ?_, ?_, ?_⟩
    · rw [hf, text]
    · have hg' : (tree es).bound ≠ [] := hg ▸ g.tokens_ne_nil
      simp [boundFragments?, hg, hg']
    · intro v
      rw [hfv, hgv]

theorem layouts_agree_nested :
    nested.WellFormed ∧ ∃ c, ofEntries nested = .ok c ∧ (c.text = "" ↔ c.boundFragments? = none) ∧
      (c.text ≠ "" → ∃ f g, Formula.IsReading c.written f ∧ Formula.IsReading c.bound g ∧
        c.text = String.ofList (f.tokens.flatMap (Token.chars Comparison.written)) ∧
        c.boundFragments? = some (g.tokens.flatMap (Token.fragments Comparison.bound)) ∧
        ∀ v, f.Holds v ↔ g.Holds v) :=
  have h := wellFormed_of_isSome nested rfl
  ⟨h, layouts_agree h⟩

end Condition

end TableAccess
