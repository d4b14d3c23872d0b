import Mathlib.Data.List.Chain
import TableAccess.Proofs.Statement.Pieces
import TableAccess.Proofs.Text.Constants

/-! String constants in a written predicate. A comparison that writes its value as a constant writes it
between two texts that depend on the operator and the field only (`Comparison.written_eq`). The constant
is read back as one constant with the text of the value wherever the comparison stands behind a balanced
text (`Comparison.lex_written`). No comparison of a predicate stands directly behind another, so a
predicate is read word by word (`Condition.lex_text`). -/

namespace TableAccess

open Text (lex Balanced Piece)

/-- What an operator writes in front of a field, between it and a constant, and behind the constant. -/
structure Operator.Frame where
  opening : String
  middle : String
  closing : String

namespace Operator

/-- The operators that write a value as a string constant. -/
def frame? : Operator → Option Frame
  | .eq => some ⟨"", " = ", ""⟩
  | .like => some ⟨"", " LIKE ", ""⟩
  | .notLike => some ⟨"", " NOT LIKE ", ""⟩
  | .ilike => some ⟨"LOWER(", ") LIKE LOWER(", ")"⟩
  | .notIlike => some ⟨"LOWER(", ") NOT LIKE LOWER(", ")"⟩
  | .similarTo => some ⟨"", " SIMILAR TO ", ""⟩
  | .notSimilarTo => some ⟨"", " NOT SIMILAR TO ", ""⟩
  | _ => none

def Frame.front (w : Frame) (field : String) : List Char :=
  w.opening.toList ++ field.toList ++ w.middle.toList

/-- No quote of a statement is an operator's, and a constant does not follow its field at once. -/
structure Frame.Plain (w : Frame) : Prop where
  opening : '\'' ∉ w.opening.toList
  middle : '\'' ∉ w.middle.toList
  closing : '\'' ∉ w.closing.toList
  parted : w.middle.toList ≠ []

theorem plain_of_frame? {op : Operator} {w : Frame} (h : op.frame? = some w) : w.Plain := by
  cases op <;> simp only [frame?, reduceCtorEq, Option.some.injEq] at h <;> subst h <;>
    exact ⟨by decide, by decide, by decide, by decide⟩

theorem Frame.Plain.balanced_front {w : Frame} (plain : w.Plain) {field : String}
    (h : Balanced field.toList) : Balanced (w.front field) :=
  ((Text.balanced_of_notMem plain.opening).append h).append (Text.balanced_of_notMem plain.middle)

theorem Frame.Plain.getLast?_front {w : Frame} (plain : w.Plain) (before : List Char)
    (field : String) : (before ++ w.front field).getLast? ≠ some '\'' := by
  rw [front, ← List.append_assoc, List.getLast?_append_of_ne_nil _ plain.parted]
  exact Text.getLast?_ne_quote plain.middle

end Operator

namespace Comparison

variable {c : Comparison} {w : Operator.Frame}

theorem folded_eq (field : List Char) {operator middle : String} (v : Value)
    (h : middle.toList = ") ".toList ++ (operator.toList ++ " LOWER(".toList)) :
    folded field operator v =
      "LOWER(".toList ++ field ++ middle.toList ++ v.constant ++ ")".toList := by
  have hclosing : ")".toList = [')'] := rfl
  unfold folded
  rw [h, hclosing]
  simp only [List.append_assoc]

theorem written_eq (h : c.operator.frame? = some w) (given : c.operator = .eq → ¬ c.value.isNull) :
    c.written = w.front c.field ++ c.value.constant ++ w.closing.toList := by
  obtain ⟨op, field, value⟩ := c
  cases op <;> simp only [Operator.frame?, reduceCtorEq, Option.some.injEq] at h <;> subst h <;>
    simp only [written, Operator.Frame.front, String.toList_empty, List.nil_append, List.append_nil]
  case eq => rw [if_neg (given rfl)]
  case ilike => exact folded_eq _ _ (by decide)
  case notIlike => exact folded_eq _ _ (by decide)

/-- Wherever a comparison is written, its constant is read back as one constant. -/
theorem lex_written (h : c.operator.frame? = some w) (given : c.operator = .eq → ¬ c.value.isNull)
    (field : Balanced c.field.toList) {before after : List Char} (hbefore : Balanced before)
    (hafter : after.head? ≠ some '\'') :
    lex (before ++ c.written ++ after) =
      lex (before ++ w.front c.field) ++
        .constant c.value.bare :: lex (w.closing.toList ++ after) := by
  have plain := Operator.plain_of_frame? h
  have hback : (w.closing.toList ++ after).head? ≠ some '\'' := by
    by_cases hne : w.closing.toList = []
    · rwa [hne, List.nil_append]
    · exact Text.head?_append_ne_quote plain.closing hne after
  have hread := Text.lex_constant (hbefore.append (plain.balanced_front field))
    (plain.getLast?_front before c.field) hback c.value.bare
  rw [written_eq h given, ← hread]
  simp only [Value.constant, List.append_assoc]

end Comparison

namespace Token

variable {α : Type}

/-- No leaf directly behind another. -/
def Separated (line : List (Token α)) : Prop :=
  line.IsChain fun s t => s.leaf? = none ∨ t.leaf? = none

variable {line other : List (Token α)} {t : Token α}

theorem Separated.cons (ht : t.leaf? = none) (h : Separated line) : Separated (t :: line) :=
  List.isChain_cons.mpr ⟨fun _ _ => .inl ht, h⟩

theorem Separated.join (h : Separated line) (ht : t.leaf? = none) (h' : Separated other) :
    Separated (line ++ t :: other) := by
  refine List.isChain_append.mpr ⟨h, h'.cons ht, fun s _ u hu => .inr ?_⟩
  obtain rfl : t = u := by simpa using hu
  exact ht

theorem Separated.enclosed (h : Separated line) : Separated (enclosed line) :=
  (h.join rfl List.IsChain.nil).cons rfl

theorem Separated.joined {connective : Token α} (hc : connective.leaf? = none)
    (parts : List (List (Token α))) (h : ∀ part ∈ parts, Separated part) :
    Separated (joined connective parts) := by
  match parts with
  | [] => exact List.IsChain.nil
  | [part] => exact h part (by simp)
  | part :: next :: rest =>
    have ih := Separated.joined hc (next :: rest) fun p hp => h p (List.mem_cons_of_mem _ hp)
    exact (h part (by simp)).join hc ih

theorem Separated.beside (h : Separated line) (h' : Separated other) :
    Separated (beside line other) := by
  unfold Token.beside
  split
  · exact h'
  · split
    · exact h
    · exact h.join rfl h'.enclosed

end Token

namespace Condition

mutual
theorem separated_written : (c : Condition) → Token.Separated c.written
  | .node own alternatives => by
    rw [written]
    refine .beside (.joined rfl _ ?_) (.joined rfl _ ?_)
    · rw [leaves, List.forall_mem_map]
      exact fun e _ => List.isChain_singleton _
    · exact fun part hp => separated_writtenAll alternatives part (List.mem_of_mem_filter hp)

theorem separated_writtenAll : (cs : List Condition) → ∀ part ∈ writtenAll cs, Token.Separated part
  | [] => by simp [writtenAll]
  | c :: cs => by
    rw [writtenAll, List.forall_mem_cons]
    exact ⟨separated_written c, separated_writtenAll cs⟩
end

/-- A text that follows a leaf in a line of words begins with no quote. -/
theorem head?_behind_leaf {d : Comparison} {line : List (Token Comparison)}
    (h : Token.Separated (.leaf d :: line)) :
    (line.flatMap (Token.chars Comparison.written)).head? ≠ some '\'' := by
  cases line with
  | nil => simp
  | cons t line =>
    have ht : t.leaf? = none := by
      obtain hd | ht := (List.isChain_cons.mp h).1 t rfl
      · contradiction
      · exact ht
    rw [List.flatMap_cons]
    refine Text.head?_append_ne_quote ?_ ?_ _ <;> cases t <;> first | contradiction | decide

/-- A line of words is read word by word, if every comparison has its quotes in pairs. -/
theorem lex_line {line : List (Token Comparison)} (h : Token.Separated line)
    (balanced : ∀ d ∈ Token.leaves line, Balanced d.written) :
    lex (line.flatMap (Token.chars Comparison.written)) =
      line.flatMap fun t => lex (t.chars Comparison.written) := by
  induction line with
  | nil => rfl
  | cons t line ih =>
    have hrest := ih (List.isChain_cons.mp h).2 fun d hd =>
      balanced d (((List.sublist_cons_self t line).filterMap _).subset hd)
    rw [List.flatMap_cons, List.flatMap_cons, ← hrest]
    cases t with
    | leaf d =>
      have hd : Balanced d.written := balanced d (by simp [Token.leaves, Token.leaf?])
      exact Text.lex_append hd (.inr (head?_behind_leaf h))
    | and | or | opening | closing => exact Text.lex_append (by decide) (.inl (by decide))

theorem lex_text {c : Condition} (balanced : ∀ d ∈ c.comparisons, Balanced d.written) :
    lex c.text.toList = c.written.flatMap fun t => lex (t.chars Comparison.written) := by
  rw [text, String.toList_ofList]
  refine lex_line (separated_written c) ?_
  rwa [leaves_written]

end Condition

end TableAccess
