import TableAccess.Proofs.Condition.Levels
import TableAccess.Proofs.Predicate.Outline
import TableAccess.Proofs.Statement.Bound

/-! Reading the text of a bound predicate. A lexer knows words, quoted names with doubled quotes for
quotes in them, dots, parentheses and placeholders, and nothing of conditions. From the text of a
condition it gets back the line of the condition (`lex_bound`), so that no field, with whatever
characters in it, and no value adds or hides a word (`bound_text_shape`). -/

namespace TableAccess

inductive Lexeme where
  | word (s : String)
  | name (part : String)
  | dot
  | opening
  | closing
  | placeholder
  deriving DecidableEq, Repr

namespace Lexeme

/-- Where a lexer stands: between lexemes, in a word, in a name, or behind a quote in a name, which
ends the name unless another quote follows. What it has of a word or a name is kept. -/
inductive Mode where
  | between
  | word (cs : List Char)
  | name (cs : List Char)
  | quote (cs : List Char)

/-- Characters that end a word and begin none. -/
def isMark (c : Char) : Bool := Text.isBlank c || c == '(' || c == ')' || c == '.'

def ofMark (c : Char) : List Lexeme :=
  if c = '(' then [.opening] else if c = ')' then [.closing] else if c = '.' then [.dot] else []

def ofWord (cs : List Char) : Lexeme := if cs = ['%', 's'] then .placeholder else .word (String.ofList cs)

def ofName (cs : List Char) : Lexeme := .name (String.ofList cs)

/-- What a character is between lexemes. -/
def start (c : Char) : List Lexeme × Mode :=
  if c = '"' then ([], .name []) else if isMark c then (ofMark c, .between) else ([], .word [c])

def step : Mode → Char → List Lexeme × Mode
  | .between, c => start c
  | .word cs, c =>
    if c = '"' ∨ isMark c = true then (ofWord cs :: (start c).1, (start c).2)
    else ([], .word (cs ++ [c]))
  | .name cs, c => if c = '"' then ([], .quote cs) else ([], .name (cs ++ [c]))
  | .quote cs, c =>
    if c = '"' then ([], .name (cs ++ [c])) else (ofName cs :: (start c).1, (start c).2)

/-- What is left where a text ends. A name has to be closed. -/
def Mode.last : Mode → Option (List Lexeme)
  | .between => some []
  | .word cs => some [ofWord cs]
  | .name _ => none
  | .quote cs => some [ofName cs]

def run : Mode → List Char → Option (List Lexeme)
  | m, [] => m.last
  | m, c :: cs => (run (step m c).2 cs).map ((step m c).1 ++ ·)

def lex (cs : List Char) : Option (List Lexeme) := run .between cs

variable {m : Mode} {c : Char} {xs ys : List Char} {ls ls' : List Lexeme}

theorem ne_quote_of_isMark (h : isMark c = true) : c ≠ '"' := by
  rintro rfl
  contradiction

theorem run_mark (hm : m.last = some ls) (hc : isMark c = true) (cs : List Char) :
    run m (c :: cs) = (run .between (c :: cs)).map (ls ++ ·) := by
  have hq := ne_quote_of_isMark hc
  cases m with
  | between =>
    obtain rfl := Option.some.inj hm
    simp
  | word w =>
    obtain rfl := Option.some.inj hm
    simp [run, step, hc, Option.map_map, Function.comp_def]
  | name w => contradiction
  | quote w =>
    obtain rfl := Option.some.inj hm
    simp [run, step, hq, Option.map_map, Function.comp_def]

/-- A text is read apart from what follows, if this begins with a mark. -/
theorem run_append_mark (h : run m xs = some ls) (hc : isMark c = true) (cs : List Char) :
    run m (xs ++ c :: cs) = (run .between (c :: cs)).map (ls ++ ·) := by
  induction xs generalizing m ls with
  | nil => exact run_mark h hc cs
  | cons x xs ih =>
    obtain ⟨rest, hrest, rfl⟩ := Option.map_eq_some_iff.mp h
    show (run (step m x).2 (xs ++ c :: cs)).map _ = _
    rw [ih hrest, Option.map_map]
    simp [Function.comp_def]

/-- A text is read apart from what follows, if the text itself ends with a mark. -/
theorem run_mark_append (h : run m (xs ++ [c]) = some ls) (hc : isMark c = true) (cs : List Char) :
    run m (xs ++ c :: cs) = (run .between cs).map (ls ++ ·) := by
  induction xs generalizing m ls with
  | nil =>
    have hq := ne_quote_of_isMark hc
    cases m with
    | name w => simp [run, step, hq, Mode.last] at h
    | _ => simp_all [run, step, start, Mode.last]
  | cons x xs ih =>
    obtain ⟨rest, hrest, rfl⟩ := Option.map_eq_some_iff.mp h
    show (run (step m x).2 (xs ++ c :: cs)).map _ = _
    rw [ih hrest, Option.map_map]
    simp [Function.comp_def]

/-- A boundary between two texts: one ends or the other begins with a mark. -/
def Parted (xs ys : List Char) : Prop :=
  (∃ c, xs.getLast? = some c ∧ isMark c = true) ∨ ∃ c, ys.head? = some c ∧ isMark c = true

theorem lex_append (h : lex xs = some ls) (h' : lex ys = some ls') (parted : Parted xs ys) :
    lex (xs ++ ys) = some (ls ++ ls') := by
  obtain ⟨c, hlast, hc⟩ | ⟨c, hhead, hc⟩ := parted
  · obtain ⟨xs, rfl⟩ := List.getLast?_eq_some_iff.mp hlast
    rw [List.append_assoc]
    refine (run_mark_append h hc ys).trans ?_
    rw [← lex, h']
    rfl
  · obtain ⟨ys, rfl⟩ := List.head?_eq_some_iff.mp hhead
    refine (run_append_mark h hc ys).trans ?_
    rw [← lex, h']
    rfl

/-- Two texts around one that has marks at both ends. -/
theorem lex_between {zs : List Char} {ks : List Lexeme} {d : Char} (h : lex xs = some ls)
    (h' : lex zs = some ls') (between : lex ys = some ks) (hhead : ys.head? = some c)
    (hlast : ys.getLast? = some d) (hc : isMark c = true) (hd : isMark d = true) :
    lex (xs ++ (ys ++ zs)) = some (ls ++ (ks ++ ls')) := by
  have hrest := lex_append between h' (.inl ⟨d, hlast, hd⟩)
  exact lex_append h hrest (.inr ⟨c, by rw [List.head?_append, hhead]; rfl, hc⟩)

/-- Quotes are undone: in a name, two of them are one. -/
theorem run_name (kept cs : List Char) :
    run (.name kept) (Text.double '"' cs ++ ['"']) = some [ofName (kept ++ cs)] := by
  induction cs generalizing kept with
  | nil => simp [Text.double, run, step, Mode.last]
  | cons c cs ih =>
    have hrest := ih (kept ++ [c])
    rw [List.append_assoc, List.singleton_append] at hrest
    by_cases hc : c = '"'
    · subst hc
      simpa [Text.double, run, step] using hrest
    · simpa [Text.double, run, step, hc] using hrest

theorem lex_quotedName (part : String) : lex (Fragment.quotedName part) = some [.name part] := by
  show (run (.name []) (Text.double '"' part.toList ++ ['"'])).map ([] ++ ·) = _
  rw [run_name]
  simp [ofName]

/-- Names with dots between them. -/
def dotted : List String → List Lexeme
  | [] => []
  | [part] => [.name part]
  | part :: parts => .name part :: .dot :: dotted parts

theorem lex_dotted (parts : List String) :
    lex (Text.join ['.'] (parts.map Fragment.quotedName)) = some (dotted parts) := by
  match parts with
  | [] => rfl
  | [part] => exact lex_quotedName part
  | part :: next :: rest =>
    have ih := lex_dotted (next :: rest)
    have hdot : lex ('.' :: Text.join ['.'] ((next :: rest).map Fragment.quotedName)) =
        some (.dot :: dotted (next :: rest)) := by
      show (run .between (Text.join ['.'] ((next :: rest).map Fragment.quotedName))).map _ = _
      rw [← lex, ih]
      rfl
    show lex (Fragment.quotedName part ++ ['.'] ++
      Text.join ['.'] ((next :: rest).map Fragment.quotedName)) = _
    rw [List.append_assoc]
    exact lex_append (lex_quotedName part) hdot (.inr ⟨'.', rfl, rfl⟩)

end Lexeme

/-- The words of an operator in a bound predicate. -/
def Operator.words : Operator → List String
  | .gt => [">"]
  | .lt => ["<"]
  | .lte => ["<="]
  | .gte => [">="]
  | .notIn => ["NOT", "IN"]
  | .isNot => ["IS", "DISTINCT", "FROM"]
  | .isIn => ["IN"]
  | .like | .ilike => ["LIKE"]
  | .notLike | .notIlike => ["NOT", "LIKE"]
  | .similarTo => ["SIMILAR", "TO"]
  | .notSimilarTo => ["NOT", "SIMILAR", "TO"]
  | .eq => ["="]

namespace Comparison

open Lexeme

/-- The parts of the field, with the dots that separate them. -/
def fieldLexemes (c : Comparison) : List Lexeme :=
  dotted ((Text.split '.' c.field.toList).map String.ofList)

/-- What a bound comparison is written with: the parts of its field, the words of its operator, and a
placeholder; or a constant, or a test for null. -/
def lexemes (c : Comparison) : List Lexeme :=
  let words := c.operator.words.map Lexeme.word
  match c.operator, c.value.kind with
  | .isIn, .emptySequence => [.word "FALSE"]
  | .notIn, .emptySequence => [.word "TRUE"]
  | .eq, .null => c.fieldLexemes ++ [.word "IS", .word "NULL"]
  | .ilike, _ | .notIlike, _ =>
    [.word "LOWER", .opening] ++ c.fieldLexemes ++ [.closing] ++ words ++
      [.word "LOWER", .opening, .placeholder, .closing]
  | _, _ => c.fieldLexemes ++ words ++ [.placeholder]

variable (c : Comparison)

theorem lex_field : lex (Fragment.field c.field).chars = some c.fieldLexemes := lex_dotted _

/-- A field, words between blanks, and a placeholder. -/
theorem lex_simple {operator : String} {words : List Lexeme} (hwords : lex operator.toList = some words)
    (hhead : operator.toList.head? = some ' ') (hlast : operator.toList.getLast? = some ' ') (v : Value) :
    lex ((c.simple operator v).flatMap Fragment.chars) =
      some (c.fieldLexemes ++ words ++ [.placeholder]) := by
  have hmarker : lex ['%', 's'] = some [.placeholder] := by decide
  rw [chars_simple, List.append_assoc, List.append_assoc]
  exact lex_between c.lex_field hmarker hwords hhead hlast rfl rfl

/-- A field and a placeholder, each in a call. -/
theorem lex_boundFolded {operator : String} (words : List Lexeme)
    (hwords : lex operator.toList = some ([.closing] ++ words ++ [.word "LOWER", .opening]))
    (hhead : operator.toList.head? = some ')') (hlast : operator.toList.getLast? = some '(') :
    lex ((c.boundFolded operator).flatMap Fragment.chars) =
      some ([.word "LOWER", .opening] ++ c.fieldLexemes ++ [.closing] ++ words ++
        [.word "LOWER", .opening, .placeholder, .closing]) := by
  have hlower : lex "LOWER(".toList = some [.word "LOWER", .opening] := by decide
  have hmarker : lex "%s)".toList = some [.placeholder, .closing] := by decide
  have hfield := lex_between c.lex_field hmarker hwords hhead hlast rfl rfl
  have hcall := lex_append hlower hfield (.inl ⟨'(', rfl, rfl⟩)
  simpa [boundFolded, Fragment.chars] using hcall

theorem lex_boundMembership (negated : Bool) :
    lex ((c.boundMembership negated).flatMap Fragment.chars) =
      some (if c.value.kind = .emptySequence then [.word (if negated then "TRUE" else "FALSE")]
        else c.fieldLexemes ++ (if negated then [.word "NOT", .word "IN"] else [.word "IN"]) ++
          [.placeholder]) := by
  unfold boundMembership
  split
  next h =>
    rw [if_pos (Value.kind_eq_emptySequence_iff.mpr h)]
    cases negated <;> rfl
  next hne h =>
    have hk : c.value.kind ≠ .emptySequence := by
      simpa [Value.kind_eq_emptySequence_iff, h] using hne
    rw [if_neg hk]
    cases negated <;> exact c.lex_simple rfl rfl rfl _
  next h =>
    have hk : c.value.kind ≠ .emptySequence := by simp [Value.kind_eq_emptySequence_iff, h]
    rw [if_neg hk]
    cases negated <;> exact c.lex_simple rfl rfl rfl _

theorem lex_boundText : lex c.boundText = some c.lexemes := by
  unfold lexemes
  cases h : c.operator
  case isIn =>
    rw [boundText, bound, h, lex_boundMembership]
    cases c.value.kind <;> rfl
  case notIn =>
    rw [boundText, bound, h, lex_boundMembership]
    cases c.value.kind <;> rfl
  case ilike =>
    rw [boundText, bound, h]
    exact c.lex_boundFolded [.word "LIKE"] (by decide) rfl rfl
  case notIlike =>
    rw [boundText, bound, h]
    exact c.lex_boundFolded [.word "NOT", .word "LIKE"] (by decide) rfl rfl
  case eq =>
    rw [boundText_equality h]
    have hnull : lex ((Fragment.field c.field).chars ++ " IS NULL".toList) =
        some (c.fieldLexemes ++ [.word "IS", .word "NULL"]) :=
      lex_append c.lex_field (by decide) (.inr ⟨' ', rfl, rfl⟩)
    have hvalue : lex ((Fragment.field c.field).chars ++ " = %s".toList) =
        some (c.fieldLexemes ++ [.word "=", .placeholder]) :=
      lex_append c.lex_field (by decide) (.inr ⟨' ', rfl, rfl⟩)
    cases hk : c.value.kind
    case null => exact hnull
    all_goals simpa [Operator.words] using hvalue
  all_goals
    rw [boundText, bound, h]
    exact c.lex_simple (by decide) rfl rfl _

end Comparison

namespace Token

open Lexeme (lex)

/-- What a word of a predicate is written with. -/
def lexemes : Token Comparison → List Lexeme
  | .leaf c => c.lexemes
  | .and => [.word "AND"]
  | .or => [.word "OR"]
  | .opening => [.opening]
  | .closing => [.closing]

/-- A line is read back from its text. -/
def ReadBack (line : List (Token Comparison)) : Prop :=
  lex (line.flatMap (chars Comparison.boundText)) = some (line.flatMap lexemes)

variable {line other : List (Token Comparison)} {parts : List (List (Token Comparison))}

theorem ReadBack.nil : ReadBack [] := rfl

theorem ReadBack.leaf (c : Comparison) : ReadBack [.leaf c] := by
  simpa [ReadBack, chars, lexemes] using c.lex_boundText

theorem ReadBack.enclosed (h : ReadBack line) : ReadBack (enclosed line) := by
  have hopening : lex ['('] = some [.opening] := by decide
  have hclosing : lex [')'] = some [.closing] := by decide
  have hinside := Lexeme.lex_append hopening (Lexeme.lex_append h hclosing (.inr ⟨')', rfl, rfl⟩))
    (.inl ⟨'(', rfl, rfl⟩)
  simpa [ReadBack, Token.enclosed, chars, lexemes] using hinside

theorem ReadBack.and (h : ReadBack line) (h' : ReadBack other) : ReadBack (line ++ .and :: other) := by
  have hand : lex " AND ".toList = some [.word "AND"] := by decide
  have hboth := Lexeme.lex_between h h' hand rfl rfl rfl rfl
  simpa [ReadBack, chars, lexemes] using hboth

theorem ReadBack.or (h : ReadBack line) (h' : ReadBack other) : ReadBack (line ++ .or :: other) := by
  have hor : lex " OR ".toList = some [.word "OR"] := by decide
  have hboth := Lexeme.lex_between h h' hor rfl rfl rfl rfl
  simpa [ReadBack, chars, lexemes] using hboth

theorem ReadBack.joined {connective : Token Comparison}
    (hc : ∀ line other, ReadBack line → ReadBack other → ReadBack (line ++ connective :: other))
    (parts : List (List (Token Comparison))) (h : ∀ part ∈ parts, ReadBack part) :
    ReadBack (joined connective parts) := by
  match parts with
  | [] => exact .nil
  | [part] => exact h part (by simp)
  | part :: next :: rest =>
    have ih := ReadBack.joined hc (next :: rest) fun p hp => h p (List.mem_cons_of_mem _ hp)
    exact hc _ _ (h part (by simp)) ih

theorem ReadBack.level {own alternatives : List (List (Token Comparison))}
    (hown : ∀ part ∈ own, ReadBack part) (halternatives : ∀ part ∈ alternatives, ReadBack part) :
    ReadBack (level own alternatives) := by
  have hmembers : ∀ part ∈ (present alternatives).map Token.enclosed, ReadBack part := by
    rw [List.forall_mem_map]
    exact fun part hp => (halternatives part (List.mem_of_mem_filter hp)).enclosed
  have hdisjunction : ReadBack
      (Token.enclosed (Token.joined .or ((present alternatives).map Token.enclosed))) :=
    (ReadBack.joined (fun _ _ => .or) _ hmembers).enclosed
  refine .joined (fun _ _ => .and) _ ?_
  rw [List.forall_mem_append]
  refine ⟨hown, ?_⟩
  split
  · simp
  · simpa using hdisjunction

end Token

namespace Condition

mutual
theorem lex_bound : (c : Condition) → Token.ReadBack c.bound
  | .node own alternatives => by
    rw [bound_node, ← boundAll_eq]
    refine .level ?_ (lex_boundAll alternatives)
    rw [leaves, List.forall_mem_map]
    exact fun e _ => .leaf (Comparison.ofEntry e)

theorem lex_boundAll : (cs : List Condition) → ∀ part ∈ boundAll cs, Token.ReadBack part
  | [] => by simp [boundAll]
  | c :: cs => by
    rw [boundAll, List.forall_mem_cons]
    exact ⟨lex_bound c, lex_boundAll cs⟩
end

/-- Neither values nor names change the shape of a bound predicate. Its text depends on the keys and
the kinds of the values only; and it is read back, whatever characters are in the fields, as the words,
parentheses and placeholders of its comparisons with the parts of their fields. -/
theorem bound_text_shape :
    (∀ es fs : Entries, es.Alike fs → (ofEntries es).map boundText? = (ofEntries fs).map boundText?) ∧
    ∀ (es : Entries) (c : Condition) (text : String),
      ofEntries es = .ok c → c.boundText? = some text →
        Lexeme.lex text.toList = some (c.bound.flatMap Token.lexemes) ∧
          Token.leaves c.bound = es.flat.map .ofEntry := by
  refine ⟨fun es fs h => boundText_alike h, fun es c text hc htext => ⟨?_, ?_⟩⟩
  · rw [boundText?_eq] at htext
    split at htext
    · contradiction
    · obtain rfl := Option.some.inj htext
      rw [String.toList_ofList]
      exact lex_bound c
  · obtain ⟨wellFormed, rfl⟩ := ofEntries_ok_iff.mp hc
    rw [leaves_bound, comparisons_tree wellFormed]

/-- Two searches with other values under the same keys, one of which has quotes and words in it. -/
theorem bound_text_shape_quoted :
    let es : Entries := [("a\"b.c >", .int 1),
      ("or", .list [.map [("d\" OR 1=1 --", .list [.int 2])], .map [("e", .null)]])]
    let fs : Entries := [("a\"b.c >", .text "\" OR TRUE --"),
      ("or", .tuple [.map [("d\" OR 1=1 --", .tuple [.text "x", .null])], .map [("e", .null)]])]
    (ofEntries es).map boundText? = (ofEntries fs).map boundText? ∧
      ∃ c, ofEntries es = .ok c ∧
        c.boundText? = some ("\"a\"\"b\".\"c\" > %s AND " ++
          "((\"d\"\" OR 1=1 --\" IN %s) OR (\"e\" IS NULL))") ∧
        c.bound.flatMap Token.lexemes = [.name "a\"b", .dot, .name "c", .word ">", .placeholder,
          .word "AND", .opening, .opening, .name "d\" OR 1=1 --", .word "IN", .placeholder, .closing,
          .word "OR", .opening, .name "e", .word "IS", .word "NULL", .closing, .closing] ∧
        ∀ text, c.boundText? = some text →
          Lexeme.lex text.toList = some (c.bound.flatMap Token.lexemes) := by
  intro es fs
  have halike : es.Alike fs :=
    .entry (by decide) rfl (.alternatives (.sequences rfl rfl
      (.mapping (.entry (by decide) rfl .nil) (.mapping (.entry (by decide) rfl .nil) .nil))) .nil)
  refine ⟨bound_text_shape.1 es fs halike, _, rfl, by decide +kernel, by decide +kernel, ?_⟩
  exact fun text htext => (bound_text_shape.2 es _ text rfl htext).1

end Condition

end TableAccess
