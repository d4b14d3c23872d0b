import TableAccess.Proofs.Text.Doubled
import TableAccess.Proofs.Text.Listed

/-! Lists of quoted tokens. A token stands between double quotes and ends at the first of them that is not
doubled; tokens have commas between them and parentheses around them all. A lexer that knows nothing else
reads a text exactly if such a list stands at its start, and then it gives the tokens and what follows the
list (`readList_eq_some_iff`). -/

namespace TableAccess.Text

/-- Where a lexer stands in a list: in front of a token, in one, or behind a quote in one, which ends it
unless another quote follows. -/
inductive Spot where
  | before
  | inside
  | behind

/-- A character in front of the first of the tokens that are read. -/
def keep (c : Char) : List (List Char) × List Char → Option (List (List Char) × List Char)
  | (token :: tokens, rest) => some ((c :: token) :: tokens, rest)
  | ([], _) => none

/-- What is left of the token, the tokens behind it, and what follows the list. -/
def Spot.read : Spot → List Char → Option (List (List Char) × List Char)
  | _, [] => none
  | .before, c :: cs => if c = '"' then inside.read cs else none
  | .inside, c :: cs => if c = '"' then behind.read cs else (inside.read cs).bind (keep c)
  | .behind, c :: cs =>
    if c = '"' then (inside.read cs).bind (keep c)
    else if c = ',' then (before.read cs).map fun (tokens, rest) => ([] :: tokens, rest)
    else if c = ')' then some ([[]], cs)
    else none

/-- The tokens of a list in parentheses, and what follows the list. -/
def readList : List Char → Option (List (List Char) × List Char)
  | '(' :: cs => Spot.before.read cs
  | _ => none

/-- A text from inside the first token of a list on. -/
def unread (token : List Char) (tokens : List (List Char)) (rest : List Char) : List Char :=
  double '"' token ++ '"' :: others sqlName tokens rest

variable {c : Char} {cs token rest : List Char} {tokens : List (List Char)}

theorem sqlName_append_others (token : List Char) (tokens : List (List Char)) (rest : List Char) :
    sqlName token ++ others sqlName tokens rest = '"' :: unread token tokens rest := by
  simp [sqlName, unread]

theorem unread_nil (tokens : List (List Char)) (rest : List Char) :
    unread [] tokens rest = '"' :: others sqlName tokens rest := rfl

theorem unread_quote (token : List Char) (tokens : List (List Char)) (rest : List Char) :
    unread ('"' :: token) tokens rest = '"' :: '"' :: unread token tokens rest := by
  simp [unread, double]

theorem unread_cons (h : c ≠ '"') (token : List Char) (tokens : List (List Char)) (rest : List Char) :
    unread (c :: token) tokens rest = c :: unread token tokens rest := by
  simp [unread, double, h]

/-! ### What a list goes on with -/

theorem cons_eq_unread_iff (h : c ≠ '"') : c :: cs = unread token tokens rest ↔
    ∃ more, token = c :: more ∧ cs = unread more tokens rest := by
  rcases token with _ | ⟨d, more⟩
  · simp [unread_nil, h]
  · by_cases hd : d = '"'
    · simp [hd, unread_quote, h, Ne.symm h]
    · simp only [unread_cons hd, List.cons.injEq]
      grind

/-- Behind a quote in a token there is another one, or a comma and the next token, or the parenthesis. -/
theorem quote_cons_eq_unread_iff : '"' :: c :: cs = unread token tokens rest ↔
    (c = '"' ∧ ∃ more, token = c :: more ∧ cs = unread more tokens rest) ∨
    (c = ',' ∧ token = [] ∧ ∃ next more, tokens = next :: more ∧ cs = '"' :: unread next more rest) ∨
    (c = ')' ∧ token = [] ∧ tokens = [] ∧ cs = rest) := by
  rcases token with _ | ⟨d, more⟩
  · rcases tokens with _ | ⟨next, more⟩
    · simp [unread_nil, others_nil]
    · simp [unread_nil, others_cons, sqlName_append_others]
  · by_cases hd : d = '"'
    · simp only [hd, unread_quote, List.cons.injEq, true_and, reduceCtorEq, false_and, and_false, or_false]
      grind
    · simp only [unread_cons hd, List.cons.injEq, reduceCtorEq, false_and, and_false, or_false]
      grind

/-! ### The lexer -/

/-- What a lexer at a spot has in front of it, if `left` is the text from inside a token on. -/
def Spot.Faces (spot : Spot) (left cs : List Char) : Prop :=
  match spot with
  | .before => cs = '"' :: left
  | .inside => cs = left
  | .behind => '"' :: cs = left

theorem keep_eq_some_iff {read : Option (List (List Char) × List Char)} :
    read.bind (keep c) = some (token :: tokens, rest) ↔
      ∃ more, token = c :: more ∧ read = some (more :: tokens, rest) := by
  rcases read with _ | ⟨_ | ⟨first, found⟩, behind⟩ <;> simp [keep]
  grind

theorem Spot.read_ne_nil {spot : Spot} : spot.read cs ≠ some ([], rest) := by
  have hkeep {c : Char} {read : Option (List (List Char) × List Char)} :
      read.bind (keep c) ≠ some ([], rest) := by
    rcases read with _ | ⟨_ | _, _⟩ <;> simp [keep]
  induction cs generalizing spot with
  | nil => cases spot <;> simp [read]
  | cons c cs ih => cases spot <;> simp only [read] <;> split_ifs <;> simp [ih, hkeep]

theorem Spot.read_iff {spot : Spot} : spot.read cs = some (token :: tokens, rest) ↔
    spot.Faces (unread token tokens rest) cs := by
  induction cs generalizing spot token tokens with
  | nil =>
    have hlength : 2 ≤ (unread token tokens rest).length := by
      have := length_lt_others sqlName tokens rest
      simp only [unread, List.length_append, List.length_cons]
      omega
    refine iff_of_false (by cases spot <;> simp [read]) fun h => ?_
    cases spot <;> simp only [Faces] at h <;> have hshort := congrArg List.length h <;>
      simp only [List.length_nil, List.length_cons] at hshort <;> omega
  | cons c cs ih =>
    cases spot with
    | before => by_cases hc : c = '"' <;> simp [read, hc, ih, Faces]
    | inside =>
      by_cases hc : c = '"'
      · simp [read, hc, ih, Faces]
      · rw [read, if_neg hc, keep_eq_some_iff]
        simp only [ih, Faces, cons_eq_unread_iff hc]
    | behind =>
      simp only [Faces, quote_cons_eq_unread_iff]
      unfold read
      split_ifs with hquote hcomma hclosing
      · simp [keep_eq_some_iff, ih, Faces, hquote]
      · rcases tokens with _ | ⟨next, more⟩
        · simp [hcomma, read_ne_nil]
        · simpa [hcomma, ih, Faces] using and_comm
      · simpa [hclosing] using and_assoc
      · simp [hquote, hcomma, hclosing]

/-- The lexer reads lists of quoted tokens and nothing else. -/
theorem readList_eq_some_iff : readList cs = some (tokens, rest) ↔
    tokens ≠ [] ∧ cs = inParentheses sqlName tokens ++ rest := by
  rcases tokens with _ | ⟨token, tokens⟩
  · unfold readList
    split <;> simp [Spot.read_ne_nil]
  · rw [inParentheses_append, sqlName_append_others]
    unfold readList
    split
    · simp [Spot.read_iff, Spot.Faces]
    next hopening =>
      simp only [reduceCtorEq, false_iff, not_and]
      exact fun _ h => hopening _ h

end TableAccess.Text
