import Mathlib.Data.List.Basic

/-! Lists in parentheses, with commas between their items. Where two such lists are alike, the first item of
one is the first item of the other if neither has a mark in it that could end it (`append_others_inj`). -/

namespace TableAccess.Text

/-- What follows an item of a list: the other items, each behind a comma, the parenthesis that closes the
list, and the rest of the text. -/
def others (write : List Char → List Char) (items : List (List Char)) (rest : List Char) : List Char :=
  items.flatMap (fun item => ',' :: write item) ++ ')' :: rest

/-- A list in parentheses. -/
def inParentheses (write : List Char → List Char) : List (List Char) → List Char
  | [] => ['(', ')']
  | item :: items => '(' :: write item ++ others write items []

theorem inParentheses_append (write : List Char → List Char) (item : List Char)
    (items : List (List Char)) (rest : List Char) :
    inParentheses write (item :: items) ++ rest = '(' :: (write item ++ others write items rest) := by
  simp [inParentheses, others]

theorem others_nil (write : List Char → List Char) (rest : List Char) :
    others write [] rest = ')' :: rest := rfl

theorem others_cons (write : List Char → List Char) (item : List Char) (items : List (List Char))
    (rest : List Char) :
    others write (item :: items) rest = ',' :: (write item ++ others write items rest) := by
  simp [others]

theorem others_eq_of_inParentheses {write write' : List Char → List Char} {item item' : List Char}
    {items items' : List (List Char)} {rest rest' : List Char}
    (h : inParentheses write (item :: items) ++ rest = inParentheses write' (item' :: items') ++ rest') :
    others write (item :: items) rest = others write' (item' :: items') rest' := by
  rw [inParentheses_append, inParentheses_append] at h
  rw [others_cons, others_cons, (List.cons.inj h).2]

theorem length_lt_others (write : List Char → List Char) (items : List (List Char)) (rest : List Char) :
    rest.length < (others write items rest).length := by
  simp only [others, List.length_append, List.length_cons]
  omega

/-- What comes behind an item of a list. -/
def listMarks : List Char := [',', ')']

theorem others_eq_cons (write : List Char → List Char) (items : List (List Char)) (rest : List Char) :
    ∃ c ∈ listMarks, ∃ cs, others write items rest = c :: cs := by
  cases items with
  | nil => exact ⟨')', by decide, rest, others_nil ..⟩
  | cons item items => exact ⟨',', by decide, _, others_cons ..⟩

/-- The first of two lists that are alike is the same item if it has no marks in either. -/
theorem append_others_inj {write write' : List Char → List Char} {items items' : List (List Char)}
    {item item' rest rest' : List Char} (h : ∀ c ∈ item, c ∉ listMarks)
    (h' : ∀ c ∈ item', c ∉ listMarks)
    (heq : item ++ others write items rest = item' ++ others write' items' rest') :
    item = item' ∧ others write items rest = others write' items' rest' := by
  obtain ⟨c, hc, cs, hcs⟩ := others_eq_cons write items rest
  obtain ⟨d, hd, ds, hds⟩ := others_eq_cons write' items' rest'
  obtain ⟨_ | ⟨a, more⟩, hitem, htail⟩ | ⟨_ | ⟨a, more⟩, hitem, htail⟩ := List.append_eq_append_iff.mp heq
  · exact ⟨by simpa using hitem.symm, by simpa using htail⟩
  · rw [hcs] at htail
    obtain rfl := (List.cons.inj htail).1
    exact absurd hc (h' _ (by simp [hitem]))
  · exact ⟨by simpa using hitem, by simpa using htail.symm⟩
  · rw [hds] at htail
    obtain rfl := (List.cons.inj htail).1
    exact absurd hd (h _ (by simp [hitem]))

theorem inParentheses_intercalate (items : List (List Char)) :
    '(' :: [','].intercalate items ++ [')'] = inParentheses id items := by
  cases items with
  | nil => rfl
  | cons item items =>
    have hothers : [','].intercalate (item :: items) ++ [')'] = item ++ others id items [] := by
      induction items generalizing item with
      | nil => simp [others]
      | cons next items ih =>
        rw [others_cons, id, ← ih next]
        simp
    rw [List.cons_append, hothers, inParentheses, id, List.cons_append]

end TableAccess.Text
