import Mathlib.Data.List.Basic
import TableAccess.Comparison
import TableAccess.Proofs.Text.Tokens

/-! Texts in a written membership test. They stand in parentheses as JSON strings, and a lexer takes those
for double-quoted tokens. The two agree on texts without a quote. JSON writes a quote with a backslash in
front of it and SQL doubles it, so the lexer's token ends there, and it does not get back into step with the
strings before the list is over (`unread_ne_others`). The list is read as one token for each text exactly if
no text has a quote (`listed_texts_read_iff`). -/

namespace TableAccess

namespace Text

theorem quote_notMem_hex (width n : Nat) : '"' ∉ hex width n := by
  have hdigit : ∀ d < 16, Nat.digitChar d ≠ '"' := by decide
  induction width generalizing n with
  | zero => exact List.not_mem_nil
  | succ width ih =>
    rw [hex, List.mem_append, List.mem_singleton, not_or]
    exact ⟨ih _, Ne.symm (hdigit (n % 16) (by omega))⟩

/-- A character of a JSON string is written as itself or behind a backslash, and only a quote with one. -/
theorem jsonChar_cases (c : Char) : (c ≠ '"' ∧ jsonChar c = [c]) ∨
    ∃ cs, jsonChar c = '\\' :: cs ∧ (c ≠ '"' → '"' ∉ cs) := by
  have hletter {d : Char} (h : '"' ≠ d) : '"' ∉ [d] := fun hd => h (List.mem_singleton.mp hd)
  have hunit (n : Nat) : '"' ∉ 'u' :: hex 4 n :=
    List.not_mem_cons_of_ne_of_not_mem (by decide) (quote_notMem_hex 4 n)
  unfold jsonChar
  split_ifs with hquote
  · exact .inr ⟨_, rfl, fun h => hletter (Ne.symm h)⟩
  iterate 5 exact .inr ⟨_, rfl, fun _ => hletter (by decide)⟩
  · exact .inl ⟨fun h => hquote (.inl h), rfl⟩
  · exact .inr ⟨_, rfl, fun _ => hunit _⟩
  · refine .inr ⟨_, rfl, fun _ => ?_⟩
    exact List.not_mem_append (hunit _) (List.not_mem_cons_of_ne_of_not_mem (by decide) (hunit _))

theorem quote_notMem_jsonChar {c : Char} (h : c ≠ '"') : '"' ∉ jsonChar c := by
  obtain ⟨-, hjson⟩ | ⟨cs, hjson, hcs⟩ := jsonChar_cases c <;> rw [hjson]
  · exact fun hc => h (List.mem_singleton.mp hc).symm
  · exact List.not_mem_cons_of_ne_of_not_mem (by decide) (hcs h)

/-- A text from inside the first string of a list on. -/
def unreadString (cs : List Char) (items : List (List Char)) (rest : List Char) : List Char :=
  cs.flatMap jsonChar ++ '"' :: others jsonString items rest

variable {c : Char} {xs cs token rest : List Char} {tokens items : List (List Char)}

theorem jsonString_append_others (cs : List Char) (items : List (List Char)) (rest : List Char) :
    jsonString cs ++ others jsonString items rest = '"' :: unreadString cs items rest := by
  simp [jsonString, unreadString]

theorem unreadString_nil (items : List (List Char)) (rest : List Char) :
    unreadString [] items rest = '"' :: others jsonString items rest := rfl

theorem unreadString_cons (c : Char) (cs : List Char) (items : List (List Char)) (rest : List Char) :
    unreadString (c :: cs) items rest = jsonChar c ++ unreadString cs items rest := by
  simp [unreadString]

/-- A quote that is not behind a backslash ends a string. -/
theorem of_quote_eq_unreadString (h : '"' :: xs = unreadString cs items rest) :
    cs = [] ∧ xs = others jsonString items rest := by
  cases cs with
  | nil => exact ⟨rfl, (List.cons.inj h).2⟩
  | cons c cs =>
    rw [unreadString_cons] at h
    obtain ⟨hc, hjson⟩ | ⟨ds, hjson, -⟩ := jsonChar_cases c
    · rw [hjson] at h
      exact absurd (List.cons.inj h).1.symm hc
    · rw [hjson] at h
      simp at h

theorem of_comma_eq_unreadString (h : ',' :: xs = unreadString cs items rest) :
    ∃ more, cs = ',' :: more ∧ xs = unreadString more items rest := by
  cases cs with
  | nil => simp [unreadString_nil] at h
  | cons c cs =>
    rw [unreadString_cons] at h
    obtain ⟨-, hjson⟩ | ⟨ds, hjson, -⟩ := jsonChar_cases c
    · rw [hjson] at h
      obtain ⟨rfl, hcs⟩ := List.cons.inj h
      exact ⟨cs, rfl, hcs⟩
    · rw [hjson] at h
      simp at h

theorem others_ne_quote_cons (write : List Char → List Char) :
    others write items rest ≠ '"' :: xs := by
  cases items <;> simp [others_nil, others_cons]

/-! ### Tokens astray -/

/-- Where a token meets a quote that the string goes on behind, the lexer comes to the end of the string
inside a token. -/
theorem inside_of_quote_eq (h : unread token tokens rest = '"' :: unreadString cs items rest) :
    ∃ token tokens, unread token tokens rest = others jsonString items rest := by
  have hlength := length_lt_others jsonString items rest
  rcases token with _ | ⟨c, token⟩
  · rw [unread_nil, List.cons.injEq] at h
    rcases tokens with _ | ⟨next, more⟩
    · have hshort := congrArg List.length h.2
      simp only [others_nil, unreadString, List.length_append, List.length_cons] at hshort
      omega
    · rw [others_cons, sqlName_append_others] at h
      obtain ⟨cs, rfl, hbehind⟩ := of_comma_eq_unreadString h.2
      exact ⟨next, more, (of_quote_eq_unreadString hbehind).2⟩
  · by_cases hc : c = '"'
    · rw [hc, unread_quote, List.cons.injEq] at h
      exact ⟨token, tokens, (of_quote_eq_unreadString h.2).2⟩
    · rw [unread_cons hc, List.cons.injEq] at h
      exact absurd h.1 hc

/-- A lexer that comes to the end of a string inside a token does not get back into step. -/
theorem unread_ne_others : unread token tokens rest ≠ others jsonString items rest := by
  intro h
  induction items generalizing token tokens with
  | nil =>
    have hshort := congrArg List.length h
    have hlength := length_lt_others sqlName tokens rest
    simp only [unread, others_nil, List.length_append, List.length_cons] at hshort
    omega
  | cons item items ih =>
    rw [others_cons, jsonString_append_others] at h
    obtain ⟨more, -, h⟩ := (cons_eq_unread_iff (by decide)).mp h.symm
    obtain ⟨token, tokens, h⟩ := inside_of_quote_eq h.symm
    exact ih h

/-! ### Tokens in step -/

theorem unread_eq_append {ds : List Char} (h : '"' ∉ ds) (heq : unread token tokens rest = ds ++ xs) :
    ∃ more, token = ds ++ more ∧ unread more tokens rest = xs := by
  induction ds generalizing token with
  | nil => exact ⟨token, rfl, heq⟩
  | cons d ds ih =>
    obtain ⟨hd, hds⟩ := List.ne_and_not_mem_of_not_mem_cons h
    obtain ⟨behind, rfl, hbehind⟩ := (cons_eq_unread_iff (Ne.symm hd)).mp heq.symm
    obtain ⟨more, rfl, hmore⟩ := ih hds hbehind.symm
    exact ⟨more, rfl, hmore⟩

/-- A token that is read along with a string is its escaped text, and the string has no quote. -/
theorem of_unread_eq_unreadString (h : unread token tokens rest = unreadString cs items rest) :
    ('"' ∉ cs ∧ token = cs.flatMap jsonChar) ∧
      others sqlName tokens rest = others jsonString items rest := by
  induction cs generalizing token with
  | nil =>
    rw [unreadString_nil] at h
    rcases token with _ | ⟨c, token⟩
    · exact ⟨⟨List.not_mem_nil, rfl⟩, (List.cons.inj h).2⟩
    · by_cases hc : c = '"'
      · rw [hc, unread_quote] at h
        exact absurd (List.cons.inj h).2.symm (others_ne_quote_cons _)
      · rw [unread_cons hc] at h
        exact absurd (List.cons.inj h).1 hc
  | cons c cs ih =>
    rw [unreadString_cons] at h
    by_cases hc : c = '"'
    · subst hc
      -- the token takes the backslash and meets the quote, which the string goes on behind
      have hbackslash : '"' ∉ ['\\'] := by decide
      obtain ⟨more, -, hbehind⟩ := unread_eq_append hbackslash h
      obtain ⟨token, tokens, hastray⟩ := inside_of_quote_eq hbehind
      exact absurd hastray unread_ne_others
    · obtain ⟨more, rfl, hbehind⟩ := unread_eq_append (quote_notMem_jsonChar hc) h
      obtain ⟨⟨hcs, rfl⟩, hothers⟩ := ih hbehind
      exact ⟨⟨by simp [hcs, Ne.symm hc], by simp⟩, hothers⟩

/-- Lists of tokens and of strings that are alike have the same items. -/
theorem of_others_eq (h : others sqlName tokens rest = others jsonString items rest) :
    (∀ item ∈ items, '"' ∉ item) ∧ tokens = items.map (List.flatMap jsonChar) := by
  induction items generalizing tokens with
  | nil =>
    rcases tokens with _ | ⟨token, tokens⟩
    · simp
    · simp [others_nil, others_cons] at h
  | cons item items ih =>
    rcases tokens with _ | ⟨token, tokens⟩
    · simp [others_nil, others_cons] at h
    · rw [others_cons, others_cons, sqlName_append_others, jsonString_append_others] at h
      obtain ⟨⟨hitem, rfl⟩, hothers⟩ :=
        of_unread_eq_unreadString (List.cons.inj (List.cons.inj h).2).2
      obtain ⟨hitems, rfl⟩ := ih hothers
      exact ⟨List.forall_mem_cons.mpr ⟨hitem, hitems⟩, rfl⟩

/-- Without a quote, a JSON string is the token of its escaped text. -/
theorem inParentheses_jsonString (h : ∀ item ∈ items, '"' ∉ item) :
    inParentheses jsonString items = inParentheses sqlName (items.map (List.flatMap jsonChar)) := by
  have hwrite : ∀ item ∈ items, jsonString item = sqlName (item.flatMap jsonChar) := by
    intro item hitem
    have hescaped : '"' ∉ item.flatMap jsonChar := by
      simp only [List.mem_flatMap, not_exists, not_and]
      exact fun c hc => quote_notMem_jsonChar fun heq => h item hitem (heq ▸ hc)
    rw [sqlName, double_eq_self_iff.mpr hescaped, jsonString]
  cases items with
  | nil => rfl
  | cons item items =>
    obtain ⟨hitem, hitems⟩ := List.forall_mem_cons.mp hwrite
    have hothers : items.flatMap (fun item => ',' :: jsonString item) =
        items.flatMap (fun item => ',' :: sqlName (item.flatMap jsonChar)) :=
      List.flatMap_congr fun item h => congrArg _ (hitems item h)
    rw [List.map_cons, inParentheses, inParentheses, hitem, others, others, List.flatMap_map, hothers]

/-- A list of JSON strings is read as tokens, up to its own end, exactly if no string has a quote. -/
theorem readList_jsonStrings (hne : items ≠ []) :
    (∃ tokens, readList (inParentheses jsonString items ++ rest) = some (tokens, rest) ∧
      tokens.length = items.length) ↔ ∀ item ∈ items, '"' ∉ item := by
  constructor
  · rintro ⟨tokens, hread, -⟩
    obtain ⟨hsome, htext⟩ := readList_eq_some_iff.mp hread
    obtain ⟨item, items, rfl⟩ := List.exists_cons_of_ne_nil hne
    obtain ⟨token, tokens, rfl⟩ := List.exists_cons_of_ne_nil hsome
    exact (of_others_eq (others_eq_of_inParentheses htext.symm)).1
  · intro h
    refine ⟨items.map (List.flatMap jsonChar), readList_eq_some_iff.mpr ⟨?_, ?_⟩, List.length_map _⟩
    · exact fun hnil => hne (List.map_eq_nil_iff.mp hnil)
    · rw [inParentheses_jsonString h]

end Text

namespace Value

variable {v : Value} {xs : List Value}

theorem toJson_items (h : v.items? = some xs) : v.toJson = '[' :: jsonItems .compact xs ++ [']'] := by
  cases v <;> cases h <;> rw [toJson, jsonText]

theorem members_items (h : v.items? = some xs) : v.members = '(' :: jsonItems .compact xs ++ [')'] := by
  have hends : v.toJson.head? = some '[' ∧ v.toJson.getLast? = some ']' := by
    rw [toJson_items h]
    exact ⟨rfl, List.getLast?_concat ..⟩
  have hinside : (v.toJson.drop 1).dropLast = jsonItems .compact xs := by
    rw [toJson_items h]
    exact List.dropLast_concat
  rw [members, dropBrackets, if_pos hends, hinside]

/-- Texts as the items of a list stand in parentheses, each of them a JSON string. -/
theorem members_texts {names : List String} (h : v.items? = some (names.map .text)) (hne : names ≠ []) :
    v.members = Text.inParentheses Text.jsonString (names.map String.toList) := by
  have hitems : ∀ name others, jsonItems .compact ((name :: others).map .text) ++ [')'] =
      Text.jsonString name.toList ++ Text.others Text.jsonString (others.map String.toList) [] := by
    intro name others
    induction others generalizing name with
    | nil => rfl
    | cons next others ih =>
      have hmore : Text.others Text.jsonString ((next :: others).map String.toList) [] = ',' ::
          (Text.jsonString next.toList ++ Text.others Text.jsonString (others.map String.toList) []) :=
        Text.others_cons ..
      rw [hmore, ← ih next]
      simp [jsonItems, jsonText, JsonStyle.compact]
  obtain ⟨name, others, rfl⟩ := List.exists_cons_of_ne_nil hne
  rw [members_items h, List.cons_append, hitems, List.map_cons, Text.inParentheses, List.cons_append]

end Value

namespace Comparison

theorem written_membership {c : Comparison} {negated : Bool}
    (h : c.operator = if negated then .notIn else .isIn)
    {xs : List Value} (hitems : c.value.items? = some xs) (hne : xs ≠ []) :
    c.written = c.field.toList ++ (if negated then " NOT IN " else " IN ").toList ++ c.value.members := by
  have hsome : c.value.isEmptySequence = false := by simp [Value.isEmptySequence, hitems, hne]
  unfold written
  cases negated <;> rw [h] <;> simp only [membership, hsome] <;> rfl

/-- A list of texts is written as tokens in parentheses, one for each text and with no parenthesis in front
of the one that closes the list, exactly if no text has a quote: with JSON's backslash in front of it, the
quote ends the token. -/
theorem listed_texts_read_iff {key : String} {v : Value} {names : List String} {negated : Bool}
    (hitems : v.items? = some (names.map .text)) (hne : names ≠ [])
    (hoperator : (ofEntry (key, v)).operator = if negated then .notIn else .isIn) :
    (ofEntry (key, v)).written = (ofEntry (key, v)).field.toList ++
        (if negated then " NOT IN " else " IN ").toList ++ v.members ∧
      ∀ after, (∃ tokens, Text.readList (v.members ++ after) = some (tokens, after) ∧
        tokens.length = names.length) ↔ ∀ name ∈ names, '"' ∉ name.toList := by
  have hmap : names.map Value.text ≠ [] := fun h => hne (List.map_eq_nil_iff.mp h)
  refine ⟨written_membership hoperator hitems hmap, fun after => ?_⟩
  have hlists : names.map String.toList ≠ [] := fun h => hne (List.map_eq_nil_iff.mp h)
  have hlength : names.length = (names.map String.toList).length := (List.length_map _).symm
  rw [Value.members_texts hitems hne, hlength, Text.readList_jsonStrings hlists, List.forall_mem_map]

/-- Apostrophes, parentheses, commas and backslashes do no harm. -/
theorem listed_texts_read_unquoted :
    let v := Value.tuple [.text "it's", .text "", .text "), (", .text "c:\\"]
    (ofEntry ("name not in", v)).written =
        "name NOT IN (\"it's\",\"\",\"), (\",\"c:\\\\\")".toList ∧
      ∃ tokens, Text.readList (v.members ++ " LIMIT 1".toList) = some (tokens, " LIMIT 1".toList) ∧
        tokens.length = 4 := by
  intro v
  have hoperator : (ofEntry ("name not in", v)).operator = .notIn := by decide +kernel
  obtain ⟨hwritten, hread⟩ := @listed_texts_read_iff "name not in" v ["it's", "", "), (", "c:\\"] true
    rfl (List.cons_ne_nil _ _) hoperator
  exact ⟨hwritten.trans (by decide +kernel), (hread " LIMIT 1".toList).mpr (by decide)⟩

/-- A parenthesis behind a quote closes the list, and what the text goes on with is a condition. -/
theorem listed_text_breaks_out :
    let v := Value.list [.text "x\") OR (1=1"]
    (ofEntry ("name IN", v)).operator = .isIn ∧
      (ofEntry ("name IN", v)).written = "name IN (\"x\\\") OR (1=1\")".toList ∧
      Text.readList v.members = some (["x\\".toList], " OR (1=1\")".toList) ∧
      ¬ ∃ tokens, Text.readList v.members = some (tokens, []) ∧ tokens.length = 1 := by
  intro v
  have hread : Text.readList v.members = some (["x\\".toList], " OR (1=1\")".toList) := by
    decide +kernel
  refine ⟨by decide +kernel, by decide +kernel, hread, ?_⟩
  rintro ⟨tokens, hwhole, -⟩
  exact absurd (hread.symm.trans hwhole) (by simp)

end Comparison

end TableAccess
