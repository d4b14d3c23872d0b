import Mathlib.Algebra.Group.Nat.Even
import Mathlib.Data.List.Basic
import TableAccess.Text.Quoted

/-! String constants in an SQL text. A constant stands between single quotes, and a quote in it is written
twice. A lexer that knows nothing else takes a text apart into its constants and the characters outside
them. Behind an even number of quotes it is outside, so such a text is taken apart for itself unless a
quote stands on both sides of its end (`lex_append`), and a text that is written as a constant is read
back as this one constant (`lex_sqlString`). -/

namespace TableAccess.Text

/-- A part of an SQL text. A constant is kept with the text that it stands for. -/
inductive Piece where
  | outside (c : Char)
  | constant (text : List Char)
  | unfinished (text : List Char)
  deriving DecidableEq, Repr

/-- The piece without the text of a constant. -/
def Piece.blank : Piece → Piece
  | .outside c => .outside c
  | .constant _ => .constant []
  | .unfinished _ => .unfinished []

/-- Where a lexer stands: outside, in a constant, or behind a quote in a constant, which ends it unless
another quote follows. -/
inductive Standing where
  | outside
  | inside (text : List Char)
  | quote (text : List Char)

namespace Standing

def step : Standing → Char → List Piece × Standing
  | .outside, c => if c = '\'' then ([], .inside []) else ([.outside c], .outside)
  | .inside text, c => if c = '\'' then ([], .quote text) else ([], .inside (text ++ [c]))
  | .quote text, c =>
    if c = '\'' then ([], .inside (text ++ [c])) else ([.constant text, .outside c], .outside)

/-- What is left where a text ends. -/
def last : Standing → List Piece
  | .outside => []
  | .inside text => [.unfinished text]
  | .quote text => [.constant text]

def run : Standing → List Char → List Piece
  | m, [] => m.last
  | m, c :: cs => (m.step c).1 ++ run (m.step c).2 cs

/-- Where the lexer stands behind a text. -/
def after : Standing → List Char → Standing
  | m, [] => m
  | m, c :: cs => after (m.step c).2 cs

def isInside : Standing → Bool
  | .inside _ => true
  | _ => false

variable {m : Standing}

theorem isInside_step (m : Standing) (c : Char) :
    (m.step c).2.isInside = (if c = '\'' then !m.isInside else m.isInside) := by
  cases m <;> by_cases hc : c = '\'' <;> simp [step, isInside, hc]

/-- Every quote takes the lexer into a constant or out of it. -/
theorem isInside_after (m : Standing) (cs : List Char) :
    (m.after cs).isInside = true ↔ (m.isInside = true ↔ Even (cs.count '\'')) := by
  induction cs generalizing m with
  | nil => simp [after]
  | cons c cs ih =>
    rw [after, ih, isInside_step]
    by_cases hc : c = '\''
    · cases m.isInside <;> simp [hc, Nat.even_add_one]
    · rw [if_neg hc, List.count_cons_of_ne hc]

/-- A text is read apart from what follows where no constant is left open and no quote follows, or none
stands before. -/
theorem run_append {xs ys : List Char} (hm : (m.after xs).isInside = false)
    (h : (m.after xs) = .outside ∨ ys.head? ≠ some '\'') :
    run m (xs ++ ys) = run m xs ++ run .outside ys := by
  induction xs generalizing m with
  | nil =>
    cases m with
    | outside => rfl
    | inside text => contradiction
    | quote text =>
      cases ys with
      | nil => rfl
      | cons y ys =>
        have hy : y ≠ '\'' := by simpa [after] using h
        simp [run, step, last, hy]
  | cons x xs ih =>
    rw [List.cons_append, run, run, ih hm h, List.append_assoc]

/-- Behind another character than a quote the lexer stands in a constant or outside. -/
theorem after_concat {c : Char} (hc : c ≠ '\'') (cs : List Char)
    (hm : (m.after (cs ++ [c])).isInside = false) : m.after (cs ++ [c]) = .outside := by
  induction cs generalizing m with
  | nil => cases m <;> simp_all [after, step, isInside]
  | cons d cs ih => exact ih hm

/-- Quotes are undone: in a constant, two of them are one. -/
theorem run_double (kept cs : List Char) :
    run (.inside kept) (double '\'' cs ++ ['\'']) = [.constant (kept ++ cs)] := by
  induction cs generalizing kept with
  | nil => simp [double, run, step, last]
  | cons c cs ih =>
    have hrest := ih (kept ++ [c])
    rw [List.append_assoc, List.singleton_append] at hrest
    by_cases hc : c = '\''
    · subst hc
      simpa [double, run, step] using hrest
    · simpa [double, run, step, hc] using hrest

end Standing

/-- The constants of a text and the characters outside them. -/
def lex (cs : List Char) : List Piece := Standing.run .outside cs

/-- Quotes open and close in pairs. -/
def Balanced (cs : List Char) : Prop := Even (cs.count '\'')

instance (cs : List Char) : Decidable (Balanced cs) := inferInstanceAs (Decidable (Even _))

theorem balanced_of_notMem {cs : List Char} (h : '\'' ∉ cs) : Balanced cs := by
  simp [Balanced, List.count_eq_zero_of_not_mem h]

theorem getLast?_ne_quote {cs : List Char} (h : '\'' ∉ cs) : cs.getLast? ≠ some '\'' :=
  fun hlast => h (List.mem_of_getLast? hlast)

theorem head?_append_ne_quote {xs : List Char} (h : '\'' ∉ xs) (hne : xs ≠ []) (ys : List Char) :
    (xs ++ ys).head? ≠ some '\'' := by
  rw [List.head?_append_of_ne_nil _ hne]
  exact fun hhead => h (List.mem_of_head? hhead)

theorem Balanced.append {xs ys : List Char} (h : Balanced xs) (h' : Balanced ys) :
    Balanced (xs ++ ys) := by
  rw [Balanced, List.count_append]
  exact h.add h'

theorem balanced_sqlString (cs : List Char) : Balanced (sqlString cs) := by
  rw [Balanced, sqlString, List.cons_append, List.count_cons_self, List.count_append, count_double]
  exact ⟨cs.count '\'' + 1, by simp; omega⟩

/-- Two texts are read apart if the first is balanced and no quotes meet between them. -/
theorem lex_append {xs ys : List Char} (balanced : Balanced xs)
    (h : xs.getLast? ≠ some '\'' ∨ ys.head? ≠ some '\'') : lex (xs ++ ys) = lex xs ++ lex ys := by
  have hm : (Standing.outside.after xs).isInside = false := by
    rw [← Bool.not_eq_true, Standing.isInside_after]
    simpa [Standing.isInside, Balanced] using balanced
  refine Standing.run_append hm (h.imp_left fun hlast => ?_)
  rcases List.eq_nil_or_concat' xs with rfl | ⟨cs, c, rfl⟩
  · rfl
  · exact Standing.after_concat (by simpa using hlast) cs hm

/-- A text without quotes is all outside. -/
theorem lex_of_notMem {cs : List Char} (h : '\'' ∉ cs) : lex cs = cs.map .outside := by
  induction cs with
  | nil => rfl
  | cons c cs ih =>
    obtain ⟨hc, hcs⟩ := List.ne_and_not_mem_of_not_mem_cons h
    have hstep : Standing.step .outside c = ([.outside c], .outside) := if_neg (Ne.symm hc)
    rw [List.map_cons, ← ih hcs, lex, Standing.run, hstep]
    rfl

theorem lex_sqlString (cs : List Char) : lex (sqlString cs) = [.constant cs] :=
  Standing.run_double [] cs

theorem intercalate_middle {α : Type} (sep x : List α) (left right : List (List α)) :
    sep.intercalate (left ++ x :: right) =
      left.flatMap (· ++ sep) ++ (x ++ right.flatMap (sep ++ ·)) := by
  have hright (x : List α) : sep.intercalate (x :: right) = x ++ right.flatMap (sep ++ ·) := by
    induction right generalizing x with
    | nil => simp
    | cons y right ih =>
      rw [List.intercalate_cons_cons, ih, List.flatMap_cons]
      simp only [List.append_assoc]
  induction left with
  | nil => exact hright x
  | cons y left ih =>
    have hne : left ++ x :: right ≠ [] := by simp
    obtain ⟨z, zs, hz⟩ := List.exists_cons_of_ne_nil hne
    rw [List.cons_append, hz, List.intercalate_cons_cons, ← hz, ih, List.flatMap_cons]
    simp only [List.append_assoc]

theorem map_intercalate {α β : Type} (f : α → β) (sep : List α) (parts : List (List α)) :
    (sep.intercalate parts).map f = (sep.map f).intercalate (parts.map (List.map f)) := by
  match parts with
  | [] => rfl
  | [part] => simp
  | part :: next :: parts =>
    have ih := map_intercalate f sep (next :: parts)
    rw [List.intercalate_cons_cons, List.map_append, List.map_append, ih]
    simp only [List.map_cons, List.intercalate_cons_cons]

/-- Separators without quotes are read apart from what stands around them. -/
theorem lex_intercalate {sep : List Char} (plain : '\'' ∉ sep) (hne : sep ≠ [])
    {rest : List Char} (hrest : rest.head? ≠ some '\'') (parts : List (List Char))
    (balanced : ∀ part ∈ parts, Balanced part) :
    lex (sep.intercalate parts ++ rest) = (lex sep).intercalate (parts.map lex) ++ lex rest := by
  match parts with
  | [] => rfl
  | [part] => simpa using lex_append (balanced part (by simp)) (.inr hrest)
  | part :: next :: parts =>
    have ih := lex_intercalate plain hne hrest (next :: parts) fun p hp =>
      balanced p (List.mem_cons_of_mem _ hp)
    rw [List.intercalate_cons_cons, List.map_cons, List.map_cons, List.intercalate_cons_cons,
      List.append_assoc, List.append_assoc,
      lex_append (balanced part (by simp)) (.inr (head?_append_ne_quote plain hne _)),
      lex_append (balanced_of_notMem plain) (.inl (getLast?_ne_quote plain)), ih, List.map_cons]
    simp only [List.append_assoc]

/-- A text that is written as a constant is one constant, where it is written behind a balanced text and no
quote stands next to it. -/
theorem lex_constant {front back : List Char} (balanced : Balanced front)
    (hfront : front.getLast? ≠ some '\'') (hback : back.head? ≠ some '\'') (cs : List Char) :
    lex (front ++ sqlString cs ++ back) = lex front ++ .constant cs :: lex back := by
  rw [List.append_assoc, lex_append balanced (.inl hfront),
    lex_append (balanced_sqlString cs) (.inr hback), lex_sqlString]
  rfl

end TableAccess.Text
