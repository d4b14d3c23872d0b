import Mathlib.Data.List.Induction
import TableAccess.Predicate

/-! Reading a line of words as a formula. AND binds tighter than OR, and parentheses group. The
grammar is a type: a disjunction is conjunctions with OR between them, a conjunction is operands with
AND between them, and `tokens` writes them out. A reading of a line is a disjunction that is written
as this line, and by `tokens_injective` no line has two. `Reads` pairs a line with what it means;
its rules follow the ways in which lines are put together. -/

namespace TableAccess

theorem Token.joined_map_cons {α β : Type} {connective : Token α} {lineOf : β → List (Token α)}
    {x : β} {xs : List β} (h : xs ≠ []) :
    joined connective ((x :: xs).map lineOf) =
      lineOf x ++ connective :: joined connective (xs.map lineOf) := by
  cases xs with
  | nil => exact absurd rfl h
  | cons y ys => rfl

/-- The level of the grammar, by what may stand at the top of a formula. -/
inductive Binding where
  | disjunction | conjunction | operand

inductive Formula (α : Type) : Binding → Type where
  | leaf (a : α) : Formula α .operand
  | group (d : Formula α .disjunction) : Formula α .operand
  | single (p : Formula α .operand) : Formula α .conjunction
  | and (p : Formula α .operand) (c : Formula α .conjunction) : Formula α .conjunction
  | sole (c : Formula α .conjunction) : Formula α .disjunction
  | or (c : Formula α .conjunction) (d : Formula α .disjunction) : Formula α .disjunction

namespace Formula

variable {α : Type}

/-- The line of words that a formula is written as. -/
def tokens {b : Binding} : Formula α b → List (Token α)
  | .leaf a => [.leaf a]
  | .group d => Token.enclosed d.tokens
  | .single p => p.tokens
  | .and p c => p.tokens ++ .and :: c.tokens
  | .sole c => c.tokens
  | .or c d => c.tokens ++ .or :: d.tokens

def Holds (v : α → Prop) {b : Binding} : Formula α b → Prop
  | .leaf a => v a
  | .group d => d.Holds v
  | .single p => p.Holds v
  | .and p c => p.Holds v ∧ c.Holds v
  | .sole c => c.Holds v
  | .or c d => c.Holds v ∨ d.Holds v

/-- What follows a formula without going on with it. An operand ends by itself. -/
def Stops : Binding → List (Token α) → Prop
  | .operand, _ => True
  | .conjunction, rest => rest.head? ≠ some .and
  | .disjunction, rest => rest.head? ≠ some .and ∧ rest.head? ≠ some .or

/-- A formula with something behind it that does not go on with it can be told from what is behind.
The induction is on one formula; its level bounds how the other can begin. -/
theorem tokens_append_inj {b : Binding} (f : Formula α b) :
    ∀ (g : Formula α b) (xs ys : List (Token α)),
      f.tokens ++ xs = g.tokens ++ ys → Stops b xs → Stops b ys → f = g ∧ xs = ys := by
  induction f with
  | leaf a =>
    intro g xs ys h _ _
    cases g with
    | leaf a' =>
      simp only [tokens, List.singleton_append, List.cons.injEq, Token.leaf.injEq] at h
      exact ⟨congrArg leaf h.1, h.2⟩
    | group e => simp [tokens, Token.enclosed] at h
  | group d ih =>
    intro g xs ys h _ _
    cases g with
    | leaf a' => simp [tokens, Token.enclosed] at h
    | group e =>
      have h' : d.tokens ++ .closing :: xs = e.tokens ++ .closing :: ys := by
        simpa [tokens, Token.enclosed] using h
      obtain ⟨hd, hr⟩ := ih e _ _ h' (by simp [Stops]) (by simp [Stops])
      exact ⟨congrArg group hd, (List.cons.inj hr).2⟩
  | single p ih =>
    intro g xs ys h hx _
    cases g with
    | single q =>
      obtain ⟨hp, hr⟩ := ih q xs ys h trivial trivial
      exact ⟨congrArg single hp, hr⟩
    | and q c =>
      have h' : p.tokens ++ xs = q.tokens ++ (.and :: c.tokens ++ ys) := by
        simpa [tokens] using h
      obtain ⟨-, hr⟩ := ih q _ _ h' trivial trivial
      simp [hr, Stops] at hx
  | and p c ihp ihc =>
    intro g xs ys h hx hy
    cases g with
    | single q =>
      have h' : p.tokens ++ (.and :: c.tokens ++ xs) = q.tokens ++ ys := by
        simpa [tokens] using h
      obtain ⟨-, hr⟩ := ihp q _ _ h' trivial trivial
      simp [← hr, Stops] at hy
    | and q e =>
      have h' : p.tokens ++ (.and :: c.tokens ++ xs) = q.tokens ++ (.and :: e.tokens ++ ys) := by
        simpa [tokens] using h
      obtain ⟨hp, hr⟩ := ihp q _ _ h' trivial trivial
      obtain ⟨hc, hs⟩ := ihc e xs ys (List.cons.inj hr).2 hx hy
      exact ⟨by rw [hp, hc], hs⟩
  | sole c ih =>
    intro g xs ys h hx hy
    cases g with
    | sole e =>
      obtain ⟨hc, hr⟩ := ih e xs ys h hx.1 hy.1
      exact ⟨congrArg sole hc, hr⟩
    | or e d =>
      have h' : c.tokens ++ xs = e.tokens ++ (.or :: d.tokens ++ ys) := by
        simpa [tokens] using h
      obtain ⟨-, hr⟩ := ih e _ _ h' hx.1 (by simp [Stops])
      simp [hr, Stops] at hx
  | or c d ihc ihd =>
    intro g xs ys h hx hy
    cases g with
    | sole e =>
      have h' : c.tokens ++ (.or :: d.tokens ++ xs) = e.tokens ++ ys := by
        simpa [tokens] using h
      obtain ⟨-, hr⟩ := ihc e _ _ h' (by simp [Stops]) hy.1
      simp [← hr, Stops] at hy
    | or e k =>
      have h' : c.tokens ++ (.or :: d.tokens ++ xs) = e.tokens ++ (.or :: k.tokens ++ ys) := by
        simpa [tokens] using h
      obtain ⟨hc, hr⟩ := ihc e _ _ h' (by simp [Stops]) (by simp [Stops])
      obtain ⟨hd, hs⟩ := ihd k xs ys (List.cons.inj hr).2 hx hy
      exact ⟨by rw [hc, hd], hs⟩

theorem tokens_injective {f g : Formula α .disjunction} (h : f.tokens = g.tokens) : f = g :=
  (tokens_append_inj f g [] [] (by simpa using h) (by simp [Stops]) (by simp [Stops])).1

/-- The one reading of a line of words. -/
def IsReading (line : List (Token α)) (f : Formula α .disjunction) : Prop :=
  f.tokens = line ∧ ∀ g : Formula α .disjunction, g.tokens = line → g = f

theorem isReading_of_tokens {line : List (Token α)} {f : Formula α .disjunction}
    (h : f.tokens = line) : IsReading line f :=
  ⟨h, fun _ hg => tokens_injective (hg.trans h.symm)⟩

theorem tokens_ne_nil {b : Binding} (f : Formula α b) : f.tokens ≠ [] := by
  induction f <;> simp_all [tokens, Token.enclosed]

/-- Two conjunctions joined to one. -/
def both : Formula α .conjunction → Formula α .conjunction → Formula α .conjunction
  | .single p, e => .and p e
  | .and p c, e => .and p (both c e)

/-- Two disjunctions joined to one. -/
def either : Formula α .disjunction → Formula α .disjunction → Formula α .disjunction
  | .sole c, e => .or c e
  | .or c d, e => .or c (either d e)

@[simp] theorem tokens_both (c e : Formula α .conjunction) :
    (both c e).tokens = c.tokens ++ .and :: e.tokens := by
  fun_induction both c e with
  | case1 p e => rfl
  | case2 p c e ih => simp [tokens, ih]

@[simp] theorem tokens_either (d e : Formula α .disjunction) :
    (either d e).tokens = d.tokens ++ .or :: e.tokens := by
  fun_induction either d e with
  | case1 c e => rfl
  | case2 c d e ih => simp [tokens, ih]

@[simp] theorem holds_both (v : α → Prop) (c e : Formula α .conjunction) :
    (both c e).Holds v ↔ c.Holds v ∧ e.Holds v := by
  fun_induction both c e with
  | case1 p e => rfl
  | case2 p c e ih => simp [Holds, ih, and_assoc]

@[simp] theorem holds_either (v : α → Prop) (d e : Formula α .disjunction) :
    (either d e).Holds v ↔ d.Holds v ∨ e.Holds v := by
  fun_induction either d e with
  | case1 c e => rfl
  | case2 c d e ih => simp [Holds, ih, or_assoc]

end Formula

/-- A line can be read as a formula of this level, and the formula means `m`. -/
def Reads {α : Type} (b : Binding) (line : List (Token α)) (m : (α → Prop) → Prop) : Prop :=
  ∃ f : Formula α b, f.tokens = line ∧ ∀ v, f.Holds v ↔ m v

namespace Reads

open Formula

variable {α β : Type} {line other : List (Token α)} {m n : (α → Prop) → Prop}

theorem ne_nil {b : Binding} (h : Reads b line m) : line ≠ [] := by
  obtain ⟨f, rfl, -⟩ := h
  exact f.tokens_ne_nil

theorem congr {b : Binding} (h : Reads b line m) (hm : ∀ v, m v ↔ n v) : Reads b line n := by
  obtain ⟨f, ht, hv⟩ := h
  exact ⟨f, ht, fun v => (hv v).trans (hm v)⟩

theorem leaf (a : α) : Reads .operand [.leaf a] fun v => v a := ⟨.leaf a, rfl, fun _ => .rfl⟩

theorem enclosed (h : Reads .disjunction line m) : Reads .operand (Token.enclosed line) m := by
  obtain ⟨d, rfl, hv⟩ := h
  exact ⟨.group d, rfl, hv⟩

theorem single (h : Reads .operand line m) : Reads .conjunction line m := by
  obtain ⟨p, ht, hv⟩ := h
  exact ⟨.single p, ht, hv⟩

theorem sole (h : Reads .conjunction line m) : Reads .disjunction line m := by
  obtain ⟨c, ht, hv⟩ := h
  exact ⟨.sole c, ht, hv⟩

theorem and (h : Reads .conjunction line m) (h' : Reads .conjunction other n) :
    Reads .conjunction (line ++ .and :: other) fun v => m v ∧ n v := by
  obtain ⟨c, rfl, hv⟩ := h
  obtain ⟨e, rfl, hv'⟩ := h'
  exact ⟨c.both e, by simp, fun v => by simp [hv, hv']⟩

theorem or (h : Reads .disjunction line m) (h' : Reads .disjunction other n) :
    Reads .disjunction (line ++ .or :: other) fun v => m v ∨ n v := by
  obtain ⟨d, rfl, hv⟩ := h
  obtain ⟨e, rfl, hv'⟩ := h'
  exact ⟨d.either e, by simp, fun v => by simp [hv, hv']⟩

variable {xs : List β} {lineOf : β → List (Token α)} {meaning : β → (α → Prop) → Prop}

theorem all (hne : xs ≠ []) (h : ∀ x ∈ xs, Reads .conjunction (lineOf x) (meaning x)) :
    Reads .conjunction (Token.joined .and (xs.map lineOf)) fun v => ∀ x ∈ xs, meaning x v := by
  induction xs, hne using List.recNeNil with
  | singleton x => exact (h x (by simp)).congr fun v => by simp
  | cons x xs hne ih =>
    have hr := ih fun z hz => h z (by simp [hz])
    rw [Token.joined_map_cons hne]
    exact ((h x (by simp)).and hr).congr fun v => by simp

theorem any (hne : xs ≠ []) (h : ∀ x ∈ xs, Reads .disjunction (lineOf x) (meaning x)) :
    Reads .disjunction (Token.joined .or (xs.map lineOf)) fun v => ∃ x ∈ xs, meaning x v := by
  induction xs, hne using List.recNeNil with
  | singleton x => exact (h x (by simp)).congr fun v => by simp
  | cons x xs hne ih =>
    have hr := ih fun z hz => h z (by simp [hz])
    rw [Token.joined_map_cons hne]
    exact ((h x (by simp)).or hr).congr fun v => by simp

end Reads

end TableAccess
