import Mathlib.Data.List.Chain
import TableAccess.Json
import TableAccess.Text.Ragged

/-! JSON strings that are written and read back. A character is written as itself, as a short escape, as
one unit of four figures, or as two units that are a surrogate pair; the reader undoes each of these
whatever follows (`readString_jsonChar`). Half of a pair is written as its unit, and read as such unless it
is the first half and the second half of a pair is written behind it (`readString_escape`). So the writing
of a text is undone in which no such halves meet (`Apart`, `readString_points`), as they never do in a line
of characters (`readString_jsonString`). -/

namespace TableAccess

namespace Text

/-- Whether this is the first half of a surrogate pair. -/
def Point.IsHigh : Point → Prop
  | .char _ => False
  | .half n => n.val < 0x400

/-- Whether this is the second half of a surrogate pair. -/
def Point.IsLow : Point → Prop
  | .char _ => False
  | .half n => 0x400 ≤ n.val

/-- No first half of a surrogate pair has a second half right behind it. -/
def Apart (points : List Point) : Prop := points.IsChain fun p q => ¬ (p.IsHigh ∧ q.IsLow)

instance : DecidablePred Point.IsHigh
  | .char _ => inferInstanceAs (Decidable False)
  | .half n => inferInstanceAs (Decidable (n.val < 0x400))

instance : DecidablePred Point.IsLow
  | .char _ => inferInstanceAs (Decidable False)
  | .half n => inferInstanceAs (Decidable (0x400 ≤ n.val))

instance (points : List Point) : Decidable (Apart points) :=
  inferInstanceAs (Decidable (points.IsChain _))

theorem apart_chars (cs : List Char) : Apart (cs.map .char) := by
  rw [Apart, List.isChain_map]
  exact List.Pairwise.isChain (List.pairwise_of_forall fun _ _ h => h.1)

theorem shown_chars (cs : List Char) : (cs.map Point.char).map Point.shown = cs := by
  simp [Function.comp_def, Point.shown]

theorem any_isHalf_chars (cs : List Char) : (cs.map Point.char).any Point.isHalf = false := by
  simp [Function.comp_def, Point.isHalf]

end Text

namespace Json

open Text

/-- What stands at a place in front of what a reader gives. -/
def push (p : Point) (read : Option (List Point × List Char)) : Option (List Point × List Char) :=
  read.map fun (s, r) => (p :: s, r)

theorem readString_plain {c : Char} (h : 0x20 ≤ c.toNat) (hquote : c ≠ '"') (hslash : c ≠ '\\')
    (more : List Char) : readString (c :: more) = push (.char c) (readString more) := by
  rw [readString.eq_5 c more hquote (fun _ _ _ _ _ hc => absurd hc hslash)
    (fun _ _ hc => absurd hc hslash), if_neg (not_or.mpr ⟨Nat.not_lt.mpr h, hslash⟩)]
  rfl

theorem readString_simple {e c : Char} (h : simpleEscape? e = some c) (more : List Char) :
    readString ('\\' :: e :: more) = push (.char c) (readString more) := by
  have he : e ≠ 'u' := by
    rintro rfl
    contradiction
  rw [readString.eq_4 e more fun _ _ _ _ _ hu => absurd hu he, h]
  rfl

/-- Whether a text goes on with the unit of a second half. -/
def LowAhead (more : List Char) : Prop :=
  ∃ y₁ y₂ y₃ y₄ rest low, more = '\\' :: 'u' :: y₁ :: y₂ :: y₃ :: y₄ :: rest ∧
    hexUnit? y₁ y₂ y₃ y₄ = some low ∧ 0xDC00 ≤ low ∧ low < 0xE000

/-- A unit that is no half of a pair with the unit behind it is read on its own. -/
theorem readString_unit {x₁ x₂ x₃ x₄ : Char} {n : Nat} {more : List Char}
    (h : hexUnit? x₁ x₂ x₃ x₄ = some n)
    (alone : 0xD800 ≤ n → n < 0xDC00 → ¬ LowAhead more) :
    readString ('\\' :: 'u' :: x₁ :: x₂ :: x₃ :: x₄ :: more) =
      push (unitPoint n) (readString more) := by
  rw [readString.eq_3, h]
  dsimp only
  split
  next y₁ y₂ y₃ y₄ rest =>
    split
    next low hlow =>
      rw [if_neg fun hpair => alone hpair.1 hpair.2.1 ⟨_, _, _, _, _, low, rfl, hlow, hpair.2.2⟩]
      rfl
    next hlow =>
      rw [readString.eq_3, hlow]
      rfl
  next => rfl

theorem readString_pair {x₁ x₂ x₃ x₄ y₁ y₂ y₃ y₄ : Char} {high low : Nat}
    (hhigh : hexUnit? x₁ x₂ x₃ x₄ = some high) (hlow : hexUnit? y₁ y₂ y₃ y₄ = some low)
    (hpair : 0xD800 ≤ high ∧ high < 0xDC00 ∧ 0xDC00 ≤ low ∧ low < 0xE000) (more : List Char) :
    readString ('\\' :: 'u' :: x₁ :: x₂ :: x₃ :: x₄ :: '\\' :: 'u' :: y₁ :: y₂ :: y₃ :: y₄ :: more) =
      push (.char (pairChar high low)) (readString more) := by
  rw [readString.eq_3, hhigh]
  simp only [hlow, hpair, and_self, if_true]
  rfl

/-! ### Units -/

theorem hexDigit?_digitChar : ∀ d < 16, hexDigit? (Nat.digitChar d) = some d := by decide

theorem hex_four (n : Nat) : hex 4 n = [Nat.digitChar (n / 16 / 16 / 16 % 16),
    Nat.digitChar (n / 16 / 16 % 16), Nat.digitChar (n / 16 % 16), Nat.digitChar (n % 16)] := rfl

theorem hexUnit?_hex {n : Nat} (h : n < 0x10000) :
    hexUnit? (Nat.digitChar (n / 16 / 16 / 16 % 16)) (Nat.digitChar (n / 16 / 16 % 16))
      (Nat.digitChar (n / 16 % 16)) (Nat.digitChar (n % 16)) = some n := by
  have hd (k : Nat) := hexDigit?_digitChar (k % 16) (Nat.mod_lt k (by decide))
  simp only [hexUnit?, hd]
  show some _ = some n
  congr 1
  omega

theorem readString_hex {n : Nat} {more : List Char} (h : n < 0x10000)
    (alone : 0xD800 ≤ n → n < 0xDC00 → ¬ LowAhead more) :
    readString ('\\' :: 'u' :: hex 4 n ++ more) = push (unitPoint n) (readString more) := by
  rw [hex_four]
  exact readString_unit (hexUnit?_hex h) alone

/-- The unit that is ahead is the one that is written there. -/
theorem lowAhead_hex {n : Nat} {more : List Char} (h : n < 0x10000)
    (ahead : LowAhead ('\\' :: 'u' :: hex 4 n ++ more)) : 0xDC00 ≤ n ∧ n < 0xE000 := by
  obtain ⟨y₁, y₂, y₃, y₄, rest, low, htext, hlow, hrange⟩ := ahead
  rw [hex_four] at htext
  simp only [List.cons_append, List.cons.injEq, true_and, List.nil_append] at htext
  obtain ⟨rfl, rfl, rfl, rfl, -⟩ := htext
  rw [hexUnit?_hex h] at hlow
  exact Option.some.inj hlow ▸ hrange

/-- What begins with another character than the two of a unit has no unit ahead. -/
theorem not_lowAhead {c d : Char} {more : List Char} (h : c ≠ '\\' ∨ d ≠ 'u') :
    ¬ LowAhead (c :: d :: more) := by
  rintro ⟨_, _, _, _, _, _, htext, -⟩
  obtain ⟨hc, htext⟩ := List.cons.inj htext
  exact h.elim (· hc) (· (List.cons.inj htext).1)

theorem not_lowAhead_of_ne {c : Char} {more : List Char} (h : c ≠ '\\') : ¬ LowAhead (c :: more) := by
  rintro ⟨_, _, _, _, _, _, htext, -⟩
  exact h (List.cons.inj htext).1

/-! ### Characters and halves -/

theorem valid (c : Char) : c.toNat < 0xD800 ∨ 0xDFFF < c.toNat ∧ c.toNat < 0x110000 := c.valid

theorem pairChar_toNat {c : Char} (h : 0x10000 ≤ c.toNat) :
    pairChar (0xD800 + (c.toNat - 0x10000) / 0x400) (0xDC00 + (c.toNat - 0x10000) % 0x400) = c := by
  have hpoint : 0x10000 + (0xD800 + (c.toNat - 0x10000) / 0x400 - 0xD800) * 0x400 +
      (0xDC00 + (c.toNat - 0x10000) % 0x400 - 0xDC00) = c.toNat := by omega
  rw [pairChar, hpoint, Char.ofNat_toNat]

/-- A character of its own unit is no half of a pair. -/
theorem unitPoint_toNat (c : Char) : unitPoint c.toNat = .char c := by
  have hvalid := valid c
  rw [unitPoint, dif_neg (by omega), Char.ofNat_toNat]

theorem unitPoint_half (n : Fin 0x800) : unitPoint (0xD800 + n) = .half n := by
  rw [unitPoint, dif_pos (by omega)]
  simp

theorem readString_jsonChar (c : Char) (more : List Char) :
    readString (jsonChar c ++ more) = push (.char c) (readString more) := by
  have hvalid := valid c
  unfold jsonChar
  split
  next h => exact readString_simple (by rcases h with rfl | rfl <;> rfl) more
  split
  next h => exact h ▸ readString_simple rfl more
  split
  next h => exact h ▸ readString_simple rfl more
  split
  next h => exact h ▸ readString_simple rfl more
  split
  next h => exact h ▸ readString_simple rfl more
  split
  next h => exact h ▸ readString_simple rfl more
  split
  next hspecial _ _ _ _ _ h =>
    obtain ⟨hquote, hslash⟩ := not_or.mp hspecial
    exact readString_plain h.1 hquote hslash more
  split
  next h =>
    have hunit := @readString_hex _ more h (by omega)
    rwa [unitPoint_toNat] at hunit
  next h =>
    have habove : 0x10000 ≤ c.toNat := Nat.le_of_not_lt h
    have hpair := readString_pair (hexUnit?_hex (n := 0xD800 + (c.toNat - 0x10000) / 0x400) (by omega))
      (hexUnit?_hex (n := 0xDC00 + (c.toNat - 0x10000) % 0x400) (by omega)) (by omega) more
    rw [pairChar_toNat habove] at hpair
    exact hpair

/-- A character is not written with the unit of a second half in front. -/
theorem not_lowAhead_jsonChar (c : Char) (more : List Char) : ¬ LowAhead (jsonChar c ++ more) := by
  have hvalid := valid c
  unfold jsonChar
  split
  next h => exact not_lowAhead (.inr (by rcases h with rfl | rfl <;> decide))
  iterate 5
    split
    next => exact not_lowAhead (.inr (by decide))
  split
  next hspecial _ _ _ _ _ _ => exact not_lowAhead_of_ne (not_or.mp hspecial).2
  split
  next h =>
    intro ahead
    have := lowAhead_hex h ahead
    omega
  next h =>
    intro ahead
    dsimp only at ahead
    rw [List.append_assoc] at ahead
    have := lowAhead_hex (by omega) ahead
    omega

theorem readString_escape {n : Fin 0x800} {more : List Char}
    (alone : n.val < 0x400 → ¬ LowAhead more) :
    readString (Point.escape n ++ more) = push (.half n) (readString more) := by
  have hunit := @readString_hex (0xD800 + n) more (by omega) fun _ h => alone (by omega)
  rwa [unitPoint_half] at hunit

/-- Only a second half is written with the unit of one in front. -/
theorem isLow_of_lowAhead {p : Point} {more : List Char} (ahead : LowAhead (p.json ++ more)) :
    p.IsLow := by
  cases p with
  | char c => exact not_lowAhead_jsonChar c more ahead
  | half n =>
    have := lowAhead_hex (by omega) ahead
    show 0x400 ≤ n.val
    omega

/-- The reader undoes the writing of a text whose halves do not pair. -/
theorem readString_points {points : List Point} (apart : Apart points) (rest : List Char) :
    readString (points.flatMap Point.json ++ '"' :: rest) = some (points, rest) := by
  induction points with
  | nil => exact readString.eq_2 rest
  | cons p points ih =>
    rw [List.flatMap_cons, List.append_assoc]
    have hrest := ih (List.IsChain.tail apart)
    cases p with
    | char c =>
      show readString (jsonChar c ++ _) = _
      rw [readString_jsonChar, hrest]
      rfl
    | half n =>
      have alone : n.val < 0x400 → ¬ LowAhead (points.flatMap Point.json ++ '"' :: rest) := by
        intro hn ahead
        cases points with
        | nil => exact not_lowAhead_of_ne (by decide) ahead
        | cons q points =>
          rw [List.flatMap_cons, List.append_assoc] at ahead
          exact (List.isChain_cons_cons.mp apart).1 ⟨hn, isLow_of_lowAhead ahead⟩
      show readString (Point.escape n ++ _) = _
      rw [readString_escape alone, hrest]
      rfl

theorem readString_jsonString (cs rest : List Char) :
    readString (cs.flatMap jsonChar ++ '"' :: rest) = some (cs.map .char, rest) := by
  have hread := readString_points (apart_chars cs) rest
  rwa [List.flatMap_map] at hread

theorem textOf_chars (cs : List Char) : textOf (cs.map .char) = .text (String.ofList cs) := by
  rw [textOf, dif_neg (ne_true_of_eq_false (any_isHalf_chars cs)), shown_chars]

theorem textOf_points (t : Ragged) : textOf t.points = .ragged t := dif_pos t.ragged

end Json

end TableAccess
