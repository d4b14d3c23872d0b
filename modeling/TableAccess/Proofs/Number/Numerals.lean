import TableAccess.Number.Binary
import TableAccess.Number.Decimal
import TableAccess.Proofs.Number.Digits
import TableAccess.Value.Text

/-! Numerals, the constants that stand for numbers: digits with an optional sign, fraction and power of
ten (`Numeral`). Whole numbers are written as numerals, and so are binary and decimal numbers, as long as
they are finite. For those that are not, a word is written (`Word`), which no numeral is
(`not_numeral_word`), and neither is what is written for a fraction that is not whole (`Quotient`,
`not_numeral_quotient`). -/

namespace TableAccess.Number

/-- At least one digit, and nothing else. -/
structure Digits (cs : List Char) : Prop where
  nonempty : cs ≠ []
  digits : ∀ c ∈ cs, c.isDigit = true

inductive Sign : List Char → Prop
  | none : Sign []
  | minus : Sign ['-']
  | plus : Sign ['+']

inductive Fraction : List Char → Prop
  | none : Fraction []
  | point {ds : List Char} (digits : Digits ds) : Fraction ('.' :: ds)

inductive Power : List Char → Prop
  | none : Power []
  | exponent {mark : Char} {sign ds : List Char} (letter : mark = 'e' ∨ mark = 'E')
      (signed : Sign sign) (digits : Digits ds) : Power (mark :: (sign ++ ds))

/-- A numeral without its sign. -/
inductive Unsigned : List Char → Prop
  | mk {whole places power : List Char} (digits : Digits whole) (fraction : Fraction places)
      (scaled : Power power) : Unsigned (whole ++ places ++ power)

inductive Numeral : List Char → Prop
  | mk {sign body : List Char} (signed : Sign sign) (figures : Unsigned body) : Numeral (sign ++ body)

/-- Two runs of digits with a stroke between them. -/
inductive Quotient : List Char → Prop
  | mk {sign above below : List Char} (signed : Sign sign) (top : Digits above) (bottom : Digits below) :
      Quotient (sign ++ above ++ '/' :: below)

/-- A letter, and letters and digits behind it. -/
inductive Word : List Char → Prop
  | mk {c : Char} {cs : List Char} (letter : c.isAlpha = true)
      (rest : ∀ d ∈ cs, d.isAlphanum = true) : Word (c :: cs)

variable {cs ds sign word : List Char}

theorem Word.of_all {c : Char} (h : (c.isAlpha && cs.all Char.isAlphanum) = true) : Word (c :: cs) := by
  rw [Bool.and_eq_true] at h
  exact .mk h.1 (List.all_eq_true.mp h.2)

namespace Digits

theorem append (h : Digits cs) (h' : ∀ d ∈ ds, d.isDigit = true) : Digits (cs ++ ds) :=
  ⟨by simp [h.nonempty], List.forall_mem_append.mpr ⟨h.digits, h'⟩⟩

theorem toDigits (n : Nat) : Digits (Nat.toDigits 10 n) :=
  ⟨Nat.toDigits_ne_nil, fun _ => isDigit_of_mem_toDigits⟩

theorem take (h : Digits ds) {n : Nat} (hn : 0 < n) : Digits (ds.take n) :=
  ⟨by simp [h.nonempty, Nat.ne_of_gt hn], fun c hc => h.digits c (List.mem_of_mem_take hc)⟩

theorem drop (h : Digits ds) {n : Nat} (hn : n < ds.length) : Digits (ds.drop n) :=
  ⟨by simpa using hn, fun c hc => h.digits c (List.mem_of_mem_drop hc)⟩

theorem zero_cons (h : ∀ d ∈ ds, d.isDigit = true) : Digits ('0' :: ds) :=
  ⟨List.cons_ne_nil _ _, List.forall_mem_cons.mpr ⟨by decide, h⟩⟩

end Digits

theorem isDigit_of_mem_zeros {n : Nat} : ∀ c ∈ List.replicate n '0', c.isDigit = true := by
  intro c hc
  rw [List.eq_of_mem_replicate hc]
  decide

/-! ### Places around the point -/

/-- Digits without a power of ten. -/
inductive Positional : List Char → Prop
  | mk {whole places : List Char} (digits : Digits whole) (fraction : Fraction places) :
      Positional (whole ++ places)

namespace Positional

theorem digits (h : Digits ds) : Positional ds := by
  simpa using Positional.mk h .none

theorem unsigned (h : Positional cs) {power : List Char} (hpower : Power power) :
    Unsigned (cs ++ power) := by
  obtain ⟨hwhole, hfraction⟩ := h
  exact .mk hwhole hfraction hpower

/-- Digits behind a point and zeros. -/
theorem belowOne (h : Digits ds) (n : Nat) : Positional ('0' :: '.' :: List.replicate n '0' ++ ds) := by
  have hplaces : Digits (List.replicate n '0' ++ ds) :=
    ⟨by simp [h.nonempty], List.forall_mem_append.mpr ⟨isDigit_of_mem_zeros, h.digits⟩⟩
  exact @Positional.mk ['0'] _ (.zero_cons (by simp)) (.point hplaces)

/-- Digits around a point. -/
theorem pointed (h : Digits ds) {n : Nat} (hn : 0 < n) (hlength : n < ds.length) :
    Positional (ds.take n ++ '.' :: ds.drop n) :=
  .mk (h.take hn) (.point (h.drop hlength))

end Positional

/-! ### Numerals and words -/

theorem readSign_of_sign (h : Sign sign) {c : Char} (hc : c ≠ '-' ∧ c ≠ '+') (cs : List Char) :
    (readSign (sign ++ c :: cs)).2 = c :: cs := by
  cases h with
  | none =>
    unfold readSign
    split
    next heq => exact absurd (List.cons.inj heq).1 hc.1
    next heq => exact absurd (List.cons.inj heq).1 hc.2
    next => rfl
  | minus => rfl
  | plus => rfl

theorem Unsigned.head (h : Unsigned cs) : ∃ c rest, cs = c :: rest ∧ c.isDigit = true := by
  obtain ⟨digits, -, -⟩ := h
  obtain ⟨c, rest, rfl⟩ := List.exists_cons_of_ne_nil digits.nonempty
  exact ⟨c, _, rfl, digits.digits c List.mem_cons_self⟩

/-- A numeral goes on with a digit behind its sign, and a word with a letter. -/
theorem not_numeral_word (hsign : Sign sign) (hword : Word word) : ¬ Numeral (sign ++ word) := by
  generalize hcs : sign ++ word = cs
  rintro ⟨hsign', hbody⟩
  obtain ⟨d, rest', rfl, hdigit⟩ := hbody.head
  obtain ⟨hletter, -⟩ := hword
  next c rest =>
    have hc : c ≠ '-' ∧ c ≠ '+' := ⟨by rintro rfl; contradiction, by rintro rfl; contradiction⟩
    have hd : d ≠ '-' ∧ d ≠ '+' := ⟨by rintro rfl; contradiction, by rintro rfl; contradiction⟩
    have hsame : c :: rest = d :: rest' := by
      rw [← readSign_of_sign hsign hc rest, hcs, readSign_of_sign hsign' hd rest']
    obtain rfl := (List.cons.inj hsame).1
    exact absurd hletter (of_decimalDigits (p := (¬ ·.isAlpha = true)) (by decide) hdigit)

theorem Digits.slash_notMem (h : Digits ds) : '/' ∉ ds := fun hmem =>
  absurd (h.digits _ hmem) (by decide)

theorem Sign.slash_notMem (h : Sign sign) : '/' ∉ sign := by
  cases h <;> decide

theorem Fraction.slash_notMem (h : Fraction ds) : '/' ∉ ds := by
  cases h with
  | none => simp
  | point digits => simp [digits.slash_notMem]

theorem Power.slash_notMem (h : Power ds) : '/' ∉ ds := by
  cases h with
  | none => simp
  | exponent letter signed digits =>
    obtain rfl | rfl := letter <;> simp [signed.slash_notMem, digits.slash_notMem]

theorem Numeral.slash_notMem (h : Numeral cs) : '/' ∉ cs := by
  obtain ⟨signed, digits, fraction, scaled⟩ := h
  simp [signed.slash_notMem, digits.slash_notMem, fraction.slash_notMem, scaled.slash_notMem]

theorem not_numeral_quotient (h : Quotient cs) : ¬ Numeral cs := fun hnumeral => by
  obtain ⟨-, -, -⟩ := h
  exact hnumeral.slash_notMem (by simp)

/-! ### Texts of numbers -/

theorem sign_digits_wholeText (n : Int) :
    ∃ sign ds, Sign sign ∧ Digits ds ∧ wholeText n = sign ++ ds := by
  unfold wholeText
  split
  · exact ⟨_, _, .minus, .toDigits _, rfl⟩
  · exact ⟨_, _, .none, .toDigits _, rfl⟩

theorem numeral_wholeText (n : Int) : Numeral (wholeText n) := by
  obtain ⟨sign, ds, hsign, hds, htext⟩ := sign_digits_wholeText n
  rw [htext]
  exact .mk hsign (by simpa using (Positional.digits hds).unsigned .none)

/-- A fraction that is not whole is written with a stroke. -/
theorem quotient_fractionText {q : Rat} (h : q.den ≠ 1) : Quotient (Value.fractionText q) := by
  obtain ⟨sign, ds, hsign, hds, htext⟩ := sign_digits_wholeText q.num
  rw [Value.fractionText, if_neg h, htext]
  exact .mk hsign hds (.toDigits q.den)

theorem numeral_fractionText {q : Rat} (h : q.den = 1) : Numeral (Value.fractionText q) := by
  rw [Value.fractionText, if_pos h]
  exact numeral_wholeText q.num

namespace Binary

def isFinite : Binary → Bool
  | .finite .. => true
  | _ => false

theorem positional_of_digits (h : Digits ds) (point : Int) : Positional (positional ds point) := by
  unfold positional
  split
  next => exact .belowOne h _
  next hpoint =>
    split
    next =>
      exact .mk (h.append isDigit_of_mem_zeros) (.point (.zero_cons (by simp)))
    next hlength => exact .pointed h (by omega) (by omega)

theorem unsigned_exponential (h : Digits ds) (exponent : Int) : Unsigned (exponential ds exponent) := by
  have hpower {size : List Char} (hsize : Digits size) :
      Power ('e' :: (if exponent < 0 then '-' else '+') :: size) := by
    split
    · exact .exponent (.inl rfl) .minus hsize
    · exact .exponent (.inl rfl) .plus hsize
  have hfigures (size : List Char) (hsize : Digits size) (fraction : List Char)
      (hfraction : Fraction fraction) : Unsigned (ds.take 1 ++ fraction ++
        'e' :: (if exponent < 0 then '-' else '+') :: size) :=
    .mk (h.take Nat.one_pos) hfraction (hpower hsize)
  unfold exponential
  refine hfigures _ ?_ _ ?_
  · split
    · exact .zero_cons (Digits.toDigits _).digits
    · exact .toDigits _
  · split
    next => exact .none
    next hne => exact .point ⟨hne, fun c hc => h.digits c (List.mem_of_mem_drop hc)⟩

theorem unsigned_magnitude (mantissa : Nat) (exponent : Int) :
    Unsigned (magnitude mantissa exponent) := by
  have hunsigned {cs : List Char} (h : Positional cs) : Unsigned cs := by simpa using h.unsigned .none
  unfold magnitude
  split
  · exact hunsigned (@Positional.belowOne ['0'] (.zero_cons (by simp)) 0)
  · dsimp only
    split
    · exact hunsigned (positional_of_digits (.toDigits _) _)
    · exact unsigned_exponential (.toDigits _) _

theorem numeral_toText {x : Binary} (h : x.isFinite = true) : Numeral x.toText := by
  cases x with
  | finite negative m e =>
    cases negative
    · exact .mk .none (unsigned_magnitude m e)
    · exact .mk .minus (unsigned_magnitude m e)
  | nan => contradiction
  | infinite _ => contradiction

/-- What is written for the others. -/
theorem word_toText {x : Binary} (h : x.isFinite = false) :
    ∃ sign word, Sign sign ∧ Word word ∧ x.toText = sign ++ word := by
  cases x with
  | finite _ _ _ => contradiction
  | nan => exact ⟨[], _, .none, .of_all (by decide), rfl⟩
  | infinite negative =>
    cases negative
    · exact ⟨[], _, .none, .of_all (by decide), rfl⟩
    · exact ⟨['-'], _, .minus, .of_all (by decide), rfl⟩

end Binary

namespace Decimal

def isFinite : Decimal → Bool
  | .finite .. => true
  | _ => false

theorem sign_signText (negative : Bool) : Sign (signText negative) := by
  cases negative
  · exact .none
  · exact .minus

theorem unsigned_magnitude (coefficient : Nat) (exponent : Int) :
    Unsigned (magnitude coefficient exponent) := by
  unfold magnitude
  extract_lets digits left point figures
  have hdigits : Digits digits := .toDigits coefficient
  have hfigures : Positional figures := by
    unfold figures
    split
    next => exact .belowOne hdigits _
    next hpoint =>
      split
      next => exact .digits (hdigits.append isDigit_of_mem_zeros)
      next hlength => exact .pointed hdigits (by omega) (by omega)
  have hpower : Power ('E' :: (if left < point then '-' else '+') ::
      Nat.toDigits 10 (left - point).natAbs) := by
    split
    · exact .exponent (.inr rfl) .minus (.toDigits _)
    · exact .exponent (.inr rfl) .plus (.toDigits _)
  split
  · simpa using hfigures.unsigned .none
  · exact hfigures.unsigned hpower

theorem numeral_toText {x : Decimal} (h : x.isFinite = true) : Numeral x.toText := by
  cases x with
  | finite negative c e => exact .mk (sign_signText negative) (unsigned_magnitude c e)
  | infinite _ => contradiction
  | nan _ _ _ => contradiction

theorem word_toText {x : Decimal} (h : x.isFinite = false) :
    ∃ sign word, Sign sign ∧ Word word ∧ x.toText = sign ++ word := by
  cases x with
  | finite _ _ _ => contradiction
  | infinite negative =>
    exact ⟨_, _, sign_signText negative, .of_all (by decide), rfl⟩
  | nan negative signalling payload =>
    have hpayload : ∀ d ∈ (if payload = 0 then [] else Nat.toDigits 10 payload),
        d.isAlphanum = true := by
      intro d hd
      split at hd
      · contradiction
      · simp [Char.isAlphanum, isDigit_of_mem_toDigits hd]
    have htext : (nan negative signalling payload).toText = signText negative ++
        ((if signalling then ['s'] else []) ++ ['N', 'a', 'N'] ++
          (if payload = 0 then [] else Nat.toDigits 10 payload)) := by
      simp [toText]
    refine ⟨_, _, sign_signText negative, ?_, htext⟩
    cases signalling
    · exact .mk (by decide) (List.forall_mem_append.mpr ⟨List.all_eq_true.mp (by decide), hpayload⟩)
    · exact .mk (by decide) (List.forall_mem_append.mpr ⟨List.all_eq_true.mp (by decide), hpayload⟩)

end Decimal

end TableAccess.Number
