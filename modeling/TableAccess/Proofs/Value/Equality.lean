import Mathlib.Algebra.Field.Rat
import Mathlib.Algebra.GroupWithZero.Units.Basic
import Mathlib.Tactic.NormNum
import Mathlib.Tactic.Ring
import TableAccess.Value.Equality

/-! What values denote. Two values that can serve as keys are equal exactly if they denote the same
(`same_iff_denoted`), a number its size as a rational whatever its kind. A NaN denotes nothing, so it
does not even equal itself; apart from that, equality of keys is symmetric and transitive
(`same_symm`, `same_trans`). -/

namespace TableAccess

open Number

namespace Magnitude

def toRat (m : Magnitude) : ℚ := m.whole / m.parts * (2 ^ m.twos * 10 ^ m.tens)

theorem parts_ne_zero (m : Magnitude) : (m.parts : ℚ) ≠ 0 :=
  Nat.cast_ne_zero.mpr m.positive.ne'

theorem cast_up {a b : Int} (ha : 0 ≤ a) (hb : 0 ≤ b) : ((up a b : Nat) : ℚ) = 2 ^ a * 10 ^ b := by
  obtain ⟨n, rfl⟩ := Int.eq_ofNat_of_zero_le ha
  obtain ⟨k, rfl⟩ := Int.eq_ofNat_of_zero_le hb
  simp [up, twoTo, tenTo]

/-- The size of a number as a multiple of smaller powers. -/
theorem toRat_eq_scaled (m : Magnitude) {a b : Int} (ha : a ≤ m.twos) (hb : b ≤ m.tens) :
    m.toRat = (m.whole * up (m.twos - a) (m.tens - b) : Int) / m.parts * (2 ^ a * 10 ^ b) := by
  have htwos : (2 : ℚ) ^ m.twos = 2 ^ (m.twos - a) * 2 ^ a := by
    rw [← zpow_add₀ two_ne_zero, Int.sub_add_cancel]
  have htens : (10 : ℚ) ^ m.tens = 10 ^ (m.tens - b) * 10 ^ b := by
    rw [← zpow_add₀ (by norm_num), Int.sub_add_cancel]
  have hup := cast_up (Int.sub_nonneg_of_le ha) (Int.sub_nonneg_of_le hb)
  rw [toRat, htwos, htens, Int.cast_mul, Int.cast_natCast, hup]
  ring

theorem same_iff (x y : Magnitude) : x.same y = true ↔ x.toRat = y.toRat := by
  have hne : (2 : ℚ) ^ min x.twos y.twos * 10 ^ min x.tens y.tens ≠ 0 :=
    mul_ne_zero (zpow_ne_zero _ two_ne_zero) (zpow_ne_zero _ (by norm_num))
  rw [x.toRat_eq_scaled (min_le_left _ y.twos) (min_le_left _ y.tens),
    y.toRat_eq_scaled (min_le_right x.twos _) (min_le_right x.tens _), mul_left_inj' hne,
    div_eq_div_iff x.parts_ne_zero y.parts_ne_zero]
  unfold same
  rw [beq_iff_eq]
  exact_mod_cast Iff.rfl

theorem toRat_eq_zero_iff (m : Magnitude) : m.toRat = 0 ↔ m.whole = 0 := by
  have hne : (2 : ℚ) ^ m.twos * 10 ^ m.tens ≠ 0 :=
    mul_ne_zero (zpow_ne_zero _ two_ne_zero) (zpow_ne_zero _ (by norm_num))
  simp [toRat, hne, m.parts_ne_zero]

end Magnitude

/-- What a value that can serve as a key stands for. Times without an offset and times with one are
never the same. -/
inductive Denoted where
  | number (size : ℚ)
  | infinite (negative : Bool)
  | null
  | text (s : String)
  | ragged (t : Text.Ragged)
  | bytes (bs : List UInt8)
  | date (d : Date)
  | time (aware : Bool) (micros : Int)
  | moment (aware : Bool) (micros : Int)
  | object (number : Nat)
  | reference (number : Nat)
  | tuple (items : List Denoted)

/-- Whether this is the size of a number. -/
def Denoted.IsSize : Denoted → Prop
  | .number _ | .infinite _ => True
  | _ => False

def Size.denoted? : Size → Option Denoted
  | .nan => none
  | .infinite negative => some (.infinite negative)
  | .finite m => some (.number m.toRat)

theorem Size.same_finite (x y : Magnitude) :
    Size.same (.finite x) (.finite y) = true ↔ x.toRat = y.toRat := by
  show (if (decide (x.whole = 0) || decide (y.whole = 0)) = true then x.whole == y.whole
    else x.same y) = true ↔ _
  split
  · rename_i hzero
    rw [Bool.or_eq_true, decide_eq_true_eq, decide_eq_true_eq] at hzero
    rw [beq_iff_eq]
    rcases hzero with hx | hy
    · rw [hx, (x.toRat_eq_zero_iff).mpr hx, eq_comm, eq_comm (a := (0 : ℚ)), y.toRat_eq_zero_iff]
    · rw [hy, (y.toRat_eq_zero_iff).mpr hy, x.toRat_eq_zero_iff]
  · exact x.same_iff y

theorem Size.same_iff (x y : Size) :
    x.same y = true ↔ ∃ d, x.denoted? = some d ∧ y.denoted? = some d := by
  cases x with
  | nan => simp [same, denoted?]
  | infinite a =>
    cases y with
    | nan | finite => simp [same, denoted?]
    | infinite b =>
      rw [same, beq_iff_eq]
      simp [denoted?, eq_comm (a := b)]
  | finite x =>
    cases y with
    | nan | infinite => simp [same, denoted?]
    | finite y =>
      rw [same_finite]
      simp [denoted?, eq_comm (a := y.toRat)]

theorem Clock.same_iff (a b : Clock) : a.same b = true ↔
    a.offset.isSome = b.offset.isSome ∧
      (a.micros - a.offset.getD 0 : Int) = b.micros - b.offset.getD 0 := by
  unfold same
  cases a.offset <;> cases b.offset <;> simp

theorem Moment.same_iff (a b : Moment) : a.same b = true ↔
    a.clock.offset.isSome = b.clock.offset.isSome ∧
      (a.micros - a.clock.offset.getD 0 : Int) = b.micros - b.clock.offset.getD 0 := by
  unfold same
  cases a.clock.offset <;> cases b.clock.offset <;> simp

namespace Value

mutual
def denoted? : Value → Option Denoted
  | .null => some .null
  | .text s => some (.text s)
  | .ragged t => some (.ragged t)
  | .bytes bs => some (.bytes bs)
  | .date d => some (.date d)
  | .time c => some (.time c.offset.isSome (c.micros - c.offset.getD 0))
  | .moment m => some (.moment m.clock.offset.isSome (m.micros - m.clock.offset.getD 0))
  | .object o => if o.unhashed?.isNone then some (.object o.number) else none
  | .reference n => some (.reference n)
  | .tuple xs => (denotedAll? xs).map .tuple
  | .list _ | .map _ | .json _ => none
  | v => v.size?.bind Size.denoted?

def denotedAll? : List Value → Option (List Denoted)
  | [] => some []
  | x :: xs =>
    match denoted? x, denotedAll? xs with
    | some d, some ds => some (d :: ds)
    | _, _ => none
end

theorem denotedAll?_nil : denotedAll? [] = some [] := by rw [denotedAll?]

theorem denotedAll?_cons_eq_some_iff {x : Value} {xs : List Value} {es : List Denoted} :
    denotedAll? (x :: xs) = some es ↔
      ∃ d ds, es = d :: ds ∧ x.denoted? = some d ∧ denotedAll? xs = some ds := by
  rw [denotedAll?]
  cases x.denoted? <;> cases denotedAll? xs <;> simp [eq_comm]

theorem denoted?_object {o : Object} {d : Denoted} :
    (Value.object o).denoted? = some d ↔ o.unhashed? = none ∧ d = .object o.number := by
  rw [denoted?]
  cases o.unhashed? <;> simp [eq_comm]

theorem denoted?_of_size {a : Value} {x : Size} (h : a.size? = some x) :
    a.denoted? = x.denoted? := by
  cases a <;> simp_all [denoted?, size?]

theorem isSize_of_size {a : Value} {x : Size} {d : Denoted} (ha : a.size? = some x)
    (hd : a.denoted? = some d) : d.IsSize := by
  rw [denoted?_of_size ha] at hd
  cases x <;> cases hd <;> trivial

def IsNumber : Value → Prop
  | .bool _ | .int _ | .float _ | .decimal _ | .fraction _ => True
  | _ => False

theorem not_isNumber_of_size {a : Value} (h : a.size? = none) : ¬ a.IsNumber := by
  intro hn
  cases a with
  | bool | int | fraction => simp [size?] at h
  | float x => cases x <;> simp [size?] at h
  | decimal x => cases x <;> simp [size?] at h
  | _ => exact hn

theorem not_isSize_of_size {a : Value} {d : Denoted} (ha : a.size? = none)
    (hd : a.denoted? = some d) : ¬ d.IsSize := by
  intro h
  have hn := not_isNumber_of_size ha
  cases a with
  | bool | int | float | decimal | fraction => exact hn trivial
  | list | map | json => simp [denoted?] at hd
  | tuple xs =>
    obtain ⟨ds, -, rfl⟩ := Option.map_eq_some_iff.mp hd
    exact h
  | object o =>
    obtain ⟨-, rfl⟩ := denoted?_object.mp hd
    exact h
  | _ =>
    cases hd
    exact h

theorem sameAtom_iff_of_size {a b : Value} {x : Size} (ha : a.size? = some x) :
    a.sameAtom b = true ↔ ∃ d, a.denoted? = some d ∧ b.denoted? = some d := by
  unfold sameAtom
  rw [ha]
  cases hb : b.size? with
  | some y => rw [denoted?_of_size ha, denoted?_of_size hb, ← Size.same_iff]
  | none =>
    refine iff_of_false (by simp) ?_
    rintro ⟨d, hd, hd'⟩
    exact not_isSize_of_size hb hd' (isSize_of_size ha hd)

/-- Neither is a number, and they are compared as what they are. -/
theorem sameAtom_iff_of_bare {a b : Value} (ha : ¬ a.IsNumber) (hb : ¬ b.IsNumber)
    (hk : a.isKey = true) (hn : ∀ xs, a ≠ .tuple xs) :
    a.sameAtom b = true ↔ ∃ d, a.denoted? = some d ∧ b.denoted? = some d := by
  rw [exists_congr fun _ => and_comm]
  cases a with
  | bool | int | float | decimal | fraction => exact absurd trivial ha
  | list | map => simp [isKey] at hk
  | tuple xs => exact absurd rfl (hn xs)
  | time c =>
    cases b with
    | bool | int | float | decimal | fraction => exact absurd trivial hb
    | time d => simp [sameAtom, size?, denoted?, Clock.same_iff]
    | _ => simp [sameAtom, size?, denoted?]
  | moment m =>
    cases b with
    | bool | int | float | decimal | fraction => exact absurd trivial hb
    | moment n => simp [sameAtom, size?, denoted?, Moment.same_iff]
    | _ => simp [sameAtom, size?, denoted?]
  | object o =>
    have ho : o.unhashed? = none := Option.isNone_iff_eq_none.mp hk
    cases b with
    | bool | int | float | decimal | fraction => exact absurd trivial hb
    | object o' =>
      simp only [denoted?_object, ho, true_and]
      cases ho' : o'.unhashed? <;> simp [sameAtom, size?, ho, ho', @eq_comm _ o.number]
    | _ => simp [sameAtom, size?, denoted?, ho]
  | _ =>
    cases b with
    | bool | int | float | decimal | fraction => exact absurd trivial hb
    | object o' => simp [sameAtom, size?, denoted?]
    | _ => simp [sameAtom, size?, denoted?]

theorem same_iff_of_atom {a b : Value} (hk : a.isKey = true) (hn : ∀ xs, a ≠ .tuple xs) :
    a.same b = true ↔ ∃ d, a.denoted? = some d ∧ b.denoted? = some d := by
  have hs : a.same b = a.sameAtom b := by
    cases a with
    | list | map => simp [isKey] at hk
    | tuple xs => exact absurd rfl (hn xs)
    | _ => simp [same]
  rw [hs]
  cases hx : a.size? with
  | some x => exact sameAtom_iff_of_size hx
  | none =>
    cases hy : b.size? with
    | none => exact sameAtom_iff_of_bare (not_isNumber_of_size hx) (not_isNumber_of_size hy) hk hn
    | some y =>
      refine iff_of_false (by simp [sameAtom, hx, hy]) ?_
      rintro ⟨d, hd, hd'⟩
      exact not_isSize_of_size hx hd (isSize_of_size hy hd')

theorem eq_tuple_of_denoted {a : Value} {ds : List Denoted} (h : a.denoted? = some (.tuple ds)) :
    ∃ xs, a = .tuple xs := by
  cases hx : a.size? with
  | some x => exact (isSize_of_size hx h).elim
  | none =>
    have hn := not_isNumber_of_size hx
    cases a with
    | tuple xs => exact ⟨xs, rfl⟩
    | bool | int | float | decimal | fraction => exact absurd trivial hn
    | _ => simp [denoted?] at h

theorem not_same_tuple (xs : List Value) {b : Value} (hb : ∀ ys, b ≠ .tuple ys) :
    (Value.tuple xs).same b = false := by
  have ha : (Value.tuple xs).sameAtom b = false := by
    unfold sameAtom
    cases b.size? <;> simp [size?]
  cases b with
  | tuple ys => exact absurd rfl (hb ys)
  | _ => simpa [same] using ha

mutual
/-- Keys are equal exactly if they denote the same. -/
theorem same_iff_denoted : (a b : Value) → a.isKey = true →
    (a.same b = true ↔ ∃ d, a.denoted? = some d ∧ b.denoted? = some d)
  | .tuple xs, .tuple ys, h => by
    rw [same, sameAll_iff_denoted xs ys h]
    simp [denoted?]
  | .tuple xs, .null, _ | .tuple xs, .bool _, _ | .tuple xs, .int _, _ | .tuple xs, .float _, _
  | .tuple xs, .decimal _, _ | .tuple xs, .fraction _, _ | .tuple xs, .text _, _
  | .tuple xs, .ragged _, _ | .tuple xs, .bytes _, _
  | .tuple xs, .date _, _ | .tuple xs, .time _, _ | .tuple xs, .moment _, _ | .tuple xs, .list _, _
  | .tuple xs, .map _, _ | .tuple xs, .json _, _ | .tuple xs, .object _, _
  | .tuple xs, .reference _, _ => by
    rw [not_same_tuple xs (by simp)]
    refine iff_of_false (by simp) ?_
    rintro ⟨d, hd, hd'⟩
    obtain ⟨ds, -, rfl⟩ := Option.map_eq_some_iff.mp hd
    obtain ⟨ys, hys⟩ := eq_tuple_of_denoted hd'
    cases hys
  | .null, _, h | .bool _, _, h | .int _, _, h | .float _, _, h | .decimal _, _, h
  | .fraction _, _, h | .text _, _, h | .ragged _, _, h | .bytes _, _, h | .date _, _, h | .time _, _, h | .moment _, _, h | .list _, _, h | .map _, _, h
  | .json _, _, h | .object _, _, h | .reference _, _, h => same_iff_of_atom h (by simp)

theorem sameAll_iff_denoted : (xs ys : List Value) → areKeys xs = true →
    (sameAll xs ys = true ↔ ∃ ds, denotedAll? xs = some ds ∧ denotedAll? ys = some ds)
  | [], [], _ => by simp [sameAll, denotedAll?]
  | [], y :: ys, _ => by simp [sameAll, denotedAll?_cons_eq_some_iff, denotedAll?_nil]
  | x :: xs, [], _ => by simp [sameAll, denotedAll?_cons_eq_some_iff, denotedAll?_nil]
  | x :: xs, y :: ys, h => by
    rw [areKeys, Bool.and_eq_true] at h
    rw [sameAll, Bool.and_eq_true, same_iff_denoted x y h.1, sameAll_iff_denoted xs ys h.2]
    simp only [denotedAll?_cons_eq_some_iff]
    constructor
    · rintro ⟨⟨d, hx, hy⟩, ds, hxs, hys⟩
      exact ⟨d :: ds, ⟨d, ds, rfl, hx, hxs⟩, d, ds, rfl, hy, hys⟩
    · rintro ⟨-, ⟨d, ds, rfl, hx, hxs⟩, d', ds', he, hy, hys⟩
      obtain ⟨rfl, rfl⟩ := List.cons.inj he
      exact ⟨⟨d, hx, hy⟩, ds, hxs, hys⟩
end

mutual
/-- What denotes something can serve as a key. -/
theorem isKey_of_denoted : (a : Value) → a.denoted?.isSome = true → a.isKey = true
  | .tuple xs, h => by
    rw [denoted?, Option.isSome_map] at h
    exact areKeys_of_denoted xs h
  | .decimal x, h => by
    cases x <;> simp_all [denoted?, size?, Size.denoted?, isKey]
  | .list _, h | .map _, h => by simp [denoted?] at h
  | .object o, h => by
    unfold denoted? at h
    split at h
    next hn => rwa [isKey]
    next => contradiction
  | .null, _ | .bool _, _ | .int _, _ | .float _, _ | .fraction _, _ | .text _, _ | .ragged _, _
  | .bytes _, _ | .date _, _ | .time _, _ | .moment _, _ | .json _, _ | .reference _, _ => by
    simp [isKey]

theorem areKeys_of_denoted : (xs : List Value) → (denotedAll? xs).isSome = true → areKeys xs = true
  | [], _ => by simp [areKeys]
  | x :: xs, h => by
    obtain ⟨es, he⟩ := Option.isSome_iff_exists.mp h
    obtain ⟨d, ds, -, hx, hxs⟩ := denotedAll?_cons_eq_some_iff.mp he
    rw [areKeys, isKey_of_denoted x (by simp [hx]), areKeys_of_denoted xs (by simp [hxs])]
    rfl
end

theorem isKey_of_same {a b : Value} (ha : a.isKey = true) (h : a.same b = true) :
    b.isKey = true := by
  obtain ⟨d, -, hd⟩ := (same_iff_denoted a b ha).mp h
  exact isKey_of_denoted b (by simp [hd])

theorem same_symm {a b : Value} (ha : a.isKey = true) (h : a.same b = true) : b.same a = true := by
  obtain ⟨d, hd, hd'⟩ := (same_iff_denoted a b ha).mp h
  exact (same_iff_denoted b a (isKey_of_same ha h)).mpr ⟨d, hd', hd⟩

theorem same_trans {a b c : Value} (ha : a.isKey = true) (hab : a.same b = true)
    (hbc : b.same c = true) : a.same c = true := by
  obtain ⟨d, hd, hd'⟩ := (same_iff_denoted a b ha).mp hab
  obtain ⟨e, he, he'⟩ := (same_iff_denoted b c (isKey_of_same ha hab)).mp hbc
  obtain rfl := Option.some.inj (hd'.symm.trans he)
  exact (same_iff_denoted a c ha).mpr ⟨d, hd, he'⟩

end Value

end TableAccess
