import Mathlib.Data.List.Induction
import TableAccess.Proofs.Text.Trim
import TableAccess.Text.Quoted

/-! Quotes that are doubled or taken off. Doubling adds no other character and leaves the ends of a text
as they are, and a doubled text is found again between its quotes (`double_append_inj`); `bare` is what is left of a text without its double quotes, whether they have been doubled
or not. -/

namespace TableAccess.Text

theorem mem_double_iff {quote c : Char} {cs : List Char} : c ∈ double quote cs ↔ c ∈ cs := by
  rw [← List.one_le_count_iff, ← List.one_le_count_iff, count_double]
  split <;> omega

theorem double_eq_self_iff {quote : Char} {cs : List Char} : double quote cs = cs ↔ quote ∉ cs := by
  constructor
  · intro h hq
    have hcount := count_double quote quote cs
    have hpos := List.count_pos_iff.mpr hq
    rw [h, if_pos rfl] at hcount
    omega
  · intro h
    induction cs with
    | nil => rfl
    | cons c cs ih =>
      rw [List.mem_cons, not_or] at h
      simpa [double, Ne.symm h.1] using ih h.2

theorem head?_double (quote : Char) (cs : List Char) : (double quote cs).head? = cs.head? := by
  cases cs with
  | nil => rfl
  | cons c cs => by_cases hc : c = quote <;> simp [double, hc]

theorem getLast?_double (quote : Char) (cs : List Char) :
    (double quote cs).getLast? = cs.getLast? := by
  induction cs using List.reverseRecOn with
  | nil => rfl
  | append_singleton cs c _ =>
    by_cases hc : c = quote <;> simp [double, List.getLast?_append, hc]

/-- A text is not its own doubled form behind a quote: it would have to begin with more quotes than it has. -/
theorem append_ne_double {quote : Char} {cs xs ys : List Char} (h : xs.head? ≠ some quote) (n : Nat) :
    cs ++ xs ≠ List.replicate (n + 1) quote ++ (double quote cs ++ quote :: ys) := by
  induction cs generalizing n with
  | nil =>
    rintro rfl
    exact h rfl
  | cons c cs ih =>
    intro heq
    obtain ⟨rfl, htail⟩ := List.cons.inj heq
    refine ih (n + 1) (htail.trans ?_)
    simp [double, List.replicate_succ']

/-- A doubled text ends at the first quote that is none of a pair. -/
theorem double_append_inj {quote : Char} {cs ds xs ys : List Char} (hx : xs.head? ≠ some quote)
    (hy : ys.head? ≠ some quote) (h : double quote cs ++ quote :: xs = double quote ds ++ quote :: ys) :
    cs = ds ∧ xs = ys := by
  induction cs generalizing ds with
  | nil =>
    cases ds with
    | nil => exact ⟨rfl, (List.cons.inj h).2⟩
    | cons d ds =>
      by_cases hd : d = quote
      · obtain rfl : xs = quote :: (double quote ds ++ quote :: ys) := by simpa [double, hd] using h
        exact absurd rfl hx
      · have hquote : quote = d := by simpa [double, hd] using congrArg List.head? h
        exact absurd hquote.symm hd
  | cons c cs ih =>
    cases ds with
    | nil =>
      by_cases hc : c = quote
      · obtain rfl : quote :: (double quote cs ++ quote :: xs) = ys := by simpa [double, hc] using h
        exact absurd rfl hy
      · have hquote : c = quote := by simpa [double, hc] using congrArg List.head? h
        exact absurd hquote hc
    | cons d ds =>
      have hhead : c = d := by
        have hheads := congrArg List.head? h
        simpa [head?_double] using hheads
      subst hhead
      have htail : double quote cs ++ quote :: xs = double quote ds ++ quote :: ys := by
        by_cases hc : c = quote <;> simpa [double, hc] using h
      obtain ⟨rfl, rfl⟩ := ih htail
      exact ⟨rfl, rfl⟩

theorem sqlName_append_inj {cs ds xs ys : List Char} (hx : xs.head? ≠ some '"')
    (hy : ys.head? ≠ some '"') (h : sqlName cs ++ xs = sqlName ds ++ ys) : cs = ds ∧ xs = ys :=
  double_append_inj hx hy (by simpa [sqlName] using h)

/-- A text without its quotes. -/
def bare (cs : List Char) : List Char := cs.filter fun c => c != '"'

@[simp] theorem bare_append (cs ds : List Char) : bare (cs ++ ds) = bare cs ++ bare ds :=
  List.filter_append ..

@[simp] theorem bare_sqlName (cs : List Char) : bare (sqlName cs) = bare cs := by
  have hdouble : bare (double '"' cs) = bare cs := by
    induction cs with
    | nil => rfl
    | cons c cs ih =>
      by_cases hc : c = '"'
      · simpa [bare, double, hc] using ih
      · simpa [bare, double, hc] using ih
  simpa [sqlName, bare] using hdouble

theorem bare_eq_self {cs : List Char} (h : '"' ∉ cs) : bare cs = cs :=
  List.filter_eq_self.mpr fun c hc => by
    have hne : c ≠ '"' := by rintro rfl; exact h hc
    simpa using hne

/-- Taking quotes off the ends leaves what is no quote. -/
theorem bare_trimBy {p : Char → Bool} (h : ∀ c, p c = true → c = '"') (cs : List Char) :
    bare (trimBy p cs) = bare cs := by
  obtain ⟨before, after, hcs, hb, ha⟩ := eq_append_trimBy p cs
  have hnone {ds : List Char} (hds : ∀ c ∈ ds, p c = true) : bare ds = [] :=
    List.filter_eq_nil_iff.mpr fun c hc => by simp [h c (hds c hc)]
  conv_rhs => rw [hcs, bare_append, bare_append, hnone hb, hnone ha]
  simp

/-- No blank is a quote, so quotes do not hide blanks that are taken off. -/
theorem trim_eq_self_of_bare {cs : List Char} (h : bare (trim cs) = bare cs) : trim cs = cs := by
  obtain ⟨before, after, hcs, hb, ha⟩ := eq_append_trimBy isBlank cs
  have hunquoted : ∀ ds : List Char, (∀ c ∈ ds, isBlank c = true) → '"' ∉ ds :=
    fun ds hds hq => absurd (hds _ hq) (by decide)
  have hlength := congrArg (fun ds => (bare ds).length) hcs
  simp only [bare_append, bare_eq_self (hunquoted _ hb), bare_eq_self (hunquoted _ ha), ← h,
    List.length_append, trim] at hlength
  have hbefore : before = [] := List.length_eq_zero_iff.mp (by omega)
  have hafter : after = [] := List.length_eq_zero_iff.mp (by omega)
  rw [hbefore, hafter, List.nil_append, List.append_nil] at hcs
  exact hcs.symm

end TableAccess.Text
