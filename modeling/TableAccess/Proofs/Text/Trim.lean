import Mathlib.Data.List.TakeWhile
import TableAccess.Text.Blank

/-! Texts that are trimmed. Trimming takes characters off both ends (`eq_append_trimBy`), as many as it
can (`head?_trimBy`), and none off a text that has no such character there (`trimBy_eq_self`). -/

namespace TableAccess.Text

variable {p : Char → Bool} {cs : List Char}

/-- The front is taken off first. -/
theorem trimBy_append_behind (p : Char → Bool) (cs : List Char) :
    trimBy p cs ++ ((cs.dropWhile p).reverse.takeWhile p).reverse = cs.dropWhile p := by
  rw [trimBy, ← List.reverse_append, List.takeWhile_append_dropWhile, List.reverse_reverse]

theorem eq_append_trimBy (p : Char → Bool) (cs : List Char) :
    ∃ before after, cs = before ++ trimBy p cs ++ after ∧
      (∀ c ∈ before, p c = true) ∧ ∀ c ∈ after, p c = true := by
  refine ⟨cs.takeWhile p, ((cs.dropWhile p).reverse.takeWhile p).reverse, ?_, ?_, ?_⟩
  · rw [List.append_assoc, trimBy_append_behind, List.takeWhile_append_dropWhile]
  · exact fun c hc => List.mem_takeWhile_imp hc
  · exact fun c hc => List.mem_takeWhile_imp (List.mem_reverse.mp hc)

theorem trimBy_sublist (p : Char → Bool) (cs : List Char) : (trimBy p cs).Sublist cs := by
  rw [trimBy, ← List.reverse_sublist, List.reverse_reverse]
  exact (List.dropWhile_sublist _).trans (List.dropWhile_sublist _).reverse

theorem mem_of_mem_trimBy {c : Char} (h : c ∈ trimBy p cs) : c ∈ cs := (trimBy_sublist p cs).subset h

theorem count_trimBy {c : Char} (h : p c = false) (cs : List Char) :
    (trimBy p cs).count c = cs.count c := by
  obtain ⟨before, after, hcs, hbefore, hafter⟩ := eq_append_trimBy p cs
  have hnone {ds : List Char} (hds : ∀ d ∈ ds, p d = true) : ds.count c = 0 :=
    List.count_eq_zero.mpr fun hc => by simp [hds c hc] at h
  have hcount := congrArg (List.count c) hcs
  rw [List.count_append, List.count_append, hnone hbefore, hnone hafter] at hcount
  omega

theorem trimBy_append {after : List Char} (h : ∀ c ∈ after, p c = true) (cs : List Char) :
    trimBy p (cs ++ after) = trimBy p cs := by
  have hafter : after.reverse.dropWhile p = [] :=
    List.dropWhile_eq_nil_iff.mpr fun c hc => h c (List.mem_reverse.mp hc)
  unfold trimBy
  rw [List.dropWhile_append]
  split
  next hcs =>
    rw [List.isEmpty_iff.mp hcs, List.dropWhile_eq_nil_iff.mpr h]
  next =>
    rw [List.reverse_append, List.dropWhile_append, hafter]
    rfl

theorem trimBy_cons {c : Char} (h : p c = true) (cs : List Char) : trimBy p (c :: cs) = trimBy p cs := by
  rw [trimBy, List.dropWhile_cons_of_pos h, trimBy]

theorem dropWhile_eq_self (h : ∀ c ∈ cs.head?, p c = false) : cs.dropWhile p = cs := by
  cases cs with
  | nil => rfl
  | cons c cs => exact List.dropWhile_cons_of_neg (by simp [h c rfl])

/-- Nothing is taken off a text that has nothing to take off at its ends. -/
theorem trimBy_eq_self (hhead : ∀ c ∈ cs.head?, p c = false)
    (hlast : ∀ c ∈ cs.getLast?, p c = false) : trimBy p cs = cs := by
  rw [trimBy, dropWhile_eq_self hhead, dropWhile_eq_self (by simpa using hlast), List.reverse_reverse]

theorem trimBy_of_forall (h : ∀ c ∈ cs, p c = false) : trimBy p cs = cs :=
  trimBy_eq_self (fun c hc => h c (List.mem_of_mem_head? hc))
    fun c hc => h c (List.mem_of_mem_getLast? hc)

theorem head?_dropWhile {c : Char} (h : (cs.dropWhile p).head? = some c) : p c = false := by
  have hhead := List.head?_dropWhile_not p cs
  rwa [h] at hhead

/-- What is left has nothing to take off at its ends. -/
theorem head?_trimBy {c : Char} (h : (trimBy p cs).head? = some c) : p c = false := by
  have hfront : (cs.dropWhile p).head? = some c := by
    rw [← trimBy_append_behind, List.head?_append, h]
    rfl
  exact head?_dropWhile hfront

theorem getLast?_trimBy {c : Char} (h : (trimBy p cs).getLast? = some c) : p c = false := by
  rw [trimBy, List.getLast?_reverse] at h
  exact head?_dropWhile h

end TableAccess.Text
