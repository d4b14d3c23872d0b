import TableAccess.Proofs.Operator.Grammar
import TableAccess.Proofs.Statement.Parameters

/-! Documents in the parameters of a bound predicate. A driver takes a mapping as JSON only. A comparison
by equality sends it so, and every other comparison sends what it was given, a mapping as it is and a
list with the mappings in it. So documents reach the database as JSON exactly if no key with a suffix
has a mapping beside it, and no list for a membership test has one in it (`documents_sent_iff`). -/

namespace TableAccess

open Statement.Bound (adapted)

namespace Comparison

variable (c : Comparison)

/-- What a comparison is given, each value for itself: the elements of a list or tuple under membership. A
test for null is given nothing. -/
def given : List Value :=
  match c.operator with
  | .isIn | .notIn => c.value.items?.getD [c.value]
  | .eq => if c.value.isNull then [] else [c.value]
  | _ => [c.value]

/-- What a comparison sends, each value for itself: the elements of its parameter under membership. -/
def sent : List Value :=
  match c.operator with
  | .isIn | .notIn => c.parameters.flatMap fun v => v.items?.getD []
  | _ => c.parameters

/-- No mapping is sent bare, and those that are given are sent as JSON. -/
structure SendsDocuments : Prop where
  notBare : ∀ v ∈ c.sent, v.isMap = false
  asJson : c.sent = c.given.map adapted

theorem adapted_of_not_isMap {v : Value} (h : v.isMap = false) : adapted v = v := by
  cases v with
  | map es => contradiction
  | _ => rfl

theorem isMap_adapted (v : Value) : (adapted v).isMap = false := by cases v <;> rfl

theorem sent_of_eq (h : c.operator = .eq) : c.sent = c.given.map adapted := by
  unfold sent given parameters
  rw [h]
  cases c.value <;> rfl

theorem sent_of_ne (h : c.operator ≠ .eq) : c.sent = c.given := by
  have hmembership : (c.membershipParameters.flatMap fun v => v.items?.getD []) =
      c.value.items?.getD [c.value] := by
    unfold membershipParameters
    rcases c.value.items? with _ | _ | ⟨x, xs⟩ <;> simp [Value.items?]
  unfold sent given parameters
  cases ho : c.operator
  case isIn | notIn => exact hmembership
  case eq => contradiction
  all_goals rfl

theorem sendsDocuments_iff :
    c.SendsDocuments ↔ (c.operator ≠ .eq → ∀ v ∈ c.given, v.isMap = false) := by
  by_cases h : c.operator = .eq
  · refine iff_of_true ⟨?_, c.sent_of_eq h⟩ fun hne => absurd h hne
    rw [c.sent_of_eq h, List.forall_mem_map]
    exact fun v _ => isMap_adapted v
  · refine ⟨fun hs _ => c.sent_of_ne h ▸ hs.notBare, fun hg => ⟨?_, ?_⟩⟩
    · exact c.sent_of_ne h ▸ hg h
    · rw [c.sent_of_ne h]
      exact (List.map_congr_left fun v hv => adapted_of_not_isMap (hg h v hv)).trans
        (List.map_id _) |>.symm

/-- The comparison is a membership test. -/
def IsMembership : Prop := c.operator = .isIn ∨ c.operator = .notIn

theorem given_of_membership (h : c.IsMembership) : c.given = c.value.items?.getD [c.value] := by
  unfold given
  rcases h with h | h <;> rw [h]

theorem given_of_not_membership (h : ¬ c.IsMembership) (hne : c.operator ≠ .eq) :
    c.given = [c.value] := by
  unfold given
  cases ho : c.operator
  case isIn => exact absurd (.inl ho) h
  case notIn => exact absurd (.inr ho) h
  case eq => contradiction
  all_goals rfl

end Comparison

namespace Operator

theorem resolve_ne_eq {key : String} (h : hasSuffix key = true) (value : Value) :
    (resolve key value).1 ≠ .eq := by
  obtain ⟨op, hop, field, hends⟩ := hasSuffix_iff.mp h
  rw [resolve_of_ends hop hends]
  rintro rfl
  exact absurd hop (by decide)

theorem resolve_map {key : String} (h : hasSuffix key = false) {value : Value}
    (hmap : value.isMap = true) : (resolve key value).1 = .eq := by
  have hsequence : value.isSequence = false := by cases value <;> first | rfl | contradiction
  rw [resolve_of_not_hasSuffix h, hsequence]
  rfl

end Operator

namespace Entries

/-- No mapping stands beside a key with a suffix, and none in a list or tuple for a membership test. -/
def DocumentsPlain (e : String × Value) : Prop :=
  (e.2.isMap = true → Operator.hasSuffix e.1 = false) ∧
    ((Comparison.ofEntry e).IsMembership → ∀ x ∈ e.2.items?.getD [], x.isMap = false)

theorem sendsDocuments_ofEntry_iff (e : String × Value) :
    (Comparison.ofEntry e).SendsDocuments ↔ DocumentsPlain e := by
  obtain ⟨key, value⟩ := e
  let c := Comparison.ofEntry (key, value)
  have hvalue : c.value = value := rfl
  have hoperator : c.operator = (Operator.resolve key value).1 := rfl
  rw [Comparison.sendsDocuments_iff]
  constructor
  · refine fun h => ⟨fun hmap => ?_, fun hm x hx => ?_⟩
    · by_contra hs
      have hne : c.operator ≠ .eq := Operator.resolve_ne_eq (by simpa using hs) value
      have hnone : value.items? = none := by cases value <;> first | rfl | contradiction
      have hgiven : value ∈ c.given := by
        by_cases hm : c.IsMembership
        · simp [c.given_of_membership hm, hvalue, hnone]
        · simp [c.given_of_not_membership hm hne, hvalue]
      rw [h hne value hgiven] at hmap
      contradiction
    · have hne : c.operator ≠ .eq := by rcases hm with hm | hm <;> simp [c, hm]
      refine h hne x ?_
      rw [Comparison.given_of_membership _ hm]
      cases hi : value.items? with
      | none => simp [hi] at hx
      | some xs => simpa [hvalue, hi, c] using hx
  · rintro ⟨hkey, helements⟩ hne x hx
    have hwhole : value.isMap = false := by
      by_contra hmap
      rw [Bool.not_eq_false] at hmap
      exact hne (hoperator.trans (Operator.resolve_map (hkey hmap) hmap))
    by_cases hm : c.IsMembership
    · rw [Comparison.given_of_membership _ hm] at hx
      cases hi : value.items? with
      | none =>
        obtain rfl : x = value := by simpa [hvalue, hi, c] using hx
        exact hwhole
      | some xs => exact helements hm x (by simpa [hvalue, hi, c] using hx)
    · rw [Comparison.given_of_not_membership _ hm hne] at hx
      rw [List.mem_singleton.mp hx]
      exact hwhole

end Entries

namespace Condition

open Entries

/-- The parameters of a condition are those of its entries, at every depth. No mapping is among them
bare, nor in what is sent for a membership test, and every mapping is sent as JSON, exactly if no
mapping stands beside a key with a suffix and none in a list or tuple for a membership test. -/
theorem documents_sent_iff {es : Entries} {c : Condition} (h : ofEntries es = .ok c) :
    c.parameters = es.flat.flatMap (fun e => (Comparison.ofEntry e).parameters) ∧
      ((∀ e ∈ es.flat, (Comparison.ofEntry e).SendsDocuments) ↔ ∀ e ∈ es.flat, DocumentsPlain e) := by
  obtain ⟨wellFormed, rfl⟩ := ofEntries_ok_iff.mp h
  refine ⟨?_, forall₂_congr fun e _ => sendsDocuments_ofEntry_iff e⟩
  rw [parameters_eq, comparisons_tree wellFormed, List.flatMap_map]

/-- Documents at three levels, one of them in a list under a suffix that is no membership test. -/
theorem documents_sent_nested :
    let document : Value := .map [("a", .int 1)]
    let es : Entries := [("details", document), ("or", .list [
      .map [("tags NOT IN", .list [.text "x"]), ("or", .tuple [.map [("meta", document)]])],
      .map [("rows <", .list [document])]])]
    ∃ c, ofEntries es = .ok c ∧ c.parameters =
        [.json document, .tuple [.text "x"], .json document, .list [document]] ∧
      (∀ e ∈ es.flat, DocumentsPlain e) ∧
        ∀ e ∈ es.flat, (Comparison.ofEntry e).SendsDocuments := by
  intro document es
  have hflat : es.flat = [("details", document), ("tags NOT IN", .list [.text "x"]),
      ("meta", document), ("rows <", .list [document])] := by
    simp [es, flat_eq, own, members, Entries.get, Entries.get?, orKey, mappings, Value.items?, Value.entries?]
  have hdetails : Operator.ofSuffix? "details" = none := by decide +kernel
  have htags : Operator.ofSuffix? "tags NOT IN" = some (.notIn, "tags") := by decide +kernel
  have hmeta : Operator.ofSuffix? "meta" = none := by decide +kernel
  have hrows : Operator.ofSuffix? "rows <" = some (.lt, "rows") := by decide +kernel
  have hplain : ∀ e ∈ es.flat, DocumentsPlain e := by
    simp [hflat, DocumentsPlain, Operator.hasSuffix, Comparison.IsMembership, Comparison.ofEntry,
      Operator.resolve, hdetails, htags, hmeta, hrows, document, Value.isMap, Value.entries?,
      Value.items?, Value.isSequence]
  obtain ⟨c, hc⟩ : ∃ c, ofEntries es = .ok c := ⟨_, rfl⟩
  obtain ⟨hparameters, hsent⟩ := documents_sent_iff hc
  refine ⟨c, hc, ?_, hplain, hsent.mpr hplain⟩
  rw [hparameters, hflat]
  simp [Comparison.ofEntry, Operator.resolve, hdetails, htags, hmeta, hrows, document,
    Comparison.parameters, Comparison.membershipParameters, Value.isSequence, Value.items?]

/-- A mapping beside a key with a suffix is sent as it is, and so is one in a list for a membership
test. -/
theorem document_sent_bare :
    let document : Value := .map [("a", .int 1)]
    (∃ c, ofEntries [("details !=", document)] = .ok c ∧ c.parameters = [document] ∧
      ¬ (Comparison.ofEntry ("details !=", document)).SendsDocuments) ∧
    ∃ c, ofEntries [("tags", .list [document])] = .ok c ∧ c.parameters = [.tuple [document]] ∧
      ¬ (Comparison.ofEntry ("tags", .list [document])).SendsDocuments := by
  intro document
  have hdetails : Operator.ofSuffix? "details !=" = some (.isNot, "details") := by decide +kernel
  have htags : Operator.ofSuffix? "tags" = none := by decide +kernel
  have hcompared : Comparison.ofEntry ("details !=", document) = ⟨.isNot, "details", document⟩ := by
    simp [Comparison.ofEntry, Operator.resolve, hdetails]
  have hlisted : Comparison.ofEntry ("tags", .list [document]) = ⟨.isIn, "tags", .list [document]⟩ := by
    simp [Comparison.ofEntry, Operator.resolve, htags, Value.isSequence, Value.items?]
  refine ⟨⟨_, rfl, ?_, fun h => ?_⟩, _, rfl, ?_, fun h => ?_⟩
  · simp [parameters, parametersAll, hcompared, Comparison.parameters]
  · rw [hcompared] at h
    exact absurd (h.notBare document (List.mem_singleton_self _)) (by decide)
  · simp [parameters, parametersAll, hlisted, Comparison.parameters, Comparison.membershipParameters,
      Value.items?]
  · rw [hlisted] at h
    exact absurd (h.notBare document (List.mem_singleton_self _)) (by decide)

end Condition

end TableAccess
