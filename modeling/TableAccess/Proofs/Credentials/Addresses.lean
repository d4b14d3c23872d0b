import TableAccess.Proofs.Number.Scripts
import TableAccess.Proofs.Text.Split
import TableAccess.Settings

/-! Addresses. An address is parted at its first colon into a host and a port (`HostPort`). It is accepted
exactly if the port is a number in decimal digits, of whatever script (`address_accepted_iff`). Everything
else is refused as no address, except that a port of figures that are no number fails when its number is
read. -/

namespace TableAccess.Settings

open Number (digitLimit)
open Text (isFigure decimalNumber? leadingDigits decimalDigit?)

/-- A host, the first colon of the address, and what stands behind it. -/
structure HostPort (address host : String) (port : List Char) : Prop where
  parted : address.toList = host.toList ++ ':' :: port
  first : ':' ∉ host.toList
  host_nonempty : host ≠ ""
  port_nonempty : port ≠ []

variable {address host host' : String} {port port' : List Char} {database user password : Value}

/-- There is one way to part an address. -/
theorem HostPort.unique (h : HostPort address host port) (h' : HostPort address host' port') :
    host = host' ∧ port = port' := by
  have hcut := Text.cut_append_cons h.first port
  rw [← h.parted, h'.parted, Text.cut_append_cons h'.first port'] at hcut
  obtain ⟨hhost, hport⟩ := Prod.mk.inj hcut
  exact ⟨(String.toList_inj.mp hhost).symm, (Option.some.inj hport).symm⟩

theorem splitAddress?_eq_some_iff : splitAddress? address = some (host, port) ↔
    HostPort address host port ∧ ∀ c ∈ port, isFigure c = true := by
  unfold splitAddress?
  constructor
  · intro h
    split at h
    next before after hcut =>
      split at h
      next hguard =>
        obtain ⟨rfl, rfl⟩ := Prod.mk.inj (Option.some.inj h)
        simp only [Bool.and_eq_true, Bool.not_eq_true', List.isEmpty_eq_false_iff,
          List.all_eq_true] at hguard
        obtain ⟨⟨hbefore, hafter⟩, hfigures⟩ := hguard
        have hhost : String.ofList before ≠ "" := by simpa using hbefore
        refine ⟨⟨?_, ?_, hhost, hafter⟩, hfigures⟩
        · simpa using Text.of_cut hcut
        · simpa using Text.notMem_of_cut hcut
      next => contradiction
    next => contradiction
  · rintro ⟨h, hfigures⟩
    have hhost : host.toList ≠ [] := by simpa using h.host_nonempty
    rw [h.parted, Text.cut_append_cons h.first]
    simpa [hhost, h.port_nonempty] using hfigures

section Given

variable (hdatabase : database.isNull = false) (huser : user.isNull = false)
  (hpassword : password.isNull = false)

include hdatabase huser hpassword

/-- What is made of an address whose other settings are given. -/
theorem ofAddress_eq (address : String) : ofAddress (.text address) database user password =
    match splitAddress? address with
    | none => .error (.invalidFormat "address (expected host:port)")
    | some (host, port) =>
      if digitLimit < leadingDigits port then .error (.tooManyDigits (leadingDigits port))
      else match decimalNumber? port with
        | some n => .ok ⟨.text host, .int n, database, user, password⟩
        | none => .error (.malformedWhole (.text (String.ofList port))) := by
  have haddress : (Value.text address).isNull = false := rfl
  have hmissing : missing? (.text address) database user password = none := by
    simp [missing?, haddress, hdatabase, huser, hpassword]
  unfold ofAddress
  rw [hmissing]
  dsimp only
  rw [Value.text?]
  dsimp only
  cases hsplit : splitAddress? address with
  | none => rfl
  | some parts =>
    obtain ⟨host, port⟩ := parts
    obtain ⟨h, hfigures⟩ := splitAddress?_eq_some_iff.mp hsplit
    dsimp only
    rw [wholeOfText, Number.readWhole_figures h.port_nonempty hfigures]
    by_cases hmany : digitLimit < leadingDigits port
    · rw [if_pos hmany, if_pos hmany]
      rfl
    · rw [if_neg hmany, if_neg hmany]
      cases decimalNumber? port <;> rfl

theorem ofAddress_eq_ok_iff (address : String) (s : Settings) :
    ofAddress (.text address) database user password = .ok s ↔
      ∃ host port n, HostPort address host port ∧ decimalNumber? port = some n ∧
        port.length ≤ digitLimit ∧ s = ⟨.text host, .int n, database, user, password⟩ := by
  rw [ofAddress_eq hdatabase huser hpassword]
  constructor
  · intro h
    split at h
    next => contradiction
    next host port hsplit =>
      split at h
      next => contradiction
      next hfew =>
        split at h
        next n hnumber =>
          rw [Number.leadingDigits_of_decimalNumber? hnumber, Nat.not_lt] at hfew
          exact ⟨host, port, n, (splitAddress?_eq_some_iff.mp hsplit).1, hnumber, hfew,
            (Except.ok.inj h).symm⟩
        next => contradiction
  · rintro ⟨host, port, n, h, hnumber, hshort, rfl⟩
    have hfew : ¬ digitLimit < leadingDigits port := by
      rw [Number.leadingDigits_of_decimalNumber? hnumber]
      exact Nat.not_lt.mpr hshort
    rw [splitAddress?_eq_some_iff.mpr ⟨h, Number.isFigure_of_decimalNumber? hnumber⟩]
    dsimp only
    rw [if_neg hfew, hnumber]

/-- How an address fails: as none, or as figures that are no number. -/
theorem ofAddress_error {e : Failure} (h : ofAddress (.text address) database user password = .error e) :
    (e = .invalidFormat "address (expected host:port)" ∧ splitAddress? address = none) ∨
    (e.family = .value ∧ ∃ host port, HostPort address host port ∧ (∀ c ∈ port, isFigure c = true) ∧
      ((∃ c ∈ port, decimalDigit? c = none) ∨ digitLimit < port.length)) := by
  rw [ofAddress_eq hdatabase huser hpassword] at h
  split at h
  next hsplit => exact .inl ⟨(Except.error.inj h).symm, hsplit⟩
  next host port hsplit =>
    obtain ⟨hparted, hfigures⟩ := splitAddress?_eq_some_iff.mp hsplit
    refine .inr ?_
    split at h
    next hmany =>
      obtain rfl := Except.error.inj h
      exact ⟨rfl, host, port, hparted, hfigures,
        .inr (hmany.trans_le (Number.leadingDigits_le port))⟩
    next =>
      split at h
      next => contradiction
      next hnone =>
        obtain rfl := Except.error.inj h
        exact ⟨rfl, host, port, hparted, hfigures,
          .inl (Number.decimalNumber?_eq_none_iff.mp hnone)⟩

end Given

/-- An address is accepted exactly if a host stands in front of its first colon and decimal digits of any
scripts behind it, with these as its host and its port. It is refused as no address exactly if no host and
no figures stand there. What is left are figures that are no number: these fail on their own. -/
theorem address_accepted_iff (address : String) {database user password : Value}
    (hdatabase : database.isNull = false) (huser : user.isNull = false)
    (hpassword : password.isNull = false) :
    let answer := ofAddress (.text address) database user password
    (∀ s, answer = .ok s ↔ ∃ host port n, HostPort address host port ∧ decimalNumber? port = some n ∧
      port.length ≤ digitLimit ∧ s = ⟨.text host, .int n, database, user, password⟩) ∧
    (answer = .error (.invalidFormat "address (expected host:port)") ↔
      ¬ ∃ host port, HostPort address host port ∧ ∀ c ∈ port, isFigure c = true) ∧
    ∀ e, answer = .error e → e ≠ .invalidFormat "address (expected host:port)" →
      e.family = .value ∧ ∃ host port, HostPort address host port ∧ (∀ c ∈ port, isFigure c = true) ∧
        ((∃ c ∈ port, decimalDigit? c = none) ∨ digitLimit < port.length) := by
  intro answer
  refine ⟨ofAddress_eq_ok_iff hdatabase huser hpassword address, ⟨fun h => ?_, fun h => ?_⟩,
    fun e h hne => ?_⟩
  · rintro ⟨host, port, hsplit⟩
    obtain ⟨-, hnone⟩ | ⟨hfamily, -⟩ := ofAddress_error hdatabase huser hpassword h
    · rw [splitAddress?_eq_some_iff.mpr hsplit] at hnone
      contradiction
    · exact absurd hfamily (by decide)
  · have hnone : splitAddress? address = none := by
      refine Option.eq_none_iff_forall_ne_some.mpr fun parts hsplit => h ⟨parts.1, parts.2, ?_⟩
      exact splitAddress?_eq_some_iff.mp hsplit
    show ofAddress (.text address) database user password = _
    rw [ofAddress_eq hdatabase huser hpassword, hnone]
  · obtain ⟨rfl, -⟩ | hvalue := ofAddress_error hdatabase huser hpassword h
    · contradiction
    · exact hvalue

/-- A port in Arabic digits, and one behind which the address goes on. -/
theorem address_accepted_iff_arabic :
    let answer (address : String) := ofAddress (.text address) (.text "d") (.text "u") (.text "p")
    answer "db:٥٤٣٢" = .ok ⟨.text "db", .int (5432 : Nat), .text "d", .text "u", .text "p"⟩ ∧
      answer "db:5:2" = .error (.invalidFormat "address (expected host:port)") := by
  obtain ⟨haccepted, -⟩ := @address_accepted_iff "db:٥٤٣٢" (.text "d") (.text "u") (.text "p") rfl rfl rfl
  obtain ⟨-, hrefused, -⟩ := @address_accepted_iff "db:5:2" (.text "d") (.text "u") (.text "p") rfl rfl rfl
  refine ⟨(haccepted _).mpr ⟨"db", "٥٤٣٢".toList, 5432, ⟨?_, ?_, ?_, ?_⟩, ?_, ?_, rfl⟩, hrefused.mpr ?_⟩
  · decide
  · decide
  · decide
  · decide
  · decide +kernel
  · decide
  · rintro ⟨host, port, h, hfigures⟩
    have hport : HostPort "db:5:2" "db" "5:2".toList := ⟨by decide, by decide, by decide, by decide⟩
    obtain ⟨-, rfl⟩ := h.unique hport
    exact absurd (hfigures ':' (by decide)) (by decide)

/-- A superscript is a figure but no decimal digit: it passes for a port, and then it is the reader of
numbers that fails. -/
theorem figure_port_unreported :
    ofAddress (.text "h:²") (.text "d") (.text "u") (.text "p") = .error (.malformedWhole (.text "²")) ∧
      (Failure.malformedWhole (.text "²")).family = .value ∧
      (Failure.invalidFormat "address (expected host:port)").family = .type :=
  ⟨rfl, rfl, rfl⟩

end TableAccess.Settings
