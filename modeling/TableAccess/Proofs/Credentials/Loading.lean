import TableAccess.Proofs.Condition.Mapping
import TableAccess.Proofs.Credentials.Restored
import TableAccess.Proofs.Json.Trees

/-! Credentials that cannot be loaded. Whoever loads a file is told apart a file that is not there from one
that is no good (`Reported`), and of a file that can be reached and decoded, that is a mapping, and that has
all settings, everything but the port is turned into a text. What is left is the port: it is read behind all
checks, and a value that no whole number can be made from fails in its own way (`load_reported_iff`). -/

namespace TableAccess

namespace Disk

/-- A path that is too long, or has too long a name where it is walked. -/
structure Overlong (d : Disk) (directory : List String) (p : Path) : Prop where
  noNull : hasNull p = false
  located : d.locate directory p = .error .nameTooLong

theorem file?_eq_error {d : Disk} {directory : List String} {p : Path} {e : Failure}
    (h : d.file? directory p = .error e) : d.Overlong directory p ∧ e = .file .nameTooLong p.toText := by
  unfold file? at h
  split at h
  next => contradiction
  next hnull =>
    split at h
    next => contradiction
    next hlocated => exact ⟨⟨by simpa using hnull, hlocated⟩, (Except.error.inj h).symm⟩
    next => contradiction

theorem Overlong.file? {d : Disk} {directory : List String} {p : Path} (h : d.Overlong directory p) :
    d.file? directory p = .error (.file .nameTooLong p.toText) := by
  rw [Disk.file?, h.noNull, h.located]
  rfl

end Disk

namespace Credentials

/-- What a load may end with: settings of texts and a whole number, or a failure by which a missing file or
a bad one is known. -/
inductive Reported : Except Failure Settings → Prop
  | settings {host database user password : Value} (port : Int)
      (texts : ∀ v ∈ [host, database, user, password], v.text?.isSome = true) :
      Reported (.ok ⟨host, .int port, database, user, password⟩)
  | missing {e : Failure} (family : e.family = .missingFile) : Reported (.error e)
  | bad {e : Failure} (family : e.family = .value) : Reported (.error e)

/-- Values of a document that no whole number can be made from, and how the attempt fails. -/
inductive Unfit : Value → Family → Prop
  | null : Unfit .null .type
  | list (xs : List Value) : Unfit (.list xs) .type
  | map (es : Entries) : Unfit (.map es) .type
  | infinite (negative : Bool) : Unfit (.float (.infinite negative)) .overflow

/-- The file under a path has all settings, with this port among them. -/
inductive PortIn (w : Workplace) (p : Path) (port : Value) : Prop
  | mk {place : List String} {es : Entries} (file : w.disk.file? w.directory p = .ok (some place))
      (document : document? ((w.disk.read? place).getD []) = some (.map es))
      (complete : ∀ key ∈ required, es.has key = true) (found : es.get? "port" = some port) :
      PortIn w p port

variable {w : Workplace} {p : Path} {port port' : Value} {family : Family} {e : Failure}

theorem PortIn.unique (h : PortIn w p port) (h' : PortIn w p port') : port = port' := by
  obtain ⟨hfile, hdocument, -, hport⟩ := h
  obtain ⟨hfile', hdocument', -, hport'⟩ := h'
  obtain rfl := Option.some.inj (Except.ok.inj (hfile.symm.trans hfile'))
  obtain rfl := Value.map.inj (Option.some.inj (hdocument.symm.trans hdocument'))
  exact Option.some.inj (hport.symm.trans hport')

/-! ### Whole numbers -/

theorem wholeOfText_error {source : Value} {cs : List Char}
    (h : Settings.wholeOfText source cs = .error e) : e.family = .value := by
  unfold Settings.wholeOfText at h
  split at h
  · contradiction
  all_goals
    obtain rfl := Except.error.inj h
    rfl

/-- A value of a document that is no whole number is known to be a bad one, or it is unfit. -/
theorem wholeNumber_error (tree : Json.Tree port) (h : Settings.wholeNumber port = .error e) :
    (e.family = .value ∧ ∀ family, ¬ Unfit port family) ∨ Unfit port e.family := by
  cases tree with
  | bool b => contradiction
  | int n => contradiction
  | text s => exact .inl ⟨wholeOfText_error h, by rintro _ ⟨⟩⟩
  | ragged t => exact .inl ⟨wholeOfText_error h, by rintro _ ⟨⟩⟩
  | float x =>
    cases x with
    | nan =>
      obtain rfl := Except.error.inj h
      exact .inl ⟨rfl, by rintro _ ⟨⟩⟩
    | infinite negative =>
      obtain rfl := Except.error.inj h
      exact .inr (.infinite negative)
    | finite _ _ _ => contradiction
  | null =>
    obtain rfl := Except.error.inj h
    exact .inr .null
  | list _ =>
    obtain rfl := Except.error.inj h
    exact .inr (.list _)
  | map _ =>
    obtain rfl := Except.error.inj h
    exact .inr (.map _)

theorem Unfit.wholeNumber (h : Unfit port family) :
    ∃ e, Settings.wholeNumber port = .error e ∧ e.family = family := by
  cases h <;> exact ⟨_, rfl, rfl⟩

theorem Unfit.not_reported (h : Unfit port e.family) : ¬ Reported (.error e) := by
  generalize hfamily : e.family = family at h
  rintro (_ | hmissing | hbad)
  · rw [← hfamily, hmissing] at h
    cases h
  · rw [← hfamily, hbad] at h
    cases h

/-! ### The run -/

theorem isSome_text?_asText (v : Value) : v.asText.text?.isSome = true := by
  cases v <;> rfl

/-- All settings but the port are turned into texts. -/
theorem ofEntries_eq {es : Entries} (h : es.get? "port" = some port) :
    ofEntries es = (Settings.wholeNumber port).map fun n =>
      ⟨(es.get "host").asText, .int n, (es.get "database").asText, (es.get "user").asText,
        (es.get "password").asText⟩ := by
  have hport : es.get "port" = port := by rw [Entries.get, h, Option.getD_some]
  rw [ofEntries, hport]
  cases Settings.wholeNumber port <;> rfl

/-- How a load ends: the path is too long, or the end is reported and the port not unfit, or it is. -/
inductive Ends (w : Workplace) (p : Path) : Except Failure Settings → Prop
  | overlong (h : w.disk.Overlong w.directory p) : Ends w p (.error (.file .nameTooLong p.toText))
  | reported {r : Except Failure Settings} (h : ¬ w.disk.Overlong w.directory p) (reported : Reported r)
      (fit : ∀ port family, PortIn w p port → ¬ Unfit port family) : Ends w p r
  | unfit {port : Value} {e : Failure} (h : PortIn w p port) (unfit : Unfit port e.family) :
      Ends w p (.error e)

/-- A port is a value of a document. -/
theorem tree_port {content : List UInt8} {es : Entries} (h : document? content = some (.map es))
    (hport : es.get? "port" = some port) : Json.Tree port := by
  unfold document? at h
  split at h
  next =>
    have hmap := Json.tree_of_readWithin h
    cases hmap with
    | map entries => exact entries _ (Entries.mem_of_get?_eq_some hport)
  next => contradiction

/-- The port decides once all settings are there. -/
theorem PortIn.ends {es : Entries} (h : PortIn w p port) (hreached : ¬ w.disk.Overlong w.directory p)
    (tree : Json.Tree port) (hport : es.get? "port" = some port) : Ends w p (ofEntries es) := by
  have hsole {port' : Value} {family : Family} (h' : PortIn w p port') (unfit : Unfit port' family) :
      Unfit port family := h'.unique h ▸ unfit
  rw [ofEntries_eq hport]
  cases hread : Settings.wholeNumber port with
  | ok n =>
    have htexts : ∀ v ∈ [(es.get "host").asText, (es.get "database").asText, (es.get "user").asText,
        (es.get "password").asText], v.text?.isSome = true := by
      simp [isSome_text?_asText]
    refine .reported hreached (.settings n htexts) fun port' family h' unfit => ?_
    obtain ⟨e, he, -⟩ := (hsole h' unfit).wholeNumber
    rw [hread] at he
    contradiction
  | error e =>
    obtain ⟨hfamily, hfit⟩ | hunfit := wholeNumber_error tree hread
    · exact .reported hreached (.bad hfamily) fun port' family h' unfit => hfit family (hsole h' unfit)
    · exact .unfit h hunfit

/-- What a file holds decides once the file is found. -/
theorem decode_ends {place : List String} (hfile : w.disk.file? w.directory p = .ok (some place))
    (hreached : ¬ w.disk.Overlong w.directory p) :
    Ends w p (decode p.toText ((w.disk.read? place).getD [])) := by
  have hplace {port : Value} (h : PortIn w p port) : ∃ es,
      document? ((w.disk.read? place).getD []) = some (.map es) ∧
        ∀ key ∈ required, Entries.has es key = true := by
    obtain ⟨hfile', hdocument, hcomplete, -⟩ := h
    obtain rfl := Option.some.inj (Except.ok.inj (hfile.symm.trans hfile'))
    exact ⟨_, hdocument, hcomplete⟩
  unfold decode
  split
  next hdocument =>
    refine .reported hreached (.bad rfl) fun port family h => ?_
    obtain ⟨es, hes, -⟩ := hplace h
    rw [hdocument] at hes
    contradiction
  next es hdocument =>
    dsimp only
    split
    next hmissing =>
      have hcomplete : ∀ key ∈ required, Entries.has es key = true := by
        simpa [List.filter_eq_nil_iff] using hmissing
      obtain ⟨port, hport⟩ := Entries.exists_get?_of_has (hcomplete "port" (by decide))
      have hin : PortIn w p port := .mk hfile hdocument hcomplete hport
      exact hin.ends hreached (tree_port hdocument hport) hport
    next hmissing =>
      refine .reported hreached (.bad rfl) fun port family h => ?_
      obtain ⟨es', hes, hcomplete⟩ := hplace h
      obtain rfl := Value.map.inj (Option.some.inj (hdocument.symm.trans hes))
      exact absurd hcomplete (by simpa [List.filter_eq_nil_iff] using hmissing)
  next _ hshape hdocument =>
    refine .reported hreached (.bad rfl) fun port family h => ?_
    obtain ⟨es, hes, -⟩ := hplace h
    exact (hshape es (Option.some.inj (hdocument.symm.trans hes))).elim

theorem load_ends (w : Workplace) (p : Path) : ∃ r, load p w = (r, w) ∧ Ends w p r := by
  have hload := load_eq w p
  cases hfile : w.disk.file? w.directory p with
  | error e =>
    obtain ⟨hoverlong, rfl⟩ := Disk.file?_eq_error hfile
    rw [hfile] at hload
    exact ⟨_, hload, .overlong hoverlong⟩
  | ok found? =>
    have hreached : ¬ w.disk.Overlong w.directory p := fun h => by
      rw [h.file?] at hfile
      contradiction
    rw [hfile] at hload
    cases found? with
    | none =>
      refine ⟨_, hload, .reported hreached (.missing rfl) ?_⟩
      rintro port family ⟨hplace, -, -, -⟩
      exact absurd (hplace.symm.trans hfile) (by simp)
    | some place => exact ⟨_, hload, decode_ends hfile hreached⟩

/-- Loading changes nothing. It ends with settings or with a failure by which a missing or a bad file is
known, unless the path is too long or the file is a complete mapping whose port is null, a list, a mapping
or infinite; these fail in other ways. -/
theorem load_reported_iff (w : Workplace) (p : Path) :
    (load p w).2 = w ∧
    (Reported (load p w).1 ↔ ¬ w.disk.Overlong w.directory p ∧
      ∀ port family, PortIn w p port → ¬ Unfit port family) ∧
    ∀ e, (load p w).1 = .error e → ¬ Reported (.error e) →
      (w.disk.Overlong w.directory p ∧ e.family = .system) ∨
        ∃ port, PortIn w p port ∧ Unfit port e.family := by
  obtain ⟨r, hload, hends⟩ := load_ends w p
  rw [hload]
  refine ⟨rfl, ?_⟩
  cases hends with
  | overlong h =>
    refine ⟨iff_of_false ?_ fun hnot => hnot.1 h, ?_⟩
    · rintro (_ | hmissing | hbad)
      · contradiction
      · contradiction
    · rintro _ ⟨⟩ -
      exact .inl ⟨h, rfl⟩
  | reported h reported fit =>
    refine ⟨iff_of_true reported ⟨h, fit⟩, ?_⟩
    rintro e rfl hnot
    exact absurd reported hnot
  | unfit h unfit =>
    refine ⟨iff_of_false unfit.not_reported fun hnot => hnot.2 _ _ h unfit, ?_⟩
    rintro _ ⟨⟩ -
    exact .inr ⟨_, h, unfit⟩

/-- Settings without a number for the port. -/
def portless : Entries :=
  [("host", .text "h"), ("port", .null), ("database", .text "d"), ("user", .text "u"),
    ("password", .text "p")]

/-- A directory with a file of these. -/
def portlessPlace : Workplace where
  disk := ⟨[["r"]], [(["r", "c.json"], Text.Utf8.encode ((Value.map portless).jsonText .spaced))]⟩
  directory := ["r"]
  credentials? := none
  world := .empty
  messages := []
  printed := ""

/-- A port that is null is a failure of the reader of numbers. -/
theorem null_port_unreported :
    (Value.map portless).jsonText .spaced =
      ("\x7b\"host\": \"h\", \"port\": null, \"database\": \"d\", \"user\": \"u\", " ++
        "\"password\": \"p\"\x7d").toList ∧
    load (.ofText "c.json") portlessPlace = (.error (.notNumeric .null), portlessPlace) ∧
    (Failure.notNumeric .null).family = .type ∧ ¬ Reported (.error (.notNumeric .null)) := by
  have hplain : Json.Plain 986 (.map portless) := by
    refine .map (by decide) fun e he => ?_
    simp only [portless, List.mem_cons, List.not_mem_nil, or_false] at he
    obtain rfl | rfl | rfl | rfl | rfl := he
    case inr.inl => exact .null
    all_goals exact .text _
  have hdocument : document? (Text.Utf8.encode ((Value.map portless).jsonText .spaced)) =
      some (.map portless) := by
    rw [document?, Text.Utf8.decode_encode]
    exact Json.readWithin_jsonText Json.separates_spaced hplain
  refine ⟨by decide +kernel, ?_, rfl, Unfit.null.not_reported⟩
  rw [@load_run portlessPlace _ ["r", "c.json"] _ rfl rfl, decode, hdocument]
  rfl

end Credentials

end TableAccess
