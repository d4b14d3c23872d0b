import TableAccess.Credentials
import TableAccess.Proofs.Credentials.Addresses
import TableAccess.Proofs.Disk.Writing
import TableAccess.Proofs.Json.Documents
import TableAccess.Proofs.Text.Utf8

/-! Credentials that are kept and read again. -/

namespace TableAccess

open Number

namespace Settings

/-- Settings whose port is a whole number and whose other values are texts. -/
def plain (host : String) (port : Int) (database user password : String) : Settings :=
  ⟨.text host, .int port, .text database, .text user, .text password⟩

end Settings

namespace Credentials

open Json

variable {host database user password : String} {port : Int}

theorem plain_entries (h : (Nat.toDigits 10 port.natAbs).length ≤ digitLimit) (depth : Nat) :
    Plain (depth + 1) (.map (Settings.plain host port database user password).entries) := by
  have hkeys : required.Nodup := by decide
  refine .map hkeys fun e he => ?_
  simp only [Settings.entries, Settings.plain, List.mem_cons, List.not_mem_nil, or_false] at he
  obtain rfl | rfl | rfl | rfl | rfl := he
  case inr.inl => exact .int h
  all_goals exact .text _

theorem encode_plain : encode (Settings.plain host port database user password) =
    .ok ((Value.map (Settings.plain host port database user password).entries).jsonText .spaced) := rfl

theorem ofEntries_plain (host : String) (port : Int) (database user password : String) :
    ofEntries (Settings.plain host port database user password).entries =
      .ok (Settings.plain host port database user password) := by
  have htext (s : String) : (Value.text s).toText = s := String.ofList_toList
  show Except.ok (Settings.mk (.text (Value.text host).toText) (.int port)
    (.text (Value.text database).toText) (.text (Value.text user).toText)
    (.text (Value.text password).toText)) = _
  simp only [htext]
  rfl

/-- What has been written is read back. -/
theorem decode_encode (h : (Nat.toDigits 10 port.natAbs).length ≤ digitLimit) (name : String)
    {text : List Char} (htext : encode (Settings.plain host port database user password) = .ok text) :
    decode name (Text.Utf8.encode text) = .ok (Settings.plain host port database user password) := by
  obtain rfl := Except.ok.inj (encode_plain.symm.trans htext)
  have hdocument : document? (Text.Utf8.encode
      ((Value.map (Settings.plain host port database user password).entries).jsonText .spaced)) =
      some (.map (Settings.plain host port database user password).entries) := by
    rw [document?, Text.Utf8.decode_encode]
    exact readWithin_jsonText separates_spaced (plain_entries h 985)
  rw [decode, hdocument]
  exact ofEntries_plain host port database user password

theorem save_run (w : Workplace) (p : Path) {s : Settings} {text : List Char} (h : encode s = .ok text) :
    save p s w = match w.disk.writeAt w.directory p (Text.Utf8.encode text) with
      | .ok disk => (.ok (), { w with
          disk := disk, messages := w.messages ++ [(.debug, "Wrote credentials to " ++ p.toText)] })
      | .error e => (.error e, w) := by
  have hsave : save p s = (do
    Workplace.write p text
    Workplace.say .debug ("Wrote credentials to " ++ p.toText)) := by
    rw [save, h]
    rfl
  rw [hsave, Act.bind_run, Workplace.write_run]
  rcases w.disk.writeAt w.directory p (Text.Utf8.encode text) with e | disk <;> rfl

theorem save_refused (w : Workplace) (p : Path) {s : Settings} {e : Failure} (h : encode s = .error e) :
    save p s w = (.error e, w) := by
  rw [save, h]
  rfl

theorem load_eq (w : Workplace) (p : Path) : load p w =
    match w.disk.file? w.directory p with
    | .error e => (.error e, w)
    | .ok none => (.error (.credentialsMissing p.toText), w)
    | .ok (some place) => (decode p.toText ((w.disk.read? place).getD []), w) := by
  rw [load, Act.bind_run, Workplace.file?_run]
  rcases w.disk.file? w.directory p with e | _ | place
  · rfl
  · rfl
  · show (Workplace.content place >>= fun content => Act.settle (decode p.toText content)) w = _
    rw [Act.bind_ok (Workplace.content_run w place), Act.settle_run]

theorem load_run {w : Workplace} {p : Path} {place : List String} {content : List UInt8}
    (hfile : w.disk.file? w.directory p = .ok (some place))
    (hcontent : w.disk.read? place = some content) :
    load p w = (decode p.toText content, w) := by
  rw [load_eq, hfile]
  show (decode p.toText ((w.disk.read? place).getD []), w) = _
  rw [hcontent, Option.getD_some]

/-- Settings that are saved and loaded again from wherever they can be written; where they cannot,
nothing has happened. -/
def Restored (s : Settings) : Prop :=
  ∀ (w : Workplace) (p : Path),
    (∃ w', save p s w = (.ok (), w') ∧ load p w' = (.ok s, w')) ∨
      ((∀ place, ¬ w.disk.Writable w.directory p place) ∧ ∃ e, save p s w = (.error e, w))

theorem restored_plain (h : (Nat.toDigits 10 port.natAbs).length ≤ digitLimit) :
    Restored (Settings.plain host port database user password) := by
  intro w p
  obtain ⟨text, htext⟩ : ∃ text, encode (Settings.plain host port database user password) = .ok text :=
    ⟨_, encode_plain⟩
  have hsave := save_run w p htext
  cases hwrite : w.disk.writeAt w.directory p (Text.Utf8.encode text) with
  | error e =>
    rw [hwrite] at hsave
    refine .inr ⟨fun place hplace => ?_, e, hsave⟩
    rw [hplace.writeAt] at hwrite
    contradiction
  | ok disk =>
    rw [hwrite] at hsave
    obtain ⟨place, hplace, rfl⟩ := Disk.writable_of_writeAt hwrite
    refine .inl ⟨_, hsave, ?_⟩
    rw [load_run (hplace.file?_write _) (by rw [Disk.read?_write, if_pos rfl]), decode_encode h _ htext]

/-! ### Addresses -/

theorem splitAddress?_number (hhost : host ≠ "") (hcolon : ':' ∉ host.toList) (n : Nat) :
    Settings.splitAddress? (host ++ ":" ++ toString n) = some (host, Nat.toDigits 10 n) := by
  refine Settings.splitAddress?_eq_some_iff.mpr ⟨⟨by simp, hcolon, hhost, Nat.toDigits_ne_nil⟩, ?_⟩
  exact fun c hc => Number.isFigure_of_isDigit (isDigit_of_mem_toDigits hc)

theorem ofAddress_number {n : Nat} (h : (Nat.toDigits 10 n).length ≤ digitLimit) (hhost : host ≠ "")
    (hcolon : ':' ∉ host.toList) :
    Settings.ofAddress (.text (host ++ ":" ++ toString n)) (.text database) (.text user)
      (.text password) = .ok (Settings.plain host n database user password) := by
  have hport : Settings.wholeOfText (.text (String.ofList (Nat.toDigits 10 n))) (Nat.toDigits 10 n) =
      .ok n := by
    rw [Settings.wholeOfText, readWhole_toDigits h]
  simp only [Settings.ofAddress, Settings.missing?, Value.text?, splitAddress?_number hhost hcolon,
    hport]
  rfl

/-- Settings of texts and a whole number come back from the file they are saved in, whatever characters
the texts consist of and whatever was there before; and so do settings that are read from an address. -/
theorem settings_restored :
    (∀ (host database user password : String) (port : Int),
      (Nat.toDigits 10 port.natAbs).length ≤ digitLimit →
        Restored (Settings.plain host port database user password)) ∧
      ∀ (host database user password : String) (port : Nat),
        (Nat.toDigits 10 port).length ≤ digitLimit → host ≠ "" → ':' ∉ host.toList →
          ∃ s, Settings.ofAddress (.text (host ++ ":" ++ toString port)) (.text database) (.text user)
            (.text password) = .ok s ∧ s.host = .text host ∧ s.port = .int port ∧ Restored s := by
  refine ⟨fun _ _ _ _ _ h => restored_plain h, ?_⟩
  intro host database user password port h hhost hcolon
  exact ⟨_, ofAddress_number h hhost hcolon, rfl, rfl, restored_plain h⟩

theorem settings_restored_unusual :
    Restored (Settings.plain "a:\"b\"" (-1) "\x00\n\\" "\x7f\u2028" "p\ud7ff😀") ∧
      ∃ s, Settings.ofAddress (.text ("\"é" ++ ":" ++ toString 5432)) (.text "d") (.text "u")
        (.text "p") = .ok s ∧ s.host = .text "\"é" ∧ s.port = .int (5432 : Nat) ∧ Restored s :=
  ⟨settings_restored.1 _ _ _ _ _ (by decide),
    settings_restored.2 _ _ _ _ _ (by decide) (by decide) (by decide)⟩

end Credentials

end TableAccess
