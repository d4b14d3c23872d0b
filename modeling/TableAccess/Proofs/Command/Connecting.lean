import TableAccess.Command
import TableAccess.Proofs.Credentials.Restored
import TableAccess.Proofs.IgnoreFile.Ensured

/-! How `connect` ends. It writes the credentials first and looks at the ignore file afterwards, so there
is one way to fail after something has been written: the ignore file cannot be read (`Spills`). In every
other failure the disk is as it was, and a success leaves the credentials listed, as far as the name of
their file fits into a line (`connect_disk`). -/

namespace TableAccess

namespace Credentials

/-- The file that the credentials go to. -/
def pathFor (w : Workplace) (given : Value) : Path :=
  let usual := (Path.mk 1 w.directory).child defaultName
  if given.truthy then .ofText given.toText
  else match w.credentials? with
    | some s => if s.isEmpty then usual else .ofText s
    | none => usual

theorem path_run (w : Workplace) (given : Value) : path given w = (.ok (pathFor w given), w) := by
  unfold path pathFor
  split
  · rfl
  show (match w.credentials? with
    | some s => _
    | none => _ : Act Workplace Path) w = _
  cases w.credentials? with
  | none => rfl
  | some s =>
    dsimp only
    split <;> rfl

end Credentials

namespace Command

open IgnoreFile

/-- What a command finds: nothing has been said yet. -/
def fresh (w : Workplace) : Workplace := { w with messages := [], printed := "" }

theorem status_ok {i : Invocation} {w w' : Workplace} (h : run i w = (.ok (), w')) :
    status i w = (0, w') := by
  show (run i >>= fun r => _ : StateM Workplace Nat) w = _
  simp only [bind, StateT.bind, h]
  rfl

/-- A run that fails ends with status 1, and saying so is all that is done after it. -/
theorem status_error {i : Invocation} {w w' : Workplace} {e : Failure}
    (h : run i w = (.error e, w')) :
    ∃ messages, status i w = (1, { w' with messages := messages }) := by
  refine ⟨w'.messages ++ [(.error, e.message)] ++
    [(.error, "Please read the documentation : " ++ programName ++ " help")], ?_⟩
  show (run i >>= fun r => _ : StateM Workplace Nat) w = _
  simp only [bind, StateT.bind, h]
  rfl

/-- A command line that fits ends with the status of its run, and leaves the disk that the run leaves. -/
theorem launch_run {argv : List String} {i : Invocation} (hi : invocation argv = .ok i)
    (w : Workplace) : launch argv w =
      (.finished (status i (fresh w)).1 (status i (fresh w)).2.printed
        ((status i (fresh w)).2.shown i.verbose), (status i (fresh w)).2) := by
  unfold launch
  rw [hi]
  rfl

/-- The text of the credentials file, if the words make settings. -/
def credentialsText (address database user password : Value) : Except Failure (List Char) :=
  Settings.ofAddress address database user password >>= Credentials.encode

/-- The disk with the credentials on it. -/
def saved (d : Disk) (place : List String) (text : List Char) : Disk :=
  d.write place (Text.Utf8.encode text)

section Outcome

variable {d after : Disk} {directory : List String} {file : Path}
  {text? : Except Failure (List Char)} {text : List Char} {place : List String}

/-- The credentials can be written, but the ignore file cannot be read for them. -/
structure Spills (d : Disk) (directory : List String) (file : Path) (text? : Except Failure (List Char))
    (text : List Char) (place : List String) : Prop where
  encoded : text? = .ok text
  writable : d.Writable directory file place
  obstructed : Obstructed d directory file place

/-- A run before which nothing has been written, one that stops at the ignore file, and one that comes to
its end. -/
inductive Ends (d : Disk) (directory : List String) (file : Path) (text? : Except Failure (List Char)) :
    Except Failure Unit → Disk → Prop
  | refused {e : Failure} : (∀ text place, ¬ Spills d directory file text? text place) →
      Ends d directory file text? (.error e) d
  | spilled {e : Failure} {text : List Char} {place : List String} :
      Spills d directory file text? text place →
      Ends d directory file text? (.error e) (saved d place text)
  | kept {text : List Char} {place : List String} {after : Disk} : text? = .ok text →
      d.Writable directory file place → ¬ Obstructed d directory file place →
      Settled (saved d place text) directory file after →
      Ends d directory file text? (.ok ()) after

/-- The status that a run ends with. -/
def code : Except Failure Unit → Nat
  | .ok () => 0
  | .error _ => 1

theorem code_eq (r : Except Failure Unit) : code r = 0 ∨ code r = 1 := by
  cases r with
  | ok _ => exact .inl rfl
  | error _ => exact .inr rfl

/-- Credentials that nothing protects stay on the disk. -/
theorem Ends.of_spills {r : Except Failure Unit} (h : Ends d directory file text? r after)
    (hspills : Spills d directory file text? text place) :
    code r = 1 ∧ after = saved d place text := by
  cases h with
  | refused hfree => exact absurd hspills (hfree text place)
  | spilled h =>
    obtain rfl := Except.ok.inj (h.encoded.symm.trans hspills.encoded)
    obtain rfl := Except.ok.inj (h.writable.located.symm.trans hspills.writable.located)
    exact ⟨rfl, rfl⟩
  | kept _ hplace hfree _ =>
    obtain rfl := Except.ok.inj (hplace.located.symm.trans hspills.writable.located)
    exact absurd hspills.obstructed hfree

end Outcome

section Connect

variable {w : Workplace} {credentials address database user password : Value}

theorem connect_refused {e : Failure}
    (h : Settings.ofAddress address database user password = .error e) :
    connect credentials address database user password w = (.error e, w) := by
  unfold connect
  rw [h]
  rfl

theorem connect_run {s : Settings} (h : Settings.ofAddress address database user password = .ok s) :
    connect credentials address database user password w = (do
      Credentials.save (Credentials.pathFor w credentials) s
      let _ ← IgnoreFile.ensure (Credentials.pathFor w credentials) none
      Workplace.say .info "Connected" : Act Workplace Unit) w := by
  unfold connect
  rw [h, Act.settle_ok_bind, Act.bind_ok (Credentials.path_run w credentials)]

theorem connect_ends (sound : w.disk.Sound) (credentials address database user password : Value) :
    Ends w.disk w.directory (Credentials.pathFor w credentials)
      (credentialsText address database user password)
      (connect credentials address database user password w).1
      (connect credentials address database user password w).2.disk := by
  cases hsettings : Settings.ofAddress address database user password with
  | error e =>
    rw [connect_refused hsettings, credentialsText, hsettings]
    refine .refused fun text place h => ?_
    have hencoded := h.encoded
    contradiction
  | ok s =>
    have hencode : credentialsText address database user password = Credentials.encode s := by
      rw [credentialsText, hsettings]
      rfl
    rw [connect_run hsettings, hencode]
    cases htext : Credentials.encode s with
    | error e =>
      rw [Act.bind_error (Credentials.save_refused w _ htext)]
      refine .refused fun text place h => ?_
      have hencoded := h.encoded
      contradiction
    | ok text =>
      have hsave := Credentials.save_run w (Credentials.pathFor w credentials) htext
      cases hwrite : w.disk.writeAt w.directory (Credentials.pathFor w credentials)
          (Text.Utf8.encode text) with
      | error e =>
        rw [hwrite] at hsave
        rw [Act.bind_error hsave]
        refine .refused fun text' place h => ?_
        rw [h.writable.writeAt] at hwrite
        contradiction
      | ok disk =>
        obtain ⟨place, hplace, rfl⟩ := Disk.writable_of_writeAt hwrite
        rw [hwrite] at hsave
        rw [Act.bind_ok hsave]
        have hread : (w.disk.write place (Text.Utf8.encode text)).read? place =
            some (Text.Utf8.encode text) := by rw [Disk.read?_write, if_pos rfl]
        have hconcludes := ensure_concludes (w := { w with
            disk := w.disk.write place (Text.Utf8.encode text)
            messages := w.messages ++ [(.debug, "Wrote credentials to " ++
              (Credentials.pathFor w credentials).toText)] })
          (hplace.sound_write sound _) hplace.noNull hread
        cases hconcludes with
        | stopped hobstructed hensure =>
          rw [Act.bind_error hensure]
          exact .spilled ⟨rfl, hplace, (obstructed_write hplace.noDirectory _).mp hobstructed⟩
        | settled hfree hensure hsettled =>
          rw [Act.bind_ok hensure]
          exact .kept rfl hplace
            (fun h => hfree ((obstructed_write hplace.noDirectory _).mpr h)) hsettled

end Connect

/-- A command line that asks for `connect` ends with the status of its run. -/
theorem launch_connect {argv : List String} {i : Invocation} (hi : invocation argv = .ok i)
    {address database user password : Value} (task : i.task = .connect address database user password)
    {w : Workplace} (sound : w.disk.Sound) :
    ∃ r printed said w', launch argv w = (.finished (code r) printed said, w') ∧
      Ends w.disk w.directory (Credentials.pathFor w i.credentials)
        (credentialsText address database user password) r w'.disk := by
  have hends := connect_ends (w := fresh w) sound i.credentials address database user password
  have hrun : run i (fresh w) =
      connect i.credentials address database user password (fresh w) := by
    rw [run, task]
  have hlaunch := launch_run hi w
  rcases hconnect : connect i.credentials address database user password (fresh w) with ⟨e | _, w'⟩
  · rw [hconnect] at hends hrun
    obtain ⟨messages, hstatus⟩ := status_error hrun
    rw [hstatus] at hlaunch
    exact ⟨.error e, _, _, _, hlaunch, hends⟩
  · rw [hconnect] at hends hrun
    rw [status_ok hrun] at hlaunch
    exact ⟨.ok (), _, _, _, hlaunch, hends⟩

/-- What `connect` leaves on the disk. Status 1 means that the disk is as it was, but for one case: the
credentials have been written, and the ignore file cannot be read for them. After status 0 an ignore file
lists the credentials exactly if it did before or the name of their file fits into a line. -/
theorem connect_disk {argv : List String} {i : Invocation} (hi : invocation argv = .ok i)
    {address database user password : Value} (task : i.task = .connect address database user password)
    {w : Workplace} (sound : w.disk.Sound) :
    ∃ exit printed said w', launch argv w = (.finished exit printed said, w') ∧
      (exit = 0 ∨ exit = 1) ∧
      (∀ text place, Spills w.disk w.directory (Credentials.pathFor w i.credentials)
          (credentialsText address database user password) text place →
        exit = 1 ∧ w'.disk = saved w.disk place text) ∧
      ((∀ text place, ¬ Spills w.disk w.directory (Credentials.pathFor w i.credentials)
          (credentialsText address database user password) text place) →
        exit = 1 → w'.disk = w.disk) ∧
      (exit = 0 → ∃ text place, credentialsText address database user password = .ok text ∧
        w.disk.Writable w.directory (Credentials.pathFor w i.credentials) place ∧
        Settled (saved w.disk place text) w.directory (Credentials.pathFor w i.credentials)
          w'.disk) := by
  obtain ⟨r, printed, said, w', hlaunch, hends⟩ := launch_connect hi task sound
  refine ⟨code r, printed, said, w', hlaunch, code_eq r, fun text place h => hends.of_spills h, ?_⟩
  generalize w'.disk = after at hends
  cases hends with
  | refused _ => exact ⟨fun _ _ => rfl, by simp [code]⟩
  | spilled h => exact ⟨fun hnone => absurd h (hnone _ _), by simp [code]⟩
  | kept htext hplace _ hsettled =>
    exact ⟨by simp [code], fun _ => ⟨_, _, htext, hplace, hsettled⟩⟩

/-- A working directory whose ignore file is no text. -/
def binary : Workplace where
  disk := ⟨[["r"]], [(["r", ".gitignore"], [0xff])]⟩
  directory := ["r"]
  credentials? := none
  world := .empty
  messages := []
  printed := ""

def words : List String := ["connect", "--host", "h:1", "--db", "d", "-u", "u", "-p", "p"]

def asked : Invocation := ⟨false, .null, .connect (.text "h:1") (.text "d") (.text "u") (.text "p")⟩

theorem invocation_words : invocation words = .ok asked := rfl

theorem sound_binary : binary.disk.Sound := by
  intro place h
  by_cases hplace : place = ["r", ".gitignore"]
  · rw [hplace]
    decide
  · have hread : binary.disk.read? place = none := by
      simp [binary, Disk.read?, Ne.symm hplace]
    rw [Disk.isFile, hread] at h
    contradiction

/-- The text that is left there. -/
def secret : List Char := (Value.map (Settings.plain "h" 1 "d" "u" "p").entries).jsonText .spaced

theorem spills_binary : Spills binary.disk binary.directory
    (Credentials.pathFor binary asked.credentials)
    (credentialsText (.text "h:1") (.text "d") (.text "u") (.text "p")) secret
    ["r", Credentials.defaultName] := by
  have hsettings : Settings.ofAddress (.text "h:1") (.text "d") (.text "u") (.text "p") =
      .ok (Settings.plain "h" 1 "d" "u" "p") := rfl
  have hfile : Credentials.pathFor binary asked.credentials =
      (Path.mk 1 ["r"]).child Credentials.defaultName := rfl
  rw [hfile]
  refine ⟨?_, ⟨by decide, rfl, rfl⟩, .bytes (q := ["r", ".gitignore"]) rfl (by decide) rfl rfl⟩
  rw [credentialsText, hsettings]
  exact Credentials.encode_plain

/-- Status 1, and the credentials have been written. -/
theorem connect_disk_binary :
    invocation words = .ok asked ∧ binary.disk.Sound ∧
      ∃ printed said w', launch words binary = (.finished 1 printed said, w') ∧
        w'.disk = saved binary.disk ["r", Credentials.defaultName] secret := by
  obtain ⟨exit, printed, said, w', hlaunch, -, hspills, -, -⟩ :=
    connect_disk invocation_words rfl sound_binary
  obtain ⟨rfl, hdisk⟩ := hspills _ _ spills_binary
  exact ⟨invocation_words, sound_binary, printed, said, w', hlaunch, hdisk⟩

/-- A failing `connect` leaves credentials behind that were not there before. -/
theorem credentials_left :
    binary.disk.read? ["r", Credentials.defaultName] = none ∧
      ∃ printed said w', launch words binary = (.finished 1 printed said, w') ∧
        w'.disk.read? ["r", Credentials.defaultName] = some (Text.Utf8.encode secret) := by
  obtain ⟨r, printed, said, w', hlaunch, hends⟩ := launch_connect invocation_words rfl sound_binary
  obtain ⟨hcode, hdisk⟩ := hends.of_spills spills_binary
  rw [hcode] at hlaunch
  refine ⟨by decide, printed, said, w', hlaunch, ?_⟩
  rw [hdisk, saved, Disk.read?_write, if_pos rfl]

end Command

end TableAccess
