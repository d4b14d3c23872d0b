import TableAccess.Proofs.Client.Transient
import TableAccess.Proofs.Column.Table
import TableAccess.Proofs.Command.Connecting

/-! How `create-table` ends: without a statement, without credentials, or after the statement has been tried
on a pool of its own (`Creates`). A pool that is made is closed in every case, and the status is 0 exactly
if the statement has been run (`creation_cleaned_up`). -/

namespace TableAccess.Command

open Client (Order Executed Untroubled CleanedUp Ran create execute close)

/-- The pool that a table is created on: one connection, with these settings. -/
def single (settings : Settings) : Order := ⟨settings.entries, settings.entries, .int 1, .int 1⟩

/-- Loading does not depend on what has been said. -/
theorem load_said (w : Workplace) (p : Path) (messages : List (Level × String)) (printed : String) :
    Credentials.load p { w with messages := messages, printed := printed } =
      ((Credentials.load p w).1, { w with messages := messages, printed := printed }) := by
  rw [Credentials.load_eq, Credentials.load_eq]
  dsimp only
  rcases w.disk.file? w.directory p with e | _ | place <;> rfl

theorem onWorld_run {α : Type} {step : Act World α} {w : Workplace} {r : Except Failure α} {u : World}
    (h : step w.world = (r, u)) : Workplace.onWorld step w = (r, { w with world := u }) := by
  show ((step w.world).1, { w with world := (step w.world).2 }) = _
  rw [h]

theorem settle_run {α : Type} (r : Except Failure α) (w : Workplace) :
    (do let _ ← Act.settle r : Act Workplace Unit) w = (r.map fun _ => (), w) := by
  cases r <;> rfl

/-- With credentials, a statement is run on a pool of its own. -/
theorem runStatement_ran {w : Workplace} {credentials : Value} {settings : Settings}
    {statement : String}
    (loaded : Credentials.load (Credentials.pathFor w credentials) w = (.ok settings, w)) :
    ∃ r u messages, runStatement credentials statement w =
      (r, { w with world := u, messages := messages }) ∧ Ran (single settings) statement w.world r u := by
  unfold runStatement
  rw [Act.bind_ok (Credentials.path_run w credentials), Act.bind_ok loaded]
  dsimp only
  obtain ⟨made, u, hcreate⟩ : ∃ made u, create (single settings) none w.world = (made, u) := ⟨_, _, rfl⟩
  cases made with
  | error e => exact ⟨_, u, w.messages, Act.bind_error (onWorld_run hcreate), .unmade hcreate⟩
  | ok id =>
    obtain ⟨outcome, v, hexecute⟩ : ∃ outcome v, execute id (.text statement) .null u = (outcome, v) :=
      ⟨_, _, rfl⟩
    obtain ⟨es, -, -, hclosings, -⟩ := (Client.Made.of_create hcreate).execute_closings hexecute
    obtain ⟨failed, x, hclose, -⟩ := Client.close_ok hclosings.there
    have hran : Ran (single settings) statement w.world (outcome.map fun _ => ()) x :=
      .closed hcreate hexecute hclose
    have hattempt : Act.attempt (Workplace.onWorld (execute id (.text statement) .null))
        { w with world := u } = (.ok outcome, { w with world := v }) := by
      rw [Act.attempt_run, onWorld_run hexecute]
    have hclosed := onWorld_run (w := { w with world := v }) hclose
    -- A pool that fails to close is reported, and nothing else comes of it.
    cases failed with
    | true =>
      exact ⟨_, x, _, (Act.bind_ok (onWorld_run hcreate)).trans <| (Act.bind_ok hattempt).trans <|
        (Act.bind_ok hclosed).trans <| (Act.bind_ok (Act.get_run _)).trans <|
          (Act.bind_ok rfl).trans (settle_run outcome _), hran⟩
    | false =>
      exact ⟨_, x, _, (Act.bind_ok (onWorld_run hcreate)).trans <| (Act.bind_ok hattempt).trans <|
        (Act.bind_ok hclosed).trans (settle_run outcome _), hran⟩

/-- How `create-table` ends: without a statement, without credentials, or after the statement has been
tried. -/
inductive Creates (w : Workplace) (credentials table : Value) (columns : List String) :
    Except Failure Unit → World → Prop
  | unbuilt {e : Failure} (h : Column.createTable table (.list (columns.map .text)) = .error e) :
      Creates w credentials table columns (.error e) w.world
  | unloaded {statement : String} {e : Failure}
      (built : Column.createTable table (.list (columns.map .text)) = .ok statement)
      (h : (Credentials.load (Credentials.pathFor w credentials) w).1 = .error e) :
      Creates w credentials table columns (.error e) w.world
  | ran {statement : String} {settings : Settings} {r : Except Failure Unit} {u : World}
      (built : Column.createTable table (.list (columns.map .text)) = .ok statement)
      (loaded : (Credentials.load (Credentials.pathFor w credentials) w).1 = .ok settings)
      (ran : Ran (single settings) statement w.world r u) : Creates w credentials table columns r u

theorem createTable_creates (w : Workplace) (credentials table : Value) (columns : List String) :
    ∃ r w', createTable credentials table columns false (fresh w) = (r, w') ∧
      Creates w credentials table columns r w'.world := by
  unfold createTable
  cases hbuilt : Column.createTable table (.list (columns.map .text)) with
  | error e => exact ⟨_, _, rfl, .unbuilt hbuilt⟩
  | ok statement =>
    let said : Workplace := { fresh w with messages := [(.debug, "Running: " ++ statement)] }
    have hsaid : Workplace.say .debug ("Running: " ++ statement) (fresh w) = (.ok (), said) := rfl
    have hload := load_said w (Credentials.pathFor w credentials) said.messages said.printed
    rw [Act.settle_ok_bind, if_neg Bool.false_ne_true, Act.bind_ok hsaid]
    cases hloaded : (Credentials.load (Credentials.pathFor w credentials) w).1 with
    | error e =>
      rw [hloaded] at hload
      have hrun : runStatement credentials statement said = (.error e, said) :=
        (Act.bind_ok (Credentials.path_run said credentials)).trans (Act.bind_error hload)
      exact ⟨_, _, Act.bind_error hrun, .unloaded hbuilt hloaded⟩
    | ok settings =>
      rw [hloaded] at hload
      obtain ⟨r, u, messages, hrun, hran⟩ := runStatement_ran (w := said) hload
      cases r with
      | error e => exact ⟨_, _, Act.bind_error hrun, .ran hbuilt hloaded hran⟩
      | ok _ => exact ⟨_, _, Act.bind_ok hrun, .ran hbuilt hloaded hran⟩

section Creates

variable {w : Workplace} {credentials table : Value} {columns : List String} {r : Except Failure Unit}
  {u : World} (h : Creates w credentials table columns r u)
include h

theorem Creates.cleanedUp : ∃ events, u.journal = w.world.journal ++ events ∧ CleanedUp w.world events := by
  cases h with
  | unbuilt | unloaded => exact ⟨[], (List.append_nil _).symm, .nothing⟩
  | ran _ _ ran => exact ran.cleanedUp

theorem Creates.ok_iff : r = .ok () ↔ ∃ statement settings,
    Column.createTable table (.list (columns.map .text)) = .ok statement ∧
      (Credentials.load (Credentials.pathFor w credentials) w).1 = .ok settings ∧
        Executed (single settings) statement w.world := by
  cases h with
  | unbuilt h => simp [h]
  | unloaded built h => simp [h]
  | ran built loaded ran => simp [built, loaded, ran.ok_iff]

end Creates

/-- What `create-table` leaves behind. It ends with status 0 or 1 and cleans up: if it makes a pool, that one
is closed once, and last of all. The status is 0 exactly if there is a statement, there are credentials and
the statement has been run, and that depends on the faults of the steps up to giving the connection back
only, not on those of rolling back and closing. -/
theorem creation_cleaned_up {argv : List String} {i : Invocation} (hi : invocation argv = .ok i)
    {table : Value} {columns : List String} (task : i.task = .createTable table columns false)
    (w : Workplace) :
    ∃ exit printed said w' events, launch argv w = (.finished exit printed said, w') ∧
      (exit = 0 ∨ exit = 1) ∧
      w'.world.journal = w.world.journal ++ events ∧ CleanedUp w.world events ∧
      (exit = 0 ↔ ∃ statement settings,
        Column.createTable table (.list (columns.map .text)) = .ok statement ∧
          (Credentials.load (Credentials.pathFor w i.credentials) w).1 = .ok settings ∧
            Executed (single settings) statement w.world) ∧
      ∀ settings statement, Executed (single settings) statement w.world ↔ Untroubled w.world := by
  obtain ⟨r, w', hcreate, hends⟩ := createTable_creates w i.credentials table columns
  obtain ⟨events, hjournal, hcleaned⟩ := hends.cleanedUp
  have hrun : run i (fresh w) = (r, w') := by
    rw [run, task]
    exact hcreate
  have hlaunch := launch_run hi w
  have huntroubled (settings : Settings) (statement : String) :=
    Client.executed_iff (single settings) statement w.world
  cases r with
  | error e =>
    obtain ⟨messages, hstatus⟩ := status_error hrun
    rw [hstatus] at hlaunch
    have hfailed := mt hends.ok_iff.mpr (by simp)
    exact ⟨1, _, _, _, events, hlaunch, .inr rfl, hjournal, hcleaned,
      iff_of_false Nat.one_ne_zero hfailed, huntroubled⟩
  | ok _ =>
    rw [status_ok hrun] at hlaunch
    exact ⟨0, _, _, _, events, hlaunch, .inl rfl, hjournal, hcleaned,
      iff_of_true rfl (hends.ok_iff.mp rfl), huntroubled⟩

/-- A working directory with credentials, where a pool fails to close. -/
def stocked : Workplace where
  disk := ⟨[["r"]], [(["r", Credentials.defaultName], Text.Utf8.encode secret)]⟩
  directory := ["r"]
  credentials? := none
  world := { World.empty with faults := [⟨.closeAll, .outside .runtime "pool is gone"⟩] }
  messages := []
  printed := ""

theorem load_stocked : (Credentials.load (Credentials.pathFor stocked .null) stocked).1 =
    .ok (Settings.plain "h" 1 "d" "u" "p") := by
  have hfile : stocked.disk.file? stocked.directory (Credentials.pathFor stocked .null) =
      .ok (some ["r", Credentials.defaultName]) := rfl
  have hcontent : stocked.disk.read? ["r", Credentials.defaultName] =
      some (Text.Utf8.encode secret) := rfl
  have htext : Credentials.encode (Settings.plain "h" 1 "d" "u" "p") = .ok secret :=
    Credentials.encode_plain
  have hdigits : (Nat.toDigits 10 (1 : Int).natAbs).length ≤ Number.digitLimit := by decide
  have hload := Credentials.load_run hfile hcontent
  rw [Credentials.decode_encode hdigits _ htext] at hload
  exact congrArg Prod.fst hload

/-- A table is created, and the status is 0 although the pool fails to close. -/
theorem creation_cleaned_up_unclosed :
    invocation ["create-table", "users", "age:int"] =
        .ok ⟨false, .null, .createTable (.text "users") ["age:int"] false⟩ ∧
      stocked.world.next? .closeAll = some (.outside .runtime "pool is gone") ∧
      ∃ printed said w' events,
        launch ["create-table", "users", "age:int"] stocked = (.finished 0 printed said, w') ∧
        w'.world.journal = events ∧ CleanedUp stocked.world events := by
  have hi : invocation ["create-table", "users", "age:int"] =
      .ok ⟨false, .null, .createTable (.text "users") ["age:int"] false⟩ := rfl
  obtain ⟨exit, printed, said, w', events, hlaunch, -, hjournal, hcleaned, hexit, huntroubled⟩ :=
    creation_cleaned_up hi rfl stocked
  have hexecuted := (huntroubled (Settings.plain "h" 1 "d" "u" "p")
      (Column.createText (Value.text "users").toText ["age integer"])).mpr
    ⟨rfl, rfl, rfl, nofun, rfl, nofun, rfl, fun _ => rfl⟩
  obtain rfl := hexit.mpr ⟨_, _, Column.createTable_age rfl rfl, load_stocked, hexecuted⟩
  exact ⟨hi, rfl, printed, said, w', events, hlaunch, hjournal, hcleaned⟩

end TableAccess.Command
