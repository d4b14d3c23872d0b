import TableAccess.Command.Grammar
import TableAccess.Client.Cache
import TableAccess.Column
import TableAccess.Credentials
import TableAccess.IgnoreFile

/-! The commands: `connect` keeps credentials, `disconnect` removes them, `create-table` makes a
table with the kept credentials, `help` explains. A command that fails says why and ends with
status 1; words that do not fit end the program with status 2 before anything is done. -/

namespace TableAccess.Command

/-- What the words ask for. -/
inductive Task where
  | help
  | connect (address database user password : Value)
  | disconnect
  | createTable (table : Value) (columns : List String) (dryRun : Bool)

structure Invocation where
  verbose : Bool
  credentials : Value
  task : Task

/-! ### Words -/

def mainGrammar : Grammar where
  flags := [helpFlag, ⟨["--credentials"], true⟩, ⟨["-v", "--verbose"], false⟩]
  positionals := [.rest]

def connectGrammar : Grammar where
  flags := [helpFlag, ⟨["--host"], true⟩, ⟨["--db"], true⟩, ⟨["-u", "--user"], true⟩,
    ⟨["-p", "--password"], true⟩]
  positionals := []

def plainGrammar : Grammar := ⟨[helpFlag], []⟩

def createGrammar : Grammar where
  flags := [helpFlag, ⟨["--dry-run"], false⟩]
  positionals := [.one, .oneOrMore]

/-- The last value given for an option, null for none. -/
def Parsed.value (p : Parsed) (name : String) : Value :=
  ((p.options.reverse.find? fun e => e.1 == name).map (·.2)).getD .null

def Parsed.has (p : Parsed) (name : String) : Bool := p.options.any fun e => e.1 == name

/-- The task that a command word and the words after it ask for, and the words left over. -/
def taskOf (words : List String) : Except Stop (Task × List String) :=
  match words with
  | [] => .ok (.help, [])
  | "help" :: rest => do
    let p ← plainGrammar.parse true rest
    return (.help, p.leftover)
  | "disconnect" :: rest => do
    let p ← plainGrammar.parse true rest
    return (.disconnect, p.leftover)
  | "connect" :: rest => do
    let p ← connectGrammar.parse true rest
    return (.connect (p.value "--host") (p.value "--db") (p.value "-u") (p.value "-p"), p.leftover)
  | name :: rest =>
    if name = "create-table" ∨ name = "createTable" then do
      let p ← createGrammar.parse true rest
      return (.createTable (Grammar.single (p.positionals.getD 0 [])) (p.positionals.getD 1 [])
        (p.has "--dry-run"), p.leftover)
    else .error .misuse

/-- Reads the words of a command line; words left over do not fit. -/
def invocation (argv : List String) : Except Stop Invocation := do
  let p ← mainGrammar.parse false argv
  let (task, leftover) ← taskOf (p.positionals.getD 0 [])
  if !(p.leftover ++ leftover).isEmpty then throw .misuse
  return ⟨p.has "-v", p.value "--credentials", task⟩

/-! ### Tasks -/

def programName : String := "pg-collections"

def helpText : String :=
  "\nAvailable commands:\n\n" ++
  "  connect                       Save database credentials (permanent)\n" ++
  "  disconnect                    Remove saved credentials\n" ++
  "  create-table | createTable    Create a table\n\n" ++
  "connect parameters:\n" ++
  "  --host      host:port\n" ++
  "  --db        database\n" ++
  "  --user      user\n" ++
  "  --password  password\n\n" ++
  "  Example: pg-collections connect --host localhost:5432 --db test_db --user root " ++
  "--password root\n\n" ++
  "create-table <tableName> <...columns>\n\n" ++
  "  column format:  name:type:[index]:[nullable]:[default]\n\n" ++
  "  name      Any\n" ++
  "  type      Any postgresql type (or shortcuts: timestampz, int, bool)\n" ++
  "  index     <unique|noindex> (optional)\n" ++
  "  nullable  <null|notnull> (optional)\n" ++
  "  default   <now()|true|false|...> (optional)\n\n" ++
  "  Example:\n" ++
  "    pg-collections create-table users \\\n" ++
  "      username:varchar(255):unique:notnull \\\n" ++
  "      password:varchar(255):noindex:notnull \\\n" ++
  "      age:int \\\n" ++
  "      details:jsonb \\\n" ++
  "      created:timestampz:noindex:null:now() \\\n" ++
  "      modified:timestampz:noindex:null:now()\n"

/-- Keeps the credentials, and keeps their file out of version control. -/
def connect (credentials address database user password : Value) : Act Workplace Unit := do
  let settings ← Act.settle (Settings.ofAddress address database user password)
  let path ← Credentials.path credentials
  Credentials.save path settings
  let _ ← IgnoreFile.ensure path none
  Workplace.say .info "Connected"

def disconnect (credentials : Value) : Act Workplace Unit := do
  let _ ← Credentials.remove (← Credentials.path credentials)
  Workplace.say .info "Disconnected"

/-- Runs a statement on a pool of one connection, which is closed in every case. -/
def runStatement (credentials : Value) (statement : String) : Act Workplace Unit := do
  let settings ← Credentials.load (← Credentials.path credentials)
  let order : Client.Order := ⟨settings.entries, settings.entries, .int 1, .int 1⟩
  let id ← Workplace.onWorld (Client.create order none)
  let outcome ← Act.attempt (Workplace.onWorld (Client.execute id (.text statement) .null))
  if ← Workplace.onWorld (Client.close id) then
    let shown := ((← get).world.clients[id]?.map fun c => c.toText fun v => v).getD ""
    Workplace.say .error ("Error closing connection pool for " ++ shown)
  let _ ← Act.settle outcome

def createTable (credentials table : Value) (columns : List String) (dryRun : Bool) :
    Act Workplace Unit := do
  let statement ← Act.settle (Column.createTable table (.list (columns.map .text)))
  if dryRun then Workplace.print statement
  else
    Workplace.say .debug ("Running: " ++ statement)
    runStatement credentials statement
    Workplace.say .info "Done."

def run (i : Invocation) : Act Workplace Unit :=
  match i.task with
  | .help => Workplace.print helpText
  | .connect address database user password =>
    connect i.credentials address database user password
  | .disconnect => disconnect i.credentials
  | .createTable table columns dryRun => createTable i.credentials table columns dryRun

/-- Runs an invocation and gives its status. -/
def status (i : Invocation) : StateM Workplace Nat := do
  match ← run i with
  | .ok () => return 0
  | .error e =>
    let _ ← Workplace.say .error e.message
    let _ ← Workplace.say .error ("Please read the documentation : " ++ programName ++ " help")
    return 1

/-- How a command line ends: before it does anything, or with a status and what it printed and
said. -/
inductive Outcome where
  | stopped (code : Nat)
  | finished (code : Nat) (printed said : String)

def launch (argv : List String) : StateM Workplace Outcome := do
  modify fun s => { s with messages := [], printed := "" }
  match invocation argv with
  | .error .help => return .stopped 0
  | .error .misuse => return .stopped 2
  | .ok i =>
    let code ← status i
    let s ← get
    return .finished code s.printed (s.shown i.verbose)

end TableAccess.Command
