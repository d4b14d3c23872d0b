import TableAccess.Client

/-! The cache of clients: one open client for each set of settings and pool sizes. The key does not
depend on the order of the settings; a setting without a hash is represented by its text, as far as it
is its type that has none. A setting that fails in another way when it is asked for its hash keeps its
place in the key (`settingsKey`), and whoever makes the key fails as it does (`cacheKey`). -/

namespace TableAccess.Client

/-- Whether a setting is represented by its text. -/
def isSpelled (v : Value) : Bool :=
  match v.hashed with
  | .ok () => false
  | .error e => e.family == .type

/-- A setting as a part of a key. -/
def keyPart (v : Value) : Value := if isSpelled v then .text v.toLiteral else v

/-- The settings in the order of their names, as pairs. -/
def settingsKey (settings : Entries) : List Value :=
  (settings.mergeSort fun a b => decide (a.1 ≤ b.1)).map fun e =>
    .tuple [.text e.1, keyPart e.2]

/-- Makes the key of settings, each of which is asked for its hash in the order of the names. -/
def cacheKey (settings : Entries) : Except Failure (List Value) := do
  Value.hashedAll (settingsKey settings)
  return settingsKey settings

/-- What a caller asks for: the settings of the connections and the sizes of the pool. What the
client keeps of the settings for its text may change when it is read again. -/
structure Order where
  settings : Entries
  kept : Entries
  smallest : Value
  largest : Value

namespace Order

/-- An order for settings as they are now, of which these are kept. -/
def ofEntries (entries kept : Entries) : Order where
  settings := (entries.erase "minconn").erase "maxconn"
  kept := kept
  smallest := (entries.get? "minconn").getD (.int 1)
  largest := (entries.get? "maxconn").getD (.int 10)

def key (o : Order) : Value :=
  .tuple (settingsKey o.settings ++
    [.tuple [.text "minconn", o.smallest], .tuple [.text "maxconn", o.largest]])

/-- A setting that no client goes without. -/
def orDefault (settings : Entries) (name : String) : Value :=
  (settings.get? name).getD (.text "postgres")

/-- The settings that a pool is made with: database and user always, password, host and port only
when they are not null. -/
def poolSettings (o : Order) : Entries :=
  let optional := ["password", "host", "port"]
  let given : Entries := o.settings.filter fun e => !(optional.contains e.1 && e.2.isNull)
  ((given.put "database" (orDefault o.settings "database")).put "user"
    (orDefault o.settings "user")).mergeSort fun a b => decide (a.1 ≤ b.1)

/-- The client of an order that has been carried out. -/
def client (o : Order) (key? : Option Value) : Client where
  database := orDefault o.kept "database"
  user := orDefault o.kept "user"
  host := o.kept.get "host"
  port := o.kept.get "port"
  key? := key?
  closed := false

end Order

theorem Order.isKey_key_iff (o : Order) : o.key.isKey = true ↔
    Value.areKeys (settingsKey o.settings) = true ∧ o.smallest.isKey = true ∧
      o.largest.isKey = true := by
  rw [key, Value.isKey, Value.areKeys_iff, List.forall_mem_append, ← Value.areKeys_iff]
  simp [Value.isKey, Value.areKeys]

theorem cacheKey_eq_ok_iff {settings : Entries} {key : List Value} :
    cacheKey settings = .ok key ↔
      Value.areKeys (settingsKey settings) = true ∧ settingsKey settings = key := by
  rw [← Value.hashedAll_eq_ok_iff, cacheKey]
  cases Value.hashedAll (settingsKey settings) <;> simp [bind, Except.bind, pure, Except.pure]

/-- Makes a client with a pool of its own. -/
def create (o : Order) (key? : Option Value) : Act World Nat := do
  World.step (.pool o.smallest o.largest o.poolSettings) .pool
  let id := (← get).clients.length
  modify fun w => { w with clients := w.clients ++ [o.client key?] }
  return id

def lookup (key : Value) : List (Value × Nat) → Option Nat
  | [] => none
  | (k, id) :: rest => if k.same key then some id else lookup key rest

/-- Stores a client under a key, in the place of the one that was there. -/
def store (key : Value) (id : Nat) : List (Value × Nat) → List (Value × Nat)
  | [] => [(key, id)]
  | (k, other) :: rest =>
    if k.same key then (k, id) :: rest else (k, other) :: store key id rest

/-- Makes a client and stores it under its key. -/
def createCached (o : Order) : Act World Nat := do
  let id ← create o (some o.key)
  modify fun w => { w with cache := store o.key id w.cache }
  return id

/-- The open client for these settings, made if there is none. The sizes of the pool are asked for
their hashes after the settings, and have to have them. -/
def shared (o : Order) : Act World Nat := do
  let _ ← Act.settle (cacheKey o.settings)
  Act.settle o.key.hashed
  match lookup o.key (← get).cache with
  | some id => if ← isClosed id then createCached o else return id
  | none => createCached o

/-- Empties the cache and closes the clients that were in it. -/
def closeCached : Act World Unit := do
  let ids := (← get).cache.map (·.2)
  modify fun w => { w with cache := [] }
  ids.forM fun id => do
    let _ ← close id

/-- A client as a text: user, host, port and database, as `read` finds them. -/
def toText (read : Value → Value) (c : Client) : String :=
  let host := if (read c.host).truthy then (read c.host).toText else ""
  let port := if (read c.port).truthy then ":" ++ (read c.port).toText else ""
  "<PSQLClient " ++ (read c.user).toText ++ "@" ++ host ++ port ++ "/" ++
    (read c.database).toText ++ ">"

end TableAccess.Client
