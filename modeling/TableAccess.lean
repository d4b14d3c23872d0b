import TableAccess.Main
import TableAccess.Session
import TableAccess.Memory.Place
import TableAccess.Proofs.Predicate.Meaning
import TableAccess.Proofs.Collection.Reread
import TableAccess.Proofs.Client.Discipline
import TableAccess.Proofs.Client.Outcome
import TableAccess.Proofs.Statement.Names
import TableAccess.Proofs.Condition.Levels
import TableAccess.Proofs.Operator.Field
import TableAccess.Proofs.Statement.Bound
import TableAccess.Proofs.Collection.Routing
import TableAccess.Proofs.Predicate.Outline
import TableAccess.Proofs.Predicate.Lexemes
import TableAccess.Proofs.Statement.Parameters
import TableAccess.Proofs.Statement.Percent
import TableAccess.Proofs.Client.Sending
import TableAccess.Proofs.Text.Split
import TableAccess.Proofs.Operator.Grammar
import TableAccess.Proofs.Number.Figures
import TableAccess.Proofs.Statement.Documents
import TableAccess.Proofs.Statement.Literals
import TableAccess.Proofs.Client.Closing
import TableAccess.Proofs.Client.Keys
import TableAccess.Proofs.Collection.Result
import TableAccess.Proofs.Collection.Coroutine
import TableAccess.Proofs.Collection.Calls
import TableAccess.Proofs.Collection.Validation
import TableAccess.Proofs.Collection.Capture
import TableAccess.Proofs.Collection.Contents
import TableAccess.Proofs.Collection.Interchange
import TableAccess.Proofs.Collection.Editing
import TableAccess.Proofs.Client.Acceptance
import TableAccess.Proofs.Collection.Attachment
import TableAccess.Proofs.Collection.Blameless
import TableAccess.Proofs.Collection.Overlooked
import TableAccess.Proofs.Collection.Filling
import TableAccess.Proofs.Column.Table
import TableAccess.Proofs.Condition.Walks
import TableAccess.Proofs.Credentials.Restored
import TableAccess.Proofs.Command.Connecting
import TableAccess.Proofs.Operator.Path
import TableAccess.Proofs.Client.Arrangement
import TableAccess.Proofs.Registry.Names
import TableAccess.Proofs.Statement.Clauses
import TableAccess.Proofs.Session.Frame
import TableAccess.Proofs.Session.Construction
import TableAccess.Proofs.Registry.Calls
import TableAccess.Proofs.Registry.History
import TableAccess.Proofs.Statement.Decoded
import TableAccess.Proofs.Statement.Requoted
import TableAccess.Proofs.Predicate.Members
import TableAccess.Proofs.Collection.Identifiers
import TableAccess.Proofs.Number.Numerals
import TableAccess.Proofs.Statement.Assigned
import TableAccess.Proofs.Number.Scripts
import TableAccess.Proofs.Credentials.Addresses
import TableAccess.Proofs.Credentials.Loading
import TableAccess.Proofs.IgnoreFile.Repeated
import TableAccess.Proofs.IgnoreFile.Rules
import TableAccess.Proofs.Command.Creating
import TableAccess.Proofs.Column.Specs
import TableAccess.Proofs.Column.Body
