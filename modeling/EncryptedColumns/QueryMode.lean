/-!
# Query modes

The families of comparison that the proxy answers. Each has an index that a column
must carry and a function that stands around both sides of a comparison.
-/

namespace EncryptedColumns

inductive QueryMode where
  | unique
  | matching
  | ore
  | steVec
  deriving DecidableEq

namespace QueryMode

/-- All modes, in the order in which indexes are set up. -/
def all : List QueryMode := [.unique, .matching, .ore, .steVec]

def indexName : QueryMode → String
  | .unique => "unique"
  | .matching => "match"
  | .ore => "ore"
  | .steVec => "ste_vec"

def sqlFunction : QueryMode → String
  | .unique => "cs_unique_v1"
  | .matching => "cs_match_v1"
  | .ore => "cs_ore_64_8_v1"
  | .steVec => "cs_ste_vec_v1"

end QueryMode

end EncryptedColumns
