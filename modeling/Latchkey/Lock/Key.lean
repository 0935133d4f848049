/-!
# Lock keys

All lock keys carry the same hash tag, so in a sharded store they all live on one node.
-/

namespace Latchkey

/-- The hash tag shared by all lock keys. -/
def lockTag : String := "redlock"

/-- The store key of a lock. -/
def lockKey (name : String) : String := "\x7b" ++ lockTag ++ "\x7d_" ++ name

end Latchkey
