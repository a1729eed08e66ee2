
namespace ComponentDoc

inductive Dialect
  /-- The script exports an object of options by default. -/
  | v2
  /-- The top-level statements of the script are the declarations. -/
  | v3
  deriving DecidableEq, Repr

namespace Dialect

def number : Dialect → Nat
  | v2 => 2
  | v3 => 3

end Dialect

end ComponentDoc
