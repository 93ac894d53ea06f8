/-!
# Diagnostics

How a failure is reported: a code that names its kind, a message, and sometimes an advice.

## Main definitions

* `Diagnostic`: a report
-/

namespace Michelson

/-- **A report of a failure.** The code is a path of words that names the kind of failure. -/
structure Diagnostic where
  code : String
  message : String
  help : Option String := none
  deriving DecidableEq, Repr

end Michelson
