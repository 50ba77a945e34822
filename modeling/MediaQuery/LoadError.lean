/-!
# Errors of loading

Environments and options load from JSON texts. A text that does not load is
refused as a whole, with a message that says what was being loaded.
-/

namespace MediaQuery

/-- What could not be loaded. -/
inductive LoadError where
  | environment
  | options
  deriving DecidableEq, Repr

/-- What an error says. -/
def LoadError.message : LoadError → String
  | .environment => "parsing media feature values from JSON"
  | .options => "parsing media query match options"

end MediaQuery
