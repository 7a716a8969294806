/-
# What can go wrong

Three kinds of errors: a value that the user typed is not accepted, a range cannot be compiled
into a pattern, or a configuration cannot be loaded.  Each is a cause with the texts it is about;
`message` words it.  Only an input without any date, and one with its dates in the wrong order,
are for the user to see and mend.
-/

import DateFacet.Instant.Fault

namespace DateFacet

/-- Why an input is not accepted. -/
inductive ValidationError
  /-- Neither side is a date. -/
  | invalidDate (start stop : String)
  /-- The start comes after the stop. -/
  | rangeOrder (start stop : String)
  /-- A text or a group of fields names no instant. -/
  | invalidInstant (fault : Instant.Fault)
  /-- A named field has a malformed value. -/
  | invalidField (field reason : String)
  deriving DecidableEq

/-- Why a range cannot be compiled. -/
inductive CompileError
  /-- The range has no bound. -/
  | emptyRange
  /-- A text is no name of a variable. -/
  | invalidVariable (name : String)
  /-- A text is neither an IRI nor a prefixed name. -/
  | invalidIri (iri : String)
  /-- No value was accepted at an index. -/
  | indexOutOfRange (index count : Nat)
  deriving DecidableEq

/-- Why a configuration cannot be loaded. -/
inductive ConfigError
  /-- The text is no configuration. -/
  | parse (message : String)
  /-- The file cannot be read. -/
  | io (path message : String)
  /-- A text names no granularity. -/
  | unknownGranularity (value : String)
  deriving DecidableEq

/-- Any error of the library. -/
inductive TemporalError
  | validation (cause : ValidationError)
  | compile (cause : CompileError)
  | config (cause : ConfigError)
  deriving DecidableEq

/-- The wording of a refused input. -/
def ValidationError.message : ValidationError → String
  | .invalidDate start stop => s!"No valid date received (start: '{start}', stop: '{stop}')"
  | .rangeOrder start stop => s!"Invalid range: start ({start}) is after stop ({stop})"
  | .invalidInstant fault => s!"Invalid instant: {fault.reason}"
  | .invalidField field reason => s!"Invalid field '{field}': {reason}"

/-- The wording of a failed compilation. -/
def CompileError.message : CompileError → String
  | .emptyRange => "Cannot compile a range with neither a start nor a stop bound"
  | .invalidVariable name => s!"Invalid variable name '{name}'"
  | .invalidIri iri => s!"Invalid IRI '{iri}'"
  | .indexOutOfRange index count => s!"No accepted value at index {index} (holding {count})"

/-- The wording of a failed load. -/
def ConfigError.message : ConfigError → String
  | .parse message => s!"Failed to parse configuration: {message}"
  | .io path message => s!"Failed to read configuration from {path}: {message}"
  | .unknownGranularity value => s!"Unknown granularity '{value}' (expected 'day' or 'year')"

namespace TemporalError

/-- The wording of an error, with its kind in front. -/
def message : TemporalError → String
  | .validation cause => s!"Validation error: {cause.message}"
  | .compile cause => s!"Compile error: {cause.message}"
  | .config cause => s!"Configuration error: {cause.message}"

/-- The error is about an input. -/
def isValidation : TemporalError → Bool
  | .validation _ => true
  | _ => false

/-- The error is about a compilation. -/
def isCompile : TemporalError → Bool
  | .compile _ => true
  | _ => false

/-- The error is about a configuration. -/
def isConfig : TemporalError → Bool
  | .config _ => true
  | _ => false

/-- The user can mend it by typing something else. -/
def isUserFacing : TemporalError → Bool
  | .validation (.invalidDate _ _) => true
  | .validation (.rangeOrder _ _) => true
  | _ => false

end TemporalError
end DateFacet
