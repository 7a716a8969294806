/-
# Sessions

A session is what a date field holds: its configuration, the catalogue of date properties that it
looks up, and the ranges that were accepted, in order.  Ranges are only ever added at the end, and
an input that is refused changes nothing.  The catalogue may change between two questions; every
answer is about the catalogue as it is then.
-/

import DateFacet.RangeReader
import DateFacet.Constraint

namespace DateFacet

/-- The state of a date field. -/
structure Session where
  config : Config
  catalogue : Catalogue
  values : List Range

namespace Session

open Sparql (Pattern)

/-- A session that has accepted nothing. -/
def start (config : Config) (catalogue : Catalogue) : Session := ⟨config, catalogue, []⟩

/-- The text names an instant. -/
def isText (s : Session) (text : String) : Bool := Instant.isText s.config.slashes text

/-- The range of a raw input, which is not accepted by this alone. -/
def rangeOf (s : Session) (input : RawInput) : Except ValidationError Range :=
  s.config.reader.range input

/-- The session that has accepted a range. -/
def accept (s : Session) (r : Range) : Session := { s with values := s.values ++ [r] }

/-- The label of an accepted range. -/
def label? (s : Session) (index : Nat) : Option String :=
  s.values[index]?.map fun r => s.config.phrases.join r.startLabel r.stopLabel

/-- The patterns of an accepted range for a class. -/
def patterns (s : Session) (index : Nat) (className subject object : String) :
    Except CompileError (List Pattern) :=
  match s.values[index]? with
  | some r => r.patterns (s.catalogue.resolve className) subject object
  | none => .error (.indexOutOfRange index s.values.length)

/-- The patterns of every accepted range for a class; the first failure is that of all. -/
def allPatterns (s : Session) (className subject object : String) :
    Except CompileError (List (List Pattern)) :=
  s.values.mapM fun r => r.patterns (s.catalogue.resolve className) subject object

end Session

/-- What a session is asked to do. -/
inductive Session.Step
  /-- Accept two texts. -/
  | add (start stop : String)
  /-- Accept a raw input. -/
  | addInput (input : RawInput)
  /-- Show the range of two texts. -/
  | normalize (start stop : String)
  /-- Does a text name an instant? -/
  | isText (text : String)
  /-- The label of an accepted range. -/
  | label (index : Nat)
  /-- All accepted ranges. -/
  | values
  /-- Which accepted ranges contain an instant? -/
  | contains (t : Instant)
  /-- Must the query leave out its own triple for a class? -/
  | isBlocking (className : String)
  /-- The properties of a class, none if it is unknown. -/
  | properties (className : String)
  /-- The granularity. -/
  | granularity
  /-- The configuration. -/
  | config
  /-- The patterns of an accepted range. -/
  | patterns (index : Nat) (className subject object : String)
  /-- The patterns of all accepted ranges. -/
  | allPatterns (className subject object : String)
  /-- Give a class its properties. -/
  | insert (className : String) (properties : Properties)
  /-- Forget a class. -/
  | erase (className : String)
  /-- The properties of a class, if it is known. -/
  | get (className : String)

/-- What a session answers. -/
inductive Session.Reply
  | range (r : Range)
  | flag (value : Bool)
  | flags (values : List Bool)
  | label (text : Option String)
  | ranges (rs : List Range)
  | properties (p : Option Properties)
  | granularity (g : Granularity)
  | config (c : Config)
  | patterns (ps : List Sparql.Pattern)
  | allPatterns (ps : List (List Sparql.Pattern))

namespace Session

/-- Accepts the range of a raw input, or leaves the session as it is. -/
def acceptInput (s : Session) (input : RawInput) : Session × Except TemporalError Reply :=
  match s.rangeOf input with
  | .ok r => (s.accept r, .ok (.range r))
  | .error cause => (s, .error (.validation cause))

/-- The answer to a question, which leaves the session as it is. -/
def ask (s : Session) (answer : Except TemporalError Reply) :
    Session × Except TemporalError Reply :=
  (s, answer)

/-- One step of a session. -/
def step (s : Session) : Step → Session × Except TemporalError Reply
  | .add start stop => s.acceptInput ⟨some start, some stop⟩
  | .addInput input => s.acceptInput input
  | .normalize start stop =>
    s.ask (((s.rangeOf ⟨some start, some stop⟩).map .range).mapError .validation)
  | .isText text => s.ask (.ok (.flag (s.isText text)))
  | .label index => s.ask (.ok (.label (s.label? index)))
  | .values => s.ask (.ok (.ranges s.values))
  | .contains t => s.ask (.ok (.flags (s.values.map (·.contains t))))
  | .isBlocking className => s.ask (.ok (.flag (s.catalogue.resolve className).isBlocking))
  | .properties className => s.ask (.ok (.properties (some (s.catalogue.resolve className))))
  | .granularity => s.ask (.ok (.granularity s.config.granularity))
  | .config => s.ask (.ok (.config s.config))
  | .patterns index className subject object =>
    s.ask (((s.patterns index className subject object).map .patterns).mapError .compile)
  | .allPatterns className subject object =>
    s.ask (((s.allPatterns className subject object).map .allPatterns).mapError .compile)
  | .insert className p =>
    ({ s with catalogue := s.catalogue.insert className p },
      .ok (.properties (s.catalogue.get? className)))
  | .erase className =>
    ({ s with catalogue := s.catalogue.erase className },
      .ok (.properties (s.catalogue.get? className)))
  | .get className => s.ask (.ok (.properties (s.catalogue.get? className)))

/-- The session after steps in order. -/
def run (s : Session) (steps : List Step) : Session :=
  steps.foldl (fun s next => (s.step next).1) s

end Session
end DateFacet
