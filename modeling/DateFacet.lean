import DateFacet.ClockTime
import DateFacet.Session
import DateFacet.Sparql.Stored
import DateFacet.Stored
import DateFacet.Proofs.DayCount
import DateFacet.Proofs.DayOrder
import DateFacet.Proofs.Numeral
import DateFacet.Proofs.Scanning
import DateFacet.Proofs.FormReading
import DateFacet.Proofs.Chronology
import DateFacet.Proofs.Positions
import DateFacet.Proofs.CountedSeconds
import DateFacet.Proofs.Shifting
import DateFacet.Proofs.RoundTrip
import DateFacet.Proofs.DateMeaning
import DateFacet.Proofs.Offsets
import DateFacet.Proofs.Retyping
import DateFacet.Proofs.SideLabels
import DateFacet.Proofs.Solutions
import DateFacet.Proofs.ConstraintMeaning
import DateFacet.Proofs.Outcome
import DateFacet.Proofs.RangeWindow
import DateFacet.Proofs.RangeOutcome
import DateFacet.Proofs.Containment
import DateFacet.Proofs.DateVariables
import DateFacet.Proofs.AcceptedValues
import DateFacet.Proofs.CurrentProperties
import DateFacet.Proofs.JsonText
import DateFacet.Proofs.StoredRanges
import DateFacet.Proofs.RangeKey
import DateFacet.Proofs.ConstraintShape
import DateFacet.Proofs.HeldReadings
import DateFacet.Proofs.StoredPatterns
import DateFacet.Proofs.TermReading
import DateFacet.Proofs.ConditionReading
import DateFacet.Proofs.Answers
import DateFacet.Proofs.PatternReading
import DateFacet.Proofs.Terminals
import DateFacet.Proofs.NodeTokens
import DateFacet.Proofs.DerivedNames
import DateFacet.Proofs.LiteralText
import DateFacet.Proofs.Precedence
import DateFacet.Proofs.SlashOrders
import DateFacet.Proofs.ConstraintOutcome
import DateFacet.Proofs.Entries
import DateFacet.Proofs.MachineCalendar
import DateFacet.Proofs.MachineInstants
import DateFacet.Proofs.Timekeeping
import DateFacet.Proofs.ObtainedInstants
import DateFacet.Proofs.JsonLayout
import DateFacet.Proofs.StoredConfigs
import DateFacet.Proofs.Pieces
import DateFacet.Proofs.TermListing
