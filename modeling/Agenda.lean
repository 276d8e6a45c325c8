import Agenda.Calendar.Event
import Agenda.Calendar.Line
import Agenda.Calendar.Text
import Agenda.CommandLine.Arguments
import Agenda.CommandLine.Run
import Agenda.Conversion.Engine
import Agenda.Conversion.Error
import Agenda.Data
import Agenda.Document.Form
import Agenda.Document.Layout
import Agenda.Document.Model
import Agenda.Document.Schema
import Agenda.Document.Text
import Agenda.File.Pattern
import Agenda.File.Search
import Agenda.File.System
import Agenda.Homework
import Agenda.Json.Reader
import Agenda.Json.SyntaxError
import Agenda.Json.Value
import Agenda.Json.Writer
import Agenda.Main
import Agenda.Markup
import Agenda.Number
import Agenda.Number.Double
import Agenda.Number.Shortest
import Agenda.Proofs.Calendar.Alarm
import Agenda.Proofs.Calendar.Entries
import Agenda.Proofs.Calendar.Folding
import Agenda.Proofs.Calendar.Name
import Agenda.Proofs.Calendar.Outline
import Agenda.Proofs.Calendar.Reading
import Agenda.Proofs.Calendar.Recovery
import Agenda.Proofs.Calendar.Reminder
import Agenda.Proofs.Calendar.Stamps
import Agenda.Proofs.Calendar.Trigger
import Agenda.Proofs.CommandLine.Calendar
import Agenda.Proofs.CommandLine.Failing
import Agenda.Proofs.CommandLine.Identifiers
import Agenda.Proofs.CommandLine.Normalize
import Agenda.Proofs.CommandLine.Reshuffling
import Agenda.Proofs.CommandLine.Work
import Agenda.Proofs.Conversion.Acceptance
import Agenda.Proofs.Conversion.Assembly
import Agenda.Proofs.Conversion.Blame
import Agenda.Proofs.Conversion.Missing
import Agenda.Proofs.Conversion.Normalize
import Agenda.Proofs.Conversion.Object
import Agenda.Proofs.Conversion.Opposite
import Agenda.Proofs.Conversion.Outcome
import Agenda.Proofs.Conversion.Places
import Agenda.Proofs.Conversion.Reordering
import Agenda.Proofs.Conversion.Shape
import Agenda.Proofs.Conversion.Steps
import Agenda.Proofs.Conversion.Surplus
import Agenda.Proofs.Conversion.Walk
import Agenda.Proofs.Document.Accepted
import Agenda.Proofs.Document.Agreement
import Agenda.Proofs.Document.Fit
import Agenda.Proofs.Document.Instants
import Agenda.Proofs.Document.Meaning
import Agenda.Proofs.Document.Mismatch
import Agenda.Proofs.Document.Normalize
import Agenda.Proofs.Document.Parts
import Agenda.Proofs.Document.Passing
import Agenda.Proofs.Document.Path
import Agenda.Proofs.Document.Reading
import Agenda.Proofs.Document.Registry
import Agenda.Proofs.Document.Rendering
import Agenda.Proofs.Document.RoundTrip
import Agenda.Proofs.Document.TwoWays
import Agenda.Proofs.Document.Types
import Agenda.Proofs.File.Keeping
import Agenda.Proofs.Homework
import Agenda.Proofs.Json.Accepted
import Agenda.Proofs.Json.Number
import Agenda.Proofs.Json.Numeral
import Agenda.Proofs.Json.Pointer
import Agenda.Proofs.Json.Spelled
import Agenda.Proofs.Json.String
import Agenda.Proofs.Json.Written
import Agenda.Proofs.Lists
import Agenda.Proofs.Markup
import Agenda.Proofs.Number.Interval
import Agenda.Proofs.Number.Text
import Agenda.Proofs.Renderings
import Agenda.Proofs.Result
import Agenda.Proofs.Schema.Acyclic
import Agenda.Proofs.Schema.Addresses
import Agenda.Proofs.Schema.Definitions
import Agenda.Proofs.Schema.Exported
import Agenda.Proofs.Schema.Parts
import Agenda.Proofs.Schema.Required
import Agenda.Proofs.Schema.Sound
import Agenda.Proofs.Schema.Validation
import Agenda.Proofs.Table
import Agenda.Proofs.Text.Numeral
import Agenda.Proofs.Time.Accepted
import Agenda.Proofs.Time.Days
import Agenda.Proofs.Time.Forms
import Agenda.Proofs.Time.Grammar
import Agenda.Proofs.Time.Scanning
import Agenda.Proofs.Time.Spelling
import Agenda.Proofs.Time.Stamp
import Agenda.Proofs.Value
import Agenda.Schema.Basic
import Agenda.Schema.Describe
import Agenda.Schema.Export
import Agenda.Schema.Registry
import Agenda.Schema.Renaming
import Agenda.Table
import Agenda.Text.Blank
import Agenda.Text.Bytes
import Agenda.Text.Invisible
import Agenda.Text.Numeral
import Agenda.Text.Quoted
import Agenda.Time.Date
import Agenda.Time.Instant
import Agenda.Time.Reader
import Agenda.Time.Scanner
import Agenda.Time.Writer
import Agenda.Time.Zone
import Agenda.Time.ZoneTable
import Agenda.Proofs.Conversion.Renaming
import Agenda.Proofs.Conversion.Presence
import Agenda.Proofs.Schema.Issues
import Agenda.Proofs.Conversion.Extension
