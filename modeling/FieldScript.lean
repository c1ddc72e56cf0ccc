import FieldScript.Capability
import FieldScript.Composite.Extract
import FieldScript.Composite.Layout
import FieldScript.Composite.Region
import FieldScript.Decimal.Layout
import FieldScript.Decimal.Read
import FieldScript.Decimal.Shortest
import FieldScript.Diagnostic
import FieldScript.Entries
import FieldScript.Eval.ArrayMethod
import FieldScript.Eval.Builtin
import FieldScript.Eval.Call
import FieldScript.Eval.Callback
import FieldScript.Eval.Comp
import FieldScript.Eval.Convert
import FieldScript.Eval.Evaluate
import FieldScript.Eval.Fault
import FieldScript.Eval.Invoke
import FieldScript.Eval.Number
import FieldScript.Eval.Operator
import FieldScript.Eval.Property
import FieldScript.Eval.Schedule
import FieldScript.Eval.Store
import FieldScript.Eval.TextMethod
import FieldScript.Eval.Value
import FieldScript.Generate
import FieldScript.Host.Api
import FieldScript.Host.Script
import FieldScript.Json.Basic
import FieldScript.Json.Printer
import FieldScript.Json.Reader
import FieldScript.Locals
import FieldScript.Module
import FieldScript.NameEnv
import FieldScript.Prelude
import FieldScript.Proofs.Composite.Carried
import FieldScript.Proofs.Composite.Courses
import FieldScript.Proofs.Composite.Excision
import FieldScript.Proofs.Composite.FieldNames
import FieldScript.Proofs.Composite.Joined
import FieldScript.Proofs.Composite.Merged
import FieldScript.Proofs.Composite.Partition
import FieldScript.Proofs.Eval.Accounts
import FieldScript.Proofs.Eval.Agreements
import FieldScript.Proofs.Eval.Assignments
import FieldScript.Proofs.Eval.Bodies
import FieldScript.Proofs.Eval.Borrows
import FieldScript.Proofs.Eval.Branches
import FieldScript.Proofs.Eval.Calls
import FieldScript.Proofs.Eval.Conflicts
import FieldScript.Proofs.Eval.Conversions
import FieldScript.Proofs.Eval.Counts
import FieldScript.Proofs.Eval.Courses
import FieldScript.Proofs.Eval.Crowds
import FieldScript.Proofs.Eval.Declarations
import FieldScript.Proofs.Eval.Drive
import FieldScript.Proofs.Eval.Finish
import FieldScript.Proofs.Eval.Gathered
import FieldScript.Proofs.Eval.HeldTexts
import FieldScript.Proofs.Eval.Inherited
import FieldScript.Proofs.Eval.Iterations
import FieldScript.Proofs.Eval.JoinedMaps
import FieldScript.Proofs.Eval.Joins
import FieldScript.Proofs.Eval.Links
import FieldScript.Proofs.Eval.Local
import FieldScript.Proofs.Eval.MappedRuns
import FieldScript.Proofs.Eval.Moves
import FieldScript.Proofs.Eval.Orderly
import FieldScript.Proofs.Eval.Pairing
import FieldScript.Proofs.Eval.Parts
import FieldScript.Proofs.Eval.Queries
import FieldScript.Proofs.Eval.QueryTexts
import FieldScript.Proofs.Eval.Reads
import FieldScript.Proofs.Eval.Routines
import FieldScript.Proofs.Eval.Scene
import FieldScript.Proofs.Eval.Settlement
import FieldScript.Proofs.Eval.Sorting
import FieldScript.Proofs.Eval.Steps
import FieldScript.Proofs.Eval.Stored
import FieldScript.Proofs.Eval.Strides
import FieldScript.Proofs.Eval.Targets
import FieldScript.Proofs.Eval.Writes
import FieldScript.Proofs.Eval.Yields
import FieldScript.Proofs.Module.AsyncUnits
import FieldScript.Proofs.Module.Failures
import FieldScript.Proofs.Parse.AssignedTexts
import FieldScript.Proofs.Parse.Climbing
import FieldScript.Proofs.Parse.Consumes
import FieldScript.Proofs.Parse.Covers
import FieldScript.Proofs.Parse.Draws
import FieldScript.Proofs.Parse.Fenced
import FieldScript.Proofs.Parse.Named
import FieldScript.Proofs.Parse.NamedParts
import FieldScript.Proofs.Parse.Operands
import FieldScript.Proofs.Parse.ReadBack
import FieldScript.Proofs.Parse.ReadBindings
import FieldScript.Proofs.Parse.ReadParts
import FieldScript.Proofs.Parse.ReadStatements
import FieldScript.Proofs.Parse.ReadTargets
import FieldScript.Proofs.Parse.Reads
import FieldScript.Proofs.Parse.Sound
import FieldScript.Proofs.Parse.SoundParts
import FieldScript.Proofs.Parse.Spans
import FieldScript.Proofs.Parse.TwinParts
import FieldScript.Proofs.Parse.TwinRuns
import FieldScript.Proofs.Parse.Twins
import FieldScript.Proofs.Parse.TwoReadings
import FieldScript.Proofs.Render.AwaitMark
import FieldScript.Proofs.Render.Laid
import FieldScript.Proofs.Render.Layout
import FieldScript.Proofs.Render.Nested
import FieldScript.Proofs.Render.RoundTrip
import FieldScript.Proofs.Render.Spelled
import FieldScript.Proofs.Render.Written
import FieldScript.Proofs.Schema.Faults
import FieldScript.Proofs.Schema.Lexemes
import FieldScript.Proofs.Schema.Numbers
import FieldScript.Proofs.Schema.Places
import FieldScript.Proofs.Schema.Reading
import FieldScript.Proofs.Schema.Shapes
import FieldScript.Proofs.Settle.Awaited
import FieldScript.Proofs.Settle.AwaitedCalls
import FieldScript.Proofs.Settle.AwaitedParts
import FieldScript.Proofs.Settle.CallOrder
import FieldScript.Proofs.Settle.Conservation
import FieldScript.Proofs.Settle.Conserves
import FieldScript.Proofs.Settle.EndlessValues
import FieldScript.Proofs.Settle.Follow
import FieldScript.Proofs.Settle.Helpers
import FieldScript.Proofs.Settle.Insertions
import FieldScript.Proofs.Settle.KeptCalls
import FieldScript.Proofs.Settle.LateCalls
import FieldScript.Proofs.Settle.LegibleBodies
import FieldScript.Proofs.Settle.MappedCalls
import FieldScript.Proofs.Settle.MarkedFunctions
import FieldScript.Proofs.Settle.Marks
import FieldScript.Proofs.Settle.Meaning
import FieldScript.Proofs.Settle.PlainBodies
import FieldScript.Proofs.Settle.Scopes
import FieldScript.Proofs.Settle.Shapes
import FieldScript.Proofs.Settle.SkippedPositions
import FieldScript.Proofs.Settle.Stays
import FieldScript.Proofs.Settle.Temporaries
import FieldScript.Proofs.Settle.Untouched
import FieldScript.Proofs.Settle.Walk
import FieldScript.Proofs.Source.Positions
import FieldScript.Proofs.Syntax.Bare
import FieldScript.Proofs.Syntax.Census
import FieldScript.Proofs.Syntax.Dotted
import FieldScript.Proofs.Syntax.Legible
import FieldScript.Proofs.Syntax.Mentions
import FieldScript.Proofs.Syntax.Moved
import FieldScript.Proofs.Syntax.Nodes
import FieldScript.Proofs.Syntax.Normal
import FieldScript.Proofs.Syntax.OwnAwaits
import FieldScript.Proofs.Syntax.SpanTree
import FieldScript.Proofs.Syntax.Zones
import FieldScript.Proofs.Text.Bytes
import FieldScript.Proofs.Text.Percent
import FieldScript.Proofs.Token.Fence
import FieldScript.Proofs.Token.Lexeme
import FieldScript.Proofs.Token.Numbers
import FieldScript.Proofs.Token.Places
import FieldScript.Proofs.Token.Streams
import FieldScript.Proofs.Token.Texts
import FieldScript.Proofs.Token.Tiling
import FieldScript.Proofs.Validate.FreeNames
import FieldScript.Render
import FieldScript.Schema.Check
import FieldScript.Schema.Document
import FieldScript.Schema.Grammar
import FieldScript.Schema.Lexeme
import FieldScript.Schema.Lexer
import FieldScript.Schema.Model
import FieldScript.Schema.Token
import FieldScript.Service
import FieldScript.Settle.Basic
import FieldScript.Settle.Tree
import FieldScript.Source
import FieldScript.Syntax.Basic
import FieldScript.Syntax.Fault
import FieldScript.Syntax.Operator
import FieldScript.Syntax.Parse
import FieldScript.Syntax.Parse.Basic
import FieldScript.Syntax.Parse.Expression
import FieldScript.Syntax.Parse.Pattern
import FieldScript.Syntax.Parse.Statement
import FieldScript.Text.Case
import FieldScript.Text.Class
import FieldScript.Text.Digest
import FieldScript.Text.Offset
import FieldScript.Text.Percent
import FieldScript.Text.Quoted
import FieldScript.Text.Search
import FieldScript.Text.Table.Case
import FieldScript.Text.Table.Class
import FieldScript.Token.Basic
import FieldScript.Token.Scan
import FieldScript.Validate
