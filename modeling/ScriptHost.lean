import ScriptHost.Bytecode.Builtin
import ScriptHost.Bytecode.Instr
import ScriptHost.Bytecode.Program
import ScriptHost.Coalesce.Gather
import ScriptHost.Coalesce.Report
import ScriptHost.Coalesce.Source
import ScriptHost.Coalesce.Watch
import ScriptHost.CommandLine.Command
import ScriptHost.CommandLine.Grammar
import ScriptHost.CommandLine.Help
import ScriptHost.CommandLine.Run
import ScriptHost.Compile.Capacity
import ScriptHost.Compile.Catalog
import ScriptHost.Compile.Check
import ScriptHost.Compile.Compiler
import ScriptHost.Compile.Emit
import ScriptHost.Compile.Literals
import ScriptHost.Compile.Slots
import ScriptHost.Diagnostic
import ScriptHost.Engine.Basic
import ScriptHost.Engine.Config
import ScriptHost.Engine.Queue
import ScriptHost.Engine.Registry
import ScriptHost.Engine.Scheduler
import ScriptHost.Engine.Worker
import ScriptHost.Files.Basic
import ScriptHost.Files.Tree
import ScriptHost.Http.MediaType
import ScriptHost.Http.Message
import ScriptHost.Http.Percent
import ScriptHost.Http.Service
import ScriptHost.Http.Target
import ScriptHost.Instant
import ScriptHost.Json.Basic
import ScriptHost.Json.Decoder
import ScriptHost.Json.Escape
import ScriptHost.Json.Flaw
import ScriptHost.Json.Number
import ScriptHost.Json.Pass
import ScriptHost.Json.Piece
import ScriptHost.Json.Reader
import ScriptHost.Json.Record
import ScriptHost.Json.View
import ScriptHost.Json.Writer
import ScriptHost.Machine.Arithmetic
import ScriptHost.Machine.Datum
import ScriptHost.Machine.Exchange
import ScriptHost.Machine.Fault
import ScriptHost.Machine.Library
import ScriptHost.Machine.Render
import ScriptHost.Machine.State
import ScriptHost.Machine.Step
import ScriptHost.Main
import ScriptHost.Problem
import ScriptHost.Sandbox.Capture
import ScriptHost.Sandbox.Execution
import ScriptHost.Sandbox.Outcome
import ScriptHost.Session.Basic
import ScriptHost.Session.State
import ScriptHost.Session.Verdict
import ScriptHost.Source
import ScriptHost.Syntax.Lexeme
import ScriptHost.Syntax.Parser
import ScriptHost.Syntax.Scan
import ScriptHost.Syntax.Token
import ScriptHost.Syntax.Tree
import ScriptHost.Text.Blank
import ScriptHost.Text.CharClass
import ScriptHost.Text.Combining
import ScriptHost.Text.Fit
import ScriptHost.Text.Letter
import ScriptHost.Text.Lines
import ScriptHost.Text.Numeral
import ScriptHost.Text.Printable
import ScriptHost.Text.Quoted
import ScriptHost.Text.Shortest
import ScriptHost.Text.Utf8
import ScriptHost.Text.Word
import ScriptHost.Value
import ScriptHost.Wire.Config
import ScriptHost.Wire.Diagnostic
import ScriptHost.Wire.Report
import ScriptHost.Wire.Submission
import ScriptHost.Wire.Value
import ScriptHost.Wire.Verdict
import ScriptHost.Word
import ScriptHost.Proofs.Bytecode.Heights
import ScriptHost.Proofs.Compile.Accepted
import ScriptHost.Proofs.Compile.Layout
import ScriptHost.Proofs.Compile.Levels
import ScriptHost.Proofs.Compile.Ready
import ScriptHost.Proofs.Compile.Rules
import ScriptHost.Proofs.Compile.Safety
import ScriptHost.Proofs.Compile.Statics
import ScriptHost.Proofs.Engine.Ownership
import ScriptHost.Proofs.Engine.Protocol
import ScriptHost.Proofs.Engine.Signal
import ScriptHost.Proofs.Evaluation.Alike
import ScriptHost.Proofs.Evaluation.Bodies
import ScriptHost.Proofs.Evaluation.Calls
import ScriptHost.Proofs.Evaluation.Correct
import ScriptHost.Proofs.Evaluation.Evaluate
import ScriptHost.Proofs.Evaluation.Expressions
import ScriptHost.Proofs.Evaluation.From
import ScriptHost.Proofs.Evaluation.Loops
import ScriptHost.Proofs.Evaluation.Statements
import ScriptHost.Proofs.Evaluation.Variables
import ScriptHost.Proofs.Machine.Coupling
import ScriptHost.Proofs.Machine.Exec
import ScriptHost.Proofs.Machine.Limits
import ScriptHost.Proofs.Machine.Operations
import ScriptHost.Proofs.Machine.Output
import ScriptHost.Proofs.Machine.Render
import ScriptHost.Proofs.Machine.Safety
import ScriptHost.Proofs.Machine.Simulation
import ScriptHost.Proofs.Machine.Yields
import ScriptHost.Proofs.Sandbox.Accounting
import ScriptHost.Proofs.Syntax.Derivable
import ScriptHost.Proofs.Syntax.Grammar
import ScriptHost.Proofs.Syntax.Height
import ScriptHost.Proofs.Syntax.Language
import ScriptHost.Proofs.Syntax.Legible
import ScriptHost.Proofs.Syntax.Lookahead
import ScriptHost.Proofs.Syntax.Readable
import ScriptHost.Proofs.Syntax.Trees
import ScriptHost.Proofs.Syntax.Unambiguous
import ScriptHost.Proofs.Machine.Memory
import ScriptHost.Proofs.Compile.Moved
import ScriptHost.Proofs.Compile.Twins
import ScriptHost.Proofs.Machine.Renamed
import ScriptHost.Proofs.Compile.Renumbered
import ScriptHost.Proofs.Compile.Order
import ScriptHost.Proofs.Syntax.Spelling
import ScriptHost.Proofs.Syntax.Placed
import ScriptHost.Proofs.Coalesce.Folded
import ScriptHost.Proofs.Syntax.Elsewhere
import ScriptHost.Proofs.Coalesce.Meaning
import ScriptHost.Proofs.Engine.Verdicts
import ScriptHost.Proofs.Engine.Cancellation
import ScriptHost.Proofs.Engine.Retention
import ScriptHost.Proofs.Syntax.Printing
import ScriptHost.Proofs.Sandbox.Streams
import ScriptHost.Proofs.Sandbox.Gaps
import ScriptHost.Proofs.Coalesce.Watching
import ScriptHost.Proofs.Engine.Conservation
import ScriptHost.Proofs.Coalesce.Kept
import ScriptHost.Proofs.Coalesce.Headers
import ScriptHost.Proofs.Syntax.Rename
import ScriptHost.Proofs.Compile.Variables
import ScriptHost.Proofs.Compile.LoopVariables
import ScriptHost.Proofs.Machine.Trails
import ScriptHost.Proofs.Machine.Rounds
import ScriptHost.Proofs.Compile.Stores
import ScriptHost.Proofs.Compile.Rounds
import ScriptHost.Proofs.Machine.Exchange
import ScriptHost.Proofs.Compile.Exchange
import ScriptHost.Proofs.Machine.Strings
import ScriptHost.Proofs.Compile.Usage
import ScriptHost.Proofs.Machine.Reach
import ScriptHost.Proofs.Compile.Flows
import ScriptHost.Proofs.Compile.Stations
import ScriptHost.Proofs.Compile.Unreachable
import ScriptHost.Proofs.Compile.EntryFunction
import ScriptHost.Proofs.Machine.Printers
import ScriptHost.Proofs.Syntax.Positions
import ScriptHost.Proofs.Syntax.Descent
import ScriptHost.Proofs.Syntax.Mirrored
import ScriptHost.Proofs.Syntax.Recovery
import ScriptHost.Proofs.Evaluation.Integers
import ScriptHost.Proofs.Session.Excerpts
import ScriptHost.Proofs.Machine.Parts
import ScriptHost.Proofs.Machine.Interrupts
import ScriptHost.Proofs.Compile.Metered
import ScriptHost.Proofs.Compile.InstructionLimit
import ScriptHost.Proofs.Machine.Extent
import ScriptHost.Proofs.Json.Spelt
import ScriptHost.Proofs.Json.ReadBack
import ScriptHost.Proofs.Wire.RoundTrip
import ScriptHost.Proofs.Compile.Scopes
import ScriptHost.Proofs.Compile.Threads
import ScriptHost.Proofs.Compile.OnePass
import ScriptHost.Proofs.Compile.Drafts
import ScriptHost.Proofs.Compile.Steps
import ScriptHost.Proofs.Compile.Written
import ScriptHost.Proofs.Compile.Built
import ScriptHost.Proofs.Compile.Targets
import ScriptHost.Proofs.Compile.LastStores
