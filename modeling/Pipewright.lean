import Pipewright.Main
import Pipewright.Proofs.Text.Span
import Pipewright.Proofs.Token.Scan
import Pipewright.Proofs.Token.Excerpt
import Pipewright.Proofs.Token.Word
import Pipewright.Proofs.Token.Splitting
import Pipewright.Proofs.Command.Execution
import Pipewright.Proofs.Command.Layout
import Pipewright.Proofs.Outcome
import Pipewright.Proofs.Command.LeadingFlags
import Pipewright.Proofs.Command.Slots
import Pipewright.Proofs.Command.InputFile
import Pipewright.Proofs.Command.Options
import Pipewright.Proofs.Command.Reading
import Pipewright.Proofs.Command.Lossless
import Pipewright.Proofs.Command.FormatFlags
import Pipewright.Proofs.Command.Reread
import Pipewright.Proofs.Command.RoundTrip
import Pipewright.Proofs.Command.Stable
import Pipewright.Proofs.Preview.LatestEdit
import Pipewright.Proofs.Preview.Schedule
import Pipewright.Proofs.Preview.Phase
import Pipewright.Proofs.Preview.Timing
import Pipewright.Proofs.Preview.ToolCalls
import Pipewright.Proofs.Preview.Refinement
import Pipewright.Proofs.Preview.Interleaving
import Pipewright.Proofs.Preview.Persistence
import Pipewright.Proofs.Preview.Lockstep
import Pipewright.Proofs.Preview.VirtualTime
import Pipewright.Proofs.Command.Fault
import Pipewright.Proofs.Command.Refusal
import Pipewright.Proofs.Configuration.Repair
import Pipewright.Proofs.Editor.Positions
import Pipewright.Proofs.Editor.Session
import Pipewright.Proofs.Json.Containers
import Pipewright.Proofs.Text.Utf8
import Pipewright.Proofs.Document.FromJson
import Pipewright.Proofs.Files.Path
import Pipewright.Proofs.Files.Tree
import Pipewright.Proofs.StateFile.Write
import Pipewright.Proofs.StateFile.RoundTrip
import Pipewright.Proofs.Command.Typed
import Pipewright.Proofs.Program.FailedCommand
import Pipewright.Proofs.Token.Continuation
import Pipewright.Proofs.Token.JoinedLines
import Pipewright.Proofs.Command.Cut
import Pipewright.Proofs.Command.Rewording
import Pipewright.Proofs.Command.Continuation
import Pipewright.Proofs.Token.Coverage
import Pipewright.Proofs.Token.Closing
import Pipewright.Proofs.Token.Respelling
import Pipewright.Proofs.Head.Longest
import Pipewright.Proofs.Text.Lossy
import Pipewright.Proofs.Text.Lines
import Pipewright.Proofs.Head.FileSample
import Pipewright.Proofs.Text.Words
import Pipewright.Proofs.Configuration.StepEdits
import Pipewright.Proofs.Configuration.Undo
import Pipewright.Proofs.Editor.Escapes
import Pipewright.Proofs.Editor.Canonical
import Pipewright.Proofs.Display.Escapes
import Pipewright.Proofs.Display.Narrowing
import Pipewright.Proofs.Display.Columns
import Pipewright.Proofs.Display.Table
import Pipewright.Proofs.Display.Color
