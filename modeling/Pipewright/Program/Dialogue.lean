import Pipewright.Editor.Apply
import Pipewright.Preview.Timeline
import Pipewright.Program.Overview
import Pipewright.Program.Trial

/-!
# Editing line by line

Every line of the standard input is a command of the edit language, and every edit goes to a
live preview. All lines are there at once, so no time passes before the last of them; then
the preview gets the time for one pause and one run.

## Main definitions

* `Desk`: the bench and its timeline, with what has been printed.
* `Desk.take`: the desk after a line.
* `liveWorld`: what surrounds the timeline.
* `watchPipeline`: the command for live editing.
-/

namespace Pipewright.Program

open Preview (Timeline World)

/-- The bench and its timeline, with what has been printed. -/
structure Desk where
  /-- The bench. -/
  bench : Bench
  /-- The timeline of its preview. -/
  timeline : Timeline := {}
  /-- The output. -/
  output : String := ""
  /-- The messages. -/
  messages : String := ""

/-- The commands of the edit language, as they are shown. -/
def editHelp : String :=
  "verb add <text> | verb edit <n> <text> | verb rm|up|down|toggle <n>\n" ++
  "in <format> | out <format> | ragged [on|off] | headerless [on|off] | ifs <sep> | " ++
  "options [text]\n" ++
  "file <path> | text [content] | append <line> | import <mlr command> | list | help | quit"

namespace Desk

/-- The desk with more output. -/
def print (d : Desk) (text : String) : Desk :=
  { d with output := d.output ++ text }

/-- The desk with a warning among the messages. -/
def warn (d : Desk) (style : Display.Style) (text : String) : Desk :=
  { d with messages := d.messages ++ notice .warn .warning text style }

/-- The desk with the bench given to the preview. -/
def submit (d : Desk) : Desk :=
  { d with timeline := (d.timeline.submit d.bench).2 }

/-- The desk after a line. -/
def take (style : Display.Style) (d : Desk) (text : String) : Desk :=
  let (outcome, bench) := d.bench.feed text
  match outcome with
  | .idle | .done _ .quit => d
  | .refused e => d.warn style e.message
  | .failed _ e => d.warn style e.message
  | .done _ .edited => submit { d with bench }
  | .done _ .list => d.print (configurationLines d.bench.configuration style)
  | .done _ .help => d.print (line editHelp)

/-- The line ends the dialogue. -/
def isLast (d : Desk) (text : String) : Bool :=
  match d.bench.feed text with
  | (.done _ .quit, _) => true
  | _ => false

/-- The desk after the lines, up to one that ends the dialogue or is no text. The second part
says that all lines up to there are texts. -/
def takeLines (style : Display.Style) (d : Desk) : List (List UInt8) → Desk × Bool
  | [] => (d, true)
  | piece :: rest =>
    match Text.decode? piece with
    | none => (d, false)
    | some text =>
      if d.isLast text then (d, true) else takeLines style (d.take style text) rest

end Desk

/-- The lines of the standard input, without their ends. -/
def inputLines (bytes : List UInt8) : List (List UInt8) :=
  (Text.bytePieces bytes).map (Text.withoutLineEnd 0x0A 0x0D)

/-- What is printed of the state after a preview. -/
def watchReport (style : Display.Style) : Preview.State → String
  | .idle _ => line (Display.paint .dim "(idle: no input or no enabled verb)" style)
  | .showing _ (.success s) =>
    line (Display.banner (marked .success s.command style) (some s.format.name) style) ++
      outputLines s.output
  | .showing _ (.failure message _) =>
    line (Display.paint .error
      (marked .error "preview failed\n" style ++ Display.indent message "  ") style)
  | .waiting _ | .running _ => ""

/-- What is said of a run of the tool. -/
def runningNotice (style : Display.Style) : Preview.State → String
  | .showing stamp _ => notice .clock .dim ("running " ++ Preview.Stamp.shown stamp ++ "…") style
  | .idle _ | .waiting _ | .running _ => ""

/-- What surrounds the timeline. -/
def liveWorld (c : Context) (task : WatchTask) : World where
  files := c.files
  settings := { previewBounds task.lines? with pause := task.debounce.toNat }
  tool _ request := ⟨0, .reply (c.runTool previewLimit request)⟩

/-- The timeline after the time for one pause and one run. -/
def settleTimeline (w : World) (s : Timeline) : Timeline :=
  s.wait w (w.settings.pause + 1)

/-- The files after the saves on a timeline. -/
def filesAfterSaves (c : Context) (saves : List Configuration) : Files.Tree :=
  saves.foldl (fun files saved => (StateFile.write files c.stateFile saved).2) c.files

/-- The desk before the first line. -/
def openDesk (configuration : Configuration) (style : Display.Style) : Desk :=
  Desk.submit
    { bench := ⟨configuration, ""⟩
      output := configurationLines configuration style ++
        line (Display.paint .dim "type 'help' for the edit commands" style) }

/-- The ending of a desk whose input could not be read to its end. -/
def breakOff (c : Context) (d : Desk) : Ending :=
  { files := c.files
    output := d.output
    messages := d.messages
    failure? := some Context.inputFailure }

/-- The ending of a desk that got its last line. -/
def closeDesk (c : Context) (task : WatchTask) (d : Desk) : Ending :=
  let s := settleTimeline (liveWorld c task) d.timeline
  { files := filesAfterSaves c s.saves
    output := d.output ++ watchReport c.style s.live.published
    messages := d.messages ++ runningNotice c.style s.live.published }

/-- The command for live editing. -/
def watchPipeline (c : Context) (task : WatchTask) : Ending :=
  match c.load with
  | .error failure => .ofFailure c.files failure
  | .ok (configuration, _) =>
    match (openDesk configuration c.style).takeLines c.style (inputLines c.host.input) with
    | (d, false) => breakOff c d
    | (d, true) => closeDesk c task d

end Pipewright.Program
