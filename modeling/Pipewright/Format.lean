import Pipewright.Text.Blank
import Pipewright.Text.Case

/-!
# Record formats and input modes

The formats of the records that go in and come out of a pipeline, the flag that selects each,
and the names under which they are accepted. `auto` leaves the choice to the tool and has no
flag.

## Main definitions

* `InputMode`, `InputFormat`, `OutputFormat`: the choices.
* `InputFormat.flag?`, `InputFormat.name`: how a format is written.
* `InputFormat.ofName?`, `InputFormat.ofText`: the strict and the lenient reading of a name.
-/

namespace Pipewright

/-- Where the records come from. -/
inductive InputMode where
  /-- Pasted text. -/
  | text
  /-- The file at the input path. -/
  | file
  deriving DecidableEq, Repr

namespace InputMode

/-- The name of the mode. -/
def name : InputMode → String
  | text => "text"
  | file => "file"

/-- The mode that a text names; every text but `file` means pasted text. -/
def ofText (s : String) : InputMode :=
  if Text.sameFolded (Text.trim s) "file" then file else text

end InputMode

/-- The format of the records that go in. -/
inductive InputFormat where
  /-- Left to the tool. -/
  | auto
  /-- Comma-separated values. -/
  | csv
  /-- Tab-separated values. -/
  | tsv
  /-- A JSON text. -/
  | json
  /-- A JSON text a line. -/
  | ndjson
  deriving DecidableEq, Repr

namespace InputFormat

/-- All input formats, in the order in which they are listed. -/
def all : List InputFormat := [auto, csv, tsv, json, ndjson]

/-- The flag that selects the format. -/
def flag? : InputFormat → Option String
  | auto => none
  | csv => some "--icsv"
  | tsv => some "--itsv"
  | json => some "--ijson"
  | ndjson => some "--ijsonl"

/-- The flag that selects the format, or nothing. -/
def spelling (f : InputFormat) : String :=
  f.flag?.getD ""

/-- The name of the format. -/
def name : InputFormat → String
  | auto => "auto"
  | csv => "csv"
  | tsv => "tsv"
  | json => "json"
  | ndjson => "ndjson"

/-- The format with the given bare name in lower case. -/
def ofBareName? (bare : String) : Option InputFormat :=
  if bare == "" || bare == "auto" then some auto
  else if bare == "csv" then some csv
  else if bare == "tsv" then some tsv
  else if bare == "json" then some json
  else if bare == "ndjson" || bare == "jsonl" then some ndjson
  else none

/-- The format that a text names, by its name or by its flag, in letters of any case. -/
def ofName? (s : String) : Option InputFormat :=
  let folded := Text.lower (Text.trim s)
  ofBareName? ((Text.stripLead? "--i" folded).getD folded)

/-- The format that a text names; an unknown name leaves the choice to the tool. -/
def ofText (s : String) : InputFormat :=
  (ofName? s).getD auto

/-- The records are lines of separated fields, so that raggedness and headers matter. -/
def hasSeparator : InputFormat → Bool
  | csv | tsv => true
  | auto | json | ndjson => false

end InputFormat

/-- The format of the records that come out. -/
inductive OutputFormat where
  /-- Left to the tool. -/
  | auto
  /-- Aligned columns. -/
  | pprint
  /-- Comma-separated values. -/
  | csv
  /-- Tab-separated values. -/
  | tsv
  /-- A JSON text. -/
  | json
  /-- A JSON text a line. -/
  | ndjson
  deriving DecidableEq, Repr

namespace OutputFormat

/-- All output formats, in the order in which they are listed. -/
def all : List OutputFormat := [auto, pprint, csv, tsv, json, ndjson]

/-- The flag that selects the format. -/
def flag? : OutputFormat → Option String
  | auto => none
  | pprint => some "--opprint"
  | csv => some "--ocsv"
  | tsv => some "--otsv"
  | json => some "--ojson"
  | ndjson => some "--ojsonl"

/-- The flag that selects the format, or nothing. -/
def spelling (f : OutputFormat) : String :=
  f.flag?.getD ""

/-- The name of the format. -/
def name : OutputFormat → String
  | auto => "auto"
  | pprint => "pprint"
  | csv => "csv"
  | tsv => "tsv"
  | json => "json"
  | ndjson => "ndjson"

/-- The format with the given bare name in lower case. -/
def ofBareName? (bare : String) : Option OutputFormat :=
  if bare == "" || bare == "auto" then some auto
  else if bare == "pprint" then some pprint
  else if bare == "csv" then some csv
  else if bare == "tsv" then some tsv
  else if bare == "json" then some json
  else if bare == "ndjson" || bare == "jsonl" then some ndjson
  else none

/-- The format that a text names, by its name or by its flag, in letters of any case. -/
def ofName? (s : String) : Option OutputFormat :=
  let folded := Text.lower (Text.trim s)
  ofBareName? ((Text.stripLead? "--o" folded).getD folded)

/-- The format that a text names; an unknown name leaves the choice to the tool. -/
def ofText (s : String) : OutputFormat :=
  (ofName? s).getD auto

end OutputFormat

end Pipewright
