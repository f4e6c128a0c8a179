import Pipewright.Format
import Pipewright.Token

/-!
# The flags of a command line

Flags of a closed vocabulary set a slot of the configuration. All other flags are passed on to
the tool, some of them together with the word behind them. This module holds the vocabulary
and cuts the leading flags of a command into groups.

## Main definitions

* `Slot`, `Setting`: what a flag can set, and to which value.
* `Setting.ofFlag?`: the setting that a flag denotes.
* `FlagGroup`, `flagGroups`: the leading flags of a command, each with its value.
-/

namespace Pipewright

/-- The flag for lines that are shorter or longer than the header. -/
def raggedWord : String := "--ragged"

/-- The flag for input without a header line. -/
def headerlessWord : String := "--headerless-csv-input"

/-- The flag for the field separator of the input. -/
def separatorWord : String := "--ifs"

/-- A part of the configuration that flags set, each at most once in a command. -/
inductive Slot where
  /-- The format of the input. -/
  | inputFormat
  /-- The format of the output. -/
  | outputFormat
  /-- The ragged switch. -/
  | ragged
  /-- The headerless switch. -/
  | headerless
  /-- The field separator. -/
  | separator
  deriving DecidableEq, Repr

/-- The name of the slot in messages. -/
def Slot.name : Slot → String
  | inputFormat => "input format"
  | outputFormat => "output format"
  | ragged => "ragged"
  | headerless => "headerless"
  | separator => "field separator"

/-- What a flag of the vocabulary denotes. -/
inductive Setting where
  /-- An input format. -/
  | input (format : InputFormat)
  /-- An output format. -/
  | output (format : OutputFormat)
  /-- An input format and an output format at once. -/
  | both (input : InputFormat) (output : OutputFormat)
  /-- The ragged switch. -/
  | ragged
  /-- The headerless switch. -/
  | headerless
  /-- The field separator, which is the word behind the flag. -/
  | separator
  deriving DecidableEq, Repr

/-- The settings of the flags that are written out in full. -/
def vocabulary : List (String × Setting) := [
  ("--icsv", .input .csv), ("--itsv", .input .tsv), ("--ijson", .input .json),
  ("--ijsonl", .input .ndjson), ("--indjson", .input .ndjson),
  ("--opprint", .output .pprint), ("--ocsv", .output .csv), ("--otsv", .output .tsv),
  ("--ojson", .output .json), ("--ojsonl", .output .ndjson), ("--ondjson", .output .ndjson),
  ("--csv", .both .csv .csv), ("--tsv", .both .tsv .tsv), ("--json", .both .json .json),
  ("--jsonl", .both .ndjson .ndjson),
  (raggedWord, .ragged),
  (headerlessWord, .headerless), ("--headerless", .headerless), ("--hi", .headerless),
  (separatorWord, .separator)]

/-- The input format with the given letter in a conversion flag. -/
def inputLetter? (c : Char) : Option InputFormat :=
  if c == 'c' then some .csv
  else if c == 't' then some .tsv
  else if c == 'j' then some .json
  else if c == 'l' then some .ndjson
  else none

/-- The output format with the given letter in a conversion flag. -/
def outputLetter? (c : Char) : Option OutputFormat :=
  if c == 'c' then some .csv
  else if c == 't' then some .tsv
  else if c == 'j' then some .json
  else if c == 'l' then some .ndjson
  else if c == 'p' then some .pprint
  else none

/-- The setting of a conversion flag such as `--c2j`, with two different letters around the
digit. -/
def Setting.ofConversion? (flag : String) : Option Setting :=
  match flag.toList with
  | ['-', '-', source, '2', target] =>
    if source == target then none
    else do
      let input ← inputLetter? source
      let output ← outputLetter? target
      return .both input output
  | _ => none

/-- The setting that a flag denotes, if it belongs to the vocabulary. -/
def Setting.ofFlag? (flag : String) : Option Setting :=
  (vocabulary.lookup flag).or (Setting.ofConversion? flag)

/-- The flags outside the vocabulary that take the word behind them. -/
def valuedFlags : List String := [
  "--ofs", "--ips", "--ops", "--irs", "--ors", "--fs", "--ps", "--rs", "--from", "--load",
  "--mload", "--tz", "--nr-progress-mod", "--records-per-batch", "--ifs-regex", "--ips-regex",
  "--ofmt", "--fflatsep", "--flatsep", "--iflatsep", "--oflatsep", "--jflatsep", "--seed",
  "--prepipe", "--prepipex"]

/-- A leading flag of a command, with the word behind it where it takes one. -/
inductive FlagGroup where
  /-- A flag that sets a slot by itself. -/
  | setting (flag : Token) (setting : Setting)
  /-- The separator flag and the separator, if a word is left for it. -/
  | separator (flag : Token) (value : Option Token)
  /-- A flag outside the vocabulary, with the value it takes, if any. -/
  | passed (flag : Token) (value : Option Token)
  deriving DecidableEq, Repr

/-- The tokens of a group, in order. -/
def FlagGroup.tokens : FlagGroup → List Token
  | setting flag _ => [flag]
  | separator flag value => flag :: value.toList
  | passed flag value => flag :: value.toList

/-- The leading flags of a command, in groups, and the tokens behind them. -/
def flagGroups : List Token → List FlagGroup × List Token
  | [] => ([], [])
  | t :: rest =>
    if t.isOption then
      match Setting.ofFlag? t.value with
      | some .separator =>
        match rest with
        | [] => ([.separator t none], [])
        | v :: behind =>
          let (groups, region) := flagGroups behind
          (.separator t (some v) :: groups, region)
      | some s =>
        let (groups, region) := flagGroups rest
        (.setting t s :: groups, region)
      | none =>
        if valuedFlags.contains t.value then
          match rest with
          | [] => ([.passed t none], [])
          | v :: behind =>
            let (groups, region) := flagGroups behind
            (.passed t (some v) :: groups, region)
        else
          let (groups, region) := flagGroups rest
          (.passed t none :: groups, region)
    else ([], t :: rest)

end Pipewright
