import Pipewright.Text.Alphanumeric
import Pipewright.Text.Case
import Pipewright.Token

/-!
# The input file of a command line

A command may end in the name of its input file. Nothing in the grammar tells such a word from
the last word of a stage, so it is taken for a file when it looks like a path and when the
stage in front of it does not keep it.

## Main definitions

* `resemblesFile`: the word has the look of a path.
* `keepsLastWord`: the stage keeps the word behind it.
* `splitInputFile`: the tokens of the stages and the input file.
-/

namespace Pipewright

/-- The extensions of data files. -/
def recordExtensions : List String := [
  ".csv", ".tsv", ".json", ".jsonl", ".ndjson", ".txt", ".dat", ".log", ".dkvp", ".nidx",
  ".xtab", ".pprint", ".md", ".usv", ".asv", ".ssv", ".psv", ".tbl", ".gz", ".bz2", ".zst", ".z"]

/-- The verbs whose one argument without a flag is a file that they write. -/
def verbsWithFile : List String := ["tee"]

/-- The flags of verbs that take a file or the beginning of a file name. -/
def pathFlagsOfVerb : List (String × List String) := [
  ("put", ["-f"]), ("filter", ["-f"]), ("join", ["-f", "--prepipe", "--prepipex"]),
  ("split", ["--prefix", "--suffix"]), ("template", ["-t"])]

/-- Flag `flag` of verb `verb` takes a file or the beginning of a file name. -/
def takesFile (verb flag : String) : Bool :=
  ((pathFlagsOfVerb.lookup verb).getD []).contains flag

/-- The word contains a separator of directories or ends in the extension of a data file. -/
def namesFile (word : String) : Bool :=
  word.toList.any (fun c => c == '/' || c == '\\') ||
    recordExtensions.any fun ext => Text.endsWith (Text.lower word) ext

/-- The token has the look of a path: neither a flag nor an expression nor the connective, with
a letter or a digit in it, and naming a file. -/
def resemblesFile (t : Token) : Bool :=
  !t.value.isEmpty && !Text.startsWith t.value "-" && !t.value.toList.contains '$' &&
    !t.isConnective && t.value.toList.any Text.isAlphanumeric && namesFile t.value

/-- The tokens behind the last connective. -/
def lastStage (region : List Token) : List Token :=
  (region.reverse.takeWhile (!·.isConnective)).reverse

/-- The last stage of `region` keeps the word behind it: the word is the whole stage, the value
of a flag that takes a path, or the file that the verb writes. -/
def keepsLastWord (region : List Token) : Bool :=
  match lastStage region with
  | [] => !region.isEmpty
  | verb :: arguments =>
    takesFile verb.value ((arguments.getLast?.getD verb).value) ||
      (verbsWithFile.contains verb.value && arguments.all Token.isOption)

/-- The tokens of the stages and the input file, if the command names one. -/
def splitInputFile (region : List Token) : List Token × Option Token :=
  match region.getLast? with
  | none => (region, none)
  | some last =>
    if resemblesFile last && !keepsLastWord region.dropLast then (region.dropLast, some last)
    else (region, none)

end Pipewright
