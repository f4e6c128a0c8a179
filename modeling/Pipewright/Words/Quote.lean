/-!
# Quoting words

A word that a command interpreter would split, expand or drop is put between single quotes; a
single quote inside it is written outside them, behind a backslash.

## Main definitions

* `needsQuotes`: the word does not stand for itself.
* `quote`: the word as it has to be typed.
* `join`: several words as one command line.
-/

namespace Pipewright.Words

/-- The characters with a meaning of their own. -/
def isSpecial (c : Char) : Bool :=
  "\n'|&;<>()$\x60\\\" \t*?[#~=%".toList.contains c

/-- The word is empty or holds a character with a meaning of its own. -/
def needsQuotes (word : String) : Bool :=
  word.isEmpty || word.toList.any isSpecial

/-- The character as it is written between single quotes. -/
def quoteChar (c : Char) : List Char :=
  if c == '\'' then ['\'', '\\', '\'', '\''] else [c]

/-- The word as it has to be typed. -/
def quote (word : String) : String :=
  if needsQuotes word then .ofList ('\'' :: word.toList.flatMap quoteChar ++ ['\'']) else word

/-- The words as one command line. -/
def join (words : List String) : String :=
  " ".intercalate (words.map quote)

end Pipewright.Words
