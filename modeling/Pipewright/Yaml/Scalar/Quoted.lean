import Pipewright.Yaml.Cursor
import Pipewright.Yaml.Plain

/-!
# Texts between quotes

Line breaks between quotes are folded. Between single quotes only the quote is special, and is
doubled; between double quotes a backslash starts an escape.

## Main definitions

* `takeEscape?`: a character written as an escape.
* `takeQuoted?`: a text between quotes.
-/

namespace Pipewright.Yaml

/-- The character that a letter behind a backslash names. -/
def namedCharacter? (letter : Char) : Option Char :=
  [('0', '\x00'), ('a', '\x07'), ('b', '\x08'), ('t', '\t'), ('\t', '\t'), ('n', '\n'),
    ('v', '\x0b'), ('f', '\x0c'), ('r', '\r'), ('e', '\x1b'), (' ', ' '), ('"', '"'), ('/', '/'),
    ('\\', '\\'), ('N', '\x85'), ('_', '\u00a0'), ('L', '\u2028'), ('P', '\u2029')].lookup letter

/-- The number of hexadecimal digits that a letter behind a backslash announces. -/
def codeLength? (letter : Char) : Option Nat :=
  [('x', 2), ('u', 4), ('U', 8)].lookup letter

/-- The character with the given number, if there is one. -/
def characterOf? (n : Nat) : Option Char :=
  if h : n.isValidChar then some (Char.ofNatAux n h) else none

/-- The character written as an escape in front, and the place behind it. -/
def takeEscape? (c : Cursor) : Option (Char × Cursor) := do
  let letter ← c.ahead? 1
  let behind := c.step 2
  match codeLength? letter with
  | none => return (← namedCharacter? letter, behind)
  | some count =>
    let digits := behind.rest.take count
    if digits.length < count then none
    let n ← readDigits? 16 digits
    return (← characterOf? n, behind.step count)

/-- The characters up to the next gap or the closing quote, which continue `acc`. The last
answer says that an escaped line break ended them. There are at most `bound` characters. -/
def takeQuotedWord? (quote : Char) :
    (bound : Nat) → String → Cursor → Option (String × Cursor × Bool)
  | 0, acc, c => some (acc, c, false)
  | bound + 1, acc, c =>
    match c.next? with
    | none => some (acc, c, false)
    | some ch =>
      if isGap ch then some (acc, c, false)
      else if quote == '\'' && ch == '\'' && c.ahead? 1 == some '\'' then
        takeQuotedWord? quote bound (acc.push '\'') (c.step 2)
      else if ch == quote then some (acc, c, false)
      else if quote == '"' && ch == '\\' then
        match c.step.lineBreak? with
        | some (_, behind) => some (acc, behind, true)
        | none => do
          let (shown, behind) ← takeEscape? c
          takeQuotedWord? quote bound (acc.push shown) behind
      else takeQuotedWord? quote bound (acc.push ch) c.step

/-- The words up to the closing quote, which continue `acc`, and the place behind it. There are
at most `bound` words. -/
def takeQuotedWords? (quote : Char) : (bound : Nat) → String → Cursor → Option (String × Cursor)
  | 0, _, _ => none
  | bound + 1, acc, c => do
    if c.atMark then none
    let (acc, c, escaped) ← takeQuotedWord? quote c.rest.length acc c
    if c.next? == some quote then return (acc, c.step)
    if c.next? == none then none
    let (gap, c) ← c.takeGap? 0 c.rest.length { broken := escaped }
    takeQuotedWords? quote bound (acc ++ String.ofList gap.text) c

/-- The text between quotes in front, and the place behind it. -/
def takeQuoted? (c : Cursor) : Option (String × Cursor) := do
  let quote ← c.next?
  takeQuotedWords? quote (c.rest.length + 1) "" c.step

end Pipewright.Yaml
