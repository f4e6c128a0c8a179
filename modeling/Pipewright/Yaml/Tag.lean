import Pipewright.Text.Utf8
import Pipewright.Yaml.Cursor
import Pipewright.Yaml.Plain
import Pipewright.Yaml.Token

/-!
# Tags, names and directives

A tag says what kind of value a node has. It is written in full between angle brackets, or with
a handle that stands for its beginning. Directives in front of a document define handles and
claim a version.

## Main definitions

* `takeTag?`, `takeName?`: a tag, and the name behind an ampersand or an asterisk.
* `takeDirective?`: a line with a directive.
* `truthTag`: the tag of truth values.
-/

namespace Pipewright.Yaml

/-- The beginning of the tags of the core kinds of values. -/
def coreLead : String := "tag:yaml.org,2002:"

/-- The tag of truth values. -/
def truthTag : String := coreLead ++ "bool"

/-- The characters of tags, apart from those of names. -/
def isTagChar (inBrackets : Bool) (c : Char) : Bool :=
  isNameChar c || ";/?:@&=+$.%!~*'()".toList.contains c || (inBrackets && ",[]".toList.contains c)

/-- The octets of a character whose first one is `octet` and which has `more` further ones;
each is written as a percent sign and two digits. -/
def takeOctets? : (more : Nat) → Cursor → Option (List UInt8 × Cursor)
  | 0, c => some ([], c)
  | more + 1, c => do
    if c.next? != some '%' then none
    let octet ← readDigits? 16 ((c.rest.drop 1).take 2)
    if octet / 64 != 2 || (c.rest.drop 1).length < 2 then none
    let (octets, behind) ← takeOctets? more (c.step 3)
    return (octet.toUInt8 :: octets, behind)

/-- The number of octets of a character that starts with `octet`. -/
def octetCount? (octet : Nat) : Option Nat :=
  if octet / 128 == 0 then some 1
  else if octet / 32 == 6 then some 2
  else if octet / 16 == 14 then some 3
  else if octet / 8 == 30 then some 4
  else none

/-- The octets of the character that is written with percent signs in front. -/
def takeEscapedOctets? (c : Cursor) : Option (List UInt8 × Cursor) := do
  let digits := (c.rest.drop 1).take 2
  if digits.length < 2 then none
  let octet ← readDigits? 16 digits
  let count ← octetCount? octet
  let (octets, behind) ← takeOctets? (count - 1) (c.step 3)
  return (octet.toUInt8 :: octets, behind)

/-- The octets of the tag characters in front, and the place behind them. There are at most
`bound`. -/
def takeTagOctets? (inBrackets : Bool) : (bound : Nat) → Cursor → Option (List UInt8 × Cursor)
  | 0, c => some ([], c)
  | bound + 1, c =>
    match c.next? with
    | none => some ([], c)
    | some ch =>
      if ch == '%' then do
        let (octets, behind) ← takeEscapedOctets? c
        let (more, stop) ← takeTagOctets? inBrackets bound behind
        return (octets ++ more, stop)
      else if isTagChar inBrackets ch then do
        let (more, stop) ← takeTagOctets? inBrackets bound c.step
        return (Text.encodeChar ch ++ more, stop)
      else some ([], c)

/-- The tag characters in front as a text behind `head`; there has to be one of either. -/
def takeTagText? (inBrackets : Bool) (head : String) (c : Cursor) : Option (String × Cursor) := do
  let (octets, behind) ← takeTagOctets? inBrackets c.rest.length c
  if octets.isEmpty && head.isEmpty then none
  return (String.ofList (head.toList.drop 1) ++ Text.decodeLossy octets, behind)

/-- The handle in front: an exclamation mark, a name and perhaps a second mark. -/
def takeHandle? (c : Cursor) : Option (String × Cursor) := do
  if c.next? != some '!' then none
  let (name, behind) := c.step.spanWhile isNameChar
  if behind.next? == some '!' then return (.ofList ('!' :: name ++ ['!']), behind.step)
  return (.ofList ('!' :: name), behind)

/-- The handle has a mark at either end. -/
def isFullHandle (handle : String) : Bool :=
  1 < handle.toList.length && handle.toList.getLast? == some '!'

/-- The handle and the rest of the tag in front, without the check of what follows. -/
def takeTagParts? (c : Cursor) : Option ((String × String) × Cursor) := do
  if c.ahead? 1 == some '<' then
    let (rest, behind) ← takeTagText? true "" (c.step 2)
    if behind.next? != some '>' then none
    return (("", rest), behind.step)
  let (handle, behind) ← takeHandle? c
  if isFullHandle handle then
    let (rest, behind) ← takeTagText? false "" behind
    return ((handle, rest), behind)
  let (rest, behind) ← takeTagText? false handle behind
  return (if rest.isEmpty then ("", "!") else ("!", rest), behind)

/-- The tag in front. A gap has to follow, or a comma between brackets. -/
def takeTag? (inFlow : Bool) (c : Cursor) : Option (Token × Cursor) := do
  let ((handle, rest), behind) ← takeTagParts? c
  if (inFlow && behind.next? == some ',') || atGap behind.next? then
    return (.tag handle rest, behind)
  none

/-- The characters that may follow a name. -/
def endsName (next : Option Char) : Bool :=
  atGap next || next.any "?:,]\x7d%@\x60".toList.contains

/-- The name behind the ampersand or the asterisk in front. -/
def takeName? (c : Cursor) : Option (String × Cursor) :=
  let (name, behind) := c.step.spanWhile isNameChar
  if name.isEmpty || !endsName behind.next? then none else some (.ofList name, behind)

/-- The number in front, with at most nine digits. -/
def takeVersionNumber? (c : Cursor) : Option (Nat × Cursor) :=
  let (digits, behind) := c.spanWhile Char.isDigit
  if 9 < digits.length then none else (Text.readNat? digits).map (·, behind)

/-- The rest of the directive with the given name. -/
def takeDirectiveRest? (name : String) (c : Cursor) : Option (Token × Cursor) := do
  if name == "YAML" then
    let (major, behind) ← takeVersionNumber? (c.skipWhile isBlankChar)
    if behind.next? != some '.' then none
    let (minor, behind) ← takeVersionNumber? behind.step
    return (.version major minor, behind)
  if name != "TAG" then none
  let (handle, behind) ← takeHandle? (c.skipWhile isBlankChar)
  if !(handle == "!" || isFullHandle handle) then none
  if !behind.next?.any isBlankChar then none
  let (lead, behind) ← takeTagText? true "" (behind.skipWhile isBlankChar)
  if !atGap behind.next? then none
  return (.tagHandle handle lead, behind)

/-- The directive in front and the place behind its line. -/
def takeDirective? (c : Cursor) : Option (Token × Cursor) := do
  let (name, behind) := c.step.spanWhile isNameChar
  if name.isEmpty || !atGap behind.next? then none
  let (token, behind) ← takeDirectiveRest? (.ofList name) behind
  let behind ← behind.skipComment?
  match behind.lineBreak? with
  | some (_, below) => return (token, below)
  | none => return (token, behind)

end Pipewright.Yaml
