/-!
# ASCII letter case

Keywords, format names and file extensions are compared without regard to the case of the
letters `A` to `Z`; all other characters count as they are.

## Main definitions

* `lower`: the text with its ASCII capitals in lower case.
* `sameFolded`: equality up to the case of ASCII letters.
* `startsWith`, `endsWith`, `stripLead?`: affix tests on texts.
-/

namespace Pipewright.Text

/-- The text with `A` to `Z` in lower case. -/
def lower (s : String) : String :=
  .ofList (s.toList.map Char.toLower)

/-- The two texts are equal up to the case of ASCII letters. -/
def sameFolded (s t : String) : Bool :=
  lower s == lower t

/-- `s` starts with `lead`. -/
def startsWith (s lead : String) : Bool :=
  lead.toList.isPrefixOf s.toList

/-- `s` ends with `tail`. -/
def endsWith (s tail : String) : Bool :=
  tail.toList.isSuffixOf s.toList

/-- What follows `lead` in `s`, if `s` starts with it. -/
def stripLead? (lead s : String) : Option String :=
  if startsWith s lead then some (.ofList (s.toList.drop lead.toList.length)) else none

end Pipewright.Text
