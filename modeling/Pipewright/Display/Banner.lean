import Pipewright.Display.Style

/-!
# Boxed banners

A banner is one line in a box: a title and perhaps a subtitle. A line that is wider than the
terminal is cut and loses its colours.

## Main definitions

* `banner`: the three lines of the box.
-/

namespace Pipewright.Display

/-- The line inside a banner, before it is made to fit. -/
def bannerLine (title : String) (subtitle : Option String) (style : Style) : String :=
  let head := paint .primary (Text.trim title) style
  match subtitle with
  | some s => head ++ "  " ++ paint .secondary s style
  | none => head

/-- The line cut to the width of the terminal, but never below sixteen characters. -/
def fitBannerLine (line : String) (style : Style) : String :=
  let room := max (style.width - 4) 16
  if room < visibleLength line then truncate (stripEscapes line) room else line

/-- The box around a line. -/
def boxed (line : String) : String :=
  let rule := String.ofList (List.replicate (visibleLength line + 2) '─')
  "┌" ++ rule ++ "┐\n│ " ++ line ++ " │\n└" ++ rule ++ "┘"

/-- The title and the subtitle in a box. -/
def banner (title : String) (subtitle : Option String) (style : Style) : String :=
  boxed (fitBannerLine (bannerLine title subtitle style) style)

end Pipewright.Display
