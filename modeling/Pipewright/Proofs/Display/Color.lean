import Pipewright.Display.Summary
import Pipewright.Proofs.Command.Layout
import Pipewright.Proofs.Display.Columns

/-!
# Colours Never Change the Layout

The view of a configuration is put together from a banner, a line with the settings and a table. In
colours it shows as what it is without them: widths are measured on what is visible, a line that is
cut loses its colours first, and no colour is left open at the end of a piece.

A configuration without escape characters shows as itself. Its command line is made of its texts
and of fixed words, so that there is no escape character in it either.

## Main results

* `Configuration.IsEscapeFree.commandLine`: the command line of such a configuration.
* `shows_banner`, `shows_table`: the pieces of the view.
* `stripEscapes_renderConfiguration`: the whole view.
-/

namespace Pipewright

/-! ### Configurations without escape characters -/

/-- Quotes bring in no other characters than quotes and backslashes. -/
theorem Words.not_mem_quote {a : Char} {word : String} (h : a ∉ word.toList) (hquote : a ≠ '\'')
    (hbackslash : a ≠ '\\') : a ∉ (Words.quote word).toList := by
  rw [Words.quote]
  split
  · have hchar : a ∉ word.toList.flatMap Words.quoteChar := by
      intro hmem
      obtain ⟨c, hc, hmem⟩ := List.mem_flatMap.mp hmem
      rw [Words.quoteChar] at hmem
      split at hmem
      · simp [hquote, hbackslash] at hmem
      · exact h (List.mem_singleton.mp hmem ▸ hc)
    simp [hquote, hchar]
  · exact h

namespace Configuration

variable {c : Configuration}

/-- No text of the configuration holds an escape character. -/
def IsEscapeFree (c : Configuration) : Prop :=
  ∀ text ∈ c.inputPath :: c.fieldSeparator :: c.options :: c.steps.map (·.text),
    '\x1b' ∉ text.toList

instance : DecidablePred IsEscapeFree := fun c =>
  inferInstanceAs (Decidable (∀ text ∈ c.inputPath :: c.fieldSeparator :: c.options ::
    c.steps.map (·.text), '\x1b' ∉ text.toList))

theorem IsEscapeFree.inputPath (h : c.IsEscapeFree) : '\x1b' ∉ c.inputPath.toList :=
  h _ (by simp)

theorem IsEscapeFree.options (h : c.IsEscapeFree) : '\x1b' ∉ c.options.toList :=
  h _ (by simp)

theorem IsEscapeFree.text (h : c.IsEscapeFree) {s : Step} (hs : s ∈ c.steps) :
    '\x1b' ∉ s.text.toList := by
  refine h _ ?_
  simp only [List.mem_cons, List.mem_map]
  exact .inr (.inr (.inr ⟨s, hs, rfl⟩))

theorem IsEscapeFree.separator (h : c.IsEscapeFree) : '\x1b' ∉ c.separator.toList := by
  rw [Configuration.separator, orDefaultSeparator]
  split
  · decide
  · exact h _ (by simp)

/-- The flags hold no escape characters. -/
theorem escape_not_mem_formatWords :
    ∀ word ∈ separatorWord :: formatWords, '\x1b' ∉ word.toList := by
  decide +kernel

/-- No word of the command line holds an escape character. -/
theorem IsEscapeFree.commandWords (h : c.IsEscapeFree) :
    ∀ word ∈ c.commandWords, '\x1b' ∉ word.toList := by
  intro word hword
  simp only [Configuration.commandWords, List.mem_append, List.mem_cons] at hword
  rcases hword with (((rfl | hword) | hword) | hword) | hword
  · decide
  · obtain ⟨f, hf, hword⟩ := List.mem_flatMap.mp hword
    rcases List.mem_cons.mp hword with rfl | hword
    · exact escape_not_mem_formatWords _ (fst_mem_formatWords hf)
    · rcases mem_formatFlags hf with rfl | ⟨flag, -, rfl⟩
      · obtain rfl := List.mem_singleton.mp hword
        exact Words.not_mem_quote h.separator (by decide) (by decide)
      · exact absurd hword List.not_mem_nil
  · obtain ⟨rfl, -⟩ := trimmedOptions?_eq_some_iff.mp (Option.mem_toList.mp hword)
    exact Text.not_mem_trim h.options
  · rcases mem_intersperse hword with rfl | hword
    · decide
    · obtain ⟨s, hs, rfl⟩ := List.mem_map.mp hword
      exact Text.not_mem_trim (h.text (List.mem_filter.mp hs).1)
  · obtain ⟨path, hpath, rfl⟩ := Option.map_eq_some_iff.mp (Option.mem_toList.mp hword)
    rw [eq_inputPath_of_inputFile? hpath]
    exact Words.not_mem_quote h.inputPath (by decide) (by decide)

/-- **The command line** holds no escape character. -/
theorem IsEscapeFree.commandLine (h : c.IsEscapeFree) : '\x1b' ∉ c.commandLine.toList := by
  rw [Configuration.commandLine]
  split
  · exact not_mem_intercalate (by decide) h.commandWords
  · simp

end Configuration

namespace Display

variable (style : Style)

/-! ### The banner -/

/-- A line that shows as `u` is made to fit as `u` is. -/
theorem shows_fitBannerLine {line u : String} (h : Shows line u) (hu : '\x1b' ∉ u.toList) :
    Shows (fitBannerLine line style) (fitBannerLine u style.uncolored) ∧
      '\x1b' ∉ (fitBannerLine u style.uncolored).toList := by
  have hself := shows_self hu
  simp only [fitBannerLine, h.visibleLength_eq, hself.visibleLength_eq, h.stripEscapes_eq,
    hself.stripEscapes_eq, Style.width_uncolored]
  split
  -- a line that is cut has lost its colours before
  · have hcut := not_mem_truncate hu (by decide) (max (style.width - 4) 16)
    exact ⟨shows_self hcut, hcut⟩
  · exact ⟨h, hu⟩

/-- The box around a line is the one around what it shows as. -/
theorem shows_boxed {line u : String} (h : Shows line u) (hu : '\x1b' ∉ u.toList) :
    Shows (boxed line) (boxed u) := by
  have hrule : '\x1b' ∉ (String.ofList (List.replicate (u.length + 2) '─')).toList := by
    rw [String.toList_ofList]
    exact fun hmem => absurd (List.eq_of_mem_replicate hmem) (by decide)
  simp only [boxed, h.visibleLength_eq, (shows_self hu).visibleLength_eq]
  have hfront := (shows_self (t := "┌") (by decide)).append (shows_self hrule)
  have hopen := (hfront.append (shows_self (t := "┐\n│ ") (by decide))).append h
  exact ((hopen.append (shows_self (t := " │\n└") (by decide))).append (shows_self hrule)).append
    (shows_self (t := "┘") (by decide))

/-- **The banner** shows as it is without colours. -/
theorem shows_banner {title subtitle : String} (htitle : '\x1b' ∉ title.toList)
    (hsubtitle : '\x1b' ∉ subtitle.toList) :
    Shows (banner title (some subtitle) style) (banner title (some subtitle) style.uncolored) := by
  have htitle := Text.not_mem_trim htitle
  have hline : Shows (bannerLine title (some subtitle) style)
      (bannerLine title (some subtitle) style.uncolored) := by
    simp only [bannerLine, paint_uncolored]
    exact ((shows_paint htitle _ _).append (shows_self (by decide))).append
      (shows_paint hsubtitle _ _)
  have hplain : '\x1b' ∉ (bannerLine title (some subtitle) style.uncolored).toList := by
    simp only [bannerLine, paint_uncolored, String.toList_append, List.mem_append, not_or]
    exact ⟨⟨htitle, by decide⟩, hsubtitle⟩
  obtain ⟨hfit, hescape⟩ := shows_fitBannerLine style hline hplain
  exact shows_boxed hfit hescape

/-! ### The view -/

/-- **A table** shows as it is without colours. -/
theorem shows_table {headers : List String} {rows : List (List String)}
    (hcells : ∀ cells ∈ headers :: rows, ∀ cell ∈ cells, '\x1b' ∉ cell.toList) :
    Shows (table headers rows style) (table headers rows style.uncolored) := by
  rw [table, table]
  split
  · exact shows_self (by simp)
  · exact .intercalate (by decide) (shows_tableLines hcells _ style)

/-- A numeral holds no escape character. -/
theorem escape_not_mem_toString (n : Nat) : '\x1b' ∉ (toString n).toList := by
  rw [Nat.toString_eq_ofList_toDigits, String.toList_ofList]
  intro hmem
  exact absurd (Nat.isDigit_of_mem_toDigits (by decide) (by decide) hmem) (by decide)

/-- No cell of the table of steps holds an escape character. -/
theorem escape_not_mem_stepRows {c : Configuration} (h : c.IsEscapeFree) :
    ∀ cells ∈ ["#", "ON", "VERB"] :: stepRows c, ∀ cell ∈ cells, '\x1b' ∉ cell.toList := by
  intro cells hcells
  rcases List.mem_cons.mp hcells with rfl | hcells
  · decide
  · obtain ⟨i, hi, rfl⟩ := List.mem_mapIdx.mp hcells
    intro cell hcell
    simp only [List.mem_cons, List.not_mem_nil, or_false] at hcell
    rcases hcell with rfl | rfl | rfl
    · exact escape_not_mem_toString _
    · split <;> decide
    · exact h.text (List.getElem_mem hi)

/-- The line with the settings holds no escape character. -/
theorem escape_not_mem_settingsLine {c : Configuration} (h : c.IsEscapeFree) :
    '\x1b' ∉ (settingsLine c).toList := by
  have hbool (b : Bool) : '\x1b' ∉ (toString b).toList := by cases b <;> decide
  have hin : '\x1b' ∉ c.inputFormat.name.toList := by cases c.inputFormat <;> decide
  have hout : '\x1b' ∉ c.outputFormat.name.toList := by cases c.outputFormat <;> decide
  unfold settingsLine
  simp only [String.toList_append, List.mem_append, not_or, and_assoc]
  refine ⟨by decide, ?input, by decide, hin, by decide, hout, by decide, hbool _, by decide,
    hbool _, by decide, h.separator, ?options⟩
  case input =>
    cases hpath : c.inputFile? with
    | none => decide
    | some path =>
        rw [Configuration.eq_inputPath_of_inputFile? hpath]
        exact not_mem_append (by decide) h.inputPath
  case options =>
    split
    · decide
    · exact not_mem_append (by decide) h.options

/-- The view shows as it is without colours. -/
theorem shows_renderConfiguration {c : Configuration} (h : c.IsEscapeFree) :
    Shows (renderConfiguration c style) (renderConfiguration c style.uncolored) := by
  have htitle : '\x1b' ∉ (Symbol.pipeline.shown style ++ " Pipeline").toList := by
    refine not_mem_append ?_ (by decide)
    rw [Symbol.shown]
    split <;> decide
  have hsubtitle : '\x1b' ∉ (commandSubtitle c).toList := by
    rw [commandSubtitle]
    split
    · decide
    · exact h.commandLine
  have hsteps : Shows (stepsView c style) (stepsView c style.uncolored) := by
    rw [stepsView, stepsView]
    split
    · rw [paint_uncolored]
      refine shows_paint (not_mem_append ?_ (by decide)) _ _
      rw [Symbol.shown]
      split <;> decide
    · exact shows_table style (escape_not_mem_stepRows h)
  refine .intercalate (by decide) (.cons (shows_banner style htitle hsubtitle)
    (.cons ?_ (.cons hsteps .nil)))
  rw [paint_uncolored]
  exact shows_paint (escape_not_mem_settingsLine h) _ _

/-- **Colours never change the layout.** Without its escape sequences the view of a configuration
without escape characters is the view without colours; and a painted text is the text, also when
there are escape sequences in it, the last of them unfinished perhaps. -/
theorem stripEscapes_renderConfiguration :
    (∀ (c : Configuration), c.IsEscapeFree → ∀ style : Style,
      stripEscapes (renderConfiguration c { style with color := true }) =
        renderConfiguration c { style with color := false }) ∧
    ∀ (role : Role) (text : String) (style : Style),
      stripEscapes (paint role text style) = stripEscapes text :=
  ⟨fun _ h style => (shows_renderConfiguration { style with color := true } h).stripEscapes_eq,
    stripEscapes_paint⟩

/-- The banner is cut and loses its colours, and the settings and the head of the table keep theirs;
in the painted text a sequence is left open. -/
theorem stripEscapes_renderConfiguration_narrow :
    let c : Configuration :=
      { inputMode := .file, inputPath := "my data.csv", options := "-n"
        steps := [⟨"sort -f a", true⟩, ⟨"head", false⟩] }
    c.IsEscapeFree ∧
      renderConfiguration c ⟨true, true, 14⟩ ≠ renderConfiguration c ⟨false, true, 14⟩ ∧
      stripEscapes (renderConfiguration c ⟨true, true, 14⟩) =
        renderConfiguration c ⟨false, true, 14⟩ ∧
      stripEscapes (paint .error "no\x1b[3" ⟨true, true, 14⟩) = "no" :=
  have hfree : Configuration.IsEscapeFree
      { inputMode := .file, inputPath := "my data.csv", options := "-n"
        steps := [⟨"sort -f a", true⟩, ⟨"head", false⟩] } := by decide
  ⟨hfree, by decide +kernel, stripEscapes_renderConfiguration.1 _ hfree ⟨true, true, 14⟩,
    (stripEscapes_renderConfiguration.2 _ _ _).trans (by decide)⟩

end Display

end Pipewright
