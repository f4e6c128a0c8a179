import Pipewright.Command.InputFile
import Pipewright.Proofs.Command.Stages

/-!
# The Word That Names the Input File

Whether the last word of a command is its input file depends on the word and on the last
stage in front of it, not on where the tokens stand. This module reduces the decision to
the last stage of a pipeline.

## Main results

* `Stages.keepsLastWord_eq_false_iff`: what is in front of the last stage does not matter.
* `splitInputFile_concat`: a word behind the stages.
* `Stages.splitInputFile_eq_none_iff`: no word behind the stages.
* `Stages.splitInputFile_iff`: the same for the pieces of the stages, wherever they stand.
* `splitInputFile_map`: the same for tokens that keep what the reading looks at.
-/

namespace Pipewright

/-! ### Words without their places -/

/-- The token wherever it stands. -/
def Token.unplaced (t : Token) : Token :=
  { t with start := 0, stop := 0 }

/-- Tokens that stand elsewhere are the same tokens. -/
@[simp] theorem map_unplaced_shift (n : Nat) (ts : List Token) :
    (ts.map (Token.shift n)).map Token.unplaced = ts.map Token.unplaced := by
  rw [List.map_map]
  rfl

/-- What the reading of a command looks at stays the same: the values of the tokens, and which
of them are connectives. -/
structure KeepsReading (f : Token → Token) : Prop where
  /-- Every token keeps its value. -/
  value : ∀ t, (f t).value = t.value
  /-- Connectives, and no other tokens, stay connectives. -/
  isConnective : ∀ t, (f t).isConnective = t.isConnective

/-- Where a token stands is nothing that the reading looks at. -/
theorem keepsReading_unplaced : KeepsReading Token.unplaced :=
  ⟨fun _ => rfl, fun _ => rfl⟩

section Changed

variable {f : Token → Token} (hf : KeepsReading f)

include hf

/-- Options stay options. -/
theorem KeepsReading.isOption (t : Token) : (f t).isOption = t.isOption := by
  rw [Token.isOption, hf.value, Token.isOption]

/-- What looks like a path stays so. -/
theorem KeepsReading.resemblesFile (t : Token) :
    Pipewright.resemblesFile (f t) = Pipewright.resemblesFile t := by
  rw [Pipewright.resemblesFile, hf.value, hf.isConnective, Pipewright.resemblesFile]

/-- The last stage of changed tokens. -/
theorem lastStage_map (ts : List Token) : lastStage (ts.map f) = (lastStage ts).map f := by
  have hkeeps : ((!·.isConnective) ∘ f : Token → Bool) = (!·.isConnective) :=
    funext fun t => congrArg _ (hf.isConnective t)
  rw [lastStage, lastStage, ← List.map_reverse, List.takeWhile_map, ← List.map_reverse, hkeeps]

/-- Changed tokens keep the word behind them when the tokens do. -/
theorem keepsLastWord_map (ts : List Token) : keepsLastWord (ts.map f) = keepsLastWord ts := by
  rw [keepsLastWord, keepsLastWord, lastStage_map hf]
  cases lastStage ts with
  | nil => simp
  | cons verb arguments =>
      have hlast : (((arguments.map f).getLast?.getD (f verb)).value) =
          (arguments.getLast?.getD verb).value := by
        rw [List.getLast?_map, Option.getD_map, hf.value]
      have hall : (arguments.map f).all Token.isOption = arguments.all Token.isOption := by
        rw [List.all_map]
        exact List.all_congr rfl fun t => hf.isOption t
      simp only [List.map_cons, hlast, hall, hf.value]

/-- The stages and the input file of changed tokens. -/
theorem splitInputFile_map (region : List Token) :
    splitInputFile (region.map f) =
      ((splitInputFile region).1.map f, (splitInputFile region).2.map f) := by
  rw [splitInputFile, splitInputFile, List.getLast?_map]
  cases region.getLast? with
  | none => rfl
  | some last =>
      simp only [Option.map_some, hf.resemblesFile, ← List.map_dropLast, keepsLastWord_map hf]
      split <;> rfl

end Changed

/-- Tokens that differ in their places only agree on whether they keep the word behind
them. -/
theorem keepsLastWord_congr {ts us : List Token}
    (h : ts.map Token.unplaced = us.map Token.unplaced) :
    keepsLastWord ts = keepsLastWord us := by
  rw [← keepsLastWord_map keepsReading_unplaced, h, keepsLastWord_map keepsReading_unplaced]

/-! ### Names of files -/

/-- The word reads as the name of a file: it is no flag and no expression, it holds a letter or
a digit, and it names a file. -/
structure IsFileName (word : String) : Prop where
  /-- The word is no flag. -/
  flag : Text.startsWith word "-" = false
  /-- The word is no expression. -/
  expression : word.toList.contains '$' = false
  /-- The word holds a letter or a digit. -/
  alphanumeric : word.toList.any Text.isAlphanumeric = true
  /-- The word holds a separator of directories or ends in the extension of a data file. -/
  name : namesFile word = true

/-- Whether a word reads as the name of a file can be decided. -/
instance : DecidablePred IsFileName := fun word =>
  decidable_of_iff
    (Text.startsWith word "-" = false ∧ word.toList.contains '$' = false ∧
      word.toList.any Text.isAlphanumeric = true ∧ namesFile word = true)
    ⟨fun h => ⟨h.1, h.2.1, h.2.2.1, h.2.2.2⟩,
      fun h => ⟨h.flag, h.expression, h.alphanumeric, h.name⟩⟩

/-- The name of a file is not all blank. -/
theorem IsFileName.isBlankText_eq_false {word : String} (h : IsFileName word) :
    Text.isBlankText word = false := by
  obtain ⟨c, hc, halphanumeric⟩ := List.any_eq_true.mp h.alphanumeric
  rw [Text.isBlankText, List.all_eq_false]
  exact ⟨c, hc, by simp [Text.isBlank_of_isAlphanumeric halphanumeric]⟩

/-- A token that looks like a path has the name of a file as its value. -/
theorem isFileName_of_resemblesFile {t : Token} (h : resemblesFile t = true) :
    IsFileName t.value := by
  simp only [resemblesFile, Bool.and_eq_true, Bool.not_eq_true'] at h
  obtain ⟨⟨⟨⟨⟨-, hflag⟩, hexpression⟩, -⟩, halphanumeric⟩, hname⟩ := h
  exact ⟨hflag, hexpression, halphanumeric, hname⟩

/-- The name of a file looks like a path, also where it is quoted. -/
theorem IsFileName.resemblesFile_ofWord {word : String} (h : IsFileName word) :
    resemblesFile (Token.ofWord word) = true := by
  have hne : word.isEmpty = false := by
    cases hempty : word.isEmpty with
    | false => rfl
    | true => exact absurd h.alphanumeric (by simp [String.isEmpty_iff.mp hempty])
  have hconnective : (Token.ofWord word).isConnective = false := by
    cases hthen : (Token.ofWord word).isConnective with
    | false => rfl
    | true =>
        rw [Token.isConnective, Token.spells, Bool.and_eq_true, beq_iff_eq] at hthen
        have hplain : Words.needsQuotes word = false := by simpa [Token.ofWord] using hthen.1
        have hraw : Words.quote word = connective := hthen.2
        rw [Words.quote, hplain] at hraw
        obtain rfl : word = connective := hraw
        exact absurd h.name (by decide)
  have hvalue : (Token.ofWord word).value = word := rfl
  rw [resemblesFile, hconnective, hvalue, hne, h.flag, h.expression, h.alphanumeric, h.name]
  rfl

/-! ### The last stage of a pipeline -/

/-- The tokens behind the last connective, and in front of them either nothing or a
connective. -/
theorem lastStage_append {front stage : List Token} (hfree : ∀ t ∈ stage, t.isConnective = false)
    (hfront : ∀ t ∈ front.getLast?, t.isConnective = true) :
    lastStage (front ++ stage) = stage := by
  have hstop : front.reverse.takeWhile (!·.isConnective) = [] := by
    rw [← List.head?_reverse] at hfront
    cases hreverse : front.reverse with
    | nil => rfl
    | cons t rest =>
        rw [hreverse] at hfront
        simp [hfront t rfl]
  rw [lastStage, List.reverse_append, List.takeWhile_append_of_pos, hstop, List.append_nil,
    List.reverse_reverse]
  intro t ht
  simp [hfree t (List.mem_reverse.mp ht)]

/-- The last stage of a pipeline is the last of its stages; a connective stands in front of
it unless it is the only one. -/
theorem Stages.exists_last {region : List Token} {stages : List (List Token)}
    (h : Stages region stages) :
    ∃ front, ∃ stage ∈ stages.getLast?, region = front ++ stage ∧
      (∀ t ∈ stage, t.isConnective = false) ∧ (∀ t ∈ front.getLast?, t.isConnective = true) ∧
      (front = [] ↔ stages.length = 1) := by
  induction h with
  | @last stage hfree => exact ⟨[], stage, rfl, rfl, hfree, by simp, by simp⟩
  | @cons stage region t stages hfree ht hrest ih =>
      obtain ⟨front, last, hlast, rfl, hbare, hfront, _⟩ := ih
      refine ⟨stage ++ t :: front, last, ?_, by simp, hbare, ?_, by simpa using hrest.ne_nil⟩
      · rw [List.getLast?_cons, Option.mem_def.mp hlast]
        rfl
      · intro u hu
        cases hf : front.getLast? with
        | none => simp_all
        | some v =>
            simp only [List.getLast?_append, List.getLast?_cons, hf, Option.getD_some,
              Option.some_or, Option.mem_def, Option.some.injEq] at hu
            exact hu ▸ hfront v hf

/-- Tokens that do not begin a stage keep what the stage in front of them keeps. -/
theorem keepsLastWord_append {front stage : List Token}
    (hfree : ∀ t ∈ stage, t.isConnective = false)
    (hfront : ∀ t ∈ front.getLast?, t.isConnective = true) :
    keepsLastWord (front ++ stage) = false ↔
      keepsLastWord stage = false ∧ (stage = [] → front = []) := by
  have hstage : lastStage ([] ++ stage) = stage := lastStage_append hfree (by simp)
  rw [List.nil_append] at hstage
  rw [keepsLastWord, keepsLastWord, lastStage_append hfree hfront, hstage]
  cases stage with
  | nil => simp
  | cons verb arguments => simp

/-- **Only the last stage matters** for whether a pipeline keeps the word behind it. -/
theorem Stages.keepsLastWord_eq_false_iff {region stage : List Token}
    {stages : List (List Token)} (h : Stages region stages) (hlast : stage ∈ stages.getLast?)
    (hne : stage ≠ []) : keepsLastWord region = false ↔ keepsLastWord stage = false := by
  obtain ⟨front, stage', hlast', rfl, hfree, hfront, -⟩ := h.exists_last
  obtain rfl := Option.mem_unique hlast hlast'
  rw [keepsLastWord_append hfree hfront]
  simp [hne]

/-- The last word of a stage is taken for the input file: it looks like a path, the words in
front of it do not keep it, and there are such words or no other stage, as `alone` says. -/
def GivesFile (alone : Prop) (stage : List Token) : Prop :=
  ∃ t ∈ stage.getLast?, resemblesFile t = true ∧ keepsLastWord stage.dropLast = false ∧
    (stage.dropLast = [] → alone)

/-- Whether a stage gives a file can be decided. -/
instance (alone : Prop) [Decidable alone] : DecidablePred (GivesFile alone) := fun stage =>
  inferInstanceAs (Decidable (∃ t ∈ stage.getLast?, resemblesFile t = true ∧
    keepsLastWord stage.dropLast = false ∧ (stage.dropLast = [] → alone)))

/-- Whether a stage gives a file does not depend on where it stands. -/
theorem givesFile_map_unplaced {alone : Prop} (ts : List Token) :
    GivesFile alone (ts.map Token.unplaced) ↔ GivesFile alone ts := by
  rcases List.eq_nil_or_concat ts with rfl | ⟨words, t, rfl⟩
  · rfl
  · have hresembles := keepsReading_unplaced.resemblesFile t
    simp [GivesFile, hresembles, keepsLastWord_map keepsReading_unplaced]

/-- Stages that differ in their places only agree on whether they give a file. -/
theorem givesFile_congr {alone : Prop} {ts us : List Token}
    (h : ts.map Token.unplaced = us.map Token.unplaced) :
    GivesFile alone ts ↔ GivesFile alone us := by
  rw [← givesFile_map_unplaced, h, givesFile_map_unplaced]

/-- **A word behind the stages** is the input file when it looks like a path and the stages
do not keep it. -/
theorem splitInputFile_concat (region : List Token) (t : Token) :
    splitInputFile (region ++ [t]) =
      if resemblesFile t && !keepsLastWord region then (region, some t)
      else (region ++ [t], none) := by
  simp [splitInputFile]

/-- The word behind the stages that is the input file looks like a path, and the stages do not
keep it. -/
theorem resemblesFile_of_splitInputFile {region : List Token} {t : Token}
    (h : splitInputFile (region ++ [t]) = (region, some t)) :
    resemblesFile t = true ∧ keepsLastWord region = false := by
  rw [splitInputFile_concat] at h
  split at h
  next hfile => simpa using hfile
  · exact absurd h (by simp)

/-- **No word behind the stages**: the last stage gives no file, and all tokens belong to the
stages. -/
theorem Stages.splitInputFile_eq_none_iff {region stage : List Token}
    {stages : List (List Token)} (h : Stages region stages) (hlast : stage ∈ stages.getLast?)
    (hne : stage ≠ []) :
    splitInputFile region = (region, none) ↔ ¬ GivesFile (stages.length = 1) stage := by
  obtain ⟨front, stage', hlast', rfl, hfree, hfront, hfirst⟩ := h.exists_last
  obtain rfl := Option.mem_unique hlast hlast'
  rcases List.eq_nil_or_concat stage with rfl | ⟨words, t, rfl⟩
  · exact absurd rfl hne
  · rw [List.concat_eq_append] at hfree ⊢
    have hwords : ∀ u ∈ words, u.isConnective = false :=
      fun u hu => hfree u (List.mem_append_left _ hu)
    have hgives : GivesFile (stages.length = 1) (words ++ [t]) ↔
        resemblesFile t = true ∧ keepsLastWord (front ++ words) = false := by
      rw [keepsLastWord_append hwords hfront, hfirst]
      simp [GivesFile]
    rw [hgives, ← List.append_assoc, splitInputFile_concat]
    cases hresembles : resemblesFile t <;> cases hkept : keepsLastWord (front ++ words) <;> simp

/-! ### Stages that stand in a text as pieces -/

/-- A piece that stands in a text has tokens there. -/
theorem Piece.Stands.ne_nil {p : Piece} {cs : List Char} {stage : List Token}
    (h : p.Stands cs stage) : stage ≠ [] := by
  obtain ⟨hfits, pre, post, -, rfl⟩ := h
  intro hnil
  have hstart := hfits.start
  rw [List.map_eq_nil_iff.mp hnil] at hstart
  exact absurd hstart (by simp)

/-- The words of a piece that stands in a text are those of the piece. -/
theorem Piece.Stands.map_unplaced {p : Piece} {cs : List Char} {stage : List Token}
    (h : p.Stands cs stage) : stage.map Token.unplaced = p.tokens.map Token.unplaced := by
  obtain ⟨-, pre, post, -, rfl⟩ := h
  exact map_unplaced_shift _ _

section Standing

variable {cs : List Char} {region : List Token} {parts : List (List Token)} {ps : List Piece}

/-- A pipeline whose stages stand in a text has tokens. -/
theorem Stages.region_ne_nil (h : Stages region parts)
    (hstands : List.Forall₂ (fun part p => Piece.Stands p cs part) parts ps) : region ≠ [] := by
  cases h with
  | last hfree =>
      obtain ⟨p, rest, hp, -, -⟩ := List.forall₂_cons_left_iff.mp hstands
      exact hp.ne_nil
  | cons => simp

/-- A pipeline starts with a flag when its first stage does. -/
theorem Stages.isOption_head?_iff (h : Stages region parts)
    (hstands : List.Forall₂ (fun part p => Piece.Stands p cs part) parts ps) :
    (∀ t ∈ region.head?, t.isOption = false) ↔
      ∀ p ∈ ps.head?, ∀ t ∈ p.tokens.head?, t.isOption = false := by
  obtain ⟨part, hpart, hregion⟩ : ∃ part ∈ parts.head?, part ≠ [] → region.head? = part.head? := by
    cases h with
    | last => exact ⟨region, rfl, fun _ => rfl⟩
    | @cons stage rest t =>
        refine ⟨stage, rfl, fun hne => ?_⟩
        obtain ⟨u, us, rfl⟩ := List.exists_cons_of_ne_nil hne
        rfl
  cases hstands with
  | nil => exact absurd hpart (Option.not_mem_none part)
  | @cons part' p parts ps hp _ =>
      obtain rfl := Option.some.inj hpart
      rw [hregion hp.ne_nil]
      obtain ⟨-, pre, post, -, rfl⟩ := hp
      simp

/-- A pipeline whose stages stand in a text keeps the word behind it when the last piece
does. -/
theorem Stages.keepsLastWord_iff (h : Stages region parts)
    (hstands : List.Forall₂ (fun part p => Piece.Stands p cs part) parts ps) {p : Piece}
    (hp : p ∈ ps.getLast?) : keepsLastWord region = false ↔ keepsLastWord p.tokens = false := by
  obtain ⟨part, hpart, hpiece⟩ := exists_getLast_of_forall₂ hstands hp
  rw [h.keepsLastWord_eq_false_iff hpart hpiece.ne_nil, keepsLastWord_congr hpiece.map_unplaced]

/-- A pipeline whose stages stand in a text gives a file when the last piece does. -/
theorem Stages.splitInputFile_iff (h : Stages region parts)
    (hstands : List.Forall₂ (fun part p => Piece.Stands p cs part) parts ps) {p : Piece}
    (hp : p ∈ ps.getLast?) :
    splitInputFile region = (region, none) ↔ ¬ GivesFile (ps.length = 1) p.tokens := by
  obtain ⟨part, hpart, hpiece⟩ := exists_getLast_of_forall₂ hstands hp
  rw [h.splitInputFile_eq_none_iff hpart hpiece.ne_nil, hstands.length_eq,
    givesFile_congr hpiece.map_unplaced]

/-- The pieces of a pipeline hold no connective. -/
theorem Stages.isConnective_of_stands (h : Stages region parts)
    (hstands : List.Forall₂ (fun part p => Piece.Stands p cs part) parts ps) :
    ∀ p ∈ ps, ∀ t ∈ p.tokens, t.isConnective = false := by
  intro p hp t ht
  obtain ⟨part, hpart, -, pre, post, -, rfl⟩ := exists_left_of_forall₂ hstands hp
  exact h.isConnective_eq_false _ hpart (t.shift _) (List.mem_map_of_mem ht)

end Standing

end Pipewright
