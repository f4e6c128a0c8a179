import Pipewright.Command.Arguments
import Pipewright.Proofs.Command.Cut
import Pipewright.Proofs.Command.Rewording

/-!
# Commands on Several Lines

A command may be continued on the next line: a backslash in front of a line feed, put in
front of one of its words or behind one, is meant to change nothing. That holds of the flags,
of the number of steps, of the words of every step and of the options and of the arguments
for execution, but for two places. In front of the connective or behind it, the pair makes
the connective an ordinary word, and two stages become one. Behind the last word of a stage
or of the options, the line feed is trimmed away as a blank and the backslash stays behind.

The proof follows the pieces that are cut out of the command (`Joins.exists_cut`). Such a
piece either stays as it is or gets the pair; then trimming keeps the pair in one, and neither
the tokens nor the words for execution of the piece look at it.

## Main definitions

* `partEnds`: the last words of the stages and of the options.
* `SameWords`: two texts whose tokens have the same values.

## Main results

* `Joins.exists_steps`, `Joins.widenedLine_options`: the steps and the options.
* `Configuration.ofCommand_continued`: what a command on two lines is read as.
-/

namespace Pipewright

/-! ### Texts with pairs in them -/

/-- The text `b` is the text `a` with pairs put into it, and `a` has tokens. -/
structure Rejoined (a b : String) : Prop where
  /-- The text has tokens. -/
  tokens : ∃ ts, readTokens a.toList = .ok ts
  /-- The pairs. -/
  pairs : AddsPairs a.toList b.toList

/-- The tokens of two texts have the same values. -/
def SameWords (a b : String) : Prop :=
  ∃ ts us, tokensOf a = .ok ts ∧ tokensOf b = .ok us ∧ us.map (·.value) = ts.map (·.value)

/-- Whether two texts have the same words can be decided. -/
instance : DecidableRel SameWords := fun a b =>
  match ha : tokensOf a, hb : tokensOf b with
  | .ok ts, .ok us => decidable_of_iff (us.map (·.value) = ts.map (·.value))
      ⟨fun hsame => ⟨ts, us, ha, hb, hsame⟩, fun ⟨ts', us', ha', hb', hsame⟩ => by
        obtain rfl := Except.ok.inj (ha.symm.trans ha')
        obtain rfl := Except.ok.inj (hb.symm.trans hb')
        exact hsame⟩
  | .error _, _ => isFalse fun ⟨_, _, ha', _⟩ => nomatch ha.symm.trans ha'
  | _, .error _ => isFalse fun ⟨_, _, _, hb', _⟩ => nomatch hb.symm.trans hb'

/-- Pairs change no values. -/
theorem Rejoined.sameWords {a b : String} (h : Rejoined a b) : SameWords a b := by
  obtain ⟨ts, hts⟩ := h.tokens
  have hvalues := h.pairs.values
  rw [values?, values?, hts] at hvalues
  obtain ⟨us, hus, hsame⟩ := Option.map_eq_some_iff.mp hvalues
  refine ⟨ts, us, hts, ?_, hsame⟩
  rw [tokensOf_eq]
  cases hb : readTokens b.toList with
  | error e => simp [hb, Except.toOption] at hus
  | ok vs => simpa [hb, Except.toOption] using hus

/-- Pairs change no words for execution, without comments. -/
theorem Rejoined.words_eq {a b : String} (h : Rejoined a b) (ha : '#' ∉ a.toList)
    (part : SplitPart) : part.words b = part.words a := by
  obtain ⟨ts, hts⟩ := h.tokens
  obtain ⟨words, hwords⟩ := exists_split?_of_readTokens hts ha
  have hsame := (h.pairs.split?_eq ha).1
  rw [hwords, String.ofList_toList] at hsame
  rw [String.ofList_toList] at hwords
  rw [SplitPart.words, SplitPart.words, hwords, hsame]

/-- The trimmed texts differ by pairs as well, where the texts start with no blank. -/
theorem Rejoined.trim {a b : String} (h : Rejoined a b)
    (ha : ∀ c ∈ a.toList.head?, Text.isBlank c = false) :
    Rejoined (Text.trim a) (Text.trim b) := by
  obtain ⟨ts, hts⟩ := h.tokens
  constructor
  · rw [Text.trim, String.toList_ofList]
    exact exists_readTokens_trimChars hts ha
  · rw [Text.trim, Text.trim, String.toList_ofList, String.toList_ofList]
    exact (h.pairs.trimChars ha).1

/-- What is cut out is trimmed to texts that are not empty and differ by pairs. -/
theorem Widened.trim {x x' : List Char} (h : Widened False x x') :
    Rejoined (Text.trim (.ofList x)) (Text.trim (.ofList x')) ∧ Text.trim (.ofList x') ≠ "" := by
  obtain ⟨c, hc, hblank⟩ := h.head
  have hpairs : AddsPairs x x' := h.pairs.resolve_right fun hend => hend.1
  have hrejoined : Rejoined (.ofList x) (.ofList x') := by
    constructor
    · simpa using h.tokens
    · simpa using hpairs
  refine ⟨hrejoined.trim fun d hd => ?_, ?_⟩
  · rw [String.toList_ofList] at hd
    exact Option.mem_unique hc hd ▸ hblank
  · obtain ⟨d, hd, hblank⟩ := hpairs.exists_mem ⟨c, List.mem_of_mem_head? hc, hblank⟩
    simpa [Text.trim] using Text.trimChars_ne_nil hd hblank

/-! ### The steps -/

/-- The step of a text that is not blank. -/
theorem Step.ofText?_eq_some_iff {text : String} {s : Step} :
    Step.ofText? text = some s ↔ Text.trim text ≠ "" ∧ s = ⟨Text.trim text, true⟩ := by
  rw [Step.ofText?]
  by_cases h : Text.trim text = ""
  · simp [h]
  · have hempty : (Text.trim text).isEmpty = false := by simpa using h
    rw [hempty, if_neg Bool.false_ne_true, Option.some.injEq]
    exact ⟨fun hs => ⟨h, hs.symm⟩, fun hs => hs.2.symm⟩

/-- A stage becomes the step of its text. -/
theorem isStep_iff_of_cutOf {input : String} {stage : List Token} {x : List Char}
    (hx : cutOf input.toList stage = some x) {s : Step} :
    IsStep input stage s ↔ Step.ofText? (.ofList x) = some s := by
  obtain ⟨⟨start, stop⟩, hspan, rfl⟩ := Option.map_eq_some_iff.mp hx
  obtain ⟨first, hfirst, hmap⟩ := Option.bind_eq_some_iff.mp hspan
  obtain ⟨last, hlast, hends⟩ := Option.map_eq_some_iff.mp hmap
  obtain ⟨rfl, rfl⟩ := Prod.mk.inj hends
  constructor
  · rintro ⟨first', hfirst', last', hlast', hs⟩
    obtain rfl := Option.mem_unique hfirst hfirst'
    obtain rfl := Option.mem_unique hlast hlast'
    exact hs
  · exact fun hs => ⟨first, hfirst, last, hlast, hs⟩

/-- The step `s'` is the step `s` with pairs put into its text. -/
structure Step.Rejoined (s s' : Step) : Prop where
  /-- The step takes part. -/
  enabled : s.enabled = true
  /-- The other step takes part. -/
  enabled' : s'.enabled = true
  /-- The texts. -/
  text : Pipewright.Rejoined s.text s'.text

/-- The stages of a pipeline are what the connectives leave between them. -/
theorem Stages.eq_splitOnP {region : List Token} {stages : List (List Token)}
    (h : Stages region stages) : stages = region.splitOnP (·.isConnective) := by
  induction h with
  | last hfree => exact (List.splitOnP_eq_singleton hfree).symm
  | @cons stage region t stages hfree ht _ ih =>
      rw [List.splitOnP_append_cons_of_forall_mem hfree t ht, ih]

section Text

variable {front behind : List Char} {ts pre region post : List Token} {t t' : Token}
  {input input' : String}

/-- **The steps of a command with the pair**, where the pair does not stand behind the last
word of a stage. -/
theorem Joins.exists_steps (h : Joins front behind ts t t')
    (hinput : input.toList = front ++ behind) (hinput' : input'.toList = front ++ joint ++ behind)
    (hts : ts = pre ++ region ++ post) {stages : List (List Token)} (hstages : Stages region stages)
    (hends : ∀ stage ∈ stages, t ∈ stage.getLast? → t.start = Text.byteLength front)
    {steps : List Step} (hsteps : List.Forall₂ (IsStep input) stages steps) :
    ∃ steps', List.Forall₂ (IsStep input') (stages.map (List.map (t.become t'))) steps' ∧
      List.Forall₂ Step.Rejoined steps steps' := by
  have hstage {pre stage post : List Token} (hts : ts = pre ++ stage ++ post)
      (hend : t ∈ stage.getLast? → t.start = Text.byteLength front) {s : Step}
      (hs : IsStep input stage s) :
      ∃ s', IsStep input' (stage.map (t.become t')) s' ∧ s.Rejoined s' := by
    obtain ⟨x, x', hx, hx', hwidened, -⟩ := h.exists_cut hts hs.ne_nil
    rw [← hinput] at hx
    rw [← hinput'] at hx'
    obtain ⟨hrejoined, hne⟩ := (hwidened.imp fun hlast => hlast.2 (hend hlast.1)).trim
    obtain ⟨-, rfl⟩ := Step.ofText?_eq_some_iff.mp ((isStep_iff_of_cutOf hx).mp hs)
    exact ⟨_, (isStep_iff_of_cutOf hx').mpr (Step.ofText?_eq_some_iff.mpr ⟨hne, rfl⟩), rfl, rfl,
      hrejoined⟩
  induction hstages generalizing pre steps with
  | last =>
      obtain ⟨s, rest, hs, hrest, rfl⟩ := List.forall₂_cons_left_iff.mp hsteps
      cases hrest
      obtain ⟨s', hs', hrejoined⟩ := hstage hts (hends _ List.mem_cons_self) hs
      exact ⟨[s'], .cons hs' .nil, .cons hrejoined .nil⟩
  | @cons stage region u stages _ _ _ ih =>
      obtain ⟨s, rest, hs, hrest, rfl⟩ := List.forall₂_cons_left_iff.mp hsteps
      have hts₁ : ts = pre ++ stage ++ (u :: region ++ post) := by rw [hts]; simp
      have hts₂ : ts = pre ++ stage ++ [u] ++ region ++ post := by rw [hts]; simp
      obtain ⟨s', hs', hrejoined⟩ := hstage hts₁ (hends _ List.mem_cons_self) hs
      obtain ⟨steps', hsteps', hrejoineds⟩ :=
        ih hts₂ (fun stage' hmem => hends stage' (List.mem_cons_of_mem stage hmem)) hrest
      exact ⟨s' :: steps', .cons hs' hsteps', .cons hrejoined hrejoineds⟩

/-- The steps of a command with the pair, of which there are none without a pipeline. -/
theorem Joins.exists_pipelineSteps (h : Joins front behind ts t t')
    (hinput : input.toList = front ++ behind) (hinput' : input'.toList = front ++ joint ++ behind)
    (hplain : t.isConnective = false) (hts : ts = pre ++ region ++ post)
    (hends : ∀ stage ∈ region.splitOnP (·.isConnective), t ∈ stage.getLast? →
      t.start = Text.byteLength front)
    {steps : List Step} (hsteps : pipelineSteps input region = .ok steps) :
    ∃ steps', pipelineSteps input' (region.map (t.become t')) = .ok steps' ∧
      List.Forall₂ Step.Rejoined steps steps' := by
  by_cases hne : region = []
  · subst hne
    obtain rfl := Except.ok.inj hsteps
    exact ⟨[], rfl, .nil⟩
  · obtain ⟨stages, hstages⟩ := exists_stages region
    rw [← hstages.eq_splitOnP] at hends
    obtain ⟨steps', hsteps', hrejoined⟩ := h.exists_steps hinput hinput' hts hstages hends
      ((hstages.pipelineSteps_eq_ok_iff hne).mp hsteps)
    have hstages' := hstages.map (h.keepsReading hplain)
    exact ⟨steps', (hstages'.pipelineSteps_eq_ok_iff (by simpa using hne)).mpr hsteps', hrejoined⟩

end Text

/-! ### The options -/

/-- The pieces of a line, and what becomes of them: a pair stands behind a piece only where
other pieces follow. -/
inductive WidenedLine : List (List Char) → List (List Char) → Prop
  | nil : WidenedLine [] []
  | cons {x x' : List Char} {xs xs' : List (List Char)} (hx : Widened (xs ≠ []) x x')
      (hsettled : xs ≠ [] → (Scanner.init.run x).Settled) (hxs : WidenedLine xs xs') :
      WidenedLine (x :: xs) (x' :: xs')

/-- Both lines have the same number of pieces. -/
theorem WidenedLine.eq_nil_iff {xs xs' : List (List Char)} (h : WidenedLine xs xs') :
    xs' = [] ↔ xs = [] := by
  cases h <;> simp

/-- A line of pieces starts with its first token. -/
theorem WidenedLine.head {xs xs' : List (List Char)} (h : WidenedLine xs xs') (hne : xs ≠ []) :
    ∃ c ∈ ([' '].intercalate xs).head?, Text.isBlank c = false := by
  cases h with
  | nil => exact absurd rfl hne
  | @cons x x' xs xs' hx _ _ =>
      obtain ⟨c, hc, hblank⟩ := hx.head
      refine ⟨c, ?_, hblank⟩
      by_cases hxs : xs = []
      · rwa [hxs, List.intercalate_singleton]
      · rw [List.intercalate_cons_of_ne_nil hxs, List.append_assoc, List.head?_append,
          Option.mem_def.mp hc]
        rfl

/-- **The line of the pieces** has tokens, and its pieces put pairs into it. -/
theorem WidenedLine.line {xs xs' : List (List Char)} (h : WidenedLine xs xs') :
    (∃ ts, readTokens ([' '].intercalate xs) = .ok ts) ∧
      AddsPairs ([' '].intercalate xs) ([' '].intercalate xs') := by
  have hspace : Text.isBlank ' ' = true := by decide
  induction h with
  | nil => exact ⟨⟨[], rfl⟩, .refl⟩
  | @cons x x' xs xs' hx hsettled hxs ih =>
      by_cases hne : xs = []
      · obtain rfl := hne
        obtain rfl := hxs.eq_nil_iff.mpr rfl
        rw [List.intercalate_singleton, List.intercalate_singleton]
        exact ⟨hx.tokens, hx.pairs.resolve_right fun hend => hend.1 rfl⟩
      · have hne' : xs' ≠ [] := fun hnil => hne (hxs.eq_nil_iff.mp hnil)
        have hfront := hsettled hne
        obtain ⟨⟨us, hus⟩, hrest⟩ := ih
        obtain ⟨ts, hts⟩ := hx.tokens
        rw [List.intercalate_cons_of_ne_nil hne, List.intercalate_cons_of_ne_nil hne']
        refine ⟨⟨_, Spells.tokens_append_blank ⟨hfront, hts⟩ hspace hus⟩, ?_⟩
        -- first the pairs of the first piece, then those of the others
        rcases hx.pairs with hpairs | ⟨-, rfl⟩
        · have hfront' := hpairs.alike.settled hfront
          rw [List.append_assoc, List.append_assoc]
          refine (hpairs.append _).trans ?_
          rw [← List.append_assoc, ← List.append_assoc]
          exact hrest.behind hfront' hspace
        · have hfront' : (Scanner.init.run (x ++ joint)).Settled := by
            rw [Scanner.run_append]
            exact hfront.alike_joint.settled hfront
          obtain ⟨c, hc, hblank⟩ := hxs.head hne
          have hpair : AddsPair (x ++ [' '] ++ [' '].intercalate xs)
              (x ++ joint ++ [' '] ++ [' '].intercalate xs) :=
            ⟨x, [' '] ++ [' '].intercalate xs, by simp, by simp, hfront, c,
              List.mem_append_right _ (List.mem_of_mem_head? hc), hblank⟩
          exact (Relation.ReflTransGen.single hpair).trans (hrest.behind hfront' hspace)

/-- Two texts that are such lines differ by pairs, and so do the trimmed texts. -/
theorem WidenedLine.rejoined {xs xs' : List (List Char)} (h : WidenedLine xs xs') {a b : String}
    (ha : a.toList = [' '].intercalate xs) (hb : b.toList = [' '].intercalate xs') :
    Rejoined a b ∧ Rejoined (Text.trim a) (Text.trim b) := by
  have hrejoined : Rejoined a b := by
    constructor
    · rw [ha]
      exact h.line.1
    · rw [ha, hb]
      exact h.line.2
  refine ⟨hrejoined, hrejoined.trim fun d hd => ?_⟩
  rw [ha] at hd
  by_cases hne : xs = []
  · simp [hne] at hd
  · obtain ⟨c, hc, hblank⟩ := h.head hne
    exact Option.mem_unique hc hd ▸ hblank

/-- Flags that are passed on behind others make a span. -/
theorem optionSpans_some_ne_nil (span : Nat × Nat) (groups : List FlagGroup) :
    optionSpans (some span) groups ≠ [] := by
  induction groups generalizing span with
  | nil => simp [optionSpans]
  | cons g groups ih =>
      cases g with
      | passed flag value =>
          rw [optionSpans]
          exact ih _
      | setting | separator => simp [optionSpans]

/-- Without a span there are no flags that are passed on. -/
theorem passedTokens_eq_nil {groups : List FlagGroup} (h : optionSpans none groups = []) :
    passedTokens groups = [] := by
  induction groups with
  | nil => rfl
  | cons g groups ih =>
      cases g with
      | passed flag value =>
          rw [optionSpans] at h
          exact absurd h (optionSpans_some_ne_nil _ groups)
      | setting flag s => exact ih (by simpa [optionSpans] using h)
      | separator flag value => exact ih (by simpa [optionSpans] using h)

namespace Joins

variable {front behind : List Char} {ts pre run post : List Token} {t t' : Token}

/-- A run of tokens that ends, in front of other spans. -/
theorem widenedLine_append (h : Joins front behind ts t t') {rest rest' : List (Nat × Nat)}
    (hts : ts = pre ++ run ++ post) (hpost : rest ≠ [] → post ≠ [])
    (hend : t ∈ run.getLast? → rest = [] → t.start = Text.byteLength front)
    (hrest : WidenedLine (cutsOf (front ++ behind) rest)
      (cutsOf (front ++ joint ++ behind) rest')) :
    WidenedLine (cutsOf (front ++ behind) ((spanOf run).toList ++ rest))
      (cutsOf (front ++ joint ++ behind) ((spanOf (run.map (t.become t'))).toList ++ rest')) := by
  by_cases hne : run = []
  · subst hne
    exact hrest
  · obtain ⟨x, x', hx, hx', hwidened, hsettled⟩ := h.exists_cut hts hne
    obtain ⟨r, hr, rfl⟩ := Option.map_eq_some_iff.mp hx
    obtain ⟨r', hr', rfl⟩ := Option.map_eq_some_iff.mp hx'
    have hnil : cutsOf (front ++ behind) rest = [] ↔ rest = [] := List.map_eq_nil_iff
    rw [hr, hr']
    refine .cons (hwidened.imp fun hlast hlone => ?_) (fun hmore => ?_) hrest
    · exact hlast.2 (hend hlast.1 (hnil.mp hlone))
    · exact hsettled (hpost (mt hnil.mpr hmore))

/-- **The options of a command with the pair**, where the pair does not stand behind their
last word. -/
theorem widenedLine_options (h : Joins front behind ts t t') {groups : List FlagGroup}
    (hts : ts = pre ++ run ++ groupTokens groups ++ post)
    (hend : t ∈ (run ++ passedTokens groups).getLast? → t.start = Text.byteLength front) :
    WidenedLine (cutsOf (front ++ behind) (optionSpans (spanOf run) groups))
      (cutsOf (front ++ joint ++ behind) (optionSpans (spanOf (run.map (t.become t')))
        (groups.map (FlagGroup.map (t.become t'))))) := by
  induction groups generalizing pre run with
  | nil =>
      rw [optionSpans, List.map_nil, optionSpans, ← List.append_nil (spanOf run).toList,
        ← List.append_nil (spanOf (run.map (t.become t'))).toList]
      have hts' : ts = pre ++ run ++ post := by simpa [groupTokens] using hts
      have hend' : t ∈ run.getLast? → t.start = Text.byteLength front := by
        simpa [passedTokens, groupTokens] using hend
      exact h.widenedLine_append hts' (absurd rfl) (fun hlast _ => hend' hlast) .nil
  | cons g groups ih =>
      rw [groupTokens_cons] at hts
      rw [List.map_cons]
      by_cases hg : g.IsPassed
      · obtain ⟨flag, value, rfl⟩ : ∃ flag value, g = .passed flag value := by
          cases g with
          | passed flag value => exact ⟨flag, value, rfl⟩
          | setting | separator => exact hg.elim
        have hpassed : run ++ passedTokens (.passed flag value :: groups) =
            run ++ flag :: value.toList ++ passedTokens groups := by
          rw [passedTokens, List.filter_cons_of_pos (by simpa using hg), groupTokens_cons,
            FlagGroup.tokens, List.append_assoc]
          rfl
        have hmap : run.map (t.become t') ++ t.become t' flag :: (value.map (t.become t')).toList =
            (run ++ flag :: value.toList).map (t.become t') := by
          cases value <;> simp
        rw [FlagGroup.map, optionSpans_passed, optionSpans_passed, hmap]
        rw [hpassed] at hend
        exact ih (by simpa [FlagGroup.tokens] using hts) hend
      · -- the run ends here, and the next one starts with nothing
        have hpassed : passedTokens (g :: groups) = passedTokens groups := by
          rw [passedTokens, List.filter_cons_of_neg (by simpa using hg)]
          rfl
        have hg' : ¬ (g.map (t.become t')).IsPassed := mt (g.isPassed_map _).mp hg
        rw [hpassed] at hend
        rw [optionSpans_of_not_isPassed hg, optionSpans_of_not_isPassed hg']
        have htsRun : ts = pre ++ run ++ (g.tokens ++ groupTokens groups ++ post) := by
          rw [hts]
          simp
        have htsRest : ts = pre ++ run ++ g.tokens ++ [] ++ groupTokens groups ++ post := by
          rw [hts]
          simp
        refine h.widenedLine_append htsRun (fun _ => by simp [g.tokens_ne_nil]) ?_
          (ih htsRest fun hlast => hend ?_)
        · intro hlast hnil
          exact hend (by simpa [passedTokens_eq_nil hnil] using hlast)
        · rw [List.nil_append] at hlast
          rw [List.getLast?_append, Option.mem_def.mp hlast]
          rfl

end Joins

/-! ### The arguments for execution -/

/-- A text with pairs put into it is empty when the text is. -/
theorem Rejoined.eq_empty_iff {a b : String} (h : Rejoined a b) : b = "" ↔ a = "" := by
  rw [← String.toList_eq_nil_iff, h.pairs.eq_nil_iff, String.toList_eq_nil_iff]

/-- Steps that take part are all enabled. -/
theorem filter_enabled_of_rejoined {steps steps' : List Step}
    (h : List.Forall₂ Step.Rejoined steps steps') :
    steps.filter (·.enabled) = steps ∧ steps'.filter (·.enabled) = steps' := by
  induction h with
  | nil => exact ⟨rfl, rfl⟩
  | cons hs _ ih =>
      rw [List.filter_cons_of_pos hs.enabled, List.filter_cons_of_pos hs.enabled', ih.1, ih.2]
      exact ⟨rfl, rfl⟩

/-- The words of the steps stay the same, without comments. -/
theorem mapM_words_of_rejoined {steps steps' : List Step}
    (h : List.Forall₂ Step.Rejoined steps steps')
    (hcomment : ∀ s ∈ steps, '#' ∉ s.text.toList) :
    steps'.mapM (fun s => SplitPart.words .step s.text) =
      steps.mapM fun s => SplitPart.words .step s.text := by
  refine mapM_congr_of_forall₂ ?_
  induction h with
  | nil => exact .nil
  | cons hs _ ih =>
      obtain ⟨hfirst, hrest⟩ := List.forall_mem_cons.mp hcomment
      exact .cons (hs.text.words_eq hfirst .step) (ih hrest)

namespace Configuration

variable {c : Configuration} {steps' : List Step} {options' : String}

/-- The words of the options stay the same, without comments. -/
theorem mapM_words_options_of_rejoined
    (h : Rejoined (Text.trim c.options) (Text.trim options')) (hcomment : '#' ∉ c.options.toList) :
    { c with steps := steps', options := options' }.trimmedOptions?.toList.mapM
        (SplitPart.words .options) =
      c.trimmedOptions?.toList.mapM (SplitPart.words .options) := by
  have htrimmed : '#' ∉ (Text.trim c.options).toList := by
    rw [Text.trim, String.toList_ofList]
    exact fun hmem => hcomment ((Text.trimChars_isInfix _).subset hmem)
  refine mapM_congr_of_forall₂ ?_
  simp only [trimmedOptions?, String.isEmpty_iff, h.eq_empty_iff]
  split
  · exact .nil
  · exact .cons (h.words_eq htrimmed .options) .nil

/-- **Pairs change no arguments**, without comments in the steps and the options. -/
theorem arguments_eq_of_rejoined (hsteps : List.Forall₂ Step.Rejoined c.steps steps')
    (hoptions : Rejoined (Text.trim c.options) (Text.trim options'))
    (hcomment : ∀ text ∈ c.options :: c.steps.map (·.text), '#' ∉ text.toList) :
    { c with steps := steps', options := options' }.arguments = c.arguments := by
  obtain ⟨hcommentOptions, hcommentSteps⟩ := List.forall_mem_cons.mp hcomment
  have hflags : { c with steps := steps', options := options' }.formatFlags = c.formatFlags := rfl
  have hstepWords := mapM_words_of_rejoined hsteps fun s hs =>
    hcommentSteps s.text (List.mem_map_of_mem hs)
  rw [arguments, arguments, hflags, mapM_words_options_of_rejoined hoptions hcommentOptions,
    enabledSteps, enabledSteps, (filter_enabled_of_rejoined hsteps).1,
    (filter_enabled_of_rejoined hsteps).2, hstepWords]

end Configuration

/-! ### Commands with a pair -/

/-- The last words of the stages of a command, and the last word of its options. -/
def partEnds (ts : List Token) : List Token :=
  (passedTokens (flagGroups (dropTool ts)).1).getLast?.toList ++
    ((splitInputFile (flagGroups (dropTool ts)).2).1.splitOnP (·.isConnective)).filterMap
      (·.getLast?)

/-- **A command on two lines.** A pair that joins two lines, put in front of a word of a
command or behind one, leaves the command as it is: the slots and the input stay, there are
as many steps as before, every step and the options have the same words, and without comments
the arguments for execution are the same. The word is not the connective, and where the pair
stands behind the word, something follows and the word is the last one neither of a stage nor
of the options. -/
theorem Configuration.ofCommand_continued {front behind : String} {current c : Configuration}
    {ts : List Token} {t : Token} (h : ofCommand (front ++ behind) current = .ok c)
    (hts : tokensOf (front ++ behind) = .ok ts) (ht : t ∈ ts) (hplain : t.isConnective = false)
    (hplace : t.start = Text.byteLength front.toList ∨
      t.stop = Text.byteLength front.toList ∧ behind ≠ "" ∧ t ∉ partEnds ts) :
    ∃ c', ofCommand (front ++ "\\\n" ++ behind) current = .ok c' ∧
      c' = { c with steps := c'.steps, options := c'.options } ∧
      List.Forall₂ (fun s s' => s'.enabled = s.enabled ∧ SameWords s.text s'.text)
        c.steps c'.steps ∧
      SameWords c.options c'.options ∧
      ((∀ text ∈ c.options :: c.steps.map (·.text), '#' ∉ text.toList) →
        c'.arguments = c.arguments) := by
  have hinput : (front ++ behind).toList = front.toList ++ behind.toList := String.toList_append
  have hinput' : (front ++ "\\\n" ++ behind).toList = front.toList ++ joint ++ behind.toList := by
    rw [String.toList_append, String.toList_append]
    rfl
  have hread : readTokens (front.toList ++ behind.toList) = .ok ts := by
    rw [← hinput, ← tokensOf_eq, hts]
  obtain ⟨t', hjoins⟩ := exists_joins hread ht
    (hplace.imp_right fun hstop => ⟨hstop.1, by simpa using hstop.2.1⟩)
  have hends : t ∈ partEnds ts → t.start = Text.byteLength front.toList :=
    fun hmem => hplace.resolve_right fun hstop => hstop.2.2 hmem
  have hf := hjoins.keepsReading hplain
  have hts' : tokensOf (front ++ "\\\n" ++ behind) = .ok (ts.map (t.become t')) := by
    rw [tokensOf_eq, hinput', hjoins.joined]
  -- the parts of the command
  obtain ⟨us, groups, region, slots, steps, hus, hgroups, -, hsteps, hc⟩ :=
    ofCommand_eq_ok_iff.mp h
  obtain rfl := Except.ok.inj (hts.symm.trans hus)
  have hcsteps : c.steps = steps := by
    rw [hc]
    cases (splitInputFile region).2 <;> rfl
  have hcoptions : c.options = optionsText (front ++ behind) groups := by
    rw [hc]
    cases (splitInputFile region).2 <;> rfl
  obtain ⟨tool, htool⟩ := exists_tool ts
  obtain ⟨hwords, -⟩ := leadingFlags_of_flagGroups hgroups
  have hfile := splitInputFile_append region
  rw [partEnds, hgroups, List.mem_append, Option.mem_toList] at hends
  -- the steps
  have htsSteps : ts = tool ++ groupTokens groups ++ (splitInputFile region).1 ++
      (splitInputFile region).2.toList := by
    rw [List.append_assoc, hfile, List.append_assoc, ← hwords, ← htool]
  obtain ⟨steps', hsteps', hrejoined⟩ := hjoins.exists_pipelineSteps hinput hinput' hplain htsSteps
    (fun stage hstage hlast => hends (.inr (List.mem_filterMap.mpr ⟨stage, hstage, hlast⟩))) hsteps
  -- the options
  have htsOptions : ts = tool ++ [] ++ groupTokens groups ++ region := by
    rw [List.append_nil, List.append_assoc, ← hwords, ← htool]
  have hline := hjoins.widenedLine_options htsOptions fun hlast => hends (.inl hlast)
  obtain ⟨hoptions, htrimmed⟩ := hline.rejoined
    (by rw [toList_optionsText, hinput]; rfl) (by rw [toList_optionsText, hinput']; rfl)
  rw [← hcsteps] at hrejoined
  rw [← hcoptions] at hoptions htrimmed
  have hread' := ofCommand_map hf h hts hts' (by rwa [hgroups])
  rw [hgroups] at hread'
  refine ⟨_, hread', rfl, ?_, hoptions.sameWords,
    arguments_eq_of_rejoined hrejoined htrimmed⟩
  refine hrejoined.imp fun s s' hs => ⟨hs.enabled'.trans hs.enabled.symm, hs.text.sameWords⟩

/-- A flag and its value on two lines. -/
theorem Configuration.ofCommand_continued_value :
    ∃ c c', ofCommand ("mlr --icsv -n head -n" ++ " 5 then cat") {} = .ok c ∧
      ofCommand ("mlr --icsv -n head -n" ++ "\\\n" ++ " 5 then cat") {} = .ok c' ∧
      c' = { c with steps := c'.steps, options := c'.options } ∧
      SameWords c.options c'.options ∧ c.steps.length = c'.steps.length ∧
      c'.arguments = .ok ["--icsv", "-n", "head", "-n", "5", "then", "cat"] := by
  have hread : ofCommand ("mlr --icsv -n head -n" ++ " 5 then cat") {} =
      .ok { inputFormat := .csv, options := "-n",
            steps := [⟨"head -n 5", true⟩, ⟨"cat", true⟩] } := by decide +kernel
  have hts : tokensOf ("mlr --icsv -n head -n" ++ " 5 then cat") =
      .ok [⟨"mlr", "mlr", 0, 3, false⟩, ⟨"--icsv", "--icsv", 4, 10, false⟩,
        ⟨"-n", "-n", 11, 13, false⟩, ⟨"head", "head", 14, 18, false⟩, ⟨"-n", "-n", 19, 21, false⟩,
        ⟨"5", "5", 22, 23, false⟩, ⟨"then", "then", 24, 28, false⟩,
        ⟨"cat", "cat", 29, 32, false⟩] := by decide +kernel
  obtain ⟨c', hread', hsame, hsteps, hoptions, harguments⟩ :=
    ofCommand_continued (t := ⟨"-n", "-n", 19, 21, false⟩) hread hts (by decide) (by decide)
      (.inr (by decide +kernel))
  refine ⟨_, c', hread, hread', hsame, hoptions, hsteps.length_eq, ?_⟩
  rw [harguments (by decide)]
  decide +kernel

/-- Behind the last word of a stage the line feed is trimmed away, and the backslash stays
behind as a part of that word. In front of the connective the pair makes it an ordinary word,
and two stages become one. -/
theorem Configuration.continuation_changes_command :
    ∃ c c' c'', ofCommand "mlr cat then head" {} = .ok c ∧
      ofCommand "mlr cat\\\n then head" {} = .ok c' ∧
      ofCommand "mlr cat \\\nthen head" {} = .ok c'' ∧
      c.steps = [⟨"cat", true⟩, ⟨"head", true⟩] ∧ c'.steps = [⟨"cat\\", true⟩, ⟨"head", true⟩] ∧
      ¬ SameWords "cat" "cat\\" ∧ c'.arguments ≠ c.arguments ∧
      c''.steps = [⟨"cat \\\nthen head", true⟩] :=
  ⟨{ steps := [⟨"cat", true⟩, ⟨"head", true⟩] }, { steps := [⟨"cat\\", true⟩, ⟨"head", true⟩] },
    { steps := [⟨"cat \\\nthen head", true⟩] }, by decide +kernel, by decide +kernel,
    by decide +kernel, rfl, rfl, by decide +kernel, by decide +kernel, rfl⟩

end Pipewright
