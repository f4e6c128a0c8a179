import Pipewright.Proofs.Command.InputFile
import Pipewright.Proofs.Command.LeadingFlags
import Pipewright.Proofs.Command.Slots

/-!
# The Options of a Command

The options of a command are cut out of its text: each run of flags that are passed on is
one span, and the spans are joined by blanks. This module shows that the options are a line
of pieces, one for each run, and that the tokens of this line are those of the flags.

## Main results

* `exists_groups`: flags that stand elsewhere are still flags.
* `exists_excerpts`: the options of a command as pieces of its text.
* `fits_lineOf`, `spells_lineOf`: the line of these pieces as one piece.
* `optionsText_of_passed`: options that stand together are cut out in one piece.
-/

namespace Pipewright

/-! ### Groups without their places -/

/-- A list that agrees with an optional element under a function is an optional element. -/
theorem exists_toList {α β : Type} {f : α → β} {l : List α} {o : Option α}
    (h : l.map f = o.toList.map f) : ∃ o' : Option α, o'.toList = l ∧ o'.map f = o.map f := by
  cases o with
  | none => exact ⟨none, (List.map_eq_nil_iff.mp h).symm, rfl⟩
  | some a =>
      obtain ⟨b, rfl, hb⟩ := List.map_eq_singleton_iff.mp h
      exact ⟨some b, rfl, congrArg some hb⟩

namespace FlagGroup

/-- The group with its tokens changed. -/
def map (f : Token → Token) : FlagGroup → FlagGroup
  | setting flag s => setting (f flag) s
  | separator flag value => separator (f flag) (value.map f)
  | passed flag value => passed (f flag) (value.map f)

/-- The tokens of a group with its tokens changed. -/
theorem tokens_map (f : Token → Token) (g : FlagGroup) : (g.map f).tokens = g.tokens.map f := by
  rcases g with ⟨flag, s⟩ | ⟨flag, value⟩ | ⟨flag, value⟩
  · rfl
  · cases value <;> rfl
  · cases value <;> rfl

/-- The group wherever its tokens stand. -/
def unplaced : FlagGroup → FlagGroup :=
  map Token.unplaced

/-- A group has tokens. -/
theorem tokens_ne_nil (g : FlagGroup) : g.tokens ≠ [] := by
  cases g <;> exact List.cons_ne_nil _ _

/-- A group that is passed on denotes nothing. -/
theorem IsPassed.denoted?_eq_none {g : FlagGroup} (h : g.IsPassed) (slot : Slot) :
    g.denoted? slot = none := by
  cases g with
  | passed flag value => exact denoted?_passed flag value slot
  | setting | separator => exact h.elim

section Changed

variable {f : Token → Token} (hf : KeepsReading f)

include hf

/-- A changed group is proper when the group is. -/
theorem proper_map (g : FlagGroup) : (g.map f).Proper ↔ g.Proper := by
  rcases g with ⟨flag, s⟩ | ⟨flag, value⟩ | ⟨flag, value⟩
  · simp only [map, Proper, hf.isOption, hf.value]
  · simp only [map, Proper, hf.isOption, hf.value]
  · simp only [map, Proper, hf.isOption, hf.value, ne_eq, Option.map_eq_none_iff]

/-- A changed group lacks a word when the group does. -/
theorem lacks_map (g : FlagGroup) : (g.map f).Lacks ↔ g.Lacks := by
  rcases g with ⟨flag, s⟩ | ⟨flag, value⟩ | ⟨flag, value⟩
  · rfl
  · simp only [map, Lacks, Option.map_eq_none_iff]
  · simp only [map, Lacks, hf.value, Option.map_eq_none_iff]

omit hf in
/-- A changed group is passed on when the group is. -/
theorem isPassed_map (f : Token → Token) (g : FlagGroup) : (g.map f).IsPassed ↔ g.IsPassed := by
  cases g <;> rfl

/-- A changed group denotes what the group does. -/
theorem denoted?_map (g : FlagGroup) (slot : Slot) :
    (g.map f).denoted? slot = g.denoted? slot := by
  rcases g with ⟨flag, s⟩ | ⟨flag, value⟩ | ⟨flag, value⟩
  · rfl
  · cases value <;> cases slot <;> simp only [map, Option.map_some, denoted?, hf.value] <;> rfl
  · exact (denoted?_passed _ _ slot).trans (denoted?_passed _ _ slot).symm

end Changed

/-- A proper group that has its word has its separator. -/
theorem Proper.not_lacksSeparator {g : FlagGroup} (h : g.Proper) (hlacks : ¬ g.Lacks) :
    ¬ g.LacksSeparator := by
  cases g with
  | setting => exact h.2.2
  | separator => exact hlacks
  | passed => exact id

/-- A group that stands elsewhere: tokens that differ from those of a group in their places
only are the tokens of such a group. -/
theorem exists_group {ts : List Token} {g : FlagGroup}
    (h : ts.map Token.unplaced = g.tokens.map Token.unplaced) :
    ∃ g' : FlagGroup, g'.tokens = ts ∧ g'.unplaced = g.unplaced := by
  rcases g with ⟨flag, s⟩ | ⟨flag, value⟩ | ⟨flag, value⟩
  · obtain ⟨flag', rfl, hflag⟩ := List.map_eq_singleton_iff.mp h
    exact ⟨.setting flag' s, rfl, by simp [unplaced, map, hflag]⟩
  · obtain ⟨flag', rest, rfl, hflag, hrest⟩ := List.map_eq_cons_iff.mp h
    obtain ⟨value', rfl, hvalue⟩ := exists_toList hrest
    exact ⟨.separator flag' value', rfl, by rw [unplaced, map, map, hflag, hvalue]⟩
  · obtain ⟨flag', rest, rfl, hflag, hrest⟩ := List.map_eq_cons_iff.mp h
    obtain ⟨value', rfl, hvalue⟩ := exists_toList hrest
    exact ⟨.passed flag' value', rfl, by rw [unplaced, map, map, hflag, hvalue]⟩

/-- Groups that differ in their places only are read alike. -/
theorem alike {g g' : FlagGroup} (h : g'.unplaced = g.unplaced) :
    (g'.Proper ↔ g.Proper) ∧ (g'.Lacks ↔ g.Lacks) ∧ (g'.IsPassed ↔ g.IsPassed) ∧
      ∀ slot, g'.denoted? slot = g.denoted? slot := by
  have hf := keepsReading_unplaced
  change g'.map Token.unplaced = g.map Token.unplaced at h
  refine ⟨?_, ?_, ?_, fun slot => ?_⟩
  · rw [← g'.proper_map hf, h, g.proper_map hf]
  · rw [← g'.lacks_map hf, h, g.lacks_map hf]
  · rw [← g'.isPassed_map Token.unplaced, h, g.isPassed_map Token.unplaced]
  · rw [← g'.denoted?_map hf, h, g.denoted?_map hf]

end FlagGroup

/-- **Flags that stand elsewhere** are still flags: tokens that differ from those of groups in
their places only are the tokens of such groups. -/
theorem exists_groups {ts : List Token} {groups : List FlagGroup}
    (h : ts.map Token.unplaced = (groupTokens groups).map Token.unplaced) :
    ∃ groups', groupTokens groups' = ts ∧
      List.Forall₂ (fun g g' => g'.unplaced = g.unplaced) groups groups' := by
  induction groups generalizing ts with
  | nil =>
      rw [groupTokens, List.flatMap_nil, List.map_nil, List.map_eq_nil_iff] at h
      exact ⟨[], h.symm, .nil⟩
  | cons g groups ih =>
      rw [groupTokens_cons, List.map_append, List.map_eq_append_iff] at h
      obtain ⟨front, rest, rfl, hfront, hrest⟩ := h
      obtain ⟨groups', rfl, hgroups⟩ := ih hrest
      obtain ⟨g', rfl, hg⟩ := FlagGroup.exists_group hfront
      exact ⟨g' :: groups', rfl, .cons hg hgroups⟩

/-! ### The spans of the options -/

/-- The span of neighbouring tokens, from the start of the first to the stop of the last. -/
def spanOf (run : List Token) : Option (Nat × Nat) :=
  run.head?.bind fun first => run.getLast?.map fun last => (first.start, last.stop)

/-- The texts of spans. -/
def cutsOf (cs : List Char) (spans : List (Nat × Nat)) : List (List Char) :=
  spans.map fun r => Text.slice r.1 r.2 cs

/-- The options of a command are the line of what their spans cut out. -/
theorem toList_optionsText (input : String) (groups : List FlagGroup) :
    (optionsText input groups).toList =
      [' '].intercalate (cutsOf input.toList (optionSpans none groups)) := by
  have hspace : " ".toList = [' '] := by decide
  rw [optionsText, String.toList_intercalate, hspace, cutsOf, List.map_map]
  simp [Function.comp_def]

/-- A run of flags that are passed on, with one more of them. -/
theorem optionSpans_passed (run : List Token) (flag : Token) (value : Option Token)
    (rest : List FlagGroup) :
    optionSpans (spanOf run) (.passed flag value :: rest) =
      optionSpans (spanOf (run ++ flag :: value.toList)) rest := by
  have hspan : spanOf (run ++ flag :: value.toList) =
      some (((spanOf run).map (·.1)).getD flag.start, (value.getD flag).stop) := by
    have hlast : (run ++ flag :: value.toList).getLast? = some (value.getD flag) := by
      cases value <;> simp
    rcases run with _ | ⟨first, run⟩
    · rw [List.nil_append] at hlast ⊢
      rw [spanOf, hlast]
      rfl
    · obtain ⟨last, hrun⟩ : ∃ last, (first :: run).getLast? = some last :=
        ⟨_, List.getLast?_eq_some_getLast (List.cons_ne_nil first run)⟩
      rw [spanOf, spanOf, hlast, hrun]
      rfl
  rw [optionSpans, hspan]

/-- A flag that is not passed on ends a run. -/
theorem optionSpans_of_not_isPassed {g : FlagGroup} (hg : ¬ g.IsPassed)
    (current : Option (Nat × Nat)) (rest : List FlagGroup) :
    optionSpans current (g :: rest) = current.toList ++ optionSpans none rest := by
  cases g with
  | setting => rfl
  | separator => rfl
  | passed => exact absurd trivial hg

/-- The spans cut the pieces out of the text `cs`, and the words of the pieces are the
tokens `ts`. All pieces are finished if tokens follow, and all but the last in any case. -/
structure Excerpts (cs : List Char) (spans : List (Nat × Nat)) (ts post : List Token)
    (ps : List Piece) : Prop where
  /-- The text of each span is the text of its piece. -/
  cuts : List.Forall₂ (fun r p => Text.slice r.1 r.2 cs = p.text) spans ps
  /-- The tokens of each piece fit it. -/
  fits : ∀ p ∈ ps, Fits p.text p.tokens
  /-- No piece has blanks at its ends. -/
  trimmed : ∀ p ∈ ps, Text.Trimmed p.text
  /-- The pieces can be read one behind the other. -/
  line : ps = [] ∨ Line ps
  /-- No piece is open if tokens follow. -/
  finished : post ≠ [] → ∀ p ∈ ps, p.Finished
  /-- The words of the pieces are the given ones. -/
  words : (ps.flatMap (·.tokens)).map Token.unplaced = ts.map Token.unplaced

/-- The excerpts of two parts of a text, one behind the other. -/
theorem Excerpts.append {cs : List Char} {a b : List (Nat × Nat)} {ts us between post : List Token}
    {ps qs : List Piece} (hp : Excerpts cs a ts between ps) (hbetween : between ≠ [])
    (hq : Excerpts cs b us post qs) : Excerpts cs (a ++ b) (ts ++ us) post (ps ++ qs) where
  cuts := List.rel_append hp.cuts hq.cuts
  fits p h := (List.mem_append.mp h).elim (hp.fits p) (hq.fits p)
  trimmed p h := (List.mem_append.mp h).elim (hp.trimmed p) (hq.trimmed p)
  line := by
    have hfinished := hp.finished hbetween
    rcases hq.line with rfl | hline
    · rw [List.append_nil]
      exact hp.line
    · exact .inr (.append hfinished hline)
  finished hpost p h := (List.mem_append.mp h).elim (hp.finished hbetween p) (hq.finished hpost p)
  words := by rw [List.flatMap_append, List.map_append, List.map_append, hp.words, hq.words]

/-- A run of neighbouring tokens is one excerpt, or none if it is empty. -/
theorem exists_excerpts_run {cs : List Char} {pre run post : List Token}
    (hread : readTokens cs = .ok (pre ++ run ++ post)) (hends : ∀ t ∈ run, t.EndsInWord) :
    ∃ ps, Excerpts cs (spanOf run).toList run post ps := by
  by_cases hne : run = []
  · subst hne
    exact ⟨[], .nil, by simp, by simp, .inl rfl, by simp, rfl⟩
  · obtain ⟨p, hstands, htrimmed, hfinished⟩ := exists_stands hread hne hends
    obtain ⟨first, hfirst, last, hlast, hslice⟩ := hstands.slice
    have hspan : spanOf run = some (first.start, last.stop) := by
      rw [spanOf, Option.mem_def.mp hfirst, Option.mem_def.mp hlast]
      rfl
    obtain ⟨hfits, before, after, -, hrun⟩ := hstands
    refine ⟨[p], ?_, by simpa using hfits, by simpa using htrimmed, .inr (.last hfits.tokens),
      by simpa using hfinished, ?_⟩
    · rw [hspan]
      exact .cons hslice .nil
    · rw [List.flatMap_singleton, hrun, map_unplaced_shift]

/-- The tokens of the groups that are passed on. -/
def passedTokens (groups : List FlagGroup) : List Token :=
  groupTokens (groups.filter (·.IsPassed))

/-- The options of a command from a run of flags on, as excerpts. -/
theorem exists_excerpts {cs : List Char} {pre run post : List Token} {groups : List FlagGroup}
    (hread : readTokens cs = .ok (pre ++ run ++ groupTokens groups ++ post))
    (hends : ∀ t ∈ run ++ groupTokens groups, t.EndsInWord) :
    ∃ ps, Excerpts cs (optionSpans (spanOf run) groups) (run ++ passedTokens groups) post ps := by
  induction groups generalizing pre run with
  | nil =>
      have hrun : ∀ t ∈ run, t.EndsInWord := fun t ht => hends t (List.mem_append_left _ ht)
      rw [groupTokens, List.flatMap_nil, List.append_nil] at hread
      rw [passedTokens, List.filter_nil, groupTokens, List.flatMap_nil, List.append_nil]
      exact exists_excerpts_run hread hrun
  | cons g groups ih =>
      rw [groupTokens_cons] at hread hends
      by_cases hg : g.IsPassed
      · obtain ⟨flag, value, rfl⟩ : ∃ flag value, g = .passed flag value := by
          cases g with
          | passed flag value => exact ⟨flag, value, rfl⟩
          | setting | separator => exact hg.elim
        have hpassed : run ++ passedTokens (.passed flag value :: groups) =
            run ++ flag :: value.toList ++ passedTokens groups := by
          rw [passedTokens, List.filter_cons_of_pos (by simpa using hg), groupTokens_cons,
            FlagGroup.tokens, List.append_assoc]
          rfl
        rw [optionSpans_passed, hpassed]
        have hreadRun : readTokens cs =
            .ok (pre ++ (run ++ flag :: value.toList) ++ groupTokens groups ++ post) := by
          simpa [FlagGroup.tokens] using hread
        exact ih hreadRun (by simpa [FlagGroup.tokens] using hends)
      · -- the run ends here, and the next one starts with nothing
        have hpassed : passedTokens (g :: groups) = passedTokens groups := by
          rw [passedTokens, List.filter_cons_of_neg (by simpa using hg)]
          rfl
        have hreadRun : readTokens cs =
            .ok (pre ++ run ++ (g.tokens ++ groupTokens groups ++ post)) := by
          simpa using hread
        have hreadRest : readTokens cs =
            .ok (pre ++ run ++ g.tokens ++ [] ++ groupTokens groups ++ post) := by
          simpa using hread
        obtain ⟨ps, hps⟩ := exists_excerpts_run hreadRun
          fun t ht => hends t (List.mem_append_left _ ht)
        obtain ⟨qs, hqs⟩ := ih hreadRest fun t ht =>
          hends t (List.mem_append_right _ (List.mem_append_right _ (by simpa using ht)))
        rw [optionSpans_of_not_isPassed hg, hpassed]
        exact ⟨ps ++ qs, hps.append (by simp [g.tokens_ne_nil]) hqs⟩

/-! ### The options as one piece -/

/-- What the spans cut out are the texts of the pieces. -/
theorem Excerpts.map_slice {cs : List Char} {spans : List (Nat × Nat)} {ts post : List Token}
    {ps : List Piece} (h : Excerpts cs spans ts post ps) :
    spans.map (fun r => Text.slice r.1 r.2 cs) = ps.map (·.text) := by
  rw [← List.forall₂_eq_eq_eq, List.forall₂_map_left_iff, List.forall₂_map_right_iff]
  exact h.cuts

/-- The options of a command are the line of its excerpts. -/
theorem Excerpts.optionsText_toList {input : String} {groups : List FlagGroup}
    {ts post : List Token} {ps : List Piece}
    (h : Excerpts input.toList (optionSpans none groups) ts post ps) :
    (optionsText input groups).toList = lineOf ps := by
  rw [toList_optionsText, cutsOf, h.map_slice, lineOf]

/-- Pieces that the tokens fit and that can be read one behind the other are one piece that
the tokens fit. -/
theorem fits_lineOf {ps : List Piece} (hline : Line ps) (hfits : ∀ p ∈ ps, Fits p.text p.tokens) :
    Fits (lineOf ps) (spread ps) := by
  refine ⟨hline.tokens, ?_, ?_⟩
  · obtain ⟨p, rest, rfl⟩ := List.exists_cons_of_ne_nil hline.ne_nil
    obtain ⟨t, ht, hstart⟩ := Option.map_eq_some_iff.mp (hfits p List.mem_cons_self).start
    rw [spread, List.head?_append, ht]
    exact congrArg some hstart
  · induction hline with
    | @last p _ =>
        simpa [spread] using (hfits p List.mem_cons_self).stop
    | @cons p ps _ hline ih =>
        obtain ⟨t, ht, hstop⟩ := Option.map_eq_some_iff.mp
          (ih fun q hq => hfits q (List.mem_cons_of_mem p hq))
        rw [spread, List.getLast?_append, List.getLast?_map, ht, lineOf_cons hline.ne_nil,
          Text.byteLength_append (p.text ++ [' ']), ← hstop]
        rfl

/-- Finished pieces one behind the other are one finished piece. -/
theorem spells_lineOf {ps : List Piece} (h : ∀ p ∈ ps, p.Finished) :
    Spells (lineOf ps) (spread ps) := by
  induction ps with
  | nil => exact Spells.nil
  | cons p ps ih =>
      have hp : Spells p.text p.tokens := h p List.mem_cons_self
      have hps := ih fun q hq => h q (List.mem_cons_of_mem p hq)
      rcases List.eq_nil_or_concat ps with rfl | ⟨_, _, rfl⟩
      · simpa [spread] using hp
      · rw [lineOf_cons (by simp), spread]
        exact hp.append_blank (by decide) hps

/-- A line that starts with a piece of text is not empty. -/
theorem lineOf_ne_nil {p : Piece} (hp : p.text ≠ []) (ps : List Piece) :
    lineOf (p :: ps) ≠ [] := by
  rcases ps with _ | ⟨q, ps⟩
  · rwa [lineOf_singleton]
  · rw [lineOf_cons (List.cons_ne_nil q ps)]
    simp

/-- Pieces that neither start nor end with a blank make a line that does neither. -/
theorem trimmed_lineOf {ps : List Piece} (hne : ∀ p ∈ ps, p.text ≠ [])
    (h : ∀ p ∈ ps, Text.Trimmed p.text) : Text.Trimmed (lineOf ps) := by
  induction ps with
  | nil => exact ⟨by simp [lineOf], by simp [lineOf]⟩
  | cons p ps ih =>
      have hp := h p List.mem_cons_self
      have hps := ih (fun q hq => hne q (List.mem_cons_of_mem p hq))
        fun q hq => h q (List.mem_cons_of_mem p hq)
      rcases ps with _ | ⟨q, ps⟩
      · rwa [lineOf_singleton]
      · have hq := hne q (List.mem_cons_of_mem p List.mem_cons_self)
        rw [lineOf_cons (List.cons_ne_nil q ps)]
        exact hp.append (hne p List.mem_cons_self) [' '] hps (lineOf_ne_nil hq ps)

/-! ### Options that stand together -/

/-- Flags that are not passed on make no span. -/
theorem optionSpans_append {front : List FlagGroup} (hfront : ∀ g ∈ front, ¬ g.IsPassed)
    (groups : List FlagGroup) : optionSpans none (front ++ groups) = optionSpans none groups := by
  induction front with
  | nil => rfl
  | cons g front ih =>
      rw [List.cons_append, optionSpans_of_not_isPassed (hfront g List.mem_cons_self),
        Option.toList_none, List.nil_append,
        ih fun g' hg' => hfront g' (List.mem_cons_of_mem g hg')]

/-- Flags that are all passed on make one span with the run in front of them. -/
theorem optionSpans_of_passed {groups : List FlagGroup} (h : ∀ g ∈ groups, g.IsPassed)
    (run : List Token) :
    optionSpans (spanOf run) groups = (spanOf (run ++ groupTokens groups)).toList := by
  induction groups generalizing run with
  | nil => rw [groupTokens, List.flatMap_nil, List.append_nil, optionSpans]
  | cons g groups ih =>
      have hg := h g List.mem_cons_self
      have hgroups := ih fun g' hg' => h g' (List.mem_cons_of_mem g hg')
      cases g with
      | passed flag value =>
          rw [optionSpans_passed, hgroups, groupTokens_cons, FlagGroup.tokens, List.append_assoc]
      | setting | separator => exact hg.elim

/-- **Options that stand together** behind the other flags are cut out as the pieces that
they are, at most one. -/
theorem optionsText_of_passed {input : String} {front groups : List FlagGroup}
    {o : Option Piece} (hfront : ∀ g ∈ front, ¬ g.IsPassed)
    (h : ∀ g ∈ groups, g.IsPassed) (hnone : o = none → groupTokens groups = [])
    (hstands : ∀ p ∈ o, p.Stands input.toList (groupTokens groups)) :
    (optionsText input (front ++ groups)).toList = lineOf o.toList := by
  have hspans : optionSpans none (front ++ groups) = (spanOf (groupTokens groups)).toList := by
    rw [optionSpans_append hfront]
    exact optionSpans_of_passed h []
  cases o with
  | none =>
      rw [optionsText, hspans, hnone rfl]
      rfl
  | some p =>
      obtain ⟨first, hfirst, last, hlast, hslice⟩ := (hstands p rfl).slice
      rw [optionsText, hspans, spanOf, Option.mem_def.mp hfirst, Option.mem_def.mp hlast]
      simp [hslice]

end Pipewright
