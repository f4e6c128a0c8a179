import Pipewright.Command.Reading
import Pipewright.Proofs.Outcome
import Pipewright.Proofs.Text.Span
import Pipewright.Proofs.Token.Excerpt
import Pipewright.Proofs.Token.Word

/-!
# Stages and the Steps They Become

The tokens of a pipeline fall into stages, one between every two connectives. Each stage
becomes a step whose text is cut out of the command, from the start of the first token to
the stop of the last. This module relates the stages of a command to pieces of its text: a
piece that stands in the command as a stage becomes the step with the piece as its text,
and every stage of a command is such a piece.

## Main results

* `Stages.pipelineSteps_eq_ok_iff`: a pipeline becomes steps when each stage becomes one.
* `Piece.Stands.isStep`: the step of a stage that stands in the command as a piece.
* `Stages.exists_pieces`: the stages of a command stand in it as pieces.
* `stages_spread`: the stages of a line of pieces with the connective between them.
-/

namespace Pipewright

/-! ### The stages of a pipeline -/

/-- The stages of the tokens of a pipeline: what stands between the connectives. -/
inductive Stages : List Token → List (List Token) → Prop
  | last {stage : List Token} :
      (∀ t ∈ stage, t.isConnective = false) → Stages stage [stage]
  | cons {stage region : List Token} {t : Token} {stages : List (List Token)} :
      (∀ u ∈ stage, u.isConnective = false) → t.isConnective = true → Stages region stages →
      Stages (stage ++ t :: region) (stage :: stages)

/-- No stage holds a connective. -/
theorem Stages.isConnective_eq_false {region : List Token} {stages : List (List Token)}
    (h : Stages region stages) : ∀ stage ∈ stages, ∀ t ∈ stage, t.isConnective = false := by
  induction h with
  | last hfree => simpa using hfree
  | cons hfree _ _ ih => exact List.forall_mem_cons.mpr ⟨hfree, ih⟩

/-- A pipeline has one stage at least. -/
theorem Stages.ne_nil {region : List Token} {stages : List (List Token)}
    (h : Stages region stages) : stages ≠ [] := by
  cases h <;> exact List.cons_ne_nil _ _

/-- Every list of tokens falls into stages. -/
theorem exists_stages (region : List Token) : ∃ stages, Stages region stages := by
  induction region with
  | nil => exact ⟨[[]], .last (List.forall_mem_nil _)⟩
  | cons t region ih =>
      obtain ⟨stages, h⟩ := ih
      cases ht : t.isConnective with
      | true => exact ⟨[] :: stages, Stages.cons (List.forall_mem_nil _) ht h⟩
      | false =>
          cases h with
          | last hfree =>
              exact ⟨[t :: region], .last (List.forall_mem_cons.mpr ⟨ht, hfree⟩)⟩
          | @cons stage region u stages hfree hu hrest =>
              exact ⟨(t :: stage) :: stages,
                .cons (List.forall_mem_cons.mpr ⟨ht, hfree⟩) hu hrest⟩

/-- The stage becomes the step. -/
def IsStep (input : String) (stage : List Token) (s : Step) : Prop :=
  ∃ first ∈ stage.head?, ∃ last ∈ stage.getLast?,
    Step.ofText? (.ofList (Text.slice first.start last.stop input.toList)) = some s

/-- A stage becomes one step only. -/
theorem IsStep.unique {input : String} {stage : List Token} {s s' : Step}
    (h : IsStep input stage s) (h' : IsStep input stage s') : s = s' := by
  obtain ⟨first, hfirst, last, hlast, hs⟩ := h
  obtain ⟨first', hfirst', last', hlast', hs'⟩ := h'
  obtain rfl := Option.mem_unique hfirst hfirst'
  obtain rfl := Option.mem_unique hlast hlast'
  exact Option.some.inj (hs.symm.trans hs')

/-- A stage that becomes a step has tokens. -/
theorem IsStep.ne_nil {input : String} {stage : List Token} {s : Step}
    (h : IsStep input stage s) : stage ≠ [] := by
  rintro rfl
  obtain ⟨first, hfirst, -⟩ := h
  exact absurd hfirst (Option.not_mem_none first)

/-- What a stage becomes does not depend on the place to blame when it becomes nothing. -/
theorem stageStep_eq_ok_iff {input : String} {stage : List Token} {n : Nat} {s : Step} :
    stageStep input stage n = .ok s ↔ IsStep input stage s := by
  rw [stageStep, IsStep]
  split
  next first last hfirst hlast =>
    split
    next s' hs' => simp [hfirst, hlast, hs']
    next hnone => simp [hfirst, hlast, hnone]
  next hnone =>
    constructor
    · exact fun h => absurd h (by simp)
    · rintro ⟨first, hfirst, last, hlast, -⟩
      exact absurd hlast (hnone first last hfirst)

/-- Tokens that are no connectives go to the stage so far. -/
theorem stepsFrom_append {input : String} {last : Nat} {stage : List Token}
    (hfree : ∀ t ∈ stage, t.isConnective = false) (front rest : List Token) :
    stepsFrom input front last (stage ++ rest) = stepsFrom input (front ++ stage) last rest := by
  induction stage generalizing front with
  | nil => simp
  | cons t stage ih =>
      obtain ⟨ht, hfree⟩ := List.forall_mem_cons.mp hfree
      rw [List.cons_append, stepsFrom, ht, if_neg Bool.false_ne_true, ih hfree]
      simp

/-- **A pipeline becomes steps** when each of its stages becomes one. -/
theorem Stages.stepsFrom_eq_ok_iff {input : String} {last : Nat} {region : List Token}
    {stages : List (List Token)} (h : Stages region stages) {steps : List Step} :
    stepsFrom input [] last region = .ok steps ↔
      List.Forall₂ (IsStep input) stages steps := by
  induction h generalizing steps with
  | @last stage hfree =>
      have hsteps : stepsFrom input [] last (stage ++ []) = stepsFrom input stage last [] :=
        stepsFrom_append hfree [] []
      rw [List.append_nil] at hsteps
      rw [hsteps, stepsFrom, bind_eq_ok_iff, List.forall₂_cons_left_iff]
      constructor
      · rintro ⟨s, hs, hpure⟩
        exact ⟨s, [], stageStep_eq_ok_iff.mp hs, .nil, (Except.ok.inj hpure).symm⟩
      · rintro ⟨s, rest, hs, hrest, rfl⟩
        cases hrest
        exact ⟨s, stageStep_eq_ok_iff.mpr hs, rfl⟩
  | @cons stage region t stages hfree ht _ ih =>
      rw [stepsFrom_append hfree, stepsFrom, ht, if_pos rfl, bind_eq_ok_iff,
        List.forall₂_cons_left_iff]
      constructor
      · rintro ⟨s, hs, hrest⟩
        obtain ⟨rest, hrest, hpure⟩ := bind_eq_ok_iff.mp hrest
        exact ⟨s, rest, stageStep_eq_ok_iff.mp hs, ih.mp hrest, (Except.ok.inj hpure).symm⟩
      · rintro ⟨s, rest, hs, hrest, rfl⟩
        exact ⟨s, stageStep_eq_ok_iff.mpr hs, bind_eq_ok_iff.mpr ⟨rest, ih.mpr hrest, rfl⟩⟩

/-- The steps of a pipeline that has tokens are those of its stages. -/
theorem Stages.pipelineSteps_eq_ok_iff {input : String} {region : List Token}
    {stages : List (List Token)} (h : Stages region stages) (hne : region ≠ [])
    {steps : List Step} :
    pipelineSteps input region = .ok steps ↔ List.Forall₂ (IsStep input) stages steps := by
  rw [pipelineSteps, List.getLast?_eq_some_getLast hne]
  exact h.stepsFrom_eq_ok_iff

/-! ### Stages as pieces of the text -/

/-- The piece stands in the text `cs`, and `stage` are its tokens there. -/
def Piece.Stands (p : Piece) (cs : List Char) (stage : List Token) : Prop :=
  Fits p.text p.tokens ∧
    ∃ pre post, cs = pre ++ p.text ++ post ∧
      stage = p.tokens.map (Token.shift (Text.byteLength pre))

/-- The step that a piece is the text of. -/
def Piece.step (p : Piece) : Step :=
  ⟨.ofList p.text, true⟩

/-- An element of a list has its counterpart in a list that is related to it. -/
theorem exists_left_of_forall₂ {α β : Type} {R : α → β → Prop} {l : List α} {l' : List β}
    (h : List.Forall₂ R l l') {b : β} (hb : b ∈ l') : ∃ a ∈ l, R a b := by
  induction h with
  | nil => exact absurd hb List.not_mem_nil
  | @cons a b' l l' hab _ ih =>
      rcases List.mem_cons.mp hb with rfl | hb
      · exact ⟨a, List.mem_cons_self, hab⟩
      · obtain ⟨a', ha', hab'⟩ := ih hb
        exact ⟨a', List.mem_cons_of_mem a ha', hab'⟩

/-- The last elements of related lists are related. -/
theorem exists_getLast_of_forall₂ {α β : Type} {R : α → β → Prop} {l : List α} {l' : List β}
    (h : List.Forall₂ R l l') {b : β} (hb : b ∈ l'.getLast?) : ∃ a ∈ l.getLast?, R a b := by
  induction h with
  | nil => exact absurd hb (Option.not_mem_none b)
  | @cons a b' l l' hab hrest ih =>
      cases hrest with
      | nil =>
          obtain rfl := Option.some.inj hb
          exact ⟨a, rfl, hab⟩
      | @cons a₂ b₂ l l' hab₂ hrest => exact ih hb

/-- A piece that tokens fit is not empty. -/
theorem Fits.ne_nil {cs : List Char} {ts : List Token} (h : Fits cs ts) : cs ≠ [] := by
  rintro rfl
  have hts : ts = [] := (Except.ok.inj (h.tokens.symm.trans Spells.nil.tokens))
  simpa [hts] using h.start

/-- What is cut out of the text, from the first token of the piece to the last, is the
piece. -/
theorem Piece.Stands.slice {p : Piece} {cs : List Char} {stage : List Token}
    (h : p.Stands cs stage) :
    ∃ first ∈ stage.head?, ∃ last ∈ stage.getLast?,
      Text.slice first.start last.stop cs = p.text := by
  obtain ⟨hfits, pre, post, rfl, rfl⟩ := h
  obtain ⟨first, hfirst, hstart⟩ := Option.map_eq_some_iff.mp hfits.start
  obtain ⟨last, hlast, hstop⟩ := Option.map_eq_some_iff.mp hfits.stop
  refine ⟨first.shift (Text.byteLength pre), by simp [hfirst],
    last.shift (Text.byteLength pre), by simp [hlast], ?_⟩
  rw [Token.shift_start, Token.shift_stop, hstart, hstop, Nat.add_zero, Text.slice_append]

/-- **The step of a stage** that stands in the command as a piece has the piece as its
text. -/
theorem Piece.Stands.isStep {p : Piece} {input : String} {stage : List Token}
    (h : p.Stands input.toList stage) (htrimmed : Text.Trimmed p.text) :
    IsStep input stage p.step := by
  obtain ⟨first, hfirst, last, hlast, hslice⟩ := h.slice
  refine ⟨first, hfirst, last, hlast, ?_⟩
  have htrim : Text.trim (.ofList p.text) = .ofList p.text :=
    Text.Trimmed.trim_eq (by rwa [String.toList_ofList])
  have hne : (String.ofList p.text).isEmpty = false := by
    simpa using h.1.ne_nil
  rw [hslice, Step.ofText?, htrim, hne]
  rfl

/-- The steps of stages that stand in the command as pieces have the pieces as their texts. -/
theorem forall₂_isStep {input : String} {parts : List (List Token)} {ps : List Piece}
    (hstands : List.Forall₂ (fun part p => Piece.Stands p input.toList part) parts ps)
    (htrimmed : ∀ p ∈ ps, Text.Trimmed p.text) :
    List.Forall₂ (IsStep input) parts (ps.map Piece.step) := by
  induction hstands with
  | nil => exact .nil
  | @cons part p parts ps hp _ ih =>
      obtain ⟨htrim, hrest⟩ := List.forall_mem_cons.mp htrimmed
      exact .cons (hp.isStep htrim) (ih hrest)

/-- The last character of the source of a token is no blank. -/
def Token.EndsInWord (t : Token) : Prop :=
  ∀ c ∈ t.raw.toList.getLast?, Text.isBlank c = false

/-- Whether a token ends in its word can be decided. -/
instance : DecidablePred Token.EndsInWord := fun t =>
  Option.decidableForallMem (p := fun c => Text.isBlank c = false) t.raw.toList.getLast?

/-- Every token of the command ends in its word: none has a blank as its last character. -/
def EndsInWords (input : String) : Prop :=
  ∀ ts, tokensOf input = .ok ts → ∀ t ∈ ts, t.EndsInWord

/-- Whether something holds of the tokens of a text, if it has any, can be decided. -/
instance (input : String) (P : List Token → Prop) [DecidablePred P] :
    Decidable (∀ ts, tokensOf input = .ok ts → P ts) :=
  match tokensOf input with
  | .ok ts => decidable_of_iff (P ts)
      ⟨fun hP _ hts => Except.ok.inj hts ▸ hP, fun hP => hP ts rfl⟩
  | .error _ => isTrue fun _ hts => absurd hts (by simp)

/-- Whether the tokens of a command end in their words can be decided. -/
instance : DecidablePred EndsInWords := fun input =>
  inferInstanceAs (Decidable (∀ ts, tokensOf input = .ok ts → ∀ t ∈ ts, t.EndsInWord))

/-- Neighbouring tokens of a text stand in it as a piece, which is finished when more tokens
follow. -/
theorem exists_stands {cs : List Char} {pre stage post : List Token}
    (h : readTokens cs = .ok (pre ++ stage ++ post)) (hne : stage ≠ [])
    (hends : ∀ t ∈ stage, t.EndsInWord) :
    ∃ p : Piece, p.Stands cs stage ∧ Text.Trimmed p.text ∧ (post ≠ [] → p.Finished) := by
  obtain ⟨a, m, b, ts, hcs, -, hstage, hfits, hspells, ⟨c, hc, hblank⟩, hlast⟩ :=
    exists_excerpt h hne
  refine ⟨⟨m, ts⟩, ⟨hfits, a, b, hcs, hstage⟩, ⟨fun d hd => ?_, fun d hd => ?_⟩, hspells⟩
  · exact Option.mem_unique hc hd ▸ hblank
  · have ht := List.getLast?_eq_some_getLast hne
    exact hends _ (List.getLast_mem hne) d (hlast _ ht ▸ hd)

/-- **Every stage of a command stands in it as a piece**, and the piece is the text of its
step. A piece is finished when anything follows it. -/
theorem Stages.exists_pieces {input : String} {pre region post : List Token}
    {stages : List (List Token)} {steps : List Step} (h : Stages region stages)
    (hread : readTokens input.toList = .ok (pre ++ region ++ post))
    (hsteps : List.Forall₂ (IsStep input) stages steps) (hends : ∀ t ∈ region, t.EndsInWord) :
    ∃ ps : List Piece, List.Forall₂ (fun stage p => p.Stands input.toList stage) stages ps ∧
      steps = ps.map Piece.step ∧ (∀ p ∈ ps, Text.Trimmed p.text) ∧ Line ps ∧
      (post ≠ [] → ∀ p ∈ ps, p.Finished) := by
  induction h generalizing pre steps with
  | @last stage hfree =>
      obtain ⟨s, rest, hs, hrest, rfl⟩ := List.forall₂_cons_left_iff.mp hsteps
      cases hrest
      obtain ⟨p, hstands, htrimmed, hfinished⟩ := exists_stands hread hs.ne_nil hends
      refine ⟨[p], .cons hstands .nil, ?_, by simpa using htrimmed, .last hstands.1.tokens,
        by simpa using hfinished⟩
      rw [List.map_singleton, hs.unique (hstands.isStep htrimmed)]
  | @cons stage region t stages hfree ht _ ih =>
      obtain ⟨s, rest, hs, hrest, rfl⟩ := List.forall₂_cons_left_iff.mp hsteps
      have hread₁ : readTokens input.toList = .ok (pre ++ stage ++ (t :: region ++ post)) := by
        simpa using hread
      have hread₂ : readTokens input.toList = .ok (pre ++ stage ++ [t] ++ region ++ post) := by
        simpa using hread
      obtain ⟨p, hstands, htrimmed, hfinished⟩ :=
        exists_stands hread₁ hs.ne_nil fun u hu => hends u (List.mem_append_left _ hu)
      obtain ⟨ps, hps, rfl, htrimmeds, hline, hfinisheds⟩ :=
        ih hread₂ hrest fun u hu => hends u (List.mem_append_right _ (List.mem_cons_of_mem t hu))
      refine ⟨p :: ps, .cons hstands hps, ?_, List.forall_mem_cons.mpr ⟨htrimmed, htrimmeds⟩,
        .cons (hfinished (by simp)) hline, fun hpost => ?_⟩
      · rw [List.map_cons, hs.unique (hstands.isStep htrimmed)]
      · exact List.forall_mem_cons.mpr ⟨hfinished (by simp), hfinisheds hpost⟩

/-- A line of pieces with the connective between them starts with its first piece and the
connective. -/
theorem lineOf_intersperse (p q : Piece) (ps : List Piece) :
    lineOf ((p :: q :: ps).intersperse (Piece.ofWord connective)) =
      p.text ++ [' '] ++ (Piece.ofWord connective).text ++ [' '] ++
        lineOf ((q :: ps).intersperse (Piece.ofWord connective)) := by
  have hrest : (q :: ps).intersperse (Piece.ofWord connective) ≠ [] := by
    cases ps <;> simp
  rw [List.intersperse_cons_cons, lineOf_cons (List.cons_ne_nil _ _), lineOf_cons hrest]
  simp

/-- The tokens of a line of pieces with the connective between them start with those of its
first piece and the connective. -/
theorem map_shift_spread_intersperse (offset : Nat) (p q : Piece) (ps : List Piece) :
    (spread ((p :: q :: ps).intersperse (Piece.ofWord connective))).map (Token.shift offset) =
      p.tokens.map (Token.shift offset) ++
        (Token.ofWord connective).shift (offset + Text.byteLength (p.text ++ [' '])) ::
          (spread ((q :: ps).intersperse (Piece.ofWord connective))).map
            (Token.shift (offset + Text.byteLength
              (p.text ++ [' '] ++ (Piece.ofWord connective).text ++ [' ']))) := by
  have hlength : offset + Text.byteLength
      (p.text ++ [' '] ++ (Piece.ofWord connective).text ++ [' ']) =
        offset + (Text.byteLength (p.text ++ [' ']) +
          Text.byteLength ((Piece.ofWord connective).text ++ [' '])) := by
    simp only [Text.byteLength_append]
    omega
  rw [hlength]
  simp [List.intersperse_cons_cons, spread, Piece.ofWord, Function.comp_def]

/-- **The stages of a line** of pieces with the connective between them are the pieces, where
they stand. -/
theorem stages_spread {ps : List Piece} (hne : ps ≠ [])
    (hfits : ∀ p ∈ ps, Fits p.text p.tokens)
    (hfree : ∀ p ∈ ps, ∀ t ∈ p.tokens, t.isConnective = false) {cs pre post : List Char}
    (hcs : cs = pre ++ lineOf (ps.intersperse (Piece.ofWord connective)) ++ post) :
    ∃ stages, Stages ((spread (ps.intersperse (Piece.ofWord connective))).map
        (Token.shift (Text.byteLength pre))) stages ∧
      List.Forall₂ (fun stage p => p.Stands cs stage) stages ps := by
  induction ps generalizing pre with
  | nil => exact absurd rfl hne
  | cons p ps ih =>
      obtain ⟨hfit, hfits⟩ := List.forall_mem_cons.mp hfits
      obtain ⟨hbare, hfree⟩ := List.forall_mem_cons.mp hfree
      have hstage : ∀ t ∈ p.tokens.map (Token.shift (Text.byteLength pre)),
          t.isConnective = false := by
        intro t ht
        obtain ⟨u, hu, rfl⟩ := List.mem_map.mp ht
        exact hbare u hu
      cases ps with
      | nil =>
          rw [List.intersperse_singleton, lineOf_singleton] at hcs
          refine ⟨[p.tokens.map (Token.shift (Text.byteLength pre))], ?_,
            .cons ⟨hfit, pre, post, hcs, rfl⟩ .nil⟩
          simpa [spread] using Stages.last hstage
      | cons q ps =>
          rw [lineOf_intersperse] at hcs
          have hplace : cs = pre ++ p.text ++ ([' '] ++ (Piece.ofWord connective).text ++ [' '] ++
              lineOf ((q :: ps).intersperse (Piece.ofWord connective)) ++ post) := by
            rw [hcs]
            simp
          have hfront : cs = pre ++ (p.text ++ [' '] ++ (Piece.ofWord connective).text ++ [' ']) ++
              lineOf ((q :: ps).intersperse (Piece.ofWord connective)) ++ post := by
            rw [hcs]
            simp
          obtain ⟨stages, hstages, hstands⟩ := ih (List.cons_ne_nil q ps) hfits hfree hfront
          have hjoint : ∀ n, ((Token.ofWord connective).shift n).isConnective = true := by
            intro n
            rw [Token.shift_isConnective]
            decide
          rw [Text.byteLength_append] at hstages
          rw [map_shift_spread_intersperse]
          exact ⟨_, .cons hstage (hjoint _) hstages, .cons ⟨hfit, pre, _, hplace, rfl⟩ hstands⟩

end Pipewright
