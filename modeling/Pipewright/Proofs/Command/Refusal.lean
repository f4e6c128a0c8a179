import Pipewright.Command.Caret
import Pipewright.Proofs.Command.Fault
import Pipewright.Proofs.Command.Reading
import Pipewright.Proofs.Token.OpenQuote

/-!
# Why a Command Is Refused

A command is refused just where it has a fault: where a quote is never closed, where two
flags fill one slot, where a separator flag has no word, or where a connective has no stage
on one of its sides. Of several faults the one that is met first is reported, and the report
points at the quote or at the token that is to blame, in bytes and with a caret.

## Main results

* `Configuration.ofCommand_eq_error_iff`: the error of a command is that of its first fault.
* `Configuration.exists_firstError_iff`: a command with a fault has a first one.
* `Configuration.FirstError.pointsAt`: the error points at what is to blame.
* `Configuration.refuses_ofCommand`: the three together.
-/

namespace Pipewright

/-! ### Carets -/

/-- The caret for a place stands under the first character behind it. -/
theorem withCaret_append {input : String} {front behind : List Char}
    (h : input.toList = front ++ behind) :
    withCaret input (Text.byteLength front) =
      input ++ "\n" ++ .ofList (List.replicate front.length ' ') ++ "^" := by
  have hmin : min (Text.byteLength front) (Text.byteLength input.toList) =
      Text.byteLength front := by
    rw [h, Text.byteLength_append]
    omega
  have hcolumn : caretColumn input.toList (Text.byteLength front) = front.length := by
    rw [caretColumn]
    simp only [hmin]
    rw [h, Text.isBoundary_append, Text.takeBytes_append, if_pos rfl]
  rw [withCaret, hcolumn]

namespace Configuration

/-! ### The first error -/

/-- The words of a command behind the tool: its leading flags and what follows them. -/
structure Divides (input : String) (ts : List Token) (groups : List FlagGroup)
    (region : List Token) : Prop where
  /-- The tokens of the command. -/
  tokens : tokensOf input = .ok ts
  /-- Behind the tool stand the flags and the rest. -/
  words : dropTool ts = groupTokens groups ++ region
  /-- The flags are the leading flags. -/
  flags : LeadingFlags groups region

/-- The command has a fault: a quote is never closed; or two leading flags fill one slot, or a
separator flag has no word, or a connective dangles in the pipeline in front of the input
file. -/
def IsFaulty (input : String) : Prop :=
  (∃ e, tokensOf input = .error e) ∨
    ∃ ts groups region, Divides input ts groups region ∧
      ((∃ slot, 2 ≤ groups.countP (·.slots.contains slot)) ∨
        (∃ flag, FlagGroup.separator flag none ∈ groups) ∨
          Dangles (splitInputFile region).1)

/-- The error of the first fault of a command. A quote that is never closed comes before
everything else; the flags come before the stages. -/
inductive FirstError (input : String) : CommandError → Prop
  | tokens {e : TokenError} : tokensOf input = .error e → FirstError input (.noTokens e)
  | flags {ts : List Token} {groups : List FlagGroup} {region : List Token} {e : CommandError} :
      Divides input ts groups region →
      FirstFault Demand.Unmet [] (groups.flatMap FlagGroup.demands) e → FirstError input e
  | stages {ts : List Token} {groups : List FlagGroup} {region : List Token} {e : CommandError} :
      Divides input ts groups region →
      (∀ e', ¬ FirstFault Demand.Unmet [] (groups.flatMap FlagGroup.demands) e') →
      FirstFault StageFault [] (splitInputFile region).1 e → FirstError input e

variable {input : String} {current : Configuration} {ts : List Token}
  {groups : List FlagGroup} {region : List Token} {e : CommandError}

/-- The flags and the rest of a command are found by cutting it into groups. -/
theorem divides_iff :
    Divides input ts groups region ↔
      tokensOf input = .ok ts ∧ flagGroups (dropTool ts) = (groups, region) := by
  rw [flagGroups_eq_iff]
  exact ⟨fun h => ⟨h.tokens, h.words, h.flags⟩, fun ⟨h, hwords, hflags⟩ => ⟨h, hwords, hflags⟩⟩

/-- The pipeline of a command fails for its first connective at fault. -/
theorem Divides.pipelineSteps_eq_error_iff (h : Divides input ts groups region) :
    pipelineSteps input (splitInputFile region).1 = .error e ↔
      FirstFault StageFault [] (splitInputFile region).1 e := by
  obtain ⟨tool, htool⟩ := exists_tool ts
  have hread : readTokens input.toList =
      .ok ((tool ++ groupTokens groups) ++ (splitInputFile region).1 ++
        (splitInputFile region).2.toList) := by
    rw [List.append_assoc, splitInputFile_append, List.append_assoc, ← h.words, ← htool,
      ← tokensOf_eq, h.tokens]
  exact Pipewright.pipelineSteps_eq_error_iff hread

/-- **The error of a command is that of its first fault.** -/
theorem ofCommand_eq_error_iff : ofCommand input current = .error e ↔ FirstError input e := by
  rw [ofCommand_eq, bind_eq_error_iff, mapError_eq_error_iff]
  constructor
  · rintro (⟨e', he', rfl⟩ | ⟨ts, hts, h⟩)
    · exact .tokens he'
    · have hdivides := divides_iff.mpr ⟨mapError_eq_ok_iff.mp hts, rfl⟩
      rcases bind_eq_error_iff.mp h with hslots | ⟨slots, hslots, h⟩
      · exact .flags hdivides ((fillSlots_eq_error_iff hdivides.flags.proper).mp hslots)
      · rcases bind_eq_error_iff.mp h with hsteps | ⟨steps, -, h⟩
        · refine .stages hdivides (fun e' he' => ?_) (hdivides.pipelineSteps_eq_error_iff.mp hsteps)
          have hfail := (fillSlots_eq_error_iff hdivides.flags.proper).mpr he'
          rw [hslots] at hfail
          exact absurd hfail nofun
        · exact absurd h nofun
  · rintro (he' | ⟨hdivides, h⟩ | ⟨hdivides, hmet, h⟩)
    · exact .inl ⟨_, he', rfl⟩
    · obtain ⟨hts, hgroups⟩ := divides_iff.mp hdivides
      refine .inr ⟨_, mapError_eq_ok_iff.mpr hts, bind_eq_error_iff.mpr (.inl ?_)⟩
      rw [hgroups]
      exact (fillSlots_eq_error_iff hdivides.flags.proper).mpr h
    · obtain ⟨hts, hgroups⟩ := divides_iff.mp hdivides
      refine .inr ⟨_, mapError_eq_ok_iff.mpr hts, ?_⟩
      rw [hgroups]
      cases hslots : fillSlots _ with
      | error e' =>
          exact absurd ((fillSlots_eq_error_iff hdivides.flags.proper).mp hslots) (hmet e')
      | ok slots =>
          refine bind_eq_error_iff.mpr (.inr ⟨slots, rfl, bind_eq_error_iff.mpr (.inl ?_)⟩)
          exact hdivides.pipelineSteps_eq_error_iff.mpr h

/-- **A command with a fault has a first one.** -/
theorem exists_firstError_iff : (∃ e, FirstError input e) ↔ IsFaulty input := by
  constructor
  · rintro ⟨e, he | ⟨hdivides, h⟩ | ⟨hdivides, -, h⟩⟩
    · exact .inl ⟨_, he⟩
    · refine .inr ⟨_, _, _, hdivides, ?_⟩
      exact (exists_unmet_iff.mp ⟨e, h⟩).imp_right .inl
    · exact .inr ⟨_, _, _, hdivides, .inr (.inr (exists_stageFault_iff.mp ⟨e, h⟩))⟩
  · rintro (⟨e, he⟩ | ⟨ts, groups, region, hdivides, hfault⟩)
    · exact ⟨_, .tokens he⟩
    · by_cases hmet : ∃ e, FirstFault Demand.Unmet [] (groups.flatMap FlagGroup.demands) e
      · obtain ⟨e, h⟩ := hmet
        exact ⟨e, .flags hdivides h⟩
      · have hdangles : Dangles (splitInputFile region).1 := by
          rw [exists_unmet_iff, not_or] at hmet
          exact (hfault.resolve_left hmet.1).resolve_left hmet.2
        obtain ⟨e, h⟩ := exists_stageFault_iff.mpr hdangles
        exact ⟨e, .stages hdivides (not_exists.mp hmet) h⟩

/-! ### The place of an error -/

/-- What the error is about starts with the text `behind`: a quote, a flag of the command, or a
connective. -/
def StartsCulprit (input : String) (behind : List Char) : CommandError → Prop
  | .noTokens (.openQuote quote _) => behind.head? = some quote
  | .slotTaken flag _ _ _ | .noValue flag _ =>
    ∃ ts, tokensOf input = .ok ts ∧ ∃ t ∈ ts, t.value = flag ∧ t.raw.toList <+: behind
  | .noStage _ => connective.toList <+: behind

/-- The error points at what is to blame, by its byte offset and by the caret below the text. -/
def PointsAt (input : String) (e : CommandError) : Prop :=
  ∃ front behind, input.toList = front ++ behind ∧ e.position = Text.byteLength front ∧
    StartsCulprit input behind e ∧
    withCaret input e.position =
      input ++ "\n" ++ .ofList (List.replicate front.length ' ') ++ "^"

/-- A token of a command stands in the text where it starts. -/
theorem exists_front_of_mem (hts : tokensOf input = .ok ts) {t : Token} (ht : t ∈ ts) :
    ∃ front behind, input.toList = front ++ behind ∧ t.start = Text.byteLength front ∧
      t.raw.toList <+: behind := by
  obtain ⟨pre, post, rfl⟩ := List.append_of_mem ht
  obtain ⟨p, q, hinput, hword, -⟩ := exists_word hts
  exact ⟨p, t.raw.toList ++ q, by rw [hinput, List.append_assoc], hword.start_eq,
    List.prefix_append _ _⟩

/-- An error that blames a token of the command points at it. -/
theorem pointsAt_of_mem (hts : tokensOf input = .ok ts) {t : Token} (ht : t ∈ ts)
    (hposition : e.position = t.start)
    (hculprit : ∀ behind, t.raw.toList <+: behind → StartsCulprit input behind e) :
    PointsAt input e := by
  obtain ⟨front, behind, hinput, hstart, hraw⟩ := exists_front_of_mem hts ht
  have hplace : e.position = Text.byteLength front := hposition.trans hstart
  exact ⟨front, behind, hinput, hplace, hculprit behind hraw, hplace ▸ withCaret_append hinput⟩

/-- A demand that is not met points at its flag. -/
theorem pointsAt_of_unmet (h : Divides input ts groups region) {front behind : List Demand}
    {d : Demand} (hd : d ∈ groups.flatMap FlagGroup.demands) (hunmet : d.Unmet front behind e) :
    PointsAt input e := by
  obtain ⟨tool, htool⟩ := exists_tool ts
  have hmem : d.flag ∈ ts := by
    rw [htool, h.words]
    exact List.mem_append_right _ (List.mem_append_left _ (flag_mem_groupTokens hd))
  cases d with
  | word flag value =>
      obtain ⟨-, rfl⟩ := hunmet
      exact pointsAt_of_mem h.tokens hmem rfl fun _ hraw => ⟨ts, h.tokens, flag, hmem, rfl, hraw⟩
  | free flag slot =>
      obtain ⟨previous, -, rfl⟩ := hunmet
      exact pointsAt_of_mem h.tokens hmem rfl fun _ hraw => ⟨ts, h.tokens, flag, hmem, rfl, hraw⟩

/-- A connective at fault is pointed at. -/
theorem pointsAt_of_stageFault (h : Divides input ts groups region) {front behind : List Token}
    {t : Token} (ht : t ∈ (splitInputFile region).1) (hfault : StageFault front t behind e) :
    PointsAt input e := by
  obtain ⟨tool, htool⟩ := exists_tool ts
  have hmem : t ∈ ts := by
    rw [htool, h.words, ← splitInputFile_append region]
    simp [ht]
  obtain ⟨hconnective, -, rfl⟩ := hfault
  have hraw : t.raw = connective := by
    rw [Token.isConnective, Token.spells, Bool.and_eq_true, beq_iff_eq] at hconnective
    exact hconnective.2
  refine pointsAt_of_mem h.tokens hmem rfl fun behind hbehind => ?_
  rw [hraw] at hbehind
  exact hbehind

/-- **The first error points at what is to blame.** -/
theorem FirstError.pointsAt (h : FirstError input e) : PointsAt input e := by
  cases h with
  | @tokens e he =>
      obtain ⟨quote, position⟩ := e
      obtain ⟨front, behind, hinput, rfl⟩ := exists_quote_of_readTokens he
      exact ⟨front, quote :: behind, hinput, rfl, rfl, withCaret_append hinput⟩
  | flags hdivides h =>
      obtain ⟨front, d, behind, hd, hunmet⟩ := h.exists_mem
      exact pointsAt_of_unmet hdivides hd hunmet
  | stages hdivides _ h =>
      obtain ⟨front, t, behind, ht, hfault⟩ := h.exists_mem
      exact pointsAt_of_stageFault hdivides ht hfault

/-! ### Refused commands -/

/-- What there is to say of the refusal of a command. -/
structure Refuses (input : String) (current : Configuration) : Prop where
  /-- The command is refused just where it has a fault. -/
  refused_iff : (∃ e, ofCommand input current = .error e) ↔ IsFaulty input
  /-- The error is that of the first fault. -/
  error_iff : ∀ e, ofCommand input current = .error e ↔ FirstError input e
  /-- The error points at what is to blame. -/
  pointsAt : ∀ e, ofCommand input current = .error e → PointsAt input e

/-- **A command is refused for its first fault**, and only if it has one, and the error points
at what is to blame. -/
theorem refuses_ofCommand (input : String) (current : Configuration) :
    Refuses input current where
  refused_iff := by
    rw [← exists_firstError_iff]
    exact exists_congr fun _ => ofCommand_eq_error_iff
  error_iff _ := ofCommand_eq_error_iff
  pointsAt _ h := (ofCommand_eq_error_iff.mp h).pointsAt

/-- The second flag for the input format is to blame, behind a word with an accent. -/
example : (ofCommand "mlr --ofs 'é' --csv --c2p cat" {} =
      .error (.slotTaken "--c2p" "--csv" .inputFormat 21)) ∧
    withCaret "mlr --ofs 'é' --csv --c2p cat" 21 =
      "mlr --ofs 'é' --csv --c2p cat\n                    ^" := by
  decide +kernel

end Configuration

end Pipewright
