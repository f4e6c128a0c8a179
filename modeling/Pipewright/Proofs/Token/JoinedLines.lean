import Mathlib.Data.List.DropRight
import Mathlib.Logic.Relation
import Pipewright.Proofs.Token.Continuation
import Pipewright.Proofs.Token.OpenQuote
import Pipewright.Proofs.Token.Splitting

/-!
# What Joined Lines Leave Alone

A backslash in front of a line feed, put into a text where no quote is open and no backslash
waits for its character, changes neither the values of the tokens nor the words for
execution. The values do not hang on the source text of a token, on whether it is quoted or
on where it stands; `Scanner.Alike` relates states that agree on all the rest, and the pair
leads from a state to one that is alike. To the splitting the pair leaves the state as it is.

Texts that differ by such pairs are related by `AddsPair`, where something that is no blank
follows the pair, so that trimming the texts cuts no pair in two.

## Main definitions

* `Scanner.Alike`: two states in which the same values have been read.
* `AddsPair`: the one text is the other with a pair put into it.

## Main results

* `AddsPair.values`: the values of the tokens stay the same.
* `AddsPair.split?_eq`: the words for execution stay the same, without comments.
* `AddsPair.trimChars`: the trimmed texts differ by the pair as well.
-/

namespace Pipewright

open Words

/-! ### The mode that a text leads to -/

namespace Mode

/-- The mode, without the place where its quote opens. -/
def bare : Mode → Mode
  | plain => .plain
  | escaped => .escaped
  | single _ => .single 0
  | double _ => .double 0
  | doubleEscaped _ => .doubleEscaped 0

/-- What a character makes of a mode, wherever a quote opens. -/
def next (m : Mode) (c : Char) : Mode :=
  match m with
  | plain =>
    if c == '\'' then .single 0 else if c == '"' then .double 0
    else if c == '\\' then .escaped else .plain
  | escaped => .plain
  | single opener => if c == '\'' then .plain else .single opener
  | double opener =>
    if c == '"' then .plain else if c == '\\' then .doubleEscaped opener else .double opener
  | doubleEscaped opener => .double opener

/-- A mode is plain without its place as well. -/
theorem bare_eq_plain_iff {m : Mode} : m.bare = .plain ↔ m = .plain := by
  cases m <;> simp [bare]

end Mode

/-- The mode of a draft behind one more character. -/
theorem Draft.feed_mode_bare (d : Draft) (offset : Nat) (c : Char) :
    (d.feed offset c).mode.bare = d.mode.bare.next c := by
  obtain ⟨start, raw, value, quoted, meaningful, mode⟩ := d
  cases mode <;> simp only [feed, keep, Mode.bare, Mode.next] <;> split_ifs <;> rfl

/-! ### States that have read the same values -/

/-- What the value of a token hangs on: the draft without its place and its source text. -/
def Draft.bare (d : Draft) : Draft :=
  ⟨0, "", d.value, false, d.meaningful, d.mode.bare⟩

/-- What a character adds to the value does not hang on the place and the source text. -/
theorem Draft.feed_bare {d d' : Draft} (h : d.bare = d'.bare) (offset offset' : Nat) (c : Char) :
    (d.feed offset c).bare = (d'.feed offset' c).bare := by
  obtain ⟨start, raw, value, quoted, meaningful, mode⟩ := d
  obtain ⟨start', raw', value', quoted', meaningful', mode'⟩ := d'
  simp only [bare, Draft.mk.injEq, true_and] at h
  obtain ⟨rfl, rfl, hmode⟩ := h
  cases mode <;> cases mode' <;> simp only [Mode.bare, reduceCtorEq] at hmode <;>
    simp only [feed, keep, bare] <;> split_ifs <;> rfl

namespace Scanner

/-- The values of the tokens, with that of the finished draft. -/
theorem values_close (s : Scanner) (d : Draft) :
    (s.close d).toList.map (·.value) =
      s.tokens.toList.map (·.value) ++ if d.meaningful then [d.value] else [] := by
  rw [close, Draft.close?]
  by_cases h : d.meaningful <;> simp [h]

/-- Two states in which the same values have been read and the next ones will be. -/
structure Alike (s s' : Scanner) : Prop where
  /-- The finished tokens have the same values. -/
  values : s.tokens.toList.map (·.value) = s'.tokens.toList.map (·.value)
  /-- The drafts differ in their places and their source texts only. -/
  word : s.word.bare = s'.word.bare

variable {s s' : Scanner}

/-- Every state is like itself. -/
theorem Alike.refl (s : Scanner) : Alike s s :=
  ⟨rfl, rfl⟩

/-- What is like a state that is like a third is like the third. -/
theorem Alike.trans {s'' : Scanner} (h : Alike s s') (h' : Alike s' s'') : Alike s s'' :=
  ⟨h.values.trans h'.values, h.word.trans h'.word⟩

/-- States that are alike have the same mode, but for the place of a quote. -/
theorem Alike.mode (h : Alike s s') : s.word.mode.bare = s'.word.mode.bare :=
  (Draft.mk.inj h.word).2.2.2.2.2

/-- States that are alike are settled or not together. -/
theorem Alike.settled (h : Alike s s') (hs : s.Settled) : s'.Settled := by
  rw [settled_iff, ← Mode.bare_eq_plain_iff] at hs ⊢
  rw [← h.mode, hs]

/-- The finished drafts of states that are alike have the same value. -/
theorem Alike.close (h : Alike s s') {d d' : Draft} (hd : d.bare = d'.bare) :
    (s.close d).toList.map (·.value) = (s'.close d').toList.map (·.value) := by
  obtain ⟨-, -, hvalue, -, hmeaningful, -⟩ := Draft.mk.inj hd
  rw [values_close, values_close, h.values, hvalue, hmeaningful]

/-- **One step keeps states alike.** -/
theorem Alike.step (h : Alike s s') (c : Char) : Alike (s.step c) (s'.step c) := by
  have hplain : (s.word.mode == .plain) = (s'.word.mode == .plain) := by
    rw [Bool.eq_iff_iff, beq_iff_eq, beq_iff_eq, ← Mode.bare_eq_plain_iff, h.mode,
      Mode.bare_eq_plain_iff]
  rw [step_eq, step_eq, hplain]
  split
  · exact ⟨h.close h.word, rfl⟩
  · exact ⟨h.values, Draft.feed_bare h.word _ _ c⟩

/-- A run keeps states alike. -/
theorem Alike.run (h : Alike s s') (cs : List Char) : Alike (s.run cs) (s'.run cs) := by
  induction cs generalizing s s' with
  | nil => exact h
  | cons c cs ih => exact ih (h.step c)

/-- At the end, states that are alike have read the same values, or fail both. -/
theorem Alike.finish (h : Alike s s') :
    s.finish.toOption.map (List.map (·.value)) = s'.finish.toOption.map (List.map (·.value)) := by
  have hmode := h.mode
  rw [finish_eq, finish_eq]
  cases hs : s.word.mode <;> cases hs' : s'.word.mode <;>
    simp only [hs, hs', Mode.bare, reduceCtorEq] at hmode
  · exact congrArg some (h.close h.word)
  · refine congrArg some (h.close ?_)
    obtain ⟨-, -, hvalue, -, -, hmode⟩ := Draft.mk.inj h.word
    simp only [Draft.bare, Draft.keep, hvalue, hmode]
  all_goals rfl

/-- **A pair where nothing is open** leads to a state that is alike. -/
theorem Settled.alike_joint (h : s.Settled) : Alike s (s.run joint) := by
  have hblank : Text.isBlank '\\' = false := by decide
  obtain ⟨offset, tokens, draft⟩ := s
  cases draft with
  | none =>
      constructor <;>
        simp [run, joint, step, word, hblank, Draft.empty, Draft.feed, Draft.bare]
  | some d =>
      obtain ⟨start, raw, value, quoted, meaningful, mode⟩ := d
      obtain rfl : mode = .plain := h _ rfl
      constructor <;> simp [run, joint, step, word, hblank, Draft.feed, Draft.bare]

end Scanner

/-- The values of the tokens of a text, if it has any tokens. -/
def values? (cs : List Char) : Option (List String) :=
  (readTokens cs).toOption.map (List.map (·.value))

/-! ### What the splitting makes of a mode -/

/-- The mode of the machine that reads tokens, at the same place. -/
def Words.Stand.mode : Stand → Mode
  | between | plain | comment => .plain
  | leadingEscape | escape => .escaped
  | single => .single 0
  | double => .double 0
  | doubleEscape => .doubleEscaped 0

/-- The two machines are at the same place: between the same quotes and behind the same
backslash. -/
structure SamePlace (s : Scanner) (p : Splitter) : Prop where
  /-- The splitting is not inside a comment. -/
  comment : p.stand ≠ .comment
  /-- The modes are the same. -/
  mode : s.word.mode.bare = p.stand.mode

/-- A character without a meaning of its own outside quotes leaves the mode plain. -/
theorem Mode.next_plain {c : Char} (h : c ≠ '\'' ∧ c ≠ '"' ∧ c ≠ '\\') :
    Mode.plain.next c = .plain := by
  simp [next, h]

/-- What a character makes of the mode of a state. -/
theorem Scanner.mode_step (s : Scanner) (c : Char) :
    (s.step c).word.mode.bare = s.word.mode.bare.next c := by
  rw [step_eq]
  split
  next hclose =>
    obtain ⟨hmode, hblank⟩ : s.word.mode = .plain ∧ Text.isBlank c = true := by simpa using hclose
    rw [hmode, Mode.bare, Mode.next_plain (ne_of_isBlank hblank)]
    rfl
  next => exact s.word.feed_mode_bare s.offset c

/-- What a character makes of the place of the splitting, where it starts no comment. -/
theorem Words.Splitter.mode_step {p : Splitter} {c : Char} (h : p.stand ≠ .comment)
    (hc : c ≠ '#') :
    (p.step c).stand ≠ .comment ∧ (p.step c).stand.mode = p.stand.mode.next c := by
  obtain ⟨words, word, stand⟩ := p
  cases stand <;> simp only [step, keep, close, Stand.mode, Mode.next] <;> split_ifs <;>
    simp_all

/-- **One step keeps the two machines at the same place.** -/
theorem SamePlace.step {s : Scanner} {p : Splitter} {c : Char} (h : SamePlace s p)
    (hc : c ≠ '#') : SamePlace (s.step c) (p.step c) := by
  obtain ⟨hcomment, hmode⟩ := Splitter.mode_step h.comment hc
  exact ⟨hcomment, by rw [Scanner.mode_step, h.mode, hmode]⟩

/-- **A run keeps the two machines at the same place.** -/
theorem SamePlace.run {s : Scanner} {p : Splitter} {cs : List Char} (h : SamePlace s p)
    (hcs : '#' ∉ cs) : SamePlace (s.run cs) (cs.foldl Splitter.step p) := by
  induction cs generalizing s p with
  | nil => exact h
  | cons c cs ih =>
      obtain ⟨hc, hcs⟩ : '#' ≠ c ∧ '#' ∉ cs := by simpa using hcs
      exact ih (h.step hc.symm) hcs

/-- In front of a text the two machines are at the same place. -/
theorem samePlace_init : SamePlace Scanner.init Splitter.init :=
  ⟨nofun, rfl⟩

/-- **A pair where nothing is open** leaves the splitting where it was. -/
theorem SamePlace.joint {s : Scanner} {p : Splitter} (h : SamePlace s p) (hs : s.Settled) :
    joint.foldl Splitter.step p = p := by
  have hmode := h.mode
  have hcomment := h.comment
  rw [Mode.bare_eq_plain_iff.mpr (Scanner.settled_iff.mp hs)] at hmode
  obtain ⟨words, word, stand⟩ := p
  cases stand <;> simp only [Stand.mode, reduceCtorEq] at hmode
  · rfl
  · rfl
  · exact absurd rfl hcomment

/-! ### Open quotes -/

/-- Whether a quote is open does not hang on where it opens. -/
theorem Mode.opener?_bare (m : Mode) : m.bare.opener? = none ↔ m.opener? = none := by
  cases m <;> simp [bare, opener?]

/-- A text has tokens unless a quote is open at its end. -/
theorem exists_readTokens_iff {cs : List Char} :
    (∃ ts, readTokens cs = .ok ts) ↔ (Scanner.init.run cs).word.mode.opener? = none := by
  rw [readTokens, Scanner.finish_eq]
  cases (Scanner.init.run cs).word.mode <;> simp [Mode.opener?]

/-- A text that leaves nothing open has tokens. -/
theorem Scanner.Settled.exists_readTokens {cs : List Char} (h : (init.run cs).Settled) :
    ∃ ts, readTokens cs = .ok ts := by
  rw [exists_readTokens_iff, settled_iff.mp h]
  rfl

/-- Blanks close no quote. -/
theorem Scanner.opener?_run_blanks {s : Scanner} {blanks : List Char}
    (hblanks : ∀ c ∈ blanks, Text.isBlank c = true) (h : s.word.mode.opener? ≠ none) :
    (s.run blanks).word.mode.opener? ≠ none := by
  induction blanks generalizing s with
  | nil => exact h
  | cons c blanks ih =>
      obtain ⟨hc, hblanks⟩ := List.forall_mem_cons.mp hblanks
      refine ih hblanks ?_
      obtain ⟨hsingle, hdouble, hbackslash⟩ := ne_of_isBlank hc
      rw [ne_eq, ← Mode.opener?_bare] at h ⊢
      rw [mode_step]
      generalize s.word.mode.bare = m at h
      cases m <;> simp_all [Mode.next, Mode.opener?]

/-- Without the blanks at its end a text still has tokens. -/
theorem exists_readTokens_trimChars {cs : List Char} {ts : List Token}
    (h : readTokens cs = .ok ts) (hcs : ∀ c ∈ cs.head?, Text.isBlank c = false) :
    ∃ us, readTokens (Text.trimChars cs) = .ok us := by
  rw [Text.trimChars_eq_trimEndChars hcs]
  obtain ⟨blanks, hsplit, hblanks⟩ := Text.exists_trimEndChars_append cs
  rw [exists_readTokens_iff]
  by_contra hopen
  have hclosed := exists_readTokens_iff.mp ⟨ts, h⟩
  rw [hsplit, Scanner.run_append] at hclosed
  exact Scanner.opener?_run_blanks hblanks hopen hclosed

/-- **A text that has tokens is split into words**, unless there is a comment in it. -/
theorem exists_split?_of_readTokens {cs : List Char} {ts : List Token}
    (h : readTokens cs = .ok ts) (hcs : '#' ∉ cs) : ∃ words, split? (.ofList cs) = some words := by
  have hclosed := exists_readTokens_iff.mp ⟨ts, h⟩
  rw [← Mode.opener?_bare, (samePlace_init.run hcs).mode] at hclosed
  rw [split?, String.toList_ofList, Splitter.finish]
  cases hp : (cs.foldl Splitter.step Splitter.init).stand <;> simp_all [Stand.mode, Mode.opener?]

/-! ### A pair in a text -/

/-- The text `cs'` is the text `cs` with a pair put into it, where no quote is open and no
backslash waits for its character, and where something follows that is no blank. -/
def AddsPair (cs cs' : List Char) : Prop :=
  ∃ u v, cs = u ++ v ∧ cs' = u ++ joint ++ v ∧ (Scanner.init.run u).Settled ∧
    ∃ c ∈ v, Text.isBlank c = false

namespace AddsPair

variable {cs cs' : List Char}

/-- The texts lead to states that are alike. -/
theorem alike (h : AddsPair cs cs') : (Scanner.init.run cs).Alike (Scanner.init.run cs') := by
  obtain ⟨u, v, rfl, rfl, hsettled, -⟩ := h
  rw [Scanner.run_append, Scanner.run_append, Scanner.run_append]
  exact hsettled.alike_joint.run v

/-- **The values of the tokens stay the same.** -/
theorem values (h : AddsPair cs cs') : values? cs' = values? cs :=
  h.alike.finish.symm

/-- **The words for execution stay the same**, without comments. -/
theorem split?_eq (h : AddsPair cs cs') (hcs : '#' ∉ cs) :
    split? (.ofList cs') = split? (.ofList cs) := by
  obtain ⟨u, v, rfl, rfl, hsettled, -⟩ := h
  have hu : '#' ∉ u := fun hmem => hcs (List.mem_append_left v hmem)
  rw [split?, split?, String.toList_ofList, String.toList_ofList, List.foldl_append,
    List.foldl_append, (samePlace_init.run hu).joint hsettled, List.foldl_append]

/-- **Trimming the texts** cuts no pair in two, where they start with no blank. -/
theorem trimChars (h : AddsPair cs cs') (hcs : ∀ c ∈ cs.head?, Text.isBlank c = false) :
    AddsPair (Text.trimChars cs) (Text.trimChars cs') ∧
      ∀ c ∈ cs'.head?, Text.isBlank c = false := by
  obtain ⟨u, v, rfl, rfl, hsettled, c, hc, hblank⟩ := h
  have hcs' : ∀ c ∈ (u ++ joint ++ v).head?, Text.isBlank c = false := by
    cases u with
    | nil =>
        intro c hc
        obtain rfl := Option.some.inj hc
        decide
    | cons d u => exact hcs
  refine ⟨⟨u, Text.trimEndChars v, ?_, ?_, hsettled, c, Text.mem_trimEndChars hc hblank,
    hblank⟩, hcs'⟩
  · rw [Text.trimChars_eq_trimEndChars hcs, Text.trimEndChars_append hc hblank]
  · rw [Text.trimChars_eq_trimEndChars hcs', Text.trimEndChars_append hc hblank]

/-- A pair brings no new characters but its own. -/
theorem not_mem (h : AddsPair cs cs') {c : Char} (hc : c ∉ joint) (hcs : c ∉ cs) : c ∉ cs' := by
  obtain ⟨u, v, rfl, rfl, -⟩ := h
  simp_all

/-- The texts may have more behind them. -/
theorem append (h : AddsPair cs cs') (behind : List Char) :
    AddsPair (cs ++ behind) (cs' ++ behind) := by
  obtain ⟨u, v, rfl, rfl, hsettled, c, hc, hblank⟩ := h
  exact ⟨u, v ++ behind, by simp, by simp, hsettled, c, List.mem_append_left _ hc, hblank⟩

/-- The texts may have a finished text and a blank in front of them. -/
theorem behind (h : AddsPair cs cs') {front : List Char} {w : Char}
    (hfront : (Scanner.init.run front).Settled) (hw : Text.isBlank w = true) :
    AddsPair (front ++ [w] ++ cs) (front ++ [w] ++ cs') := by
  obtain ⟨u, v, rfl, rfl, hsettled, c, hc, hblank⟩ := h
  obtain ⟨ts, hts⟩ := hfront.exists_readTokens
  have hspells : Spells front ts := ⟨hfront, hts⟩
  refine ⟨front ++ [w] ++ u, v, by simp, by simp, ?_, c, hc, hblank⟩
  rw [Scanner.run_append, hspells.run_blank hw, Scanner.run_after]
  exact Scanner.settled_after.mpr hsettled

end AddsPair

/-- The text `cs'` is the text `cs` with pairs put into it. -/
abbrev AddsPairs : List Char → List Char → Prop :=
  Relation.ReflTransGen AddsPair

namespace AddsPairs

variable {cs cs' : List Char}

/-- The texts lead to states that are alike. -/
theorem alike (h : AddsPairs cs cs') : (Scanner.init.run cs).Alike (Scanner.init.run cs') := by
  induction h with
  | refl => exact .refl _
  | tail _ hlast ih => exact ih.trans hlast.alike

/-- The values of the tokens stay the same. -/
theorem values (h : AddsPairs cs cs') : values? cs' = values? cs :=
  h.alike.finish.symm

/-- The words for execution stay the same, without comments. -/
theorem split?_eq (h : AddsPairs cs cs') (hcs : '#' ∉ cs) :
    split? (.ofList cs') = split? (.ofList cs) ∧ '#' ∉ cs' := by
  induction h with
  | refl => exact ⟨rfl, hcs⟩
  | tail _ hlast ih =>
      exact ⟨(hlast.split?_eq ih.2).trans ih.1, hlast.not_mem (by decide) ih.2⟩

/-- The trimmed texts differ by pairs as well, where the texts start with no blank. -/
theorem trimChars (h : AddsPairs cs cs') (hcs : ∀ c ∈ cs.head?, Text.isBlank c = false) :
    AddsPairs (Text.trimChars cs) (Text.trimChars cs') ∧
      ∀ c ∈ cs'.head?, Text.isBlank c = false := by
  induction h with
  | refl => exact ⟨.refl, hcs⟩
  | tail _ hlast ih =>
      obtain ⟨htrimmed, hhead⟩ := hlast.trimChars ih.2
      exact ⟨ih.1.tail htrimmed, hhead⟩

/-- No text becomes empty, and none comes of nothing. -/
theorem eq_nil_iff (h : AddsPairs cs cs') : cs' = [] ↔ cs = [] := by
  induction h with
  | refl => rfl
  | tail _ hlast ih =>
      obtain ⟨u, v, rfl, rfl, -, c, hc, -⟩ := hlast
      have hv := List.ne_nil_of_mem hc
      rw [← ih]
      simp [hv]

/-- What is no blank stays. -/
theorem exists_mem (h : AddsPairs cs cs') (hcs : ∃ c ∈ cs, Text.isBlank c = false) :
    ∃ c ∈ cs', Text.isBlank c = false := by
  induction h with
  | refl => exact hcs
  | tail _ hlast ih =>
      obtain ⟨u, v, rfl, rfl, -, c, hc, hblank⟩ := hlast
      exact ⟨c, List.mem_append_right _ hc, hblank⟩

/-- The texts may have more behind them. -/
theorem append (h : AddsPairs cs cs') (behind : List Char) :
    AddsPairs (cs ++ behind) (cs' ++ behind) :=
  h.lift (· ++ behind) fun _ _ hpair => hpair.append behind

/-- The texts may have a finished text and a blank in front of them. -/
theorem behind (h : AddsPairs cs cs') {front : List Char} {w : Char}
    (hfront : (Scanner.init.run front).Settled) (hw : Text.isBlank w = true) :
    AddsPairs (front ++ [w] ++ cs) (front ++ [w] ++ cs') :=
  h.lift (front ++ [w] ++ ·) fun _ _ hpair => hpair.behind hfront hw

end AddsPairs

end Pipewright
