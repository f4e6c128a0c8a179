import Mathlib.Data.List.Basic
import Mathlib.Data.List.Induction
import Pipewright.Proofs.Token.Scan

/-!
# Excerpts of a Text

Steps and options are kept as the text between the first and the last of their tokens.
This module finds that text again: every run of neighbouring tokens of a text is what a
piece of the text reads as, and the offsets of the run are those of the piece.

The argument follows the machine. `Scanner.Traced` says of a state where its finished
tokens and its draft stand in the characters read so far; one step keeps it, and so it
holds of every run.

## Main results

* `Scanner.traced_run`: the invariant of a run.
* `holds_or_endsIn`: what follows a token of a text, and the state of the machine at its end.
* `exists_word`: where a token of a text stands, and what the text up to its end reads as.
* `stop_lt_start`: the order of the tokens of a text.
* `exists_excerpt`: the piece of a text that reads as some neighbouring tokens.
-/

namespace Pipewright

/-! ### Behind a piece that ends between tokens -/

/-- The text `p` ends between two tokens, and it reads as `pre`. -/
def EndsBetween (p : List Char) (pre : List Token) : Prop :=
  Scanner.init.run p = Scanner.init.after (Text.byteLength p) pre

/-- What stands behind a text that ends between tokens has its tokens of its own. -/
theorem EndsBetween.readTokens_drop {p b : List Char} {pre ts : List Token}
    (h : EndsBetween p pre) (hts : readTokens (p ++ b) = .ok ts) :
    ∃ us, readTokens b = .ok us ∧ ts = pre ++ us.map (Token.shift (Text.byteLength p)) := by
  rw [readTokens, Scanner.run_append, h, Scanner.run_after, Scanner.finish_after,
    ← readTokens] at hts
  cases hb : readTokens b with
  | error e => simp [hb, Except.map, Except.mapError] at hts
  | ok us =>
      refine ⟨us, rfl, ?_⟩
      simpa [hb, Except.map, Except.mapError, eq_comm] using hts

/-! ### The invariant of a run -/

/-- A word with the raw text `raw` stands at byte `start`, behind `p`, which reads as
`pre`. -/
structure WordAt (pre : List Token) (start : Nat) (raw : String) (p : List Char) : Prop where
  /-- The text in front of the word ends between two tokens. -/
  before : EndsBetween p pre
  /-- The word starts where the text in front of it ends. -/
  start_eq : start = Text.byteLength p
  /-- The word starts with a character that is no blank. -/
  head : ∃ c ∈ raw.toList.head?, Text.isBlank c = false

namespace Draft

/-- A character does not change where the draft starts. -/
@[simp] theorem feed_start (d : Draft) (offset : Nat) (c : Char) :
    (d.feed offset c).start = d.start := by
  obtain ⟨start, raw, value, quoted, meaningful, mode⟩ := d
  cases mode <;> simp only [feed, keep] <;> split_ifs <;> rfl

/-- A character is added to the raw text. -/
@[simp] theorem feed_raw (d : Draft) (offset : Nat) (c : Char) :
    (d.feed offset c).raw = d.raw.push c := by
  obtain ⟨start, raw, value, quoted, meaningful, mode⟩ := d
  cases mode <;> simp only [feed, keep] <;> split_ifs <;> rfl

end Draft

namespace Scanner

/-- The text `cs` ends in the token `t`, behind the tokens `pre`: only a blank is missing for
the machine to finish it. -/
structure EndsIn (cs : List Char) (pre : List Token) (t : Token) : Prop where
  /-- The token stands at the end of the text. -/
  word : ∃ p, cs = p ++ t.raw.toList ∧ WordAt pre t.start t.raw p
  /-- The token stops where the text does. -/
  stop_eq : t.stop = Text.byteLength cs
  /-- The machine has the token as its draft. -/
  run_eq : init.run cs =
    ⟨t.stop, pre.toArray, some ⟨t.start, t.raw, t.value, t.quoted, true, .plain⟩⟩

/-- The text `cs` holds the token `t`, behind the tokens `pre` and in front of a blank. -/
def Holds (cs : List Char) (pre : List Token) (t : Token) : Prop :=
  ∃ front blank behind, cs = front ++ blank :: behind ∧ Text.isBlank blank = true ∧
    EndsIn front pre t

/-- A text that ends in a token reads as that token and those in front of it. -/
theorem EndsIn.spells {cs : List Char} {pre : List Token} {t : Token} (h : EndsIn cs pre t) :
    Spells cs (pre ++ [t]) := by
  constructor
  · rw [h.run_eq]
    intro d hd
    obtain rfl := Option.some.inj hd
    rfl
  · rw [readTokens, h.run_eq]
    simp [finish, close, Draft.close?]

/-- A longer text holds the tokens of a shorter one. -/
theorem Holds.append {cs : List Char} {pre : List Token} {t : Token} (h : Holds cs pre t)
    (more : List Char) : Holds (cs ++ more) pre t := by
  obtain ⟨front, blank, behind, rfl, hblank, hends⟩ := h
  exact ⟨front, blank, behind ++ more, by simp, hblank, hends⟩

/-- **The invariant of a run**: the text `cs` that led to the state `s` holds every
finished token and ends in the draft. -/
structure Traced (cs : List Char) (s : Scanner) : Prop where
  /-- Every finished token stands in the text. -/
  tokens : ∀ pre t post, s.tokens.toList = pre ++ t :: post → Holds cs pre t
  /-- The draft stands at the end of the text. -/
  draft : ∀ d ∈ s.draft,
    ∃ p, cs = p ++ d.raw.toList ∧ WordAt s.tokens.toList d.start d.raw p

/-- A token in a list with one more token at its end is that token or an earlier one. -/
theorem append_cons_eq_concat {pre post ts : List Token} {t u : Token}
    (h : pre ++ t :: post = ts ++ [u]) :
    (pre = ts ∧ t = u ∧ post = []) ∨ ∃ post', ts = pre ++ t :: post' := by
  rcases List.eq_nil_or_concat post with rfl | ⟨post', v, rfl⟩
  · obtain ⟨rfl, hu⟩ := List.append_inj' h rfl
    exact .inl ⟨rfl, by simpa using hu, rfl⟩
  · rw [List.concat_eq_append, ← List.cons_append, ← List.append_assoc] at h
    obtain ⟨hts, -⟩ := List.append_inj' h rfl
    exact .inr ⟨post', hts.symm⟩

/-- A finished draft leaves the tokens as they are or adds its own. -/
theorem close_toList (s : Scanner) (d : Draft) :
    (s.close d).toList = s.tokens.toList ∨
      (s.close d).toList =
        s.tokens.toList ++ [⟨d.raw, d.value, d.start, s.offset, d.quoted⟩] := by
  rw [close, Draft.close?]
  by_cases h : d.meaningful <;> simp [h]

variable {cs : List Char} {c : Char}

/-- The state between two tokens is the one that the text in front of it leads to. -/
theorem endsBetween_of_draft_none (h : (init.run cs).draft = none) :
    EndsBetween cs (init.run cs).tokens.toList := by
  rw [EndsBetween, after_init]
  have hoffset := offset_run_init cs
  cases hs : init.run cs with
  | mk offset tokens draft =>
      rw [hs] at h hoffset
      simp_all

/-- A token that a finished draft amounts to stands at the end of the text. -/
theorem endsIn_of_close {d : Draft} (h : Traced cs (init.run cs))
    (hd : d ∈ (init.run cs).draft) (hmode : d.mode = .plain) {pre post : List Token} {t : Token}
    (hts : ((init.run cs).close d).toList = pre ++ t :: post) :
    EndsIn cs pre t ∨ Holds cs pre t := by
  rw [close, Draft.close?] at hts
  split at hts
  next u hu =>
    split at hu
    next hmeaningful =>
      obtain rfl := Option.some.inj hu
      rw [Array.toList_push] at hts
      rcases append_cons_eq_concat hts.symm with ⟨rfl, rfl, rfl⟩ | ⟨post', hpost⟩
      · refine .inl ⟨h.draft d hd, offset_run_init cs, ?_⟩
        obtain ⟨start, raw, value, quoted, meaningful, mode⟩ := d
        obtain rfl : meaningful = true := hmeaningful
        obtain rfl : mode = .plain := hmode
        rw [Array.toArray_toList, ← Option.mem_def.mp hd]
      · exact .inr (h.tokens pre t post' hpost)
    next => exact absurd hu (by simp)
  next => exact .inr (h.tokens pre t post hts)

/-- **One step keeps the invariant.** -/
theorem Traced.step (h : Traced cs (init.run cs)) :
    Traced (cs ++ [c]) ((init.run cs).step c) := by
  rw [Scanner.step]
  split
  next hnone =>
    have hkeep : ∀ pre t post, (init.run cs).tokens.toList = pre ++ t :: post →
        Holds (cs ++ [c]) pre t := fun pre t post hts => (h.tokens pre t post hts).append [c]
    split
    · refine ⟨hkeep, fun d hd => ?_⟩
      rw [hnone] at hd
      exact absurd hd (Option.not_mem_none d)
    · next hblank =>
      refine ⟨hkeep, fun d hd => ?_⟩
      obtain rfl := Option.some.inj hd
      refine ⟨cs, by simp [Draft.empty], endsBetween_of_draft_none hnone, ?_, ?_⟩
      · simpa [Draft.empty] using offset_run_init cs
      · exact ⟨c, by simp [Draft.empty], by simpa using hblank⟩
  next d hd =>
    split
    · next hclose =>
      obtain ⟨hmode, hblank⟩ : d.mode = .plain ∧ Text.isBlank c = true := by simp_all
      refine ⟨fun pre t post hts => ?_, fun d' hd' => absurd hd' (Option.not_mem_none d')⟩
      rcases endsIn_of_close h hd hmode hts with hends | hholds
      · exact ⟨cs, c, [], rfl, hblank, hends⟩
      · exact hholds.append [c]
    · refine ⟨fun pre t post hts => (h.tokens pre t post hts).append [c], fun d' hd' => ?_⟩
      obtain rfl := Option.some.inj hd'
      obtain ⟨p, hcs, hword⟩ := h.draft d hd
      refine ⟨p, ?_, hword.before, by simpa using hword.start_eq, ?_⟩
      · rw [Draft.feed_raw, String.toList_push, ← List.append_assoc, ← hcs]
      · obtain ⟨a, ha, hblank⟩ := hword.head
        refine ⟨a, ?_, hblank⟩
        rw [Draft.feed_raw, String.toList_push, List.head?_append, Option.mem_def.mp ha]
        rfl

/-- **The invariant of a run**, from the front of the text on. -/
theorem traced_run (cs : List Char) : Traced cs (init.run cs) := by
  induction cs using List.reverseRecOn with
  | nil =>
      refine ⟨fun pre t post h => ?_, fun d hd => absurd hd (Option.not_mem_none d)⟩
      simp [run, init] at h
  | append_singleton cs c ih =>
      rw [run_append]
      exact ih.step

end Scanner

/-! ### Tokens and their places -/

/-- **The end of a token**: a token that a text reads as is followed by a blank, or the text
ends in it, or it is the last and ends in a backslash that escapes nothing. -/
theorem holds_or_endsIn {cs : List Char} {pre post : List Token} {t : Token}
    (h : readTokens cs = .ok (pre ++ t :: post)) :
    Scanner.Holds cs pre t ∨ Scanner.EndsIn cs pre t ∨
      (post = [] ∧ ∃ p, cs = p ++ t.raw.toList ∧ WordAt pre t.start t.raw p ∧
        t.stop = Text.byteLength cs) := by
  have htraced := Scanner.traced_run cs
  rw [readTokens, Scanner.finish] at h
  split at h
  · exact .inl (htraced.tokens pre t post (Except.ok.inj h))
  next d hd =>
    split at h
    · next hmode =>
      exact (Scanner.endsIn_of_close htraced hd hmode (Except.ok.inj h)).symm.imp_right .inl
    · -- a backslash ends the text: the draft is the last token, with that backslash as typed
      have hts := Except.ok.inj h
      rcases Scanner.close_toList (Scanner.init.run cs) (d.keep '\\') with hclose | hclose
      · exact .inl (htraced.tokens pre t post (hclose.symm.trans hts))
      rw [hclose] at hts
      rcases Scanner.append_cons_eq_concat hts.symm with ⟨rfl, rfl, rfl⟩ | ⟨post', hpost⟩
      · obtain ⟨p, hcs, hword⟩ := htraced.draft d hd
        exact .inr (.inr ⟨rfl, p, hcs, hword, Scanner.offset_run_init cs⟩)
      · exact .inl (htraced.tokens pre t post' hpost)
    · exact absurd h (by simp)
    · exact absurd h (by simp)
    · exact absurd h (by simp)

/-- **A token in its text.** In front of the raw text of a token stands what reads as the
tokens in front of it, and up to the end of that raw text the text reads as these tokens
and the token itself. Only the last token of a text may be unfinished. -/
theorem exists_word {cs : List Char} {pre post : List Token} {t : Token}
    (h : readTokens cs = .ok (pre ++ t :: post)) :
    ∃ p q, cs = p ++ t.raw.toList ++ q ∧ WordAt pre t.start t.raw p ∧
      t.stop = Text.byteLength (p ++ t.raw.toList) ∧
      readTokens (p ++ t.raw.toList) = .ok (pre ++ [t]) ∧
      (post ≠ [] → (Scanner.init.run (p ++ t.raw.toList)).Settled) := by
  have hends {front behind : List Char} (hcs : cs = front ++ behind)
      (hfront : Scanner.EndsIn front pre t) :
      ∃ p q, cs = p ++ t.raw.toList ++ q ∧ WordAt pre t.start t.raw p ∧
        t.stop = Text.byteLength (p ++ t.raw.toList) ∧
        readTokens (p ++ t.raw.toList) = .ok (pre ++ [t]) ∧
        (post ≠ [] → (Scanner.init.run (p ++ t.raw.toList)).Settled) := by
    obtain ⟨p, rfl, hword⟩ := hfront.word
    exact ⟨p, behind, hcs, hword, hfront.stop_eq, hfront.spells.tokens,
      fun _ => hfront.spells.settled⟩
  rcases holds_or_endsIn h with ⟨front, blank, behind, hcs, -, hfront⟩ | hfront |
    ⟨rfl, p, rfl, hword, hstop⟩
  · exact hends hcs hfront
  · exact hends (List.append_nil cs).symm hfront
  · exact ⟨p, [], (List.append_nil _).symm, hword, hstop, h, fun hne => absurd rfl hne⟩

/-- A token has characters, and it stops within its text. -/
theorem start_lt_stop {cs : List Char} {pre post : List Token} {t : Token}
    (h : readTokens cs = .ok (pre ++ t :: post)) :
    t.start < t.stop ∧ t.stop ≤ Text.byteLength cs := by
  obtain ⟨p, q, rfl, hword, hstop, -, -⟩ := exists_word h
  obtain ⟨c, hc, -⟩ := hword.head
  obtain ⟨rest, hraw⟩ := List.head?_eq_some_iff.mp hc
  have hpos := c.utf8Size_pos
  have hstart := hword.start_eq
  rw [hraw] at hstop ⊢
  simp only [Text.byteLength_append, Text.byteLength_cons] at hstop ⊢
  omega

/-- **The order of the tokens**: those in front of a token stop before it starts. -/
theorem stop_lt_start {cs : List Char} {pre post : List Token} {t : Token}
    (h : readTokens cs = .ok (pre ++ t :: post)) : ∀ u ∈ pre, u.stop < t.start := by
  intro u hu
  obtain ⟨p, q, -, hword, -⟩ := exists_word h
  obtain ⟨front, behind, rfl⟩ := List.append_of_mem hu
  have hbetween : Scanner.init.run p =
      ⟨Text.byteLength p, (front ++ u :: behind).toArray, none⟩ := by
    rw [hword.before, Scanner.after_init]
  -- the text in front of `t` goes on behind `u`
  obtain ⟨a, blank, b, hp, -, hends⟩ :=
    (Scanner.traced_run p).tokens front u behind (by rw [hbetween])
  have hpos := blank.utf8Size_pos
  rw [hword.start_eq, hends.stop_eq, hp, Text.byteLength_append, Text.byteLength_cons]
  omega

/-- A piece of a text reads as `ts`, starts with the first of these tokens and ends with
the last. -/
structure Fits (cs : List Char) (ts : List Token) : Prop where
  /-- The tokens of the piece. -/
  tokens : readTokens cs = .ok ts
  /-- The first token starts with the piece. -/
  start : ts.head?.map (·.start) = some 0
  /-- The last token ends with the piece. -/
  stop : ts.getLast?.map (·.stop) = some (Text.byteLength cs)

/-- **The excerpt of some neighbouring tokens.** Tokens that follow one another in a text
are what a piece of the text reads as. In front of it the text ends between tokens. The piece
starts with a character that is no blank, it ends as the raw text of the last token does, and
it is finished if it is not the end of the text. -/
theorem exists_excerpt {cs : List Char} {pre mid post : List Token}
    (h : readTokens cs = .ok (pre ++ mid ++ post)) (hmid : mid ≠ []) :
    ∃ p m q ts, cs = p ++ m ++ q ∧ EndsBetween p pre ∧
      mid = ts.map (Token.shift (Text.byteLength p)) ∧ Fits m ts ∧ (post ≠ [] → Spells m ts) ∧
      (∃ c ∈ m.head?, Text.isBlank c = false) ∧
      ∀ t ∈ mid.getLast?, m.getLast? = t.raw.toList.getLast? := by
  obtain ⟨first, rest, rfl⟩ := List.exists_cons_of_ne_nil hmid
  -- cut in front of the first token, so that what is left reads as `mid ++ post`
  rw [List.append_assoc, List.cons_append] at h
  obtain ⟨p, q₁, hcs, hfirst, -⟩ := exists_word h
  rw [hcs, List.append_assoc] at h
  obtain ⟨us, hus, hsplit⟩ := hfirst.before.readTokens_drop h
  rw [List.append_cancel_left_eq] at hsplit
  rw [← List.cons_append] at hsplit
  obtain ⟨mid₀, post₀, rfl, hmid₀, hpost₀⟩ := List.map_eq_append_iff.mp hsplit.symm
  rcases List.eq_nil_or_concat mid₀ with rfl | ⟨init, last, rfl⟩
  · simp at hmid₀
  rw [List.concat_eq_append] at hus hmid₀
  -- cut behind the last token
  rw [List.append_assoc, List.singleton_append] at hus
  obtain ⟨p₂, q₂, hq₁, hlast, hstop, hread, hsettled⟩ := exists_word hus
  have hraw : last.raw.toList ≠ [] := by
    obtain ⟨c, hc, -⟩ := hlast.head
    rintro hnil
    simp [hnil] at hc
  have hm : p₂ ++ last.raw.toList ≠ [] := List.append_ne_nil_of_right_ne_nil _ hraw
  refine ⟨p, p₂ ++ last.raw.toList, q₂, init ++ [last], ?_, hfirst.before, hmid₀.symm,
    ⟨hread, ?_, ?_⟩, ?_, ?_, ?_⟩
  · rw [hcs, List.append_assoc, hq₁]
    simp
  · have hhead : ((init ++ [last]).head?.map (Token.shift (Text.byteLength p))) = some first := by
      rw [← List.head?_map, hmid₀, List.head?_cons]
    obtain ⟨t, ht, rfl⟩ := Option.map_eq_some_iff.mp hhead
    have hstart := hfirst.start_eq
    rw [Token.shift_start] at hstart
    rw [ht, Option.map_some]
    exact congrArg some (by omega)
  · simp [hstop]
  · intro hpost
    refine ⟨hsettled ?_, hread⟩
    rintro rfl
    exact hpost hpost₀.symm
  · obtain ⟨c, hc, hblank⟩ := hfirst.head
    refine ⟨c, ?_, hblank⟩
    have hsame : (p₂ ++ last.raw.toList ++ q₂).head? = some c := by
      rw [← hq₁, List.head?_append, Option.mem_def.mp hc]
      rfl
    rwa [List.head?_append_of_ne_nil _ hm] at hsame
  · intro t ht
    rw [← hmid₀, List.getLast?_map, List.getLast?_concat, Option.map_some] at ht
    obtain rfl := Option.some.inj ht
    rw [List.getLast?_append_of_ne_nil _ hraw, Token.shift_raw]

end Pipewright
