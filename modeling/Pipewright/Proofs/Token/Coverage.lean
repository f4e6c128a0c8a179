import Pipewright.Proofs.Outcome
import Pipewright.Proofs.Token.JoinedLines

/-!
# The Tokens of a Text Cover It

The steps and the options of a command are cut out of its line at the offsets of its tokens,
so that nothing of the line may be lost between two tokens and nothing may count twice. This
module says how the tokens of a text lie in it: every token is the stretch between its offsets,
the stretches stand in order and apart, and what lies between them is vacant, which is to say
that it holds blanks and joined lines only.

The offsets come from `exists_word`. Two facts are added to it by invariants of the machine.
A run that has met nothing of a token has read a vacant text, and a draft counts as quoted just
when a quote or a backslash stands in its source text.

## Main definitions

* `IsVacant`: a stretch of blanks and joined lines.
* `Spelled`: how the source text of a token, its value and its quoted mark hang together.
* `Covers`: how the tokens of a text lie in it.

## Main results

* `isVacant_of_readTokens_nil`: a text without tokens is vacant.
* `isVacant_gapBetween`: what lies between the tokens of a text is vacant.
* `covers_of_tokensOf`: the tokens of a text cover it.
-/

namespace Pipewright

/-! ### Vacant stretches -/

/-- The stretch holds nothing of a token: blanks, and pairs that join two lines. -/
inductive IsVacant : List Char → Prop
  | nil : IsVacant []
  | blank {c : Char} {cs : List Char} :
      Text.isBlank c = true → IsVacant cs → IsVacant (c :: cs)
  | joint {cs : List Char} : IsVacant cs → IsVacant (joint ++ cs)

/-- Two vacant stretches make one. -/
theorem IsVacant.append {a b : List Char} (ha : IsVacant a) (hb : IsVacant b) :
    IsVacant (a ++ b) := by
  induction ha with
  | nil => exact hb
  | blank hc _ ih => exact .blank hc ih
  | joint _ ih =>
      rw [List.append_assoc]
      exact .joint ih

/-- What has gone into the value of a draft stays. -/
theorem Draft.feed_meaningful {d : Draft} (h : d.meaningful = true) (offset : Nat) (c : Char) :
    (d.feed offset c).meaningful = true := by
  obtain ⟨start, raw, value, quoted, meaningful, mode⟩ := d
  obtain rfl : meaningful = true := h
  cases mode <;> simp only [feed, keep] <;> split_ifs <;> rfl

/-- A draft of joined lines only takes the backslash of another pair, or it is a token from then
on. -/
theorem Draft.feed_plain {d : Draft} {offset : Nat} {c : Char} (hmode : d.mode = .plain)
    (h : (d.feed offset c).meaningful = false) :
    c = '\\' ∧ (d.feed offset c).mode = .escaped := by
  obtain ⟨start, raw, value, quoted, meaningful, mode⟩ := d
  obtain rfl : mode = .plain := hmode
  simp only [feed, keep] at h ⊢
  split_ifs at h ⊢ with hsingle hdouble hbackslash
  exact ⟨beq_iff_eq.mp hbackslash, rfl⟩

/-- Behind the backslash it takes the line feed of the pair, or it is a token from then on. -/
theorem Draft.feed_escaped {d : Draft} {offset : Nat} {c : Char} (hmode : d.mode = .escaped)
    (h : (d.feed offset c).meaningful = false) :
    c = '\n' ∧ (d.feed offset c).mode = .plain := by
  obtain ⟨start, raw, value, quoted, meaningful, mode⟩ := d
  obtain rfl : mode = .escaped := hmode
  simp only [feed, keep] at h ⊢
  split_ifs at h ⊢ with hline
  exact ⟨beq_iff_eq.mp hline, rfl⟩

namespace Scanner

/-- Nothing of a token has been read. -/
structure Idle (s : Scanner) : Prop where
  /-- There are no finished tokens. -/
  tokens : s.tokens = #[]
  /-- No token would come of the draft. -/
  word : s.word.meaningful = false

/-- A finished draft leaves no tokens if there are none and it makes none. -/
theorem close_eq_empty_iff {s : Scanner} {d : Draft} :
    s.close d = #[] ↔ s.tokens = #[] ∧ d.meaningful = false := by
  rw [close, Draft.close?]
  cases d.meaningful <;> simp

/-- What has been read of a token is not taken back. -/
theorem Idle.of_step {s : Scanner} {c : Char} (h : (s.step c).Idle) : s.Idle := by
  have htokens := h.tokens
  rw [step_eq] at htokens
  split at htokens
  · obtain ⟨htokens, hword⟩ := close_eq_empty_iff.mp htokens
    exact ⟨htokens, hword⟩
  next hfeed =>
    refine ⟨htokens, Bool.eq_false_iff.mpr fun hmeaningful => ?_⟩
    have hword := h.word
    rw [word_step (by simpa using hfeed)] at hword
    exact Bool.eq_false_iff.mp hword (Draft.feed_meaningful hmeaningful s.offset c)

/-- **A run that meets nothing of a token** has read a vacant text, and perhaps the backslash of
one more pair. -/
theorem Idle.isVacant {cs : List Char} (h : (init.run cs).Idle) :
    ((init.run cs).word.mode = .plain ∧ IsVacant cs) ∨
      ((init.run cs).word.mode = .escaped ∧ ∃ front, cs = front ++ ['\\'] ∧ IsVacant front) := by
  induction cs using List.reverseRecOn with
  | nil => exact .inl ⟨rfl, .nil⟩
  | append_singleton cs c ih =>
      rw [run_append, run_cons, run_nil] at h ⊢
      have hstep := h.word
      rcases ih h.of_step with ⟨hmode, hvacant⟩ | ⟨hmode, front, rfl, hvacant⟩
      · by_cases hblank : Text.isBlank c = true
        · rw [word_step_blank hmode hblank]
          exact .inl ⟨rfl, hvacant.append (.blank hblank .nil)⟩
        · rw [word_step fun _ => by simpa using hblank] at hstep ⊢
          obtain ⟨rfl, hescaped⟩ := Draft.feed_plain hmode hstep
          exact .inr ⟨hescaped, cs, rfl, hvacant⟩
      · rw [word_step fun hplain => absurd (hmode.symm.trans hplain) (by decide)] at hstep ⊢
        obtain ⟨rfl, hplain⟩ := Draft.feed_escaped hmode hstep
        refine .inl ⟨hplain, ?_⟩
        rw [List.append_assoc]
        exact hvacant.append (.joint .nil)

end Scanner

/-- **A text without tokens** is vacant. -/
theorem isVacant_of_readTokens_nil {cs : List Char} (h : readTokens cs = .ok []) :
    IsVacant cs := by
  rw [readTokens, Scanner.finish_eq] at h
  split at h
  next hmode =>
    have hclose : (Scanner.init.run cs).close (Scanner.init.run cs).word = #[] := by
      simpa using h
    obtain ⟨htokens, hword⟩ := Scanner.close_eq_empty_iff.mp hclose
    rcases Scanner.Idle.isVacant ⟨htokens, hword⟩ with ⟨-, hvacant⟩ | ⟨hescaped, -⟩
    · exact hvacant
    · exact absurd (hmode.symm.trans hescaped) (by decide)
  next =>
    -- the backslash that ends the text is a token of its own
    have hclose := Array.toList_eq_nil_iff.mp (Except.ok.inj h)
    exact absurd (Scanner.close_eq_empty_iff.mp hclose).2 (by simp [Draft.keep])
  all_goals exact absurd h error_ne_ok

/-! ### Between the tokens -/

/-- The place where the last of the tokens stops; without tokens, the front of the text. -/
def stopOf (ts : List Token) : Nat :=
  (ts.getLast?.map (·.stop)).getD 0

/-- The place where the first of the tokens starts; without tokens, the end of the text. -/
def startOf (cs : List Char) (ts : List Token) : Nat :=
  (ts.head?.map (·.start)).getD (Text.byteLength cs)

/-- The stretch of the text between the tokens `pre` and the tokens `post`. -/
def gapBetween (cs : List Char) (pre post : List Token) : List Char :=
  Text.slice (stopOf pre) (startOf cs post) cs

/-- A text goes on behind its last token with a vacant stretch. -/
theorem exists_isVacant_behind {p : List Char} {pre : List Token} (h : readTokens p = .ok pre) :
    ∃ front gap, p = front ++ gap ∧ stopOf pre = Text.byteLength front ∧ IsVacant gap := by
  rcases List.eq_nil_or_concat pre with rfl | ⟨init, t, rfl⟩
  · exact ⟨[], p, rfl, rfl, isVacant_of_readTokens_nil h⟩
  rw [List.concat_eq_append] at h ⊢
  have hstop : stopOf (init ++ [t]) = t.stop := by simp [stopOf]
  rcases holds_or_endsIn h with ⟨front, blank, behind, rfl, hblank, hends⟩ | hends |
    ⟨-, -, -, -, hend⟩
  · refine ⟨front, blank :: behind, rfl, hstop.trans hends.stop_eq, .blank hblank ?_⟩
    have hbetween : EndsBetween (front ++ [blank]) (init ++ [t]) := hends.spells.run_blank hblank
    rw [List.append_cons] at h
    obtain ⟨us, hus, hsplit⟩ := hbetween.readTokens_drop h
    obtain rfl : us = [] := by simpa using hsplit
    exact isVacant_of_readTokens_nil hus
  · exact ⟨p, [], (List.append_nil p).symm, hstop.trans hends.stop_eq, .nil⟩
  · exact ⟨p, [], (List.append_nil p).symm, hstop.trans hend, .nil⟩

/-- **What lies between the tokens** of a text is vacant. -/
theorem isVacant_gapBetween {cs : List Char} {pre post : List Token}
    (h : readTokens cs = .ok (pre ++ post)) : IsVacant (gapBetween cs pre post) := by
  obtain ⟨p, q, rfl, hstart, hp⟩ : ∃ p q, cs = p ++ q ∧ startOf cs post = Text.byteLength p ∧
      readTokens p = .ok pre := by
    cases post with
    | nil => exact ⟨cs, [], (List.append_nil cs).symm, rfl, by simpa using h⟩
    | cons u post =>
        obtain ⟨p, q, hcs, hword, -⟩ := exists_word h
        refine ⟨p, u.raw.toList ++ q, by simpa using hcs, hword.start_eq, ?_⟩
        rw [readTokens, hword.before, Scanner.after_init]
        rfl
  obtain ⟨front, gap, rfl, hstop, hvacant⟩ := exists_isVacant_behind hp
  rw [Text.byteLength_append] at hstart
  rwa [gapBetween, Text.slice_eq rfl hstop hstart]

/-! ### The source text of a token and its value -/

/-- The character has a meaning of its own in the source text of a token: it is a quote or a
backslash. -/
def IsMark (c : Char) : Prop :=
  c = '\'' ∨ c = '"' ∨ c = '\\'

/-- The source text `raw` gives the word `value`, and `quoted` tells whether it takes quoting. -/
structure Spelled (raw value : String) (quoted : Bool) : Prop where
  /-- Quoted is what holds a quote or a backslash. -/
  quoted_iff : quoted = true ↔ ∃ c ∈ raw.toList, IsMark c
  /-- Without quoting the word is the source text. -/
  value_eq : quoted = false → value = raw
  /-- Without quoting there are no blanks in it. -/
  not_blank : quoted = false → ∀ c ∈ value.toList, Text.isBlank c = false

/-- The draft is spelled as a token is, and unless it is quoted it is outside quotes. -/
structure Draft.Sound (d : Draft) : Prop where
  /-- The source text, the value and the quoted mark hang together. -/
  spelled : Spelled d.raw d.value d.quoted
  /-- Without quoting the draft is plain. -/
  plain : d.quoted = false → d.mode = .plain

/-- A draft that has nothing yet is sound. -/
theorem Draft.sound_empty (start : Nat) : (Draft.empty start).Sound where
  spelled := ⟨by simp [empty], fun _ => rfl, fun _ c hc => absurd hc (by simp [empty])⟩
  plain _ := rfl

/-- A quoted draft stays quoted. -/
theorem Draft.feed_quoted {d : Draft} (h : d.quoted = true) (offset : Nat) (c : Char) :
    (d.feed offset c).quoted = true := by
  obtain ⟨start, raw, value, quoted, meaningful, mode⟩ := d
  obtain rfl : quoted = true := h
  cases mode <;> simp only [feed, keep] <;> split_ifs <;> rfl

/-- A quoted text with a mark in it is spelled, whatever its value. -/
theorem Spelled.of_mark {raw value : String} {c : Char} (hc : c ∈ raw.toList) (hmark : IsMark c) :
    Spelled raw value true where
  quoted_iff := ⟨fun _ => ⟨c, hc, hmark⟩, fun _ => rfl⟩
  value_eq h := absurd h (by decide)
  not_blank h := absurd h (by decide)

/-- An ordinary character at the end of a word without quoting gives another one. -/
theorem Spelled.push {word : String} {c : Char} (h : Spelled word word false)
    (hc : IsOrdinary c) : Spelled (word.push c) (word.push c) false := by
  have hmem {a : Char} (ha : a ∈ (word.push c).toList) : a ∈ word.toList ∨ a = c := by
    simpa using ha
  constructor
  · refine ⟨nofun, fun hmarked => ?_⟩
    obtain ⟨a, ha, hmark⟩ := hmarked
    rcases hmem ha with hold | rfl
    · exact h.quoted_iff.mpr ⟨a, hold, hmark⟩
    · simp [IsMark, hc.single, hc.double, hc.backslash] at hmark
  · exact fun _ => rfl
  · intro _ a ha
    rcases hmem ha with hold | rfl
    · exact h.not_blank rfl a hold
    · exact hc.blank

/-- **A character keeps a draft sound**, unless it would end it. -/
theorem Draft.Sound.feed {d : Draft} {c : Char} (h : d.Sound) (offset : Nat)
    (hc : d.mode = .plain → Text.isBlank c = false) : (d.feed offset c).Sound := by
  have hmarked (hq : (d.feed offset c).quoted = true) {a : Char}
      (ha : a ∈ (d.feed offset c).raw.toList) (hmark : IsMark a) : (d.feed offset c).Sound := by
    have hspelled : Spelled (d.feed offset c).raw (d.feed offset c).value true :=
      .of_mark ha hmark
    exact ⟨hq.symm ▸ hspelled, fun hfalse => absurd (hq.symm.trans hfalse) (by decide)⟩
  cases hd : d.quoted with
  | true =>
      obtain ⟨a, ha, hmark⟩ := h.spelled.quoted_iff.mp hd
      exact hmarked (Draft.feed_quoted hd offset c) (by simp [ha]) hmark
  | false =>
      have hmode := h.plain hd
      have hmem : c ∈ (d.feed offset c).raw.toList := by simp
      rcases outside_cases c with hsingle | hdouble | hbackslash | hblank | hord
      · exact hmarked (by simp [Draft.feed, hmode, hsingle]) hmem (.inl hsingle)
      · exact hmarked (by simp [Draft.feed, hmode, hdouble]) hmem (.inr (.inl hdouble))
      · exact hmarked (by simp [Draft.feed, hmode, hbackslash]) hmem (.inr (.inr hbackslash))
      · exact absurd (hc hmode) (by simp [hblank])
      · have hvalue := h.spelled.value_eq hd
        have hspelled : Spelled d.raw d.raw false := by
          have hsame := h.spelled
          rwa [hd, hvalue] at hsame
        have hfeed : d.feed offset c =
            { d with raw := d.raw.push c, value := d.raw.push c, meaningful := true } := by
          simp [Draft.feed, Draft.keep, hmode, hord.single, hord.double, hord.backslash, hvalue]
        rw [hfeed]
        exact ⟨hd.symm ▸ hspelled.push hord, fun _ => hmode⟩

namespace Scanner

/-- Every token that has been read is spelled as tokens are, and so is the draft. -/
structure Sound (s : Scanner) : Prop where
  /-- The finished tokens. -/
  tokens : ∀ t ∈ s.tokens.toList, Spelled t.raw t.value t.quoted
  /-- The draft. -/
  word : s.word.Sound

/-- A finished draft leaves tokens that are spelled as tokens are. -/
theorem Sound.close {s : Scanner} (h : s.Sound) {d : Draft}
    (hd : Spelled d.raw d.value d.quoted) :
    ∀ t ∈ (s.close d).toList, Spelled t.raw t.value t.quoted := by
  intro t ht
  rcases close_toList s d with hclose | hclose <;> rw [hclose] at ht
  · exact h.tokens t ht
  · rcases List.mem_append.mp ht with ht | ht
    · exact h.tokens t ht
    · obtain rfl := List.mem_singleton.mp ht
      exact hd

/-- **One step keeps the spelling.** -/
theorem Sound.step {s : Scanner} (h : s.Sound) (c : Char) : (s.step c).Sound := by
  rw [step_eq]
  split
  · exact ⟨h.close h.word.spelled, Draft.sound_empty _⟩
  next hfeed => exact ⟨h.tokens, h.word.feed s.offset (by simpa using hfeed)⟩

/-- **A run keeps the spelling.** -/
theorem Sound.run {s : Scanner} (h : s.Sound) (cs : List Char) : (s.run cs).Sound := by
  induction cs generalizing s with
  | nil => exact h
  | cons c cs ih => exact ih (h.step c)

/-- In front of a text nothing has been read. -/
theorem sound_init : init.Sound :=
  ⟨fun t ht => absurd ht (by simp [init]), Draft.sound_empty _⟩

end Scanner

/-- **The tokens of a text** are spelled as tokens are. -/
theorem spelled_of_readTokens {cs : List Char} {ts : List Token} (h : readTokens cs = .ok ts) :
    ∀ t ∈ ts, Spelled t.raw t.value t.quoted := by
  have hsound := Scanner.sound_init.run cs
  rw [readTokens, Scanner.finish_eq] at h
  split at h
  · exact Except.ok.inj h ▸ hsound.close hsound.word.spelled
  next hmode =>
    -- a draft behind a backslash is quoted, so that its value is free
    have hquoted : (Scanner.init.run cs).word.quoted = true := by
      refine Bool.not_eq_false _ ▸ fun hfalse => ?_
      exact absurd (hmode.symm.trans (hsound.word.plain hfalse)) (by decide)
    obtain ⟨a, ha, hmark⟩ := hsound.word.spelled.quoted_iff.mp hquoted
    refine Except.ok.inj h ▸ hsound.close ?_
    show Spelled _ _ (Scanner.init.run cs).word.quoted
    rw [hquoted]
    exact .of_mark ha hmark
  all_goals exact absurd h error_ne_ok

/-! ### How tokens cover their text -/

/-- The token is the stretch of the text between its offsets. -/
structure Token.LiesIn (t : Token) (cs : List Char) : Prop where
  /-- The stretch is not empty. -/
  start_lt_stop : t.start < t.stop
  /-- It ends within the text. -/
  stop_le : t.stop ≤ Text.byteLength cs
  /-- It starts between two characters. -/
  isBoundary_start : Text.isBoundary t.start cs = true
  /-- It ends between two characters. -/
  isBoundary_stop : Text.isBoundary t.stop cs = true
  /-- The source text of the token is the stretch. -/
  raw_eq : t.raw.toList = Text.slice t.start t.stop cs
  /-- The stretch starts with a character that is no blank. -/
  head : ∃ c ∈ t.raw.toList.head?, Text.isBlank c = false

/-- How the tokens of a text lie in it. -/
structure Covers (cs : List Char) (ts : List Token) : Prop where
  /-- Every token is the stretch of the text between its offsets. -/
  liesIn : ∀ t ∈ ts, t.LiesIn cs
  /-- The stretches stand in order, and no two of them touch. -/
  ordered : ts.Pairwise fun t u => t.stop < u.start
  /-- What lies between them, in front of the first and behind the last is vacant. -/
  vacant : ∀ pre post, ts = pre ++ post → IsVacant (gapBetween cs pre post)
  /-- Every token is quoted just when its source text holds a quote or a backslash; if it is
  not, its value is its source text and holds no blanks. -/
  spelled : ∀ t ∈ ts, Spelled t.raw t.value t.quoted

/-- A token of a text is the stretch between its offsets. -/
theorem liesIn_of_readTokens {cs : List Char} {pre post : List Token} {t : Token}
    (h : readTokens cs = .ok (pre ++ t :: post)) : t.LiesIn cs := by
  obtain ⟨hlt, hle⟩ := start_lt_stop h
  obtain ⟨p, q, hcs, hword, hstop, -⟩ := exists_word h
  refine ⟨hlt, hle, ?_, ?_, ?_, hword.head⟩
  · exact Text.isBoundary_iff.mpr
      ⟨p, t.raw.toList ++ q, by rw [hcs, List.append_assoc], hword.start_eq⟩
  · exact Text.isBoundary_iff.mpr ⟨p ++ t.raw.toList, q, hcs, hstop⟩
  · rw [Text.byteLength_append] at hstop
    exact (Text.slice_eq hcs hword.start_eq hstop).symm

/-- The tokens of a text stand in order, and no two of them touch. -/
theorem pairwise_of_readTokens {cs : List Char} {ts : List Token} (h : readTokens cs = .ok ts) :
    ts.Pairwise fun t u => t.stop < u.start := by
  suffices hfront : ∀ front behind, ts = front ++ behind →
      front.Pairwise fun t u => t.stop < u.start from hfront ts [] (List.append_nil ts).symm
  intro front
  induction front using List.reverseRecOn with
  | nil => exact fun _ _ => .nil
  | append_singleton front u ih =>
      intro behind hts
      rw [List.append_assoc, List.singleton_append] at hts
      refine List.pairwise_append.mpr ⟨ih _ hts, List.pairwise_singleton _ _, fun t ht v hv => ?_⟩
      obtain rfl := List.mem_singleton.mp hv
      exact stop_lt_start (hts ▸ h) t ht

/-- **The tokens of a text cover it**: each is the stretch between its offsets, they stand in
order and apart, what lies between them is vacant, and each is quoted just when a quote or a
backslash stands in it. -/
theorem covers_of_tokensOf {input : String} {ts : List Token} (h : tokensOf input = .ok ts) :
    Covers input.toList ts where
  liesIn t ht := by
    obtain ⟨pre, post, rfl⟩ := List.append_of_mem ht
    exact liesIn_of_readTokens h
  ordered := pairwise_of_readTokens h
  vacant pre post hts := isVacant_gapBetween (hts ▸ h)
  spelled := spelled_of_readTokens h

/-- A letter of two bytes, a blank beyond ASCII, joined lines between two tokens and at the end of
one, and a backslash that ends the text. -/
theorem covers_of_tokensOf_joined :
    tokensOf "é\u00a0\\\n 'a b'\\\n\t--x \\" =
      .ok [⟨"é", "é", 0, 2, false⟩, ⟨"'a b'\\\n", "a b", 7, 14, true⟩,
        ⟨"--x", "--x", 15, 18, false⟩, ⟨"\\", "\\", 19, 20, true⟩] ∧
    Covers "é\u00a0\\\n 'a b'\\\n\t--x \\".toList
      [⟨"é", "é", 0, 2, false⟩, ⟨"'a b'\\\n", "a b", 7, 14, true⟩,
        ⟨"--x", "--x", 15, 18, false⟩, ⟨"\\", "\\", 19, 20, true⟩] :=
  have h : tokensOf "é\u00a0\\\n 'a b'\\\n\t--x \\" =
      .ok [⟨"é", "é", 0, 2, false⟩, ⟨"'a b'\\\n", "a b", 7, 14, true⟩,
        ⟨"--x", "--x", 15, 18, false⟩, ⟨"\\", "\\", 19, 20, true⟩] := by
    decide +kernel
  ⟨h, covers_of_tokensOf h⟩

end Pipewright
