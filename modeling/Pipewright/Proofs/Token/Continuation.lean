import Pipewright.Proofs.Token.Excerpt

/-!
# Continued Lines

A backslash in front of a line feed joins two lines. Where such a pair is put directly in
front of a token or directly behind one, the tokens keep their values and their order: the
pair belongs to the source text of that token, which counts as quoted from then on, and all
tokens behind it stand two bytes further on.

The argument for the pair in front of a token follows the machine. With the pair the machine
is inside a draft that has it as its source text; `Scanner.Joined` relates the two states
until the draft ends, and behind the draft they differ in places only.

## Main definitions

* `joint`: the pair that joins two lines.
* `Token.Continued`: a token and the same token with such a pair at one of its ends.
* `Joins`: a text with such a pair, and what its tokens become.

## Main results

* `readTokens_joint_append`: the tokens of a text with a pair in front of it.
* `exists_continued_before`, `exists_continued_behind`, `exists_joins`: the tokens of a text
  with a pair in front of one of its tokens, or behind one.
-/

namespace Pipewright

/-- The pair that joins two lines: a backslash and a line feed. -/
def joint : List Char := ['\\', '\n']

/-- The pair has two bytes. -/
@[simp] theorem byteLength_joint : Text.byteLength joint = 2 := by decide

/-! ### A pair in front of a draft -/

/-- The draft with a pair in front of it. -/
def Draft.joined (d : Draft) : Draft :=
  ⟨d.start, "\\\n" ++ d.raw, d.value, true, d.meaningful, d.mode.shift 2⟩

/-- A draft takes a character the same way with a pair in front of it. -/
theorem Draft.joined_feed (d : Draft) (offset : Nat) (c : Char) :
    d.joined.feed (2 + offset) c = (d.feed offset c).joined := by
  have hraw : ("\\\n" ++ d.raw).push c = "\\\n" ++ d.raw.push c := by
    rw [← String.toList_inj]
    simp
  obtain ⟨start, raw, value, quoted, meaningful, mode⟩ := d
  cases mode <;> simp only [joined, Mode.shift, feed, keep, hraw] <;> split_ifs <;> rfl

/-- The token with a pair in front of it. -/
def Token.joined (t : Token) : Token :=
  ⟨"\\\n" ++ t.raw, t.value, t.start, 2 + t.stop, true⟩

/-- The token that a text starts with takes the pair in front of the text; all others stand
further on. -/
def Token.lead (t : Token) : Token :=
  if t.start = 0 then t.joined else t.shift 2

/-- A draft that ends becomes the token with the pair. -/
theorem Draft.joined_close? (d : Draft) (stop : Nat) :
    d.joined.close? (2 + stop) = (d.close? stop).map Token.joined := by
  rw [close?, close?]
  by_cases h : d.meaningful <;> simp [h, joined, Token.joined]

namespace Scanner

/-- The first draft of a text, finished with the pair. -/
theorem close_joined (offset : Nat) (d d₁ d₂ : Draft) :
    (⟨2 + offset, #[], some d₁⟩ : Scanner).close d.joined =
      (((⟨offset, #[], some d₂⟩ : Scanner).close d).toList.map Token.joined).toArray := by
  rw [close, close, Draft.joined_close?]
  cases d.close? offset <;> rfl

/-- A token that the first draft of a text amounts to starts where the draft does. -/
theorem start_of_mem_close {offset : Nat} {d d₁ : Draft} {t : Token}
    (ht : t ∈ ((⟨offset, #[], some d₁⟩ : Scanner).close d).toList) : t.start = d.start := by
  rw [close, Draft.close?] at ht
  split at ht
  next u hu =>
    split at hu
    · obtain rfl := Option.some.inj hu
      obtain rfl := List.mem_singleton.mp ht
      rfl
    · exact absurd hu (by simp)
  next => exact absurd ht List.not_mem_nil

/-- Two states with and without a pair in front of the text: inside the first draft, and
behind it. -/
inductive Joined : Scanner → Scanner → Prop
  | inside {offset : Nat} {d : Draft} (hstart : d.start = 0) :
      Joined ⟨offset, #[], some d⟩ ⟨2 + offset, #[], some d.joined⟩
  | behind {offset : Nat} {pre : List Token} {s : Scanner} (hoffset : 0 < offset)
      (hpre : ∀ t ∈ pre, t.start = 0) :
      Joined (s.after offset pre) (s.after (2 + offset) (pre.map Token.joined))

variable {s s' : Scanner} {c : Char}

/-- **One step keeps the pair apart.** -/
theorem Joined.step (h : Joined s s') : Joined (s.step c) (s'.step c) := by
  cases h with
  | @inside offset d hstart =>
      have hmode : (d.joined.mode == .plain) = (d.mode == .plain) := Mode.shift_beq_plain 2 d.mode
      simp only [Scanner.step, hmode, Nat.add_assoc]
      split
      · -- the draft ends, and what follows does not look at it
        have hpos := c.utf8Size_pos
        rw [close_joined offset d d.joined d,
          ← @Array.toArray_toList _ ((⟨offset, #[], some d⟩ : Scanner).close d), ← after_init,
          ← after_init, List.toList_toArray]
        exact .behind (by omega) fun t ht => (start_of_mem_close ht).trans hstart
      · rw [Draft.joined_feed]
        exact .inside (by rw [Draft.feed_start, hstart])
  | behind hoffset hpre =>
      rw [step_after, step_after]
      exact .behind hoffset hpre

/-- **A run keeps the pair apart.** -/
theorem Joined.run (h : Joined s s') (cs : List Char) : Joined (s.run cs) (s'.run cs) := by
  induction cs generalizing s s' with
  | nil => exact h
  | cons c cs ih => exact ih h.step

/-- At the end, the first token has taken the pair. -/
theorem Joined.finish {ts : List Token} (h : Joined s s') (hts : s.finish = .ok ts) :
    s'.finish = .ok (ts.map Token.lead) := by
  have hlead {pre : List Token} (hpre : ∀ t ∈ pre, t.start = 0) :
      pre.map Token.lead = pre.map Token.joined :=
    List.map_congr_left fun t ht => by rw [Token.lead, if_pos (hpre t ht)]
  cases h with
  | @inside offset d hstart =>
      have hclose (d' : Draft) (hd' : d'.start = 0) :
          ((⟨2 + offset, #[], some d.joined⟩ : Scanner).close d'.joined).toList =
            ((⟨offset, #[], some d⟩ : Scanner).close d').toList.map Token.lead := by
        rw [close_joined offset d' d.joined d, List.toList_toArray,
          hlead fun t ht => (start_of_mem_close ht).trans hd']
      cases hmode : d.mode with
      | plain =>
          obtain rfl : ((⟨offset, #[], some d⟩ : Scanner).close d).toList = ts := by
            simpa [Scanner.finish, hmode] using hts
          rw [← hclose d hstart]
          simp [Scanner.finish, Draft.joined, hmode, Mode.shift]
      | escaped =>
          obtain rfl : ((⟨offset, #[], some d⟩ : Scanner).close (d.keep '\\')).toList = ts := by
            simpa [Scanner.finish, hmode] using hts
          rw [← hclose (d.keep '\\') hstart]
          simp [Scanner.finish, Draft.joined, Draft.keep, hmode, Mode.shift]
      | single opener => simp [Scanner.finish, hmode] at hts
      | double opener => simp [Scanner.finish, hmode] at hts
      | doubleEscaped opener => simp [Scanner.finish, hmode] at hts
  | @behind offset pre s hoffset hpre =>
      rw [finish_after] at hts ⊢
      cases hs : s.finish with
      | error e => simp [hs, Except.map, Except.mapError] at hts
      | ok us =>
          have hmoved : (us.map (Token.shift offset)).map Token.lead =
              us.map (Token.shift (2 + offset)) := by
            rw [List.map_map]
            refine List.map_congr_left fun u _ => ?_
            have hstart : (u.shift offset).start ≠ 0 := by
              rw [Token.shift_start]
              omega
            rw [Function.comp_apply, Token.lead, if_neg hstart, Token.shift_shift]
          obtain rfl : pre ++ us.map (Token.shift offset) = ts := by
            simpa [hs, Except.map, Except.mapError] using hts
          rw [List.map_append, hlead hpre, hmoved]
          rfl

end Scanner

/-- **A pair in front of a text** that starts with a token belongs to this token. -/
theorem readTokens_joint_append {c : Char} {cs : List Char} {ts : List Token}
    (hc : Text.isBlank c = false) (h : readTokens (c :: cs) = .ok ts) :
    readTokens (joint ++ c :: cs) = .ok (ts.map Token.lead) := by
  have hjoint : Scanner.init.run joint = ⟨2, #[], some (Draft.empty 0).joined⟩ := by decide
  have hfeed : (Draft.empty 0).joined.feed 2 c = ((Draft.empty 0).feed 0 c).joined :=
    Draft.joined_feed (Draft.empty 0) 0 c
  have hfirst : Scanner.Joined (Scanner.init.step c) ((Scanner.init.run joint).step c) := by
    have hstep : Scanner.init.step c = ⟨c.utf8Size, #[], some ((Draft.empty 0).feed 0 c)⟩ := by
      simp [Scanner.step, Scanner.init, hc]
    have hstep' : (Scanner.init.run joint).step c =
        ⟨2 + c.utf8Size, #[], some ((Draft.empty 0).feed 0 c).joined⟩ := by
      simp [hjoint, Scanner.step, hc, hfeed]
    rw [hstep, hstep']
    exact .inside (Draft.feed_start _ _ _)
  rw [readTokens, Scanner.run_append, Scanner.run_cons]
  exact (hfirst.run cs).finish h

/-! ### A pair at one end of a token -/

/-- The token `t'` is the token `t` with a pair at one of its ends. -/
structure Token.Continued (t t' : Token) : Prop where
  /-- The pair adds nothing to the value. -/
  value : t'.value = t.value
  /-- The token starts where it did. -/
  start : t'.start = t.start
  /-- The token is longer by the pair. -/
  stop : t'.stop = 2 + t.stop
  /-- The pair counts as quoting. -/
  quoted : t'.quoted = true

/-- A token that is continued is no connective. -/
theorem Token.Continued.isConnective {t t' : Token} (h : t.Continued t') :
    t'.isConnective = false := by
  rw [Token.isConnective, Token.spells, h.quoted]
  rfl

/-- What a token becomes where `t` becomes `t'`: what stands in front of `t` stays, and what
stands behind it moves on by the pair. -/
def Token.become (t t' u : Token) : Token :=
  if u = t then t' else if u.start < t.start then u else u.shift 2

/-- The tokens behind a token start behind its end. -/
theorem stop_lt_start_of_mem {cs : List Char} {pre post : List Token} {t u : Token}
    (h : readTokens cs = .ok (pre ++ t :: post)) (hu : u ∈ post) : t.stop < u.start := by
  obtain ⟨between, behind, rfl⟩ := List.append_of_mem hu
  rw [← List.cons_append, ← List.append_assoc] at h
  exact stop_lt_start h t (List.mem_append_right _ List.mem_cons_self)

/-- The tokens in front of a token start in front of it. -/
theorem start_lt_start {cs : List Char} {pre post : List Token} {t u : Token}
    (h : readTokens cs = .ok (pre ++ t :: post)) (hu : u ∈ pre) : u.start < t.start := by
  have hstop := stop_lt_start h u hu
  obtain ⟨front, between, rfl⟩ := List.append_of_mem hu
  rw [List.append_assoc, List.cons_append] at h
  exact (start_lt_stop h).1.trans hstop

section Become

variable {t t' u : Token}

/-- The token itself. -/
theorem Token.become_self : t.become t' t = t' :=
  if_pos rfl

/-- The tokens in front of it stay. -/
theorem Token.become_of_lt (h : u.start < t.start) : t.become t' u = u := by
  have hne : u ≠ t := by
    rintro rfl
    omega
  rw [become, if_neg hne, if_pos h]

/-- The tokens behind it move on. -/
theorem Token.become_of_gt (h : t.start < u.start) : t.become t' u = u.shift 2 := by
  have hne : u ≠ t := by
    rintro rfl
    omega
  rw [become, if_neg hne, if_neg (by omega)]

end Become

/-- What the tokens of a text become. -/
theorem map_become {cs : List Char} {pre post : List Token} {t : Token}
    (h : readTokens cs = .ok (pre ++ t :: post)) (t' : Token) :
    (pre ++ t :: post).map (t.become t') = pre ++ t' :: post.map (Token.shift 2) := by
  have hpre : pre.map (t.become t') = pre.map id :=
    List.map_congr_left fun u hu => Token.become_of_lt (start_lt_start h hu)
  have hpost : post.map (t.become t') = post.map (Token.shift 2) :=
    List.map_congr_left fun u hu =>
      Token.become_of_gt ((start_lt_stop h).1.trans (stop_lt_start_of_mem h hu))
  rw [List.map_append, List.map_cons, hpre, hpost, Token.become_self, List.map_id]

/-- What stands behind a text that ends between tokens follows its tokens. -/
theorem EndsBetween.tokens_append {p b : List Char} {pre us : List Token} (h : EndsBetween p pre)
    (hb : readTokens b = .ok us) :
    readTokens (p ++ b) = .ok (pre ++ us.map (Token.shift (Text.byteLength p))) := by
  rw [readTokens] at hb
  rw [readTokens, Scanner.run_append, h, Scanner.run_after, Scanner.finish_after, hb]
  rfl

/-- The token with a pair behind it. -/
def Token.extended (t : Token) : Token :=
  ⟨(t.raw.push '\\').push '\n', t.value, t.start, 2 + t.stop, true⟩

/-- A text that ends in a token ends in it with a pair behind the text. -/
theorem Scanner.EndsIn.joint {cs : List Char} {pre : List Token} {t : Token}
    (h : EndsIn cs pre t) : EndsIn (cs ++ joint) pre t.extended := by
  obtain ⟨p, rfl, hword⟩ := h.word
  obtain ⟨c, hc, hblank⟩ := hword.head
  refine ⟨⟨p, ?_, hword.before, hword.start_eq, c, ?_, hblank⟩, ?_, ?_⟩
  · simp [Token.extended, Pipewright.joint]
  · simp [Token.extended, List.head?_append, Option.mem_def.mp hc]
  · rw [Text.byteLength_append, ← h.stop_eq, byteLength_joint, Nat.add_comm]
    rfl
  · have hblank : Text.isBlank '\\' = false := by decide
    have hbackslash : Char.utf8Size '\\' = 1 := by decide
    have hfeed : Char.utf8Size '\n' = 1 := by decide
    rw [run_append, h.run_eq]
    simp [Pipewright.joint, run, step, Draft.feed, hblank, hbackslash, hfeed, Token.extended]
    omega

section Place

variable {front behind : List Char} {pre post : List Token} {t : Token}

/-- **A pair in front of a token** of a text. -/
theorem exists_continued_before (h : readTokens (front ++ behind) = .ok (pre ++ t :: post))
    (hstart : t.start = Text.byteLength front) :
    (Scanner.init.run front).Settled ∧ ∃ t', t.Continued t' ∧
      readTokens (front ++ joint ++ behind) = .ok ((pre ++ t :: post).map (t.become t')) := by
  obtain ⟨p, q, hcs, hword, -⟩ := exists_word h
  rw [List.append_assoc] at hcs
  obtain ⟨rfl, rfl⟩ := Text.append_inj_of_byteLength hcs (hstart.symm.trans hword.start_eq)
  obtain ⟨us, hus, hsplit⟩ := hword.before.readTokens_drop h
  rw [List.append_cancel_left_eq] at hsplit
  obtain ⟨u, rest, rfl, rfl, rfl⟩ := List.map_eq_cons_iff.mp hsplit.symm
  obtain ⟨c, hc, hblank⟩ := hword.head
  obtain ⟨cs, hraw⟩ := List.head?_eq_some_iff.mp hc
  have hu : u.start = 0 := by
    rw [Token.shift_start] at hstart
    omega
  -- no other token starts where the text behind `front` does
  have hlead : rest.map Token.lead = rest.map (Token.shift 2) := by
    refine List.map_congr_left fun v hv => ?_
    have hbehind : u.stop < v.start := @stop_lt_start_of_mem _ [] _ _ _ hus hv
    rw [Token.lead, if_neg (by omega)]
  have hread := readTokens_joint_append hblank (by rwa [hraw, List.cons_append] at hus)
  rw [List.map_cons, Token.lead, if_pos hu, hlead] at hread
  refine ⟨?_, u.joined.shift (Text.byteLength front), ⟨rfl, rfl, ?_, rfl⟩, ?_⟩
  · rw [hword.before, Scanner.after_init]
    exact fun d hd => absurd hd (Option.not_mem_none d)
  · simp only [Token.shift_stop, Token.joined]
    omega
  · rw [map_become h, List.append_assoc, hraw, List.cons_append,
      hword.before.tokens_append hread, List.map_cons, List.map_map, List.map_map]
    refine congrArg _ (congrArg _ (congrArg _ (List.map_congr_left fun v _ => ?_)))
    simp [Nat.add_comm]

/-- **A pair behind a token** of a text, where something follows. -/
theorem exists_continued_behind (h : readTokens (front ++ behind) = .ok (pre ++ t :: post))
    (hstop : t.stop = Text.byteLength front) (hne : behind ≠ []) :
    (Scanner.init.run front).Settled ∧ ∃ t', t.Continued t' ∧
      readTokens (front ++ joint ++ behind) = .ok ((pre ++ t :: post).map (t.become t')) := by
  have hinside : t.stop < Text.byteLength (front ++ behind) := by
    obtain ⟨c, cs, rfl⟩ := List.exists_cons_of_ne_nil hne
    have hpos := c.utf8Size_pos
    rw [Text.byteLength_append, Text.byteLength_cons]
    omega
  obtain ⟨front', blank, behind', hcs, hblank, hends⟩ : Scanner.Holds (front ++ behind) pre t := by
    rcases holds_or_endsIn h with hholds | hends | ⟨-, p, -, -, hend⟩
    · exact hholds
    · exact absurd hends.stop_eq hinside.ne
    · exact absurd hend hinside.ne
  obtain ⟨rfl, rfl⟩ := Text.append_inj_of_byteLength hcs (hstop.symm.trans hends.stop_eq)
  have hjoined := hends.joint
  have hbetween : EndsBetween (front ++ [blank]) (pre ++ [t]) := hends.spells.run_blank hblank
  have hbetween' : EndsBetween (front ++ joint ++ [blank]) (pre ++ [t.extended]) :=
    hjoined.spells.run_blank hblank
  rw [List.append_cons] at h
  obtain ⟨us, hus, hsplit⟩ := hbetween.readTokens_drop h
  have hread := hbetween'.tokens_append hus
  rw [List.append_cons pre t post, List.append_cancel_left_eq] at hsplit
  subst hsplit
  refine ⟨hends.spells.settled, t.extended, ⟨rfl, rfl, rfl, rfl⟩, ?_⟩
  rw [map_become (by rwa [← List.append_cons] at h), List.append_cons (front ++ joint), hread,
    List.append_assoc, List.singleton_append, List.map_map]
  refine congrArg _ (congrArg _ (congrArg _ (List.map_congr_left fun v _ => ?_)))
  simp only [Function.comp_apply, Token.shift_shift, Text.byteLength_append, byteLength_joint]
  congr 1
  omega

end Place

/-- A pair is put between `front` and `behind`, in front of the token `t` or behind it. The
text has the tokens `ts` without the pair; with it, `t` becomes `t'`. -/
structure Joins (front behind : List Char) (ts : List Token) (t t' : Token) : Prop where
  /-- The tokens without the pair. -/
  read : readTokens (front ++ behind) = .ok ts
  /-- The tokens with the pair. -/
  joined : readTokens (front ++ joint ++ behind) = .ok (ts.map (t.become t'))
  /-- The token is one of them. -/
  mem : t ∈ ts
  /-- The pair is a part of the token. -/
  continued : t.Continued t'
  /-- Nothing is open where the pair is put. -/
  settled : (Scanner.init.run front).Settled
  /-- The pair is at one end of the token. -/
  place : t.start = Text.byteLength front ∨ t.stop = Text.byteLength front

/-- **A pair at one end of a token** becomes a part of the token; behind a token, something
must follow. -/
theorem exists_joins {front behind : List Char} {ts : List Token} {t : Token}
    (h : readTokens (front ++ behind) = .ok ts) (ht : t ∈ ts)
    (hplace : t.start = Text.byteLength front ∨
      t.stop = Text.byteLength front ∧ behind ≠ []) :
    ∃ t', Joins front behind ts t t' := by
  obtain ⟨pre, post, rfl⟩ := List.append_of_mem ht
  rcases hplace with hstart | ⟨hstop, hne⟩
  · obtain ⟨hsettled, t', hcontinued, hjoined⟩ := exists_continued_before h hstart
    exact ⟨t', h, hjoined, ht, hcontinued, hsettled, .inl hstart⟩
  · obtain ⟨hsettled, t', hcontinued, hjoined⟩ := exists_continued_behind h hstop hne
    exact ⟨t', h, hjoined, ht, hcontinued, hsettled, .inr hstop⟩

end Pipewright
