import Pipewright.Proofs.Command.Options
import Pipewright.Proofs.Token.JoinedLines

/-!
# Pieces of a Command on Two Lines

The steps and the options of a command are cut out of its text, from the first to the last of
some neighbouring tokens. Where a pair of a backslash and a line feed has been put into the
text, in front of a token or behind one, a piece stays as it is if the token is not among
them, and else it gets the pair. Only a pair behind the last token of a piece ends up at the
end of it, and there trimming will cut it in two.

## Main definitions

* `cutOf`: the text of neighbouring tokens.
* `Widened`: a piece and what becomes of it.

## Main results

* `Joins.cut_behind`, `Joins.cut_front`, `Joins.cut_around`: a piece behind the pair, one in
  front of it and one around it.
* `Joins.exists_cut`: what becomes of any piece.
-/

namespace Pipewright

/-- The text of neighbouring tokens, from the start of the first to the stop of the last. -/
def cutOf (cs : List Char) (run : List Token) : Option (List Char) :=
  (spanOf run).map fun r => Text.slice r.1 r.2 cs

/-- The text of tokens of which the first and the last are known. -/
theorem cutOf_eq {cs : List Char} {run : List Token} {first last : Token}
    (hfirst : run.head? = some first) (hlast : run.getLast? = some last) :
    cutOf cs run = some (Text.slice first.start last.stop cs) := by
  rw [cutOf, spanOf, hfirst, hlast]
  rfl

/-- The text `x'` is what becomes of the text `x` of some tokens: it has pairs put into it, or,
where `atEnd` allows for that, one pair behind it. -/
structure Widened (atEnd : Prop) (x x' : List Char) : Prop where
  /-- The text starts with a token. -/
  head : ∃ c ∈ x.head?, Text.isBlank c = false
  /-- The text has tokens of its own. -/
  tokens : ∃ ts, readTokens x = .ok ts
  /-- The pairs. -/
  pairs : AddsPairs x x' ∨ atEnd ∧ x' = x ++ joint

/-- Fewer places for a pair. -/
theorem Widened.imp {p q : Prop} {x x' : List Char} (h : Widened p x x') (hpq : p → q) :
    Widened q x x' :=
  ⟨h.head, h.tokens, h.pairs.imp_right fun ⟨hp, hx⟩ => ⟨hpq hp, hx⟩⟩

namespace Joins

variable {front behind : List Char} {ts pre mid post : List Token} {t t' : Token}

/-- The reading of a command looks at nothing that changes, unless the pair is beside a
connective. -/
theorem keepsReading (h : Joins front behind ts t t') (hplain : t.isConnective = false) :
    KeepsReading (t.become t') where
  value u := by
    rw [Token.become]
    split_ifs with heq
    · rw [heq, h.continued.value]
    · rfl
    · rfl
  isConnective u := by
    rw [Token.become]
    split_ifs with heq
    · rw [heq, hplain, h.continued.isConnective]
    · rfl
    · rfl

/-- The pair stands between the start and the stop of the token. -/
theorem start_le (h : Joins front behind ts t t') :
    t.start ≤ Text.byteLength front ∧ Text.byteLength front ≤ t.stop := by
  obtain ⟨a, b, hts⟩ := List.append_of_mem h.mem
  have hlength := (start_lt_stop (hts ▸ h.read)).1
  rcases h.place with hplace | hplace <;> omega

/-- Behind the pair, in a piece of the text that ends with a token behind it or with the token
in front of which it stands, there is more than blanks. -/
theorem exists_mem_behind (h : Joins front behind ts t t') {last : Token} (hlast : last ∈ ts)
    (hstart : Text.byteLength front ≤ last.start) {v q : List Char} (hbehind : behind = v ++ q)
    (hstop : last.stop = Text.byteLength front + Text.byteLength v) :
    ∃ c ∈ v, Text.isBlank c = false := by
  obtain ⟨a, b, hts⟩ := List.append_of_mem hlast
  obtain ⟨p, q', hcs, hword, hend, -⟩ := exists_word (hts ▸ h.read)
  rw [List.append_assoc] at hcs
  obtain ⟨y, rfl, hy⟩ := Text.exists_append_of_byteLength_le hcs
    (hstart.trans_eq hword.start_eq)
  rw [hbehind, ← List.append_assoc] at hy
  obtain ⟨rfl, -⟩ := Text.append_inj_of_byteLength hy (by
    simp only [Text.byteLength_append] at hend ⊢
    omega)
  obtain ⟨c, hc, hblank⟩ := hword.head
  exact ⟨c, List.mem_append_right _ (List.mem_of_mem_head? hc), hblank⟩

/-- What stands behind the pair moves on with it. -/
theorem cut_behind (h : Joins front behind ts t t') (hts : ts = pre ++ mid ++ post)
    (ht : t ∈ pre) {p m q : List Char} (hcs : front ++ behind = p ++ m ++ q) {first last : Token}
    (hfirst : first ∈ mid) (hlast : last ∈ mid) (hstart : first.start = Text.byteLength p)
    (hstop : last.stop = Text.byteLength p + Text.byteLength m) :
    Text.slice (t.become t' first).start (t.become t' last).stop
      (front ++ joint ++ behind) = m := by
  obtain ⟨a, b, rfl⟩ := List.append_of_mem ht
  have hread : readTokens (front ++ behind) = .ok (a ++ t :: (b ++ mid ++ post)) := by
    rw [h.read, hts]
    simp
  have hbehind : ∀ u ∈ mid, t.stop < u.start := fun u hu =>
    stop_lt_start_of_mem hread (by simp [hu])
  have hlength := (start_lt_stop hread).1
  have hplace := h.start_le.2
  have hgap := hbehind first hfirst
  rw [Token.become_of_gt (hlength.trans (hbehind first hfirst)),
    Token.become_of_gt (hlength.trans (hbehind last hlast)), Token.shift_start, Token.shift_stop]
  rw [List.append_assoc] at hcs
  obtain ⟨y, rfl, rfl⟩ := Text.exists_append_of_byteLength_le hcs (by omega)
  refine Text.slice_eq (a := front ++ joint ++ y) (c := q) (by simp) ?_ ?_
  · rw [hstart]
    simp only [Text.byteLength_append, byteLength_joint]
    omega
  · rw [hstop]
    simp only [Text.byteLength_append, byteLength_joint]
    omega

/-- What stands in front of the pair stays. -/
theorem cut_front (h : Joins front behind ts t t') (hts : ts = pre ++ mid ++ post)
    (ht : t ∈ post) {p m q : List Char} (hcs : front ++ behind = p ++ m ++ q) {first last : Token}
    (hfirst : first ∈ mid) (hlast : last ∈ mid) (hstart : first.start = Text.byteLength p)
    (hstop : last.stop = Text.byteLength p + Text.byteLength m) :
    Text.slice (t.become t' first).start (t.become t' last).stop
      (front ++ joint ++ behind) = m := by
  obtain ⟨a, b, rfl⟩ := List.append_of_mem ht
  have hread : readTokens (front ++ behind) = .ok (pre ++ mid ++ a ++ t :: b) := by
    rw [h.read, hts]
    simp
  have hfront : ∀ u ∈ mid, u.start < t.start ∧ u.stop < t.start := fun u hu =>
    have hmem : u ∈ pre ++ mid ++ a := by simp [hu]
    ⟨start_lt_start hread hmem, stop_lt_start hread u hmem⟩
  have hplace := h.start_le.1
  have hgap := (hfront last hlast).2
  rw [Token.become_of_lt (hfront first hfirst).1, Token.become_of_lt (hfront last hlast).1]
  obtain ⟨y, rfl, -⟩ := Text.exists_append_of_byteLength_le hcs.symm (by
    rw [Text.byteLength_append]
    omega)
  exact Text.slice_eq (a := p) (c := y ++ joint ++ behind) (by simp) hstart hstop

/-- A piece with the token in it does not start further on. -/
theorem start_become_first (h : Joins front behind ts t t') (hts : ts = pre ++ mid ++ post)
    (ht : t ∈ mid) {first : Token} (hfirst : mid.head? = some first) :
    (t.become t' first).start = first.start ∧ first.start ≤ t.start := by
  obtain ⟨a, b, rfl⟩ := List.append_of_mem ht
  rcases a with _ | ⟨u, a⟩
  · obtain rfl := Option.some.inj hfirst
    rw [Token.become_self, h.continued.start]
    exact ⟨rfl, le_rfl⟩
  · obtain rfl := Option.some.inj hfirst
    have hread : readTokens (front ++ behind) = .ok (pre ++ u :: a ++ t :: (b ++ post)) := by
      rw [h.read, hts]
      simp
    have hlt : u.start < t.start := start_lt_start hread (by simp)
    rw [Token.become_of_lt hlt]
    exact ⟨rfl, hlt.le⟩

/-- A piece with the token in it stops further on by the pair. -/
theorem stop_become_last (h : Joins front behind ts t t') (hts : ts = pre ++ mid ++ post)
    (ht : t ∈ mid) {last : Token} (hlast : mid.getLast? = some last) :
    (t.become t' last).stop = 2 + last.stop ∧ t.stop ≤ last.stop ∧
      (t ≠ last → t.stop < last.start) := by
  obtain ⟨a, b, rfl⟩ := List.append_of_mem ht
  rcases List.eq_nil_or_concat b with rfl | ⟨b, u, rfl⟩
  · obtain rfl : t = last := by simpa using hlast
    rw [Token.become_self, h.continued.stop]
    exact ⟨rfl, le_rfl, fun hne => absurd rfl hne⟩
  · obtain rfl : u = last := by simpa [List.getLast?_append, List.getLast?_cons] using hlast
    have hread : readTokens (front ++ behind) = .ok (pre ++ a ++ t :: (b ++ u :: post)) := by
      rw [h.read, hts]
      simp
    have hread' : readTokens (front ++ behind) = .ok (pre ++ a ++ t :: b ++ u :: post) := by
      rw [hread]
      simp
    have hlt : t.stop < u.start := stop_lt_start_of_mem hread (by simp)
    have hlength := (start_lt_stop hread).1
    have hlength' := (start_lt_stop hread').1
    rw [Token.become_of_gt (hlength.trans hlt)]
    exact ⟨rfl, by omega, fun _ => hlt⟩

/-- What stands around the pair gets the pair. -/
theorem cut_around (h : Joins front behind ts t t') (hts : ts = pre ++ mid ++ post)
    (ht : t ∈ mid) {p m q : List Char} (hcs : front ++ behind = p ++ m ++ q)
    (hbetween : EndsBetween p pre) {first last : Token} (hfirst : mid.head? = some first)
    (hlast : mid.getLast? = some last) (hstart : first.start = Text.byteLength p)
    (hstop : last.stop = Text.byteLength p + Text.byteLength m) :
    AddsPair m (Text.slice (t.become t' first).start (t.become t' last).stop
        (front ++ joint ++ behind)) ∨
      (t = last ∧ t.start ≠ Text.byteLength front) ∧
        Text.slice (t.become t' first).start (t.become t' last).stop
          (front ++ joint ++ behind) = m ++ joint := by
  obtain ⟨hplaceStart, hplaceStop⟩ := h.start_le
  obtain ⟨hfirst', hfirstLe⟩ := h.start_become_first hts ht hfirst
  obtain ⟨hlast', hlastLe, hgap⟩ := h.stop_become_last hts ht hlast
  rw [hfirst', hlast']
  -- the pair stands inside the piece
  rw [List.append_assoc] at hcs
  obtain ⟨u, rfl, hu⟩ := Text.exists_append_of_byteLength_le hcs.symm (by omega)
  have hinside : Text.byteLength u ≤ Text.byteLength m := by
    rw [Text.byteLength_append] at hplaceStop
    omega
  obtain ⟨v, rfl, hv⟩ := Text.exists_append_of_byteLength_le hu.symm hinside
  have hslice : Text.slice first.start (2 + last.stop) (p ++ u ++ joint ++ behind) =
      u ++ joint ++ v := by
    refine Text.slice_eq (a := p) (c := q) ?_ hstart ?_
    · rw [hv]
      simp
    · rw [hstop]
      simp only [Text.byteLength_append, byteLength_joint]
      omega
  have hsettled : (Scanner.init.run u).Settled := by
    have hfront := h.settled
    rwa [Scanner.run_append, hbetween, Scanner.run_after, Scanner.settled_after] at hfront
  have hend : last.stop = Text.byteLength (p ++ u) + Text.byteLength v := by
    rw [hstop]
    simp only [Text.byteLength_append]
    omega
  rw [hslice]
  by_cases hlone : t = last ∧ t.start ≠ Text.byteLength (p ++ u)
  · -- nothing of the piece follows the pair
    obtain rfl : v = [] := by
      have hbehind := h.place.resolve_left hlone.2
      rw [← hlone.1] at hend
      rcases v with _ | ⟨c, v⟩
      · rfl
      · have hpos := c.utf8Size_pos
        rw [Text.byteLength_cons] at hend
        omega
    exact .inr ⟨hlone, by simp⟩
  · refine .inl ⟨u, v, rfl, rfl, hsettled, ?_⟩
    have hmem : last ∈ ts := by
      rw [hts]
      exact List.mem_append_left _ (List.mem_append_right _ (List.mem_of_mem_getLast? hlast))
    refine h.exists_mem_behind hmem ?_ hv hend
    by_cases hsame : t = last
    · have hstartPair : t.start = Text.byteLength (p ++ u) := by
        by_contra hne
        exact hlone ⟨hsame, hne⟩
      rw [← hsame, hstartPair]
    · have hlt := hgap hsame
      omega

/-- **What is cut out of a text with the pair**, from the first to the last of some
neighbouring tokens: the same, with the pair in it if the token is among them. -/
theorem exists_cut (h : Joins front behind ts t t') (hts : ts = pre ++ mid ++ post)
    (hne : mid ≠ []) :
    ∃ x x', cutOf (front ++ behind) mid = some x ∧
      cutOf (front ++ joint ++ behind) (mid.map (t.become t')) = some x' ∧
      Widened (t ∈ mid.getLast? ∧ t.start ≠ Text.byteLength front) x x' ∧
      (post ≠ [] → (Scanner.init.run x).Settled) := by
  have hread : readTokens (front ++ behind) = .ok (pre ++ mid ++ post) := hts ▸ h.read
  obtain ⟨p, m, q, us, hcs, hbetween, hmid, hfits, hspells, hhead, -⟩ := exists_excerpt hread hne
  obtain ⟨first₀, hfirst₀, hstart₀⟩ := Option.map_eq_some_iff.mp hfits.start
  obtain ⟨last₀, hlast₀, hstop₀⟩ := Option.map_eq_some_iff.mp hfits.stop
  obtain ⟨first, hfirst, hstart⟩ : ∃ first, mid.head? = some first ∧
      first.start = Text.byteLength p :=
    ⟨first₀.shift (Text.byteLength p), by simp [hmid, hfirst₀], by simp [hstart₀]⟩
  obtain ⟨last, hlast, hstop⟩ : ∃ last, mid.getLast? = some last ∧
      last.stop = Text.byteLength p + Text.byteLength m :=
    ⟨last₀.shift (Text.byteLength p), by simp [hmid, hlast₀], by simp [hstop₀]⟩
  have hfirstMem := List.mem_of_mem_head? hfirst
  have hlastMem := List.mem_of_mem_getLast? hlast
  refine ⟨m, _, ?_, cutOf_eq (by rw [List.head?_map, hfirst]; rfl)
    (by rw [List.getLast?_map, hlast]; rfl), ⟨hhead, ⟨us, hfits.tokens⟩, ?_⟩,
    fun hpost => (hspells hpost).settled⟩
  · rw [cutOf_eq hfirst hlast, Text.slice_eq hcs hstart hstop]
  · have ht := h.mem
    rw [hts, List.mem_append, List.mem_append] at ht
    rcases ht with (ht | ht) | ht
    · rw [h.cut_behind hts ht hcs hfirstMem hlastMem hstart hstop]
      exact .inl .refl
    · rw [hlast]
      refine (h.cut_around hts ht hcs hbetween hfirst hlast hstart hstop).imp .single ?_
      rintro ⟨⟨rfl, hplace⟩, hslice⟩
      exact ⟨⟨rfl, hplace⟩, hslice⟩
    · rw [h.cut_front hts ht hcs hfirstMem hlastMem hstart hstop]
      exact .inl .refl

end Joins

end Pipewright
