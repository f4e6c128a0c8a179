import Pipewright.Proofs.Head.Longest
import Pipewright.Proofs.Text.Lines

/-!
# The Sample of a File

A file is sampled line by line: each line is read as text, loses its line end and is ended by a
line feed. A pasted text is bounded as a whole. The two samples must not differ, or a pipeline
would look different on a file and on the same text pasted. This module says that the sample of a
file is the head of its text, in which only the ends of the lines are made the same: it does not
matter where octets that are no text are cut into lines, for a line feed is never part of them.

## Main definitions

* `Text.plainLines`: the text with every line ended by a line feed alone.

## Main results

* `plainLines_firstLines`: the first lines of a text, made the same one by one.
* `fileHead_eq_plainLines`: the sample of a file is that of its text.
-/

namespace Pipewright

open Text (byteLength lineCount linePieces lossyChars unifyLineEnds endLastLine withoutLineEnd
  decodeLossy decode?)

/-- The text with every line ended by a line feed alone. -/
def Text.plainLines (text : String) : String :=
  .ofList (endLastLine (unifyLineEnds text.toList))

/-! ### The lines of a text -/

/-- A text without a line feed is one line. -/
theorem firstLines_of_forall {cs : List Char} (hne : cs ≠ [])
    (h : ∀ c ∈ cs, (c == '\n') = false) (n : Nat) : firstLines (n + 1) cs = cs := by
  rw [firstLines, linePieces, Text.piecesBehind_of_forall hne h]
  simp

/-- The first line counts, and the other lines are those of what is behind it. -/
theorem firstLines_append {body : List Char} (h : ∀ c ∈ body, (c == '\n') = false) (n : Nat)
    (rest : List Char) :
    firstLines (n + 1) (body ++ '\n' :: rest) = body ++ '\n' :: firstLines n rest := by
  rw [firstLines, linePieces, Text.piecesBehind_append_cons h rfl]
  simp [firstLines, linePieces]

/-- A text with no more lines than are asked for is taken as a whole. -/
theorem firstLines_of_lineCount_le {n : Nat} {cs : List Char} (h : lineCount cs ≤ n) :
    firstLines n cs = cs :=
  (firstLines_isPrefix n cs).eq_of_length_le (isPrefix_firstLines List.prefix_rfl h).length_le

/-- **Lines are made the same one by one.** -/
theorem plainLines_firstLines (n : Nat) (cs : List Char) :
    endLastLine (unifyLineEnds (firstLines n cs)) =
      ((linePieces cs).take n).flatMap fun piece => withoutLineEnd '\n' '\r' piece ++ ['\n'] := by
  induction cs using Text.lines_induction (p := fun c : Char => c == '\n') generalizing n with
  | nil => simp [linePieces, unifyLineEnds]
  | last l hne hplain =>
      cases n with
      | zero => simp [unifyLineEnds]
      | succ n =>
          have hend : l.getLast? ≠ some '\n' :=
            fun hlast => absurd (hplain '\n' (List.mem_of_getLast? hlast)) (by simp)
          rw [firstLines_of_forall hne hplain, Text.unifyLineEnds_of_not_mem hplain,
            Text.endLastLine_of_forall hne hplain, linePieces,
            Text.piecesBehind_of_forall hne hplain]
          simp [Text.withoutLineEnd_of_getLast?_ne hend]
  | line body a rest hplain hend ih =>
      obtain rfl := eq_of_beq hend
      cases n with
      | zero => simp [unifyLineEnds]
      | succ n =>
          have hpieces : linePieces (body ++ '\n' :: rest) = (body ++ ['\n']) :: linePieces rest :=
            Text.piecesBehind_append_cons hplain hend rest
          rw [firstLines_append hplain, Text.unifyLineEnds_append hplain,
            Text.endLastLine_append, ih, hpieces, List.take_succ_cons, List.flatMap_cons,
            List.append_assoc, List.singleton_append]

/-! ### The sample of a file -/

/-- The characters of a sample are those of its lines. -/
theorem toList_bytesHead (bytes : List UInt8) (maxLines : Nat) :
    (bytesHead bytes maxLines).toList = ((Text.bytePieces bytes).take maxLines).flatMap
      fun piece => lossyChars (withoutLineEnd 0x0A 0x0D piece) ++ ['\n'] := by
  have hline (piece : List UInt8) : (headLine piece).toList =
      lossyChars (withoutLineEnd 0x0A 0x0D piece) ++ ['\n'] := by
    rw [headLine, String.toList_push, Text.toList_decodeLossy]
  rw [bytesHead, String.toList_join, List.flatMap_map]
  simp only [hline]

/-- **Octets are sampled like their text.** -/
theorem bytesHead_eq_plainLines (bytes : List UInt8) (maxLines : Nat) {maxBytes : Nat}
    (h : byteLength (decodeLossy bytes).toList ≤ maxBytes) :
    bytesHead bytes maxLines =
      Text.plainLines (textHead (decodeLossy bytes) maxLines maxBytes) := by
  have hfits : byteLength (firstLines maxLines (lossyChars bytes)) ≤ maxBytes := by
    obtain ⟨rest, hrest⟩ := firstLines_isPrefix maxLines (lossyChars bytes)
    rw [Text.toList_decodeLossy, ← hrest, Text.byteLength_append] at h
    omega
  rw [← String.toList_inj, toList_bytesHead, Text.plainLines, textHead, String.toList_ofList,
    String.toList_ofList, Text.toList_decodeLossy, Text.takeWithin_of_le hfits,
    plainLines_firstLines, Text.linePieces_lossyChars, ← List.map_take, List.flatMap_map]
  simp only [Text.lossyChars_withoutLineEnd]

/-- A text whose lines all end in a line feed alone, and that has no more lines than are asked
for, is its own sample. -/
theorem plainLines_textHead_eq_self {text : String} {maxLines : Nat}
    (hreturn : ¬ ['\r', '\n'] <:+: text.toList) (hended : text.toList.getLast? = some '\n')
    (hlines : lineCount text.toList ≤ maxLines) :
    Text.plainLines (textHead text maxLines (byteLength text.toList)) = text := by
  have hhead : textHead text maxLines (byteLength text.toList) = text := by
    rw [textHead, firstLines_of_lineCount_le hlines, Text.takeWithin_of_le le_rfl,
      String.ofList_toList]
  rw [hhead, Text.plainLines, Text.unifyLineEnds_eq_self hreturn, endLastLine, if_pos (.inr hended),
    String.ofList_toList]

/-- **The sample of a file is that of its text**: the octets are read as a whole, the text is
bounded in lines and not in bytes, and every line is ended by a line feed alone. So a file that is
a text of few enough lines, each ended so already, is its own sample. -/
theorem fileHead_eq_plainLines {t : Files.Tree} {path : String} {bytes : List UInt8}
    (h : t.lookAt path = .ok (.file bytes)) (maxLines : Nat) :
    (∀ maxBytes, byteLength (decodeLossy bytes).toList ≤ maxBytes →
      fileHead t path maxLines =
        .ok (Text.plainLines (textHead (decodeLossy bytes) maxLines maxBytes))) ∧
    ∀ text, decode? bytes = some text → ¬ ['\r', '\n'] <:+: text.toList →
      text.toList.getLast? = some '\n' → lineCount text.toList ≤ maxLines →
      fileHead t path maxLines = .ok text := by
  have hread : fileHead t path maxLines = .ok (bytesHead bytes maxLines) := by
    rw [fileHead, h]
    rfl
  refine ⟨fun maxBytes hfits => ?_, fun text htext hreturn hended hlines => ?_⟩
  · rw [hread, bytesHead_eq_plainLines bytes maxLines hfits]
  · have hsame := Text.decodeLossy_of_decode? htext
    rw [hread, bytesHead_eq_plainLines bytes maxLines le_rfl, hsame,
      plainLines_textHead_eq_self hreturn hended hlines]

/-- A file in Latin-1 with line ends of both kinds, a character that is broken off in front of a
line feed and a carriage return at its end, and a file that is its own sample. -/
theorem fileHead_eq_plainLines_broken :
    let latin : List UInt8 := [0x61, 0xFC, 0x0D, 0x0A, 0xE2, 0x82, 0x0A, 0x62, 0x0D]
    let plain : List UInt8 := [0x61, 0x0A, 0xC3, 0xA9, 0x0A]
    let t := (Files.Tree.empty.put ["latin"] (.file latin)).put ["plain"] (.file plain)
    (t.lookAt "latin" = .ok (.file latin) ∧
      fileHead t "latin" 9 = .ok (Text.plainLines (textHead (decodeLossy latin) 9 99)) ∧
      Text.plainLines (textHead (decodeLossy latin) 9 99) = "a\uFFFD\n\uFFFD\nb\r\n") ∧
    (t.lookAt "plain" = .ok (.file plain) ∧ decode? plain = some "a\né\n" ∧
      fileHead t "plain" 2 = .ok "a\né\n") :=
  ⟨⟨rfl, (fileHead_eq_plainLines rfl 9).1 99 (by decide +kernel), by decide +kernel⟩,
    rfl, by decide +kernel,
    (fileHead_eq_plainLines rfl 2).2 "a\né\n" (by decide +kernel) (by decide +kernel)
      (by decide +kernel) (by decide +kernel)⟩

end Pipewright
