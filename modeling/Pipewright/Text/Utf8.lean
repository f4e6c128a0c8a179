/-!
# UTF-8

Files hold octets and texts hold characters. This module goes from one to the other: every
text has one UTF-8 form, and octets are read as pieces, each a character or a maximal piece
that no character has. A strict reading refuses the second kind, a lossy one puts U+FFFD in
its place.

## Main definitions

* `encode`: the UTF-8 form of a text.
* `pieces`: octets as characters and invalid pieces.
* `decode?`, `decodeLossy`: the strict and the lossy reading.
-/

namespace Pipewright.Text

/-- The UTF-8 form of a character. -/
def encodeChar (c : Char) : List UInt8 :=
  let n := c.toNat
  if n < 0x80 then [n.toUInt8]
  else if n < 0x800 then [(0xC0 + n / 0x40).toUInt8, (0x80 + n % 0x40).toUInt8]
  else if n < 0x10000 then
    [(0xE0 + n / 0x1000).toUInt8, (0x80 + n / 0x40 % 0x40).toUInt8, (0x80 + n % 0x40).toUInt8]
  else
    [(0xF0 + n / 0x40000).toUInt8, (0x80 + n / 0x1000 % 0x40).toUInt8,
      (0x80 + n / 0x40 % 0x40).toUInt8, (0x80 + n % 0x40).toUInt8]

/-- The UTF-8 form of a text. -/
def encode (s : String) : List UInt8 :=
  s.toList.flatMap encodeChar

/-- What a first octet announces: how many more follow, the bounds of the next one, and the
bits of the code point that the first octet carries. -/
structure Lead where
  /-- The number of octets that follow. -/
  tails : Nat
  /-- The least octet that may come next. -/
  low : Nat
  /-- The greatest octet that may come next. -/
  high : Nat
  /-- The leading bits of the code point. -/
  bits : Nat

/-- The announcement of octet `b`, or nothing when no character starts with it. -/
def lead? (b : Nat) : Option Lead :=
  if b < 0x80 then some ⟨0, 0, 0, b⟩
  else if b < 0xC2 then none
  else if b < 0xE0 then some ⟨1, 0x80, 0xBF, b - 0xC0⟩
  else if b == 0xE0 then some ⟨2, 0xA0, 0xBF, 0⟩
  else if b == 0xED then some ⟨2, 0x80, 0x9F, 0xD⟩
  else if b < 0xF0 then some ⟨2, 0x80, 0xBF, b - 0xE0⟩
  else if b == 0xF0 then some ⟨3, 0x90, 0xBF, 0⟩
  else if b < 0xF4 then some ⟨3, 0x80, 0xBF, b - 0xF0⟩
  else if b == 0xF4 then some ⟨3, 0x80, 0x8F, 4⟩
  else none

/-- Takes `tails` more octets, the first of them within the given bounds, into the bits of a
code point; stops in front of the first octet that does not fit. -/
def takeTails : (tails low high bits : Nat) → List UInt8 → Option Nat × List UInt8
  | 0, _, _, bits, rest => (some bits, rest)
  | _ + 1, _, _, _, [] => (none, [])
  | tails + 1, low, high, bits, b :: rest =>
    if low ≤ b.toNat && b.toNat ≤ high then
      takeTails tails 0x80 0xBF (bits * 0x40 + (b.toNat - 0x80)) rest
    else (none, b :: rest)

/-- The rest behind a piece is no longer than what it was taken from. -/
theorem length_takeTails_le (tails low high bits : Nat) (bs : List UInt8) :
    (takeTails tails low high bits bs).2.length ≤ bs.length := by
  induction tails generalizing low high bits bs with
  | zero => simp [takeTails]
  | succ tails ih =>
    cases bs with
    | nil => simp [takeTails]
    | cons b rest =>
      simp only [takeTails]
      split
      · exact Nat.le_trans (ih ..) (by simp)
      · simp

/-- The first piece, a code point or nothing, of octets that start with `b`, and the rest. -/
def takePiece (b : UInt8) (rest : List UInt8) : Option Nat × List UInt8 :=
  match lead? b.toNat with
  | none => (none, rest)
  | some l => takeTails l.tails l.low l.high l.bits rest

/-- The rest behind a piece is no longer than what follows its first octet. -/
theorem length_takePiece_le (b : UInt8) (rest : List UInt8) :
    (takePiece b rest).2.length ≤ rest.length := by
  unfold takePiece
  split
  · simp
  · exact length_takeTails_le ..

/-- Octets as a sequence of characters and of maximal pieces that no character has. -/
def pieces : List UInt8 → List (Option Char)
  | [] => []
  | b :: rest => (takePiece b rest).1.map Char.ofNat :: pieces (takePiece b rest).2
termination_by bs => bs.length
decreasing_by
  have := length_takePiece_le b rest
  simp only [List.length_cons]
  omega

/-- The text with the given UTF-8 form, if the octets are one. -/
def decode? (bs : List UInt8) : Option String :=
  ((pieces bs).mapM id).map String.ofList

/-- The text with U+FFFD in place of every maximal piece that no character has. -/
def decodeLossy (bs : List UInt8) : String :=
  .ofList ((pieces bs).map (·.getD '\uFFFD'))

end Pipewright.Text
