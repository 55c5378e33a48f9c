/-! Texts as bytes in UTF-8, and how bytes that are no text are shown as one. -/

namespace ItemMetrics.Text

/-- The bytes of a text in UTF-8. -/
def bytes (s : String) : List UInt8 :=
  s.toUTF8.data.toList

/-- Whether some bytes are those of a text. -/
def isText (bs : List UInt8) : Bool :=
  (ByteArray.mk bs.toArray).validateUTF8

/-- What may follow the first byte of a character of several bytes: the least and the greatest byte
that may come next, and how many more come behind that. -/
def next? (b : UInt8) : Option (UInt8 × UInt8 × Nat) :=
  if 0xC2 ≤ b && b ≤ 0xDF then some (0x80, 0xBF, 0)
  else if b = 0xE0 then some (0xA0, 0xBF, 1)
  else if b = 0xED then some (0x80, 0x9F, 1)
  else if 0xE1 ≤ b && b ≤ 0xEF then some (0x80, 0xBF, 1)
  else if b = 0xF0 then some (0x90, 0xBF, 2)
  else if 0xF1 ≤ b && b ≤ 0xF3 then some (0x80, 0xBF, 2)
  else if b = 0xF4 then some (0x80, 0x8F, 2)
  else none

/-- How many bytes behind one that starts no character go with it, as they could have gone on to
make it one. -/
def cutShort (b : UInt8) (bs : List UInt8) : Nat :=
  match next? b, bs with
  | some (least, greatest, more), c :: bs =>
    if least ≤ c && c ≤ greatest then
      1 + ((bs.take more).takeWhile fun d => 0x80 ≤ d && d ≤ 0xBF).length
    else 0
  | _, _ => 0

/-- The characters of some bytes, after the first `skip` of them. Bytes that could have started a
character, but are cut short, are shown as one replacement character. -/
def lossyChars : Nat → List UInt8 → List Char
  | _, [] => []
  | skip + 1, _ :: bs => lossyChars skip bs
  | 0, b :: bs =>
    match (ByteArray.mk (b :: bs).toArray).utf8DecodeChar? 0 with
    | some c => c :: lossyChars (c.utf8Size - 1) bs
    | none => '\uFFFD' :: lossyChars (cutShort b bs) bs

/-- The text that stands for some bytes where they are shown. -/
def lossy (bs : List UInt8) : String :=
  .ofList (lossyChars 0 bs)

end ItemMetrics.Text
