/-!
# Digests

A digest condenses a sequence of words and texts into one word.  Each piece is added to the words
before it and multiplied in; at the end the upper bits, which depend on all pieces, are turned to
the bottom.  A text is condensed into a word first, sixteen bytes at a time, and is followed by a
mark.
-/

namespace ByNeed

inductive Piece where
  | word (word : UInt64)
  | text (text : String)
  deriving DecidableEq, Repr

namespace Digest

/-- The lower and the upper half of a product, combined. -/
def foldedProduct (left right : UInt64) : UInt64 :=
  let product := left.toNat * right.toNat
  UInt64.ofNat product ^^^ UInt64.ofNat (product >>> 64)

/-- The word of some bytes, the lowest first. -/
def littleEndian (bytes : List UInt8) : UInt64 :=
  bytes.foldr (fun byte word => byte.toUInt64 ||| word <<< 8) 0

/-- Two words into which the bytes of a text are condensed. -/
structure Lanes where
  first : UInt64 := 0x243f6a8885a308d3
  second : UInt64 := 0x13198a2e03707344

namespace Lanes

/-- Take in a word for each lane. -/
def combine (lanes : Lanes) (first second : UInt64) : Lanes :=
  { first := lanes.first ^^^ first, second := lanes.second ^^^ second }

/-- Take in a block of sixteen bytes. -/
def absorb (lanes : Lanes) (block : List UInt8) : Lanes :=
  { first := lanes.second
    second := foldedProduct
      (lanes.first ^^^ littleEndian (block.take 8))
      (0xa4093822299f31d0 ^^^ littleEndian (block.drop 8)) }

/-- Take in so many blocks off the front of some bytes. -/
def absorbBlocks : Nat → List UInt8 → Lanes → Lanes
  | 0, _, lanes => lanes
  | blocks + 1, bytes, lanes =>
    absorbBlocks blocks (bytes.drop 16) (lanes.absorb (bytes.take 16))

/-- Take in the first and the last of some bytes, which may overlap. -/
def absorbEnds (lanes : Lanes) (width : Nat) (bytes : List UInt8) : Lanes :=
  lanes.combine (littleEndian (bytes.take width))
    (littleEndian (bytes.drop (bytes.length - width)))

/-- Take in one to three bytes. -/
def absorbFew (lanes : Lanes) (bytes : List UInt8) : Lanes :=
  let byte (position : Nat) := (bytes.getD position 0).toUInt64
  lanes.combine (byte 0) (byte (bytes.length - 1) <<< 8 ||| byte (bytes.length / 2))

end Lanes

/-- The word of a sequence of bytes. -/
def bytesWord (bytes : List UInt8) : UInt64 :=
  let length := bytes.length
  let lanes : Lanes :=
    if length = 0 then {}
    else if length < 4 then Lanes.absorbFew {} bytes
    else if length < 8 then Lanes.absorbEnds {} 4 bytes
    else if length ≤ 16 then Lanes.absorbEnds {} 8 bytes
    else
      let ending := bytes.drop (length - 16)
      (Lanes.absorbBlocks ((length - 1) / 16) bytes {}).combine
        (littleEndian (ending.take 8)) (littleEndian (ending.drop 8))
  foldedProduct lanes.first lanes.second ^^^ UInt64.ofNat length

/-- Multiply a word in. -/
def addWord (sum word : UInt64) : UInt64 :=
  (sum + word) * 0xf1357aea2e62a9c5

/-- Multiply a piece in.  A text is followed by a mark that is no byte of a text. -/
def addPiece (sum : UInt64) : Piece → UInt64
  | .word word => addWord sum word
  | .text text => addWord (addWord sum (bytesWord text.toUTF8.toList)) 0xff

def multiplicative (pieces : List Piece) : UInt64 :=
  let sum := pieces.foldl addPiece 0
  sum <<< 26 ||| sum >>> 38

end Digest
end ByNeed
