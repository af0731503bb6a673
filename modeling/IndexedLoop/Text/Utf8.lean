/-!
# Bytes as text

A source is a list of symbols: the characters of its UTF-8 reading, and each byte that belongs to no
character on its own. `decode` reads bytes that way and loses none of them (`Symbol.bytes` gives them
back). `firstFault?` says where bytes stop being UTF-8 and how many bytes are at fault.
-/

namespace IndexedLoop

/-- A character of a source, or a byte that is part of no character. -/
inductive Symbol where
  | char (c : Char)
  | stray (byte : UInt8)
deriving DecidableEq, Inhabited, Repr

namespace Utf8

/-- The continuation bytes are `80` to `BF`. -/
def isContinuation (b : UInt8) : Bool :=
  0x80 ≤ b && b ≤ 0xBF

/-- The second bytes that may follow the first byte `b` of a character: no overlong form, no
surrogate and nothing beyond `10FFFF` has a reading. -/
def secondByteOk (b next : UInt8) : Bool :=
  if b = 0xE0 then 0xA0 ≤ next && next ≤ 0xBF
  else if b = 0xED then 0x80 ≤ next && next ≤ 0x9F
  else if b = 0xF0 then 0x90 ≤ next && next ≤ 0xBF
  else if b = 0xF4 then 0x80 ≤ next && next ≤ 0x8F
  else isContinuation next

/-- The number of bytes of a character that starts with `b`, or zero if none does. -/
def width (b : UInt8) : Nat :=
  if b ≤ 0x7F then 1
  else if 0xC2 ≤ b && b ≤ 0xDF then 2
  else if 0xE0 ≤ b && b ≤ 0xEF then 3
  else if 0xF0 ≤ b && b ≤ 0xF4 then 4
  else 0

/-- The six low bits of a continuation byte. -/
def payload (b : UInt8) : Nat := b.toNat % 64

/-- What stands at the start of a list of bytes. -/
inductive Head where
  /-- A character of `size` bytes. -/
  | char (c : Char) (size : Nat)
  /-- Bytes that start no character; `size` of them are to blame. -/
  | fault (size : Nat)
  /-- A character that the end of the bytes cuts off. -/
  | cut
deriving DecidableEq, Repr

/-- Reads the first character of `b :: rest`. -/
def head (b : UInt8) (rest : List UInt8) : Head :=
  match width b, rest with
  | 1, _ => .char (Char.ofNat b.toNat) 1
  | 2, b1 :: _ =>
    if secondByteOk b b1 then .char (Char.ofNat (b.toNat % 32 * 64 + payload b1)) 2 else .fault 1
  | 3, [b1] => if secondByteOk b b1 then .cut else .fault 1
  | 3, b1 :: b2 :: _ =>
    if ¬ secondByteOk b b1 then .fault 1
    else if ¬ isContinuation b2 then .fault 2
    else .char (Char.ofNat ((b.toNat % 16 * 64 + payload b1) * 64 + payload b2)) 3
  | 4, [b1] => if secondByteOk b b1 then .cut else .fault 1
  | 4, [b1, b2] =>
    if ¬ secondByteOk b b1 then .fault 1 else if ¬ isContinuation b2 then .fault 2 else .cut
  | 4, b1 :: b2 :: b3 :: _ =>
    if ¬ secondByteOk b b1 then .fault 1
    else if ¬ isContinuation b2 then .fault 2
    else if ¬ isContinuation b3 then .fault 3
    else .char (Char.ofNat (((b.toNat % 8 * 64 + payload b1) * 64 + payload b2) * 64 + payload b3)) 4
  | 0, _ => .fault 1
  | _, _ => .cut

/-- Reads bytes as symbols; `skip` bytes still belong to the character before. -/
def decodeFrom : Nat → List UInt8 → List Symbol
  | _, [] => []
  | skip + 1, _ :: rest => decodeFrom skip rest
  | 0, b :: rest =>
    match head b rest with
    | .char c size => .char c :: decodeFrom (size - 1) rest
    | _ => .stray b :: decodeFrom 0 rest

/-- Reads bytes as symbols. -/
def decode (bytes : List UInt8) : List Symbol :=
  decodeFrom 0 bytes

/-- Where bytes stop being UTF-8. -/
structure Fault where
  /-- The number of good bytes in front. -/
  index : Nat
  /-- The number of bytes at fault, or nothing if the bytes end inside a character. -/
  size : Option Nat
deriving DecidableEq, Repr

/-- The first place where the bytes are not UTF-8; `index` bytes stand in front of them. -/
def firstFaultFrom : Nat → Nat → List UInt8 → Option Fault
  | _, _, [] => none
  | index, skip + 1, _ :: rest => firstFaultFrom (index + 1) skip rest
  | index, 0, b :: rest =>
    match head b rest with
    | .char _ size => firstFaultFrom (index + 1) (size - 1) rest
    | .fault size => some ⟨index, some size⟩
    | .cut => some ⟨index, none⟩

/-- The first place where the bytes are not UTF-8. -/
def firstFault? (bytes : List UInt8) : Option Fault :=
  firstFaultFrom 0 0 bytes

/-- The words for a fault. -/
def Fault.text (f : Fault) : String :=
  match f.size with
  | some size => s!"invalid utf-8 sequence of {size} bytes from index {f.index}"
  | none => s!"incomplete utf-8 byte sequence from index {f.index}"

end Utf8

namespace Symbol

/-- The bytes a symbol stands for. -/
def bytes : Symbol → List UInt8
  | .char c => String.utf8EncodeChar c
  | .stray b => [b]

/-- The number of bytes a symbol stands for. -/
def size : Symbol → Nat
  | .char c => c.utf8Size
  | .stray _ => 1

/-- The character of a symbol. -/
def char? : Symbol → Option Char
  | .char c => some c
  | .stray _ => none

/-- The symbol is the character `c`. -/
def isChar (c : Char) (s : Symbol) : Bool :=
  s == .char c

/-- The symbol is a character with the property `p`. -/
def satisfies (p : Char → Bool) : Symbol → Bool
  | .char c => p c
  | .stray _ => false

/-- The symbols of a text. -/
def ofString (s : String) : List Symbol :=
  s.toList.map .char

/-- The text of symbols, or where their bytes stop being UTF-8. -/
def toText (symbols : List Symbol) : Except Utf8.Fault String :=
  match Utf8.firstFault? (symbols.flatMap bytes) with
  | some fault => .error fault
  | none => .ok (String.ofList (symbols.filterMap char?))

end Symbol

end IndexedLoop
