/-
Module: AppLPS.Firestore.OrderedCode
Purpose: The vendored `OrderedCode`: strings and signed numbers as bytes that
  are compared like what they stand for.
Trusted boundary: none
Main exports: HardAssert, OrderedCode.skipToNextSpecialByte,
  OrderedCode.writeString, OrderedCode.readString,
  OrderedCode.writeSignedNumIncreasing, OrderedCode.readSignedNumIncreasing
-/
import AppLPS.Ordered.Bytes

namespace AppLPS

/-!
Strings are lists of bytes; a routine that appends to `*dest` gives the bytes
that it appends, and one that advances `*src` gives what is left of it.  The
devices are little-endian.
-/

/-- A failed `HARD_ASSERT`, which ends the process. -/
structure HardAssert where
  message : String
deriving DecidableEq, Repr

namespace OrderedCode

def kEscape1 : UInt8 := 0x00
def kNullCharacter : UInt8 := 0xff
def kSeparator : UInt8 := 0x01
def kEscape2 : UInt8 := 0xff
def kFFCharacter : UInt8 := 0x00

def isSpecialByte (c : UInt8) : Bool := decide (c + 1 < 2)

/-! ## The search for bytes that need escaping -/

/-- The number whose lowest byte is the first one. -/
def littleEndian : List UInt8 → Nat
  | [] => 0
  | byte :: bytes => byte.toNat + 256 * littleEndian bytes

/-- `UNALIGNED_LOAD32` of four bytes. -/
def load32 (bytes : List UInt8) : UInt32 := .ofNat (littleEndian bytes)

/-- `UNALIGNED_LOAD64` of eight bytes. -/
def load64 (bytes : List UInt8) : UInt64 := .ofNat (littleEndian bytes)

def advanceIfNoSpecialBytes (v_32 : UInt32) : Nat :=
  if (v_32 - 0x01010101) &&& ~~~(v_32 + 0x01010101) &&& 0x80808080 ≠ 0 then 0
  else 4

def hasZeroOr255Byte (v : UInt64) : Bool :=
  decide ((v - 0x0101010101010101) &&& ~~~(v + 0x0101010101010101) &&&
    0x8080808080808080 ≠ 0)

/-- The tests of `p[0]` to `p[2]`; the last byte must be the special one. -/
def specialInWord : List UInt8 → Nat
  | p0 :: p1 :: p2 :: _ =>
      if isSpecialByte p0 then 0
      else if isSpecialByte p1 then 1
      else if isSpecialByte p2 then 2
      else 3
  | _ => 0

/-- The last loop of the search. -/
def skipBytes : List UInt8 → Nat
  | [] => 0
  | p0 :: rest => if isSpecialByte p0 then 0 else skipBytes rest + 1

/-- What follows the loop over eight bytes: four bytes at once, and the rest. -/
def skipRemaining : List UInt8 → Nat
  | p0 :: p1 :: p2 :: p3 :: rest =>
      let advanced := advanceIfNoSpecialBytes (load32 [p0, p1, p2, p3])
      advanced + skipBytes ((p0 :: p1 :: p2 :: p3 :: rest).drop advanced)
  | bytes => skipBytes bytes

/-- `SkipToNextSpecialByte` on the bytes from `start` to `limit`: how far behind
`start` the pointer is that it returns. -/
def skipToNextSpecialByte : List UInt8 → Nat
  | p0 :: p1 :: p2 :: p3 :: p4 :: p5 :: p6 :: p7 :: rest =>
      let v := load64 [p0, p1, p2, p3, p4, p5, p6, p7]
      if !hasZeroOr255Byte v then 8 + skipToNextSpecialByte rest
      else
        let advanced := advanceIfNoSpecialBytes v.toUInt32
        advanced +
          specialInWord ([p0, p1, p2, p3, p4, p5, p6, p7].drop advanced)
  | bytes => skipRemaining bytes

/-! ## Strings -/

def encodeStringFragment (s : List UInt8) : List UInt8 :=
  let p := skipToNextSpecialByte s
  match _rest : s.drop p with
  | [] => s
  | c :: later =>
      s.take p ++
        (if c = kEscape1 then [kEscape1, kNullCharacter]
          else [kEscape2, kFFCharacter]) ++
        encodeStringFragment later
termination_by s.length
decreasing_by
  have shorter := congrArg List.length _rest
  simp only [List.length_drop, List.length_cons] at shorter
  omega

def writeString (s : List UInt8) : List UInt8 :=
  encodeStringFragment s ++ [kEscape1, kSeparator]

/-- `ReadString`: the string and what is left, or `none` for false.  The search
leaves out the last byte, which cannot begin a pair. -/
def readString (src : List UInt8) : Option (List UInt8 × List UInt8) :=
  let start := skipToNextSpecialByte src.dropLast
  match rest : src.drop start with
  | c :: next :: later =>
      if c = kEscape1 then
        if next = kSeparator then some (src.take start, later)
        else if next = kNullCharacter then
          (readString later).map fun read =>
            (src.take start ++ 0x00 :: read.1, read.2)
        else none
      else if next = kFFCharacter then
        (readString later).map fun read =>
          (src.take start ++ 0xff :: read.1, read.2)
      else none
  | _ => none
termination_by src.length
decreasing_by
  all_goals
    have shorter := congrArg List.length rest
    simp only [List.length_drop, List.length_cons] at shorter
    omega

/-! ## Signed numbers -/

def kMaxSigned64Length : Nat := 10

def kLengthToHeaderBits : List (UInt8 × UInt8) :=
  [(0, 0), (0x80, 0), (0xc0, 0), (0xe0, 0), (0xf0, 0), (0xf8, 0), (0xfc, 0),
    (0xfe, 0), (0xff, 0), (0xff, 0x80), (0xff, 0xc0)]

def kLengthToMask : List UInt64 :=
  [0, 0x80, 0xc000, 0xe00000, 0xf0000000, 0xf800000000, 0xfc0000000000,
    0xfe000000000000, 0xff00000000000000, 0x8000000000000000, 0]

def kBitsToLength : List Nat :=
  [1, 1, 1, 1, 1, 1, 1, 2, 2, 2, 2, 2, 2, 2, 3, 3, 3, 3, 3, 3, 3, 4,
    4, 4, 4, 4, 4, 4, 5, 5, 5, 5, 5, 5, 5, 6, 6, 6, 6, 6, 6, 6, 7, 7,
    7, 7, 7, 7, 7, 8, 8, 8, 8, 8, 8, 8, 9, 9, 9, 9, 9, 9, 9, 10]

/-- `Bits::Log2Floor64(n) + 1`. -/
def bitLength (n : UInt64) : Nat :=
  if n = 0 then 0 else n.toNat.log2 + 1

/-- `n < 0 ? ~n : n`. -/
def magnitude (n : Int64) : Int64 := if n < 0 then ~~~n else n

def signedEncodingLength (n : Int64) : Nat :=
  kBitsToLength.getD (bitLength (magnitude n).toUInt64) 0

/-- The eight bytes that store `absl::ghtonll(val)`. -/
def storeBigEndian (val : UInt64) : List UInt8 :=
  [(val >>> 56).toUInt8, (val >>> 48).toUInt8, (val >>> 40).toUInt8,
    (val >>> 32).toUInt8, (val >>> 24).toUInt8, (val >>> 16).toUInt8,
    (val >>> 8).toUInt8, val.toUInt8]

/-- The header bits are laid over the first two bytes. -/
def xorHeader (header : UInt8 × UInt8) : List UInt8 → List UInt8
  | begin0 :: begin1 :: rest =>
      (begin0 ^^^ header.1) :: (begin1 ^^^ header.2) :: rest
  | bytes => bytes

def writeSignedNumIncreasing (val : Int64) : List UInt8 :=
  if magnitude val < 64 then [0x80 ^^^ val.toUInt64.toUInt8]
  else
    let signByte : UInt8 := if val < 0 then 0xff else 0x00
    let buf := signByte :: signByte :: storeBigEndian val.toUInt64
    let len := signedEncodingLength val
    xorHeader (kLengthToHeaderBits.getD len (0, 0))
      (buf.drop (kMaxSigned64Length - len))

/-- `absl::gntohll(UNALIGNED_LOAD64(...))` of the first eight bytes. -/
def loadBigEndian (bytes : List UInt8) : UInt64 :=
  .ofNat (bigEndian (bytes.take 8))

/-- The assertion that a number has been written in as few bytes as it needs. -/
def lengthAssertion : HardAssert :=
  ⟨"len == static_cast<size_t>( " ++
    "SignedEncodingLength(static_cast<int64_t>(x)))"⟩

/-- The end of `ReadSignedNumIncreasing`, when the length is known and `x` holds
the bytes with their header. -/
def readMasked (src : List UInt8) (len : Nat) (x : UInt64) :
    Except HardAssert (Option (Int64 × List UInt8)) :=
  let value := (x ^^^ kLengthToMask.getD len 0).toInt64
  if len = signedEncodingLength value then .ok (some (value, src.drop len))
  else .error lengthAssertion

/-- The length that the second and the third byte tell when all bits of the
first one are size bits, if they are right. -/
def longLength (secondByte thirdByte : UInt8) : Option Nat :=
  if 0x80 ≤ secondByte then
    if secondByte < 0xc0 then some 9
    else if secondByte = 0xc0 ∧ thirdByte < 0x80 then some 10
    else none
  else some 8

def readSignedNumIncreasing (src : List UInt8) :
    Except HardAssert (Option (Int64 × List UInt8)) :=
  match src with
  | [] => .ok none
  | byte0 :: _ =>
      let xorMask : UInt64 := if byte0 &&& 0x80 = 0 then ~~~0 else 0
      let firstByte := byte0 ^^^ xorMask.toUInt8
      if firstByte ≠ 0xff then
        let len := 7 - (firstByte ^^^ 0xff).toNat.log2
        if src.length < len then .ok none
        else
          readMasked src len
            ((src.take len).foldl (fun x byte => (x <<< 8) ||| byte.toUInt64)
              xorMask)
      else if src.length < 8 then .ok none
      else
        match longLength (src.getD 1 0 ^^^ xorMask.toUInt8)
            (src.getD 2 0 ^^^ xorMask.toUInt8) with
        | none => .ok none
        | some len =>
            if src.length < len then .ok none
            else readMasked src len (loadBigEndian (src.drop (len - 8)))

end OrderedCode

end AppLPS
