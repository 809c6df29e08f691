import Mathlib.Algebra.Group.Nat.Defs
import HkuUtils.Blocks
import HkuUtils.CString
import HkuUtils.InputStream
import HkuUtils.NestedMap
import HkuUtils.Strings.Pieces

set_option relaxedAutoImplicit false
set_option autoImplicit false

/-!
# The reader of `.mo` files

`moFileReader`: a file of translations is read from a stream into two tables, one for the strings
without a context and one for those with a context. The header gives the number of the strings and
the places of two tables of lengths and offsets; the reader takes these tables to follow the header.

## Main definitions

* `HkuUtils.MoFile.Reader` — the members of a reader.
* `HkuUtils.MoFile.readStream` — `ReadStream`, which returns a code, throws, or does something that
  is not defined.
* `HkuUtils.MoFile.Reader.parseData`, `lookup`, `lookupWithContext`, `clearTable`,
  `getNumStrings` — the functions.

## Design

An `int` that is read holds zeros where bytes are missing. The stream never sets `badbit`, so the
branches behind `stream.bad()` are left out. The string in a buffer ends at its first zero byte, and
a buffer without one is read past its end.
-/

namespace HkuUtils.MoFile

open Blocks

/-- `MagicNumber`. -/
def magicNumber : BitVec 32 := 0x950412DE

/-- `MagicReversed`. -/
def magicReversed : BitVec 32 := 0xDE120495

/-- `ContextSeparator`. -/
def contextSeparator : UInt8 := 4

/-- `eErrorCode`. -/
inductive ErrorCode where
  | ecSuccess
  | ecError
  | ecFileNotFound
  | ecFileInvalid
  | ecTableEmpty
  | ecMagicNumberNoMatch
  | ecMagicNumberReversed
  deriving DecidableEq, Repr

/-- How `ReadStream` can end without a code. -/
inductive Failure where
  /-- `new` throws, as the length of an array is negative. -/
  | thrown
  /-- The behaviour is undefined. -/
  | undefined
  deriving DecidableEq, Repr

/-- `moTranslationPairInformation`. -/
structure TranslationPairInformation where
  orLength : BitVec 32
  orOffset : BitVec 32
  trLength : BitVec 32
  trOffset : BitVec 32
  deriving DecidableEq, Repr

/-- The numbers of `moFileInfo`. -/
structure FileInfo where
  magicNumber : BitVec 32
  fileVersion : BitVec 32
  numStrings : BitVec 32
  offsetOriginal : BitVec 32
  offsetTranslation : BitVec 32
  sizeHashtable : BitVec 32
  offsetHashtable : BitVec 32
  deriving DecidableEq, Repr

/-- The members of a reader. -/
structure Reader where
  /-- `m_lookup`. -/
  lookupMap : Finmap fun _ : List UInt8 => List UInt8
  /-- `m_lookup_context`. -/
  lookupContextMap : NestedMap (List UInt8) (List UInt8) (List UInt8)
  /-- `numStrings`, an `int`. -/
  numStrings : BitVec 32
  /-- `m_error`. -/
  error : String

/-- A new reader. -/
def Reader.new : Reader := ⟨∅, ∅, 0, ""⟩

/-! ## Reading -/

/-- An `int` that was zero before it is read. -/
def readInt (s : InputStream) : BitVec 32 × InputStream :=
  let (bytes, s) := s.read 4
  (BitVec.ofNat 32 (littleEndian bytes), s)

/-- The header: seven numbers of four bytes each, one behind the other. -/
def readHeader (s : InputStream) : FileInfo × InputStream :=
  let (magicNumber, s) := readInt s
  let (fileVersion, s) := readInt s
  let (numStrings, s) := readInt s
  let (offsetOriginal, s) := readInt s
  let (offsetTranslation, s) := readInt s
  let (sizeHashtable, s) := readInt s
  let (offsetHashtable, s) := readInt s
  (⟨magicNumber, fileVersion, numStrings, offsetOriginal, offsetTranslation, sizeHashtable,
    offsetHashtable⟩, s)

/-- The loop that reads `n` lengths and offsets. -/
def readDescriptors : ℕ → InputStream → List (BitVec 32 × BitVec 32) × InputStream
  | 0, s => ([], s)
  | n + 1, s =>
    let (length, s) := readInt s
    let (offset, s) := readInt s
    let (rest, s) := readDescriptors n s
    ((length, offset) :: rest, s)

/-- `new char[length + 1]`, which is set to zero and read from an offset. -/
def readBuffer (s : InputStream) (length offset : BitVec 32) :
    Except Failure (List UInt8 × InputStream) :=
  if length.toInt + 1 < 0 then .error .thrown
  else
    let n := (length.toInt + 1).toNat
    let (bytes, s) := (s.seek offset.toInt).read n
    .ok (bytes ++ List.replicate (n - bytes.length) 0, s)

/-- The strings of a pair. A length that is the greatest `int` overflows when one is added to it,
which is undefined; so is a text without its end. -/
def readPair (s : InputStream) (p : TranslationPairInformation) :
    Except Failure (List UInt8 × List UInt8 × InputStream) :=
  -- `m_orLength + 1` and `m_trLength + 1`
  if p.orLength.toInt = 2 ^ 31 - 1 ∨ p.trLength.toInt = 2 ^ 31 - 1 then .error .undefined
  else do
    let (original, s) ← readBuffer s p.orLength p.orOffset
    let (translation, s) ← readBuffer s p.trLength p.trOffset
    match CString.read original, CString.read translation with
    | some original, some translation => .ok (original, translation, s)
    | _, _ => .error .undefined

/-- A pair is stored, or `substr` throws. What stands before the first separator is the context of
the id. -/
def Reader.store (r : Reader) (original translation : List UInt8) : Option Reader :=
  match original.idxOf? contextSeparator with
  | none =>
    some { r with
      lookupMap := r.lookupMap.insert original translation
      numStrings := r.numStrings + 1 }
  | some i =>
    match Strings.substr original 0 i, Strings.substr original (i + 1) original.length with
    | some context, some id =>
      some { r with
        lookupContextMap := r.lookupContextMap.assign context id translation
        numStrings := r.numStrings + 1 }
    | _, _ => none

/-- The text of an error in the strings. -/
def streamBad : String :=
  "Stream bad during reading. The .mo-file seems to be invalid or has bad descriptions!"

/-- The loop that reads the strings. The count of the strings is an `int`, and to count beyond the
greatest of them is not defined. -/
def readStrings (r : Reader) (s : InputStream) :
    List TranslationPairInformation → Reader × Except Failure ErrorCode
  | [] => (r, .ok .ecSuccess)
  | p :: ps =>
    match readPair s p with
    | .error e => (r, .error e)
    | .ok (original, translation, s) =>
      match r.store original translation with
      | some r' =>
        -- `numStrings++`
        if r.numStrings.toInt = 2 ^ 31 - 1 then (r, .error .undefined) else readStrings r' s ps
      | none => ({ r with error := streamBad }, .ok .ecError)

/-- `ReadStream`: the header, its magic number, the two tables, and the strings of each pair. -/
def readStream (r : Reader) (s : InputStream) : Reader × Except Failure ErrorCode :=
  let (info, s) := readHeader s
  if info.magicNumber ≠ magicNumber then
    if info.magicNumber ≠ magicReversed then
      ({ r with error := "The Magic Number does not match in all cases!" },
        .ok .ecMagicNumberNoMatch)
    else
      ({ r with error := "Magic Number is reversed. We do not support this yet!" },
        .ok .ecMagicNumberReversed)
  else
    let n := info.numStrings.toInt.toNat
    let (originals, s) := readDescriptors n s
    let (translations, s) := readDescriptors n s
    readStrings r s (List.zipWith (fun o t => ⟨o.1, o.2, t.1, t.2⟩) originals translations)

namespace Reader

/-- `ParseData`. -/
def parseData (r : Reader) (data : List UInt8) : Reader × Except Failure ErrorCode :=
  readStream r (.ofData data)

/-- `Lookup`: the translation of an id, or the id itself. -/
def lookup (r : Reader) (id : List UInt8) : List UInt8 := (r.lookupMap.lookup id).getD id

/-- `LookupWithContext`. -/
def lookupWithContext (r : Reader) (context id : List UInt8) : List UInt8 :=
  match r.lookupContextMap.lookup context with
  | none => id
  | some table => (table.lookup id).getD id

/-- `ClearTable`. -/
def clearTable (r : Reader) : Reader :=
  { r with lookupMap := ∅, lookupContextMap := ∅, numStrings := 0 }

/-- `GetNumStrings`; the result is an `unsigned int`. -/
def getNumStrings (r : Reader) : BitVec 32 := r.numStrings

end Reader

end HkuUtils.MoFile
