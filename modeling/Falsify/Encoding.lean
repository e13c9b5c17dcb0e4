import Falsify.Bytes
import Falsify.Draws
import Falsify.Text.Base64
import Falsify.Text.Blank

/-!
# The binary format of draw sequences, and reproduction tokens

A sequence is written as a marker of two bytes, the version of the format, the number of draws in
four bytes, and then for each draw its width in one byte and its value in as few bytes as hold
that width, high byte first. The same bytes are kept in the database; in base64 they are the token
with which a failure is reproduced.

* `Encoding.serialize`, `Encoding.deserialize`;
* `encodeToken`, `decodeToken`;
* `Encoding.length_serialize`: the length of a sequence's bytes is `Encoding.encodedLength`.
-/

namespace Falsify

/-- What is wrong with bytes that are no encoded sequence. -/
inductive Malformation where
  | truncated
  | noMarker
  | tooFewBytes (declared follow : Nat)
  | tooWide (bits : Nat)
  | oversized (value bits : Nat)
  | trailing
  deriving DecidableEq

def Malformation.message : Malformation → String
  | .truncated => "failed to fill whole buffer"
  | .noMarker => "missing format marker"
  | .tooFewBytes declared follow => s!"{declared} draws declared but only {follow} bytes follow"
  | .tooWide bits => s!"draw of {bits} bits"
  | .oversized value bits => s!"value {value} does not fit in {bits} bits"
  | .trailing => "trailing bytes after last draw"

/-- Why a token stands for no sequence. -/
inductive TokenError where
  | unsupportedVersion (found supported : Nat)
  | malformed (cause : Malformation)
  | base64 (cause : Text.Base64Error)
  deriving DecidableEq

def TokenError.message : TokenError → String
  | .unsupportedVersion found supported =>
    s!"unsupported token version {found} (this engine reads version {supported})"
  | .malformed cause => s!"malformed token: {cause.message}"
  | .base64 cause => s!"token is not valid base64: {cause.message}"

namespace Encoding

/-- The version of the format, written by this library and the only one that it reads. -/
def formatVersion : UInt8 := 1

/-- The two bytes in front of every encoded sequence. -/
def marker : Bytes := [0x43, 0x4A]

/-- The marker, the version and the number of draws. -/
def headerLength : Nat := 2 + 1 + 4

/-- The number of bytes for a value of so many bits. -/
def valueWidth (bits : UInt8) : Nat :=
  (bits.toNat + 7) / 8

def serializeDraw (d : Draw) : Bytes :=
  d.width :: bigEndian (valueWidth d.width) d.value.toNat

def serialize (s : Draws) : Bytes :=
  marker ++ formatVersion :: bigEndian 4 s.length ++ s.flatMap serializeDraw

/-- The length of a sequence's bytes, found without writing them. -/
def encodedLength (s : Draws) : Nat :=
  headerLength + (s.map fun d => 1 + valueWidth d.width).sum

/-- The first `n` bytes and the rest. -/
def readBytes (n : Nat) (bytes : Bytes) : Except TokenError (Bytes × Bytes) :=
  if (bytes.take n).length = n then .ok (bytes.take n, bytes.drop n)
  else .error (.malformed .truncated)

/-- One byte and the rest. -/
def readByte : Bytes → Except TokenError (UInt8 × Bytes)
  | b :: rest => .ok (b, rest)
  | [] => .error (.malformed .truncated)

/-- One draw and the rest. A draw has at most 64 bits and a value that fits them. -/
def readDraw (bytes : Bytes) : Except TokenError (Draw × Bytes) := do
  let (bits, bytes) ← readByte bytes
  if bits > 64 then throw (.malformed (.tooWide bits.toNat))
  let (digits, bytes) ← readBytes (valueWidth bits) bytes
  let value := ofBigEndian digits
  if value < 2 ^ bits.toNat then return (⟨bits, UInt64.ofNat value⟩, bytes)
  else throw (.malformed (.oversized value bits.toNat))

/-- So many draws and the rest. -/
def readDraws : (count : Nat) → Bytes → Except TokenError (Draws × Bytes)
  | 0, bytes => .ok ([], bytes)
  | count + 1, bytes => do
    let (draw, bytes) ← readDraw bytes
    let (draws, bytes) ← readDraws count bytes
    return (draw :: draws, bytes)

/-- The sequence that a byte string stands for. -/
def deserialize (bytes : Bytes) : Except TokenError Draws := do
  let follow := bytes.length - headerLength
  let (found, bytes) ← readBytes 2 bytes
  if found ≠ marker then throw (.malformed .noMarker)
  let (version, bytes) ← readByte bytes
  if version ≠ formatVersion then
    throw (.unsupportedVersion version.toNat formatVersion.toNat)
  let (digits, bytes) ← readBytes 4 bytes
  let count := ofBigEndian digits
  if count > follow then throw (.malformed (.tooFewBytes count follow))
  let (draws, bytes) ← readDraws count bytes
  if bytes.isEmpty then return draws else throw (.malformed .trailing)

theorem length_serializeDraw (d : Draw) : (serializeDraw d).length = 1 + valueWidth d.width := by
  simp [serializeDraw, Nat.add_comm]

theorem length_serialize (s : Draws) : (serialize s).length = encodedLength s := by
  simp [serialize, encodedLength, headerLength, marker, List.length_flatMap, length_serializeDraw]
  omega

end Encoding

/-- A text of ASCII bytes. -/
def asciiText (bytes : Bytes) : String :=
  String.ofList (bytes.map fun b => Char.ofNat b.toNat)

/-- The token of a sequence. -/
def encodeToken (s : Draws) : String :=
  asciiText (Text.Base64.encode (Encoding.serialize s))

/-- The sequence that a token stands for; blanks around the token do not count. -/
def decodeToken (token : String) : Except TokenError Draws :=
  match Text.Base64.decode (utf8 (Text.trim token)) with
  | .error e => .error (.base64 e)
  | .ok bytes => Encoding.deserialize bytes

end Falsify
