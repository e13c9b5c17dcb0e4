import Falsify.Digest.Sha256
import Falsify.Text.Hex
import Falsify.Text.Quoted

/-!
# Keys

The key under which the examples of a test are filed: a fingerprint of the test's identity, and
the name of a corpus if it is not the main one.

* `Key.ofFunction`: the key of a test;
* `Key.text`, `Key.ofText`: keys as texts, the fingerprint in hexadecimal and the corpus behind a
  dot.
-/

namespace Falsify

structure Key where
  fingerprint : Vector UInt8 32
  subKey : Option String
  deriving DecidableEq

/-- Why a text is no key. -/
inductive KeyFault where
  /-- The fingerprint has another length, in bytes of text. -/
  | badLength (length : Nat)
  | badDigit (digit : Text.Hex.BadDigit)
  deriving DecidableEq

def KeyFault.message : KeyFault → String
  | .badLength length => s!"Invalid primary key length: {length}"
  | .badDigit digit =>
    s!"Invalid hex: Invalid character {Text.quoteChar (Char.ofNat digit.byte.toNat)} " ++
      s!"at position {digit.place}"

namespace Key

/-- The key of a test: its name, and further bytes that tell it from others of that name. -/
def ofFunction (name : String) (extra : Bytes) : Key :=
  ⟨Sha256.digest (utf8 name ++ extra), none⟩

/-- The key of another corpus of the same test. -/
def withSubKey (key : Key) (subKey : String) : Key :=
  { key with subKey := some subKey }

/-- The fingerprint in hexadecimal, and the corpus if there is one. -/
def text (key : Key) : String :=
  match key.subKey with
  | none => Text.Hex.encode key.fingerprint.toList
  | some sub => Text.Hex.encode key.fingerprint.toList ++ "." ++ sub

/-- The characters up to the first dot, and those behind it if there is one. -/
def splitDot (cs : List Char) : List Char × Option (List Char) :=
  match cs.dropWhile (· ≠ '.') with
  | [] => (cs, none)
  | _ :: sub => (cs.takeWhile (· ≠ '.'), some sub)

/-- The key that a text stands for. -/
def ofText (text : String) : Except KeyFault Key :=
  let (fingerprint, sub) := splitDot text.toList
  let digits := utf8 (String.ofList fingerprint)
  if digits.length = 64 then
    match Text.Hex.decode digits with
    | .error digit => .error (.badDigit digit)
    | .ok bytes =>
      if h : bytes.length = 32 then .ok ⟨⟨bytes.toArray, by simpa using h⟩, sub.map String.ofList⟩
      else .error (.badLength digits.length)
  else .error (.badLength digits.length)

/-- The key as it is kept: the bytes of the fingerprint as numbers. -/
def toNumbers (key : Key) : List Nat :=
  key.fingerprint.toList.map UInt8.toNat

end Key

end Falsify
