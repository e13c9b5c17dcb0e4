import Falsify.Proofs.Encoding.Token
import Falsify.Proofs.Store.KeyText

/-!
# Reading the text of a key

A key's text names it: it reads back as the key, so different keys have different texts. Of all
other texts those are read that differ from a key's text in the case of their digits; what stands in
front of the first dot is to be the 64 digits of a fingerprint (`Key.IsFingerprint`), and behind it
there may be anything. Every other text is refused with what is wrong with it (`KeyFault.Describes`).

* `Text.Hex.decodeFrom_map`, `Text.Hex.decodeFrom_of_bad`: digits in pairs, and the first byte that
  is none;
* `Text.Hex.mem_readable_of_bytes`: a character whose bytes are digits is a digit;
* `Key.ofText_text`, `Key.ofText_of_fingerprint`, `Key.ofText_of_not_fingerprint`: the three cases;
* `Key.text_names_key`: the theorem.
-/

namespace Falsify

/-- The bytes of a text, character by character. -/
theorem utf8_ofList (cs : List Char) :
    utf8 (String.ofList cs) = cs.flatMap String.utf8EncodeChar := by
  rw [utf8, String.toUTF8_eq_toByteArray, String.toByteArray_ofList, List.utf8Encode,
    toList_toByteArray]

namespace Text.Hex

/-- The digits as they are read, in either case. -/
def readable : List Char :=
  digits ++ ['A', 'B', 'C', 'D', 'E', 'F']

/-- A digit is read as the number that is written as the same digit in lower case. -/
theorem digitValue?_of_mem {c : Char} (h : c ∈ readable) :
    ∃ n < 16, digitValue? (UInt8.ofNat c.toNat) = some n ∧ digit n = c.toLower := by
  -- computed along the list, as there are too many characters to go through all of them
  have hall : (readable.all fun c => decide (∃ n : Nat, n < 16 ∧
      digitValue? (UInt8.ofNat c.toNat) = some n ∧ digit n = c.toLower)) = true := by decide
  exact of_decide_eq_true (List.all_eq_true.1 hall c h)

theorem utf8EncodeChar_of_mem {c : Char} (h : c ∈ readable) :
    String.utf8EncodeChar c = [UInt8.ofNat c.toNat] := by
  have hall : (readable.all fun c =>
      String.utf8EncodeChar c = [UInt8.ofNat c.toNat]) = true := by decide
  exact of_decide_eq_true (List.all_eq_true.1 hall c h)

theorem utf8_of_readable {cs : List Char} (h : ∀ c ∈ cs, c ∈ readable) :
    utf8 (String.ofList cs) = cs.map fun c => UInt8.ofNat c.toNat := by
  rw [utf8_ofList, List.map_eq_flatMap]
  exact List.flatMap_congr fun c hc => utf8EncodeChar_of_mem (h c hc)

/-- No byte of a character of several bytes is a digit, as they are all beyond ASCII. -/
theorem mem_readable_of_bytes {c : Char}
    (h : ∀ b ∈ String.utf8EncodeChar c, digitValue? b ≠ none) : c ∈ readable := by
  have hascii : ∀ n < 128, digitValue? (UInt8.ofNat n) ≠ none → Char.ofNat n ∈ readable := by decide
  have hlead : ∀ n, 128 ≤ n → n < 256 → digitValue? (UInt8.ofNat n) = none := by
    intro n h₁ h₂
    have hn : (UInt8.ofNat n).toNat = n := by
      rw [UInt8.toNat_ofNat']
      omega
    rw [digitValue?, hn, if_neg (by omega), if_neg (by omega), if_neg (by omega)]
  unfold String.utf8EncodeChar at h
  dsimp only at h
  split at h
  · rename_i hv
    have hmem := hascii c.val.toNat (by omega) (h _ List.mem_cons_self)
    rwa [show c.val.toNat = c.toNat from rfl, Char.ofNat_toNat] at hmem
  · split at h
    · exact absurd (hlead _ (by omega) (by omega)) (h _ List.mem_cons_self)
    · split at h <;> exact absurd (hlead _ (by omega) (by omega)) (h _ List.mem_cons_self)

/-! ## Digits in pairs -/

/-- Digits of either case are read as the bytes that are written with them in lower case: by
induction on the pairs of digits. -/
theorem decodeFrom_map (place : Nat) : ∀ {cs : List Char}, (∀ c ∈ cs, c ∈ readable) →
    cs.length % 2 = 0 →
      ∃ bytes, decodeFrom place (cs.map fun c => UInt8.ofNat c.toNat) = .ok bytes ∧
        encodeList bytes = cs.map Char.toLower
  | [], _, _ => ⟨[], rfl, rfl⟩
  | [_], _, heven => by cases heven
  | high :: low :: rest, hcs, heven => by
    obtain ⟨hhigh, hlow, hrest⟩ : high ∈ readable ∧ low ∈ readable ∧ ∀ c ∈ rest, c ∈ readable := by
      simpa using hcs
    obtain ⟨m, hm, hvalue, hdigit⟩ := digitValue?_of_mem hhigh
    obtain ⟨n, hn, hvalue', hdigit'⟩ := digitValue?_of_mem hlow
    have heven : rest.length % 2 = 0 := by simpa [List.length_cons, Nat.add_assoc] using heven
    obtain ⟨bytes, hread, hwritten⟩ := decodeFrom_map (place + 2) hrest heven
    have hbyte : (UInt8.ofNat (16 * m + n)).toNat = 16 * m + n := by
      rw [UInt8.toNat_ofNat']
      omega
    refine ⟨UInt8.ofNat (16 * m + n) :: bytes, ?_, ?_⟩
    · simp only [List.map_cons, decodeFrom, hvalue, hvalue', hread, Except.map]
    · rw [encodeList, List.flatMap_cons, ← encodeList, hwritten, hbyte,
        show (16 * m + n) / 16 = m by omega, show (16 * m + n) % 16 = n by omega, hdigit, hdigit']
      rfl

/-- The first of some bytes that is no digit, and its place. -/
def FirstBad (bytes : Bytes) (d : BadDigit) : Prop :=
  ∃ front rest, bytes = front ++ d.byte :: rest ∧ front.length = d.place ∧
    (∀ b ∈ front, digitValue? b ≠ none) ∧ digitValue? d.byte = none

/-- The first byte that is no digit is reported: by induction on the pairs of bytes. -/
theorem decodeFrom_of_bad (place : Nat) : ∀ {bytes : Bytes},
    (∃ b ∈ bytes, digitValue? b = none) → bytes.length % 2 = 0 →
    ∃ b i, FirstBad bytes ⟨b, i⟩ ∧ decodeFrom place bytes = .error ⟨b, place + i⟩
  | [], hbad, _ => by simp at hbad
  | [_], _, heven => by cases heven
  | high :: low :: rest, hbad, heven => by
    rcases hhigh : digitValue? high with _ | m
    · exact ⟨high, 0, ⟨[], low :: rest, rfl, rfl, by simp, hhigh⟩, by simp [decodeFrom, hhigh]⟩
    · rcases hlow : digitValue? low with _ | n
      · exact ⟨low, 1, ⟨[high], rest, rfl, rfl, by simp [hhigh], hlow⟩,
          by simp [decodeFrom, hhigh, hlow]⟩
      · have heven : rest.length % 2 = 0 := by simpa [List.length_cons, Nat.add_assoc] using heven
        obtain ⟨b, i, ⟨front, rest', rfl, hplace, hfront, hb⟩, hread⟩ :=
          decodeFrom_of_bad (place + 2) (by simpa [hhigh, hlow] using hbad) heven
        refine ⟨b, i + 2, ⟨high :: low :: front, rest', rfl, ?_, ?_, hb⟩, ?_⟩
        · simpa using hplace
        · simpa [hhigh, hlow] using hfront
        · simp only [decodeFrom, hhigh, hlow, hread, Except.map, Nat.add_assoc, Nat.add_comm 2]

end Text.Hex

open Text.Hex (readable FirstBad)

/-- The characters are the 64 digits of a fingerprint, in either case. -/
def Key.IsFingerprint (cs : List Char) : Prop :=
  cs.length = 64 ∧ ∀ c ∈ cs, c ∈ readable

/-- The fault says what keeps characters from being a fingerprint: they have another length in
bytes, or that length and a byte that is no digit. -/
def KeyFault.Describes (cs : List Char) : KeyFault → Prop
  | .badLength length => (utf8 (String.ofList cs)).length = length ∧ length ≠ 64
  | .badDigit digit =>
    (utf8 (String.ofList cs)).length = 64 ∧ FirstBad (utf8 (String.ofList cs)) digit

namespace Key

/-! ## The first dot -/

theorem splitDot_fst (cs : List Char) : (splitDot cs).1 = cs.takeWhile (· ≠ '.') := by
  have hcs := List.takeWhile_append_dropWhile (p := (· ≠ '.')) (l := cs)
  unfold splitDot
  split
  · rename_i hbehind
    rwa [hbehind, List.append_nil, eq_comm] at hcs
  · rfl

theorem splitDot_snd (cs : List Char) :
    ((splitDot cs).2.map ('.' :: ·)).getD [] = cs.dropWhile (· ≠ '.') := by
  have hdot := List.head?_dropWhile_not (· ≠ '.') cs
  unfold splitDot
  split <;> rename_i hbehind <;> rw [hbehind] at hdot ⊢
  · rfl
  · obtain rfl := by simpa using hdot
    rfl

/-! ## Fingerprints -/

/-- Characters whose bytes are 64 digits are 64 digits. -/
theorem isFingerprint_of_bytes {cs : List Char} (hlength : (utf8 (String.ofList cs)).length = 64)
    (hdigits : ∀ b ∈ utf8 (String.ofList cs), Text.Hex.digitValue? b ≠ none) :
    IsFingerprint cs := by
  have hcs : ∀ c ∈ cs, c ∈ readable := fun c hc => Text.Hex.mem_readable_of_bytes fun b hb =>
    hdigits b (by rw [utf8_ofList]; exact List.mem_flatMap.2 ⟨c, hc, hb⟩)
  rw [Text.Hex.utf8_of_readable hcs, List.length_map] at hlength
  exact ⟨hlength, hcs⟩

variable {text : String}

theorem ofText_text (key : Key) : ofText key.text = .ok key := by
  have hdigits : ∀ c ∈ Text.Hex.encodeList key.fingerprint.toList, c ∈ readable := fun c hc =>
    List.mem_append_left _ (Text.Hex.mem_digits_of_mem_encodeList hc)
  have hbytes := Text.Hex.utf8_of_readable hdigits
  have hlength :
      (utf8 (String.ofList (Text.Hex.encodeList key.fingerprint.toList))).length = 64 := by
    rw [hbytes, List.length_map, Text.Hex.length_encodeList, Vector.length_toList]
  have hread : Text.Hex.decode (utf8 (String.ofList (Text.Hex.encodeList key.fingerprint.toList))) =
      .ok key.fingerprint.toList := by
    rw [hbytes, Text.Hex.decode_encode]
  have hsub : (key.subKey.map String.toList).map String.ofList = key.subKey := by
    rw [Option.map_map]
    exact (congrArg (Option.map · key.subKey) (funext fun _ => String.ofList_toList)).trans
      (Option.map_id_apply)
  simp only [ofText, splitDot_text, if_pos hlength, hread, hsub]
  rw [dif_pos key.fingerprint.length_toList]
  rfl

/-- A text with a fingerprint in front of its first dot is read as the key whose text it is, but for
the case of its digits. -/
theorem ofText_of_fingerprint (h : IsFingerprint (text.toList.takeWhile (· ≠ '.'))) :
    ∃ key, ofText text = .ok key ∧
      key.text = String.ofList ((text.toList.takeWhile (· ≠ '.')).map Char.toLower ++
        text.toList.dropWhile (· ≠ '.')) := by
  obtain ⟨hlength, hdigits⟩ := h
  obtain ⟨bytes, hread, hwritten⟩ := Text.Hex.decodeFrom_map 0 hdigits (by rw [hlength])
  rw [← Text.Hex.utf8_of_readable hdigits] at hread
  have hlength' : (utf8 (String.ofList (text.toList.takeWhile (· ≠ '.')))).length = 64 := by
    rw [Text.Hex.utf8_of_readable hdigits, List.length_map, hlength]
  have hbytes : bytes.length = 32 := by
    have := congrArg List.length hwritten
    rw [Text.Hex.length_encodeList, List.length_map, hlength] at this
    omega
  refine ⟨⟨⟨bytes.toArray, by simpa using hbytes⟩,
    (splitDot text.toList).2.map String.ofList⟩, ?_, ?_⟩
  · simp only [ofText, splitDot_fst, if_pos hlength', Text.Hex.decode, hread, dif_pos hbytes]
  · rw [← String.toList_inj, toList_text, String.toList_ofList, ← splitDot_snd, ← hwritten,
      Option.map_map]
    simp [Function.comp_def]

theorem ofText_of_not_fingerprint (h : ¬ IsFingerprint (text.toList.takeWhile (· ≠ '.'))) :
    ∃ fault, ofText text = .error fault ∧
      fault.Describes (text.toList.takeWhile (· ≠ '.')) := by
  by_cases hlength : (utf8 (String.ofList (text.toList.takeWhile (· ≠ '.')))).length = 64
  · have hbad : ∃ b ∈ utf8 (String.ofList (text.toList.takeWhile (· ≠ '.'))),
        Text.Hex.digitValue? b = none := by
      by_contra hgood
      exact h (isFingerprint_of_bytes hlength fun b hb hn => hgood ⟨b, hb, hn⟩)
    obtain ⟨b, i, hfirst, hread⟩ := Text.Hex.decodeFrom_of_bad 0 hbad (by rw [hlength])
    refine ⟨.badDigit ⟨b, i⟩, ?_, hlength, hfirst⟩
    simp only [ofText, splitDot_fst, if_pos hlength, Text.Hex.decode, hread, Nat.zero_add]
  · refine ⟨.badLength _, ?_, rfl, hlength⟩
    simp only [ofText, splitDot_fst, if_neg hlength]

/-- The text of a key is a faithful name of it. It is read as the key, so different keys have
different texts. A text is read exactly if a fingerprint stands in front of its first dot, or is all
of it if there is no dot; it is then the text of the key, up to the case of the fingerprint's
digits, and otherwise the fault says why there is no fingerprint. -/
theorem text_names_key :
    (∀ key : Key, ofText key.text = .ok key) ∧
    Function.Injective Key.text ∧
    ∀ text : String,
      let front := text.toList.takeWhile (· ≠ '.')
      let behind := text.toList.dropWhile (· ≠ '.')
      match ofText text with
      | .ok key =>
        IsFingerprint front ∧ key.text = String.ofList (front.map Char.toLower ++ behind)
      | .error fault => ¬ IsFingerprint front ∧ fault.Describes front := by
  refine ⟨ofText_text, text_injective, fun text => ?_⟩
  dsimp only
  by_cases hfront : IsFingerprint (text.toList.takeWhile (· ≠ '.'))
  · obtain ⟨key, hread, htext⟩ := ofText_of_fingerprint hfront
    rw [hread]
    exact ⟨hfront, htext⟩
  · obtain ⟨fault, hread, hfault⟩ := ofText_of_not_fingerprint hfront
    rw [hread]
    exact ⟨hfront, hfault⟩

end Key

end Falsify
