import Falsify.Proofs.Encoding.Canonical
import Falsify.Proofs.Text.Base64

/-!
# Tokens read back

* `utf8_asciiText`: a text of ASCII bytes has these bytes;
* `trim_asciiText`: trimming leaves a text alone that has no blanks;
* `decodeToken_encodeToken`: the token of a sequence stands for that sequence;
* `decodeToken_eq_ok_iff`: up to blanks around it no other text does.
-/

namespace Falsify

/-! ## Texts of ASCII bytes -/

theorem toList_loop (bytes : ByteArray) (i : Nat) (r : List UInt8) :
    ByteArray.toList.loop bytes i r = r.reverse ++ bytes.data.toList.drop i := by
  fun_induction ByteArray.toList.loop bytes i r with
  | case1 i r h ih =>
    have hi : i < bytes.data.toList.length := h
    have hg : bytes.get! i = bytes.data.toList[i] := getElem!_pos bytes.data i h
    rw [ih, List.reverse_cons, List.append_assoc, List.drop_eq_getElem_cons hi, hg]
    rfl
  | case2 i r h =>
    have hi : bytes.data.toList.length ≤ i := Nat.not_lt.1 h
    rw [List.drop_eq_nil_of_le hi, List.append_nil]

theorem toList_toByteArray (bytes : Bytes) : bytes.toByteArray.toList = bytes := by
  rw [ByteArray.toList, toList_loop, List.toList_data_toByteArray]
  rfl

theorem toList_toUTF8 (text : String) : text.toUTF8.toList = text.toByteArray.data.toList := by
  rw [ByteArray.toList, toList_loop]
  rfl

/-- A text is determined by its bytes. -/
theorem utf8_injective {s t : String} (h : utf8 s = utf8 t) : s = t := by
  rw [utf8, utf8, toList_toUTF8, toList_toUTF8, Array.toList_inj] at h
  exact String.toByteArray_inj.1 (ByteArray.ext h)

theorem toNat_ofNat_of_lt {n : Nat} (h : n < 128) : (Char.ofNat n).toNat = n := by
  have : ∀ n < 128, (Char.ofNat n).toNat = n := by decide
  exact this n h

theorem utf8_asciiText {bytes : Bytes} (h : ∀ b ∈ bytes, b.toNat < 128) :
    utf8 (asciiText bytes) = bytes := by
  rw [utf8, asciiText, String.toUTF8_eq_toByteArray, String.toByteArray_ofList, List.utf8Encode,
    toList_toByteArray, List.flatMap_map]
  induction bytes with
  | nil => rfl
  | cons b rest ih =>
    have hb := h b List.mem_cons_self
    have hv : (Char.ofNat b.toNat).val.toNat = b.toNat := toNat_ofNat_of_lt hb
    rw [List.flatMap_cons, ih fun x hx => h x (List.mem_cons_of_mem _ hx), String.utf8EncodeChar,
      hv, if_pos (by omega), UInt8.ofNat_toNat]
    rfl

namespace Text

theorem dropWhile_isBlank {cs : List Char} (h : ∀ c ∈ cs, isBlank c = false) :
    cs.dropWhile isBlank = cs := by
  cases cs with
  | nil => rfl
  | cons c rest => rw [List.dropWhile_cons, if_neg (by rw [h c List.mem_cons_self]; decide)]

theorem trim_ofList {cs : List Char} (h : ∀ c ∈ cs, isBlank c = false) :
    trim (String.ofList cs) = String.ofList cs := by
  rw [trim, trimList, String.toList_ofList, dropWhile_isBlank h,
    dropWhile_isBlank fun c hc => h c (List.mem_reverse.1 hc), List.reverse_reverse]

/-- A symbol is an ASCII character and no blank. -/
theorem Base64.symbol_spec {n : Nat} (h : n < 64) :
    (Base64.symbol n).toNat < 128 ∧ isBlank (Char.ofNat (Base64.symbol n).toNat) = false := by
  have : ∀ n < 64, (Base64.symbol n).toNat < 128 ∧
      isBlank (Char.ofNat (Base64.symbol n).toNat) = false := by decide
  exact this n h

end Text

/-! ## Tokens -/

/-- Trimming leaves a token alone. -/
theorem trim_encodeToken (s : Draws) : Text.trim (encodeToken s) = encodeToken s := by
  refine Text.trim_ofList fun c hc => ?_
  obtain ⟨x, hx, rfl⟩ := List.mem_map.1 hc
  obtain ⟨n, hn, rfl⟩ := Text.Base64.exists_symbol_of_mem_encode hx
  exact (Text.Base64.symbol_spec hn).2

theorem utf8_encodeToken (s : Draws) :
    utf8 (encodeToken s) = Text.Base64.encode (Encoding.serialize s) := by
  refine utf8_asciiText fun x hx => ?_
  obtain ⟨n, hn, rfl⟩ := Text.Base64.exists_symbol_of_mem_encode hx
  exact (Text.Base64.symbol_spec hn).1

/-- The token of a sequence stands for that sequence. -/
theorem decodeToken_encodeToken {s : Draws} (hs : s.WellFormed) (hl : s.length < 2 ^ 32) :
    decodeToken (encodeToken s) = .ok s := by
  rw [decodeToken, trim_encodeToken, utf8_encodeToken, Text.Base64.decode_encode]
  exact Encoding.deserialize_serialize hs hl

/-- Tokens are canonical: a text stands for a sequence exactly if it is the token of that sequence,
up to the blanks around it. -/
theorem decodeToken_eq_ok_iff (token : String) (s : Draws) :
    decodeToken token = .ok s ↔
      s.WellFormed ∧ s.length < 2 ^ 32 ∧ Text.trim token = encodeToken s := by
  constructor
  · intro h
    rw [decodeToken] at h
    split at h
    · cases h
    · rename_i bytes hb
      obtain ⟨hs, hl, rfl⟩ := (Encoding.deserialize_eq_ok_iff bytes s).1.1 h
      refine ⟨hs, hl, utf8_injective ?_⟩
      rw [utf8_encodeToken]
      exact Text.Base64.decode_eq_ok_iff.1 hb
  · rintro ⟨hs, hl, ht⟩
    rw [decodeToken, ht, utf8_encodeToken, Text.Base64.decode_encode]
    exact Encoding.deserialize_serialize hs hl

end Falsify
