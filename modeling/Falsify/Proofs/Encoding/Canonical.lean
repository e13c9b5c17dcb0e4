import Mathlib.Data.List.Induction
import Falsify.Encoding

/-!
# The binary format is canonical

Reading accepts exactly what writing produces. Each reader has one law, an
equivalence that says which bytes it accepts and what it leaves of them
(`readBytes_eq_ok_iff`, `readDraw_eq_ok_iff`, `readDraws_eq_ok_iff`), so that
the law of the whole format follows in both directions at once:

* `deserialize_serialize`, `eq_serialize_of_deserialize`: the two directions;
* `deserialize_eq_ok_iff`: a sequence is read from a byte string if and only if
  it is well formed, its length fits the header, and the bytes are its own.
-/

namespace Falsify

/-! ## Numbers -/

theorem ofBigEndian_lt (bytes : Bytes) : ofBigEndian bytes < 256 ^ bytes.length := by
  induction bytes using List.reverseRecOn with
  | nil => decide
  | append_singleton front last ih =>
    have hl := last.toNat_lt
    rw [ofBigEndian_append, List.length_append, List.length_singleton, Nat.pow_succ]
    omega

/-- Writing a number at the width that it was read from gives its bytes back. -/
theorem bigEndian_ofBigEndian (bytes : Bytes) :
    bigEndian bytes.length (ofBigEndian bytes) = bytes := by
  induction bytes using List.reverseRecOn with
  | nil => rfl
  | append_singleton front last ih =>
    have hl := last.toNat_lt
    rw [ofBigEndian_append, List.length_append, List.length_singleton, bigEndian,
      show (ofBigEndian front * 256 + last.toNat) / 256 = ofBigEndian front by omega, ih]
    refine congrArg (front ++ [·]) (UInt8.toNat_inj.1 ?_)
    rw [UInt8.toNat_ofNat']
    omega

/-- Writing and reading a number are inverse, at the width of the bytes and for the numbers that
they hold. -/
theorem eq_bigEndian_iff {width n : Nat} {bytes : Bytes} :
    bytes.length = width ∧ ofBigEndian bytes = n ↔ n < 256 ^ width ∧ bytes = bigEndian width n := by
  constructor
  · rintro ⟨rfl, rfl⟩
    exact ⟨ofBigEndian_lt bytes, (bigEndian_ofBigEndian bytes).symm⟩
  · rintro ⟨hn, rfl⟩
    exact ⟨length_bigEndian width n, by rw [ofBigEndian_bigEndian, Nat.mod_eq_of_lt hn]⟩

namespace Encoding

/-! ## Readers -/

theorem bind_eq_ok_iff {ε α β : Type} {x : Except ε α} {f : α → Except ε β} {b : β} :
    (x >>= f) = .ok b ↔ ∃ a, x = .ok a ∧ f a = .ok b := by
  cases x <;> simp [bind, Except.bind]

/-- What stands behind a test that refuses is reached if the test does not apply. -/
theorem refuse_eq_ok_iff {ε α β : Type} {c : Prop} [Decidable c] {e : ε} {f : α → Except ε β}
    {x : Except ε β} {b : β} : (if c then throw e >>= f else x) = .ok b ↔ ¬ c ∧ x = .ok b := by
  by_cases h : c
  · rw [if_pos h]
    exact ⟨nofun, fun h' => absurd h h'.1⟩
  · simp [h]

theorem accept_eq_ok_iff {ε α : Type} {c : Prop} [Decidable c] {e : ε} {a b : α} :
    (if c then pure a else throw e : Except ε α) = .ok b ↔ c ∧ a = b := by
  by_cases h : c
  · simp [h, pure, Except.pure]
  · rw [if_neg h]
    exact ⟨nofun, fun h' => absurd h'.1 h⟩

theorem readByte_eq_ok_iff {bytes rest : Bytes} {b : UInt8} :
    readByte bytes = .ok (b, rest) ↔ bytes = b :: rest := by
  cases bytes <;> simp [readByte]

theorem readBytes_eq_ok_iff {n : Nat} {bytes front rest : Bytes} :
    readBytes n bytes = .ok (front, rest) ↔ front.length = n ∧ bytes = front ++ rest := by
  unfold readBytes
  constructor
  · split
    · rename_i h
      simp only [Except.ok.injEq, Prod.mk.injEq]
      rintro ⟨rfl, rfl⟩
      exact ⟨h, (List.take_append_drop n bytes).symm⟩
    · simp
  · rintro ⟨rfl, rfl⟩
    simp

theorem two_pow_le_valueWidth (bits : UInt8) : 2 ^ bits.toNat ≤ 256 ^ valueWidth bits := by
  rw [show (256 : Nat) = 2 ^ 8 from rfl, ← Nat.pow_mul]
  refine Nat.pow_le_pow_right (by decide) ?_
  unfold valueWidth
  omega

/-- A draw is read from exactly the bytes that are written for a well-formed one. -/
theorem readDraw_eq_ok_iff {bytes rest : Bytes} {d : Draw} :
    readDraw bytes = .ok (d, rest) ↔ d.WellFormed ∧ bytes = serializeDraw d ++ rest := by
  simp only [readDraw, bind_eq_ok_iff, refuse_eq_ok_iff, accept_eq_ok_iff, Prod.exists,
    readByte_eq_ok_iff, readBytes_eq_ok_iff]
  constructor
  · rintro ⟨bits, _, rfl, hb, digits, _, ⟨hl, rfl⟩, hv, ⟨⟩⟩
    obtain ⟨-, hd⟩ := eq_bigEndian_iff.1 ⟨hl, rfl⟩
    have hb : bits ≤ 64 := UInt8.not_lt.1 hb
    have h64 : 2 ^ bits.toNat ≤ 2 ^ 64 :=
      Nat.pow_le_pow_right (by decide) (UInt8.le_iff_toNat_le.1 hb)
    have hn : (UInt64.ofNat (ofBigEndian digits)).toNat = ofBigEndian digits :=
      UInt64.toNat_ofNat_of_lt' (Nat.lt_of_lt_of_le hv h64)
    refine ⟨⟨hb, hn.symm ▸ hv⟩, ?_⟩
    rw [serializeDraw, hn, ← hd]
    rfl
  · rintro ⟨⟨hb, hv⟩, rfl⟩
    obtain ⟨hl, hn⟩ := eq_bigEndian_iff.2
      ⟨Nat.lt_of_lt_of_le hv (two_pow_le_valueWidth d.width), rfl⟩
    refine ⟨d.width, _, rfl, UInt8.not_lt.2 hb, _, rest, ⟨hl, rfl⟩, hn.symm ▸ hv, ?_⟩
    rw [hn, UInt64.ofNat_toNat]

/-- So many draws are read from exactly the bytes that are written for so many well-formed ones. -/
theorem readDraws_eq_ok_iff {count : Nat} {bytes rest : Bytes} {s : Draws} :
    readDraws count bytes = .ok (s, rest) ↔
      s.WellFormed ∧ s.length = count ∧ bytes = s.flatMap serializeDraw ++ rest := by
  induction count generalizing bytes s with
  | zero =>
    simp only [readDraws, Except.ok.injEq, Prod.mk.injEq, List.length_eq_zero_iff]
    constructor
    · rintro ⟨rfl, rfl⟩
      exact ⟨by simp [Draws.WellFormed], rfl, rfl⟩
    · rintro ⟨-, rfl, rfl⟩
      exact ⟨rfl, rfl⟩
  | succ count ih =>
    simp only [readDraws, bind_eq_ok_iff, Prod.exists, readDraw_eq_ok_iff]
    constructor
    · rintro ⟨d, _, ⟨hd, rfl⟩, t, _, h, ⟨⟩⟩
      obtain ⟨ht, rfl, rfl⟩ := ih.1 h
      refine ⟨List.forall_mem_cons.2 ⟨hd, ht⟩, rfl, ?_⟩
      rw [List.flatMap_cons, List.append_assoc]
    · rintro ⟨hs, hl, rfl⟩
      obtain ⟨d, t, rfl⟩ := List.exists_cons_of_length_eq_add_one hl
      obtain ⟨hd, ht⟩ := List.forall_mem_cons.1 hs
      refine ⟨d, _, ⟨hd, ?_⟩, t, rest, ih.2 ⟨ht, Nat.succ.inj hl, rfl⟩, rfl⟩
      rw [List.flatMap_cons, List.append_assoc]

/-! ## Whole sequences -/

/-- A sequence has no more draws than bytes behind the header. -/
theorem length_le_length_serialize (s : Draws) :
    s.length ≤ (serialize s).length - headerLength := by
  rw [length_serialize, encodedLength, Nat.add_sub_cancel_left]
  induction s with
  | nil => exact Nat.le_refl 0
  | cons d s ih =>
    rw [List.map_cons, List.sum_cons, List.length_cons]
    omega

/-- What is written can be read. -/
theorem deserialize_serialize {s : Draws} (hs : s.WellFormed) (hl : s.length < 2 ^ 32) :
    deserialize (serialize s) = .ok s := by
  obtain ⟨hc, hn⟩ := eq_bigEndian_iff.2 ⟨show s.length < 256 ^ 4 from hl, rfl⟩
  simp only [deserialize, bind_eq_ok_iff, refuse_eq_ok_iff, accept_eq_ok_iff, Prod.exists,
    readByte_eq_ok_iff, readBytes_eq_ok_iff, readDraws_eq_ok_iff]
  refine ⟨marker, _, ⟨rfl, List.append_assoc _ _ _⟩, by simp, formatVersion, _, rfl, by simp,
    bigEndian 4 s.length, _, ⟨hc, rfl⟩, ?_, s, [], ⟨hs, hn.symm, (List.append_nil _).symm⟩, rfl, rfl⟩
  rw [hn]
  exact Nat.not_lt.2 (length_le_length_serialize s)

/-- What can be read is what is written for it. -/
theorem eq_serialize_of_deserialize {bytes : Bytes} {s : Draws} (h : deserialize bytes = .ok s) :
    s.WellFormed ∧ s.length < 2 ^ 32 ∧ bytes = serialize s := by
  simp only [deserialize, bind_eq_ok_iff, refuse_eq_ok_iff, accept_eq_ok_iff, Prod.exists,
    readByte_eq_ok_iff, readBytes_eq_ok_iff, readDraws_eq_ok_iff] at h
  obtain ⟨found, _, ⟨-, rfl⟩, hm, version, _, rfl, hv, digits, _, ⟨hl, rfl⟩, -, _, rest,
    ⟨hs, hn, rfl⟩, hr, rfl⟩ := h
  obtain ⟨hc, hd⟩ := eq_bigEndian_iff.1 ⟨hl, hn.symm⟩
  refine ⟨hs, hc, ?_⟩
  rw [serialize, ← hd, Decidable.not_not.1 hm, Decidable.not_not.1 hv, List.isEmpty_iff.1 hr,
    List.append_nil, List.append_assoc]
  rfl

/-- The format is canonical: a sequence is read from a byte string if and only if it is well formed,
the header can hold its length, and the bytes are those written for it, which are as many as
foretold. -/
theorem deserialize_eq_ok_iff (bytes : Bytes) (s : Draws) :
    (deserialize bytes = .ok s ↔ s.WellFormed ∧ s.length < 2 ^ 32 ∧ bytes = serialize s) ∧
      encodedLength s = (serialize s).length := by
  refine ⟨⟨eq_serialize_of_deserialize, ?_⟩, (length_serialize s).symm⟩
  rintro ⟨hs, hl, rfl⟩
  exact deserialize_serialize hs hl

end Encoding

end Falsify
