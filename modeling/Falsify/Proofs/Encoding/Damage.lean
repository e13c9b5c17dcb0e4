import Mathlib.Tactic.IntervalCases
import Falsify.Proofs.Encoding.Canonical

/-!
# Damaged encodings

Bytes that were cut off, or that something was added to, are no encoded sequence, and reading says
so: they are malformed, whatever the place of the cut, and never of another version or another
sequence. Within the header reading runs out of bytes. Behind it the number of draws is known: fewer
bytes than draws are refused at once (`deserialize_header`), and otherwise some draw is cut.

* `deserialize_take`: what is wrong with the front of an encoding;
* `deserialize_append`: and with an encoding that goes on;
* `damage_malformed`: the theorem; no encoding is the front of another one.
-/

namespace Falsify.Encoding

/-! ## Readers at the end of the bytes -/

theorem bind_of_error {ε α β : Type} {x : Except ε α} {e : ε} (h : x = .error e)
    (f : α → Except ε β) : x >>= f = .error e := by
  rw [h]
  rfl

theorem bind_of_ok {ε α β : Type} {x : Except ε α} {a : α} (h : x = .ok a)
    (f : α → Except ε β) : x >>= f = f a := by
  rw [h]
  rfl

theorem readBytes_of_length_lt {n : Nat} {bytes : Bytes} (h : bytes.length < n) :
    readBytes n bytes = .error (.malformed .truncated) :=
  if_neg (by rw [List.length_take]; omega)

/-- A draw that is cut, in front of its width or within its value. -/
theorem readDraw_take {d : Draw} (hd : d.WellFormed) {n : Nat} (hn : n < (serializeDraw d).length) :
    readDraw ((serializeDraw d).take n) = .error (.malformed .truncated) := by
  cases n with
  | zero => rfl
  | succ n =>
    have hshort : ((bigEndian (valueWidth d.width) d.value.toNat).take n).length <
        valueWidth d.width := by
      rw [length_serializeDraw] at hn
      rw [List.length_take, length_bigEndian]
      omega
    have hwidth : ¬ d.width > 64 := UInt8.not_lt.2 hd.1
    rw [serializeDraw, List.take_succ_cons, readDraw, bind_of_ok (readByte_eq_ok_iff.2 rfl)]
    dsimp only
    rw [if_neg hwidth]
    exact bind_of_error (readBytes_of_length_lt hshort) _

/-- Draws of which some are missing or one is cut: by induction on the draws. -/
theorem readDraws_take {s : Draws} (hs : s.WellFormed) {n : Nat}
    (hn : n < (s.flatMap serializeDraw).length) :
    readDraws s.length ((s.flatMap serializeDraw).take n) = .error (.malformed .truncated) := by
  induction s generalizing n with
  | nil => exact absurd hn (Nat.not_lt_zero n)
  | cons d s ih =>
    obtain ⟨hd, hs⟩ := List.forall_mem_cons.1 hs
    rw [List.flatMap_cons, List.length_append] at hn
    rw [List.flatMap_cons, List.length_cons, readDraws]
    by_cases hcut : n < (serializeDraw d).length
    · rw [List.take_append_of_le_length (Nat.le_of_lt hcut)]
      exact bind_of_error (readDraw_take hd hcut) _
    · rw [List.take_append, List.take_of_length_le (Nat.not_lt.1 hcut),
        bind_of_ok (readDraw_eq_ok_iff.2 ⟨hd, rfl⟩)]
      exact bind_of_error (ih hs (by omega)) _

/-! ## Whole sequences -/

/-- The header of a sequence of so many draws. -/
def header (count : Nat) : Bytes :=
  marker ++ formatVersion :: bigEndian 4 count

theorem length_header (count : Nat) : (header count).length = headerLength := by
  rw [header, List.length_append, List.length_cons, length_bigEndian]
  rfl

theorem serialize_eq (s : Draws) : serialize s = header s.length ++ s.flatMap serializeDraw := rfl

/-- Behind a header there are to be at least as many bytes as draws, and the draws and nothing
else. -/
theorem deserialize_header {count : Nat} (hc : count < 2 ^ 32) (bytes : Bytes) :
    deserialize (header count ++ bytes) =
      if count > bytes.length then .error (.malformed (.tooFewBytes count bytes.length))
      else readDraws count bytes >>= fun
        | (draws, rest) =>
          if rest.isEmpty then pure draws else throw (.malformed .trailing) := by
  obtain ⟨hlength, hcount⟩ := eq_bigEndian_iff.2 ⟨show count < 256 ^ 4 from hc, rfl⟩
  have hfollow : (header count ++ bytes).length - headerLength = bytes.length := by
    rw [List.length_append, length_header, Nat.add_sub_cancel_left]
  have hmarker : readBytes 2 (header count ++ bytes) =
      .ok (marker, formatVersion :: (bigEndian 4 count ++ bytes)) :=
    readBytes_eq_ok_iff.2 ⟨rfl, List.append_assoc _ _ _⟩
  have hdigits : readBytes 4 (bigEndian 4 count ++ bytes) = .ok (bigEndian 4 count, bytes) :=
    readBytes_eq_ok_iff.2 ⟨hlength, rfl⟩
  rw [deserialize, bind_of_ok hmarker]
  dsimp only
  rw [if_neg (by simp), bind_of_ok (readByte_eq_ok_iff.2 rfl)]
  dsimp only
  rw [if_neg (by simp), bind_of_ok hdigits, hfollow, hcount]
  rfl

theorem deserialize_take_header (count : Nat) {n : Nat} (hn : n < headerLength) :
    deserialize ((header count).take n) = .error (.malformed .truncated) := by
  obtain ⟨a, b, c, d, hdigits⟩ : ∃ a b c d, bigEndian 4 count = [a, b, c, d] := ⟨_, _, _, _, rfl⟩
  rw [header, hdigits]
  rw [headerLength] at hn
  interval_cases n <;> rfl

/-- The front of an encoding ends within the header or within a draw, or has fewer bytes behind the
header than there should be draws. -/
theorem deserialize_take {s : Draws} (hs : s.WellFormed) (hl : s.length < 2 ^ 32) {n : Nat}
    (hn : n < (serialize s).length) :
    deserialize ((serialize s).take n) = .error (.malformed
      (if n < headerLength ∨ s.length ≤ n - headerLength then .truncated
        else .tooFewBytes s.length (n - headerLength))) := by
  have hheader := length_header s.length
  rw [serialize_eq, List.length_append, hheader] at hn
  rw [serialize_eq]
  by_cases hcut : n < headerLength
  · rw [if_pos (.inl hcut), List.take_append_of_le_length (by omega)]
    exact deserialize_take_header s.length hcut
  · have hrest : ((s.flatMap serializeDraw).take (n - headerLength)).length = n - headerLength := by
      rw [List.length_take]
      omega
    rw [List.take_append, List.take_of_length_le (by omega), hheader, deserialize_header hl, hrest]
    by_cases hfew : s.length > n - headerLength
    · rw [if_pos hfew, if_neg (by omega)]
    · rw [if_neg hfew, if_pos (.inr (Nat.not_lt.1 hfew))]
      exact bind_of_error (readDraws_take hs (by omega)) _

/-- What follows an encoding is trailing. -/
theorem deserialize_append {s : Draws} (hs : s.WellFormed) (hl : s.length < 2 ^ 32) {rest : Bytes}
    (hr : rest ≠ []) : deserialize (serialize s ++ rest) = .error (.malformed .trailing) := by
  have hcount : ¬ s.length > (s.flatMap serializeDraw ++ rest).length := by
    have := length_le_length_serialize s
    rw [serialize_eq, List.length_append, length_header] at this
    rw [List.length_append]
    omega
  rw [serialize_eq, List.append_assoc, deserialize_header hl, if_neg hcount,
    bind_of_ok (readDraws_eq_ok_iff.2 ⟨hs, rfl, rfl⟩)]
  dsimp only
  rw [if_neg (by simpa using hr)]
  rfl

/-- Damage is recognised: an encoding is read as its sequence, but cut off anywhere it is malformed,
and so it is with bytes added. So no encoding is the front of another one. -/
theorem damage_malformed {s : Draws} (hs : s.WellFormed) (hl : s.length < 2 ^ 32) :
    deserialize (serialize s) = .ok s ∧
    (∀ front, front <+: serialize s → front ≠ serialize s →
      ∃ cause, deserialize front = .error (.malformed cause)) ∧
    (∀ rest, rest ≠ [] → ∃ cause, deserialize (serialize s ++ rest) = .error (.malformed cause)) ∧
    ∀ t : Draws, t.WellFormed → t.length < 2 ^ 32 → serialize t <+: serialize s → t = s := by
  have hwhole := deserialize_serialize hs hl
  have hcut : ∀ front, front <+: serialize s → front ≠ serialize s →
      ∃ cause, deserialize front = .error (.malformed cause) := by
    intro front hfront hne
    have hn : front.length < (serialize s).length :=
      Nat.lt_of_le_of_ne hfront.length_le fun h => hne (hfront.eq_of_length h)
    rw [List.prefix_iff_eq_take.1 hfront]
    exact ⟨_, deserialize_take hs hl hn⟩
  refine ⟨hwhole, hcut, fun rest hr => ⟨_, deserialize_append hs hl hr⟩, fun t ht htl hfront => ?_⟩
  have hread := deserialize_serialize ht htl
  by_cases he : serialize t = serialize s
  · rw [he, hwhole] at hread
    exact (Except.ok.inj hread).symm
  · obtain ⟨cause, hcause⟩ := hcut _ hfront he
    cases hread.symm.trans hcause

theorem damage_malformed_fourDraws :
    let s : Draws := [⟨10, 1000⟩, ⟨1, 1⟩, ⟨64, 0xFFFFFFFFFFFFFFF8⟩, ⟨0, 0⟩]
    s.WellFormed ∧ s.length < 2 ^ 32 ∧ deserialize (serialize s) = .ok s ∧
      (serialize s).take 14 <+: serialize s ∧ (serialize s).take 14 ≠ serialize s ∧
      (∃ cause, deserialize ((serialize s).take 14) = .error (.malformed cause)) ∧
      (∃ cause, deserialize (serialize s ++ [0]) = .error (.malformed cause)) ∧
      ¬ serialize [⟨10, 1000⟩] <+: serialize s := by
  intro s
  have hs : s.WellFormed := by decide
  have hfront : (serialize s).take 14 ≠ serialize s := by decide
  obtain ⟨hwhole, hcut, hmore, hfree⟩ := damage_malformed hs (by decide)
  exact ⟨hs, by decide, hwhole, List.take_prefix _ _, hfront, hcut _ (List.take_prefix _ _) hfront,
    hmore [0] (by decide),
    fun h => absurd (hfree [⟨10, 1000⟩] (by decide) (by decide) h) (by decide)⟩

end Falsify.Encoding
