import Falsify.Text.Base64

/-!
# Base64 reads back

* `symbolValue?_symbol`: a symbol stands for the six bits that it was made for;
* `joinQuad_symbols`: four groups of six bits are three bytes;
* `decodeFrom_symbols`: up to four symbols are read as the last group;
* `decode_encode`: reading what was written gives the byte string back, by recursion on
  writing, three bytes at a time;
* `decode_eq_ok_iff`: nothing else is read as this byte string, by recursion on reading.
-/

namespace Falsify.Text.Base64

/-! ## Symbols -/

theorem symbolValue?_symbol {n : Nat} (h : n < 64) : symbolValue? (symbol n) = some n := by
  have : ∀ n < 64, symbolValue? (symbol n) = some n := by decide
  exact this n h

theorem symbol_ne_padByte {n : Nat} (h : n < 64) : symbol n ≠ padByte := by
  have : ∀ n < 64, symbol n ≠ padByte := by decide
  exact this n h

/-- Every byte that is written is a symbol. -/
theorem exists_symbol_of_mem_encode {x : UInt8} : ∀ {bytes : Bytes}, x ∈ encode bytes →
    ∃ n < 64, x = symbol n
  | a :: b :: c :: rest, h => by
    have ha := a.toNat_lt
    have hb := b.toNat_lt
    have hc := c.toNat_lt
    simp only [encode, List.mem_cons] at h
    rcases h with rfl | rfl | rfl | rfl | h
    · exact ⟨_, by omega, rfl⟩
    · exact ⟨_, by omega, rfl⟩
    · exact ⟨_, by omega, rfl⟩
    · exact ⟨_, by omega, rfl⟩
    · exact exists_symbol_of_mem_encode h
  | [a, b], h => by
    have ha := a.toNat_lt
    have hb := b.toNat_lt
    simp only [encode, List.mem_cons, List.not_mem_nil, or_false] at h
    rcases h with rfl | rfl | rfl
    · exact ⟨_, by omega, rfl⟩
    · exact ⟨_, by omega, rfl⟩
    · exact ⟨_, by omega, rfl⟩
  | [a], h => by
    have ha := a.toNat_lt
    simp only [encode, List.mem_cons, List.not_mem_nil, or_false] at h
    rcases h with rfl | rfl
    · exact ⟨_, by omega, rfl⟩
    · exact ⟨_, by omega, rfl⟩
  | [], h => by cases h

theorem encode_ne_nil {bytes : Bytes} (h : bytes ≠ []) : encode bytes ≠ [] := by
  match bytes with
  | [] => exact absurd rfl h
  | [_] => exact List.cons_ne_nil _ _
  | [_, _] => exact List.cons_ne_nil _ _
  | _ :: _ :: _ :: _ => exact List.cons_ne_nil _ _

/-! ## Groups -/

theorem joinQuad_symbols (a b c : UInt8) :
    let n := a.toNat * 65536 + b.toNat * 256 + c.toNat
    joinQuad (n / 262144) (n / 4096 % 64) (n / 64 % 64) (n % 64) = [a, b, c] := by
  intro n
  have ha := a.toNat_lt
  have hb := b.toNat_lt
  have hc := c.toNat_lt
  have hn : n / 262144 * 262144 + n / 4096 % 64 * 4096 + n / 64 % 64 * 64 + n % 64 = n := by
    omega
  have h₁ : n / 65536 = a.toNat := by omega
  have h₂ : n / 256 % 256 = b.toNat := by omega
  have h₃ : n % 256 = c.toNat := by omega
  simp only [joinQuad, hn, h₁, h₂, h₃, UInt8.ofNat_toNat]

/-- A symbol is read as part of the last group. -/
theorem readTail_symbol {n : Nat} (h : n < 64) (start i : Nat) (values : List Nat) (last : UInt8)
    (rest : Bytes) :
    readTail start i ⟨values, last, none⟩ (symbol n :: rest) =
      readTail start (i + 1) ⟨values ++ [n], symbol n, none⟩ rest := by
  rw [readTail, if_neg (symbol_ne_padByte h), symbolValue?_symbol h]

theorem readTail_symbols {l : List Nat} (h : ∀ n ∈ l, n < 64) (start i : Nat) (values : List Nat)
    (last : UInt8) : ∃ last', readTail start i ⟨values, last, none⟩ (l.map symbol) =
      .ok ⟨values ++ l, last', none⟩ := by
  induction l generalizing i values last with
  | nil => exact ⟨last, by rw [List.map_nil, readTail, List.append_nil]⟩
  | cons n l ih =>
    obtain ⟨last', h'⟩ :=
      ih (fun m hm => h m (List.mem_cons_of_mem _ hm)) (i + 1) (values ++ [n]) (symbol n)
    refine ⟨last', ?_⟩
    rw [List.map_cons, readTail_symbol (h n List.mem_cons_self), h', List.append_assoc,
      List.singleton_append]

/-- What is left of a text of symbols once there are at most four is the last group. -/
theorem decodeFrom_symbols {l : List Nat} (h : ∀ n ∈ l, n < 64) (hl : l.length ≤ 4) (start : Nat) :
    ∃ last, decodeFrom start (l.map symbol) = finishTail start ⟨l, last, none⟩ := by
  obtain ⟨last, h'⟩ := readTail_symbols h start 0 [] 0
  refine ⟨last, ?_⟩
  rw [decodeFrom, h']
  · rfl
  · intro a b c d e rest he
    have := congrArg List.length he
    rw [List.length_map] at this
    simp only [List.length_cons] at this
    omega

/-! ## Byte strings -/

theorem decodeFrom_encode_one (start : Nat) (a : UInt8) :
    decodeFrom start (encode [a]) = .ok [a] := by
  have ha := a.toNat_lt
  obtain ⟨last, h⟩ := decodeFrom_symbols (l := [a.toNat * 16 / 64, a.toNat * 16 % 64])
    (by simp only [List.forall_mem_cons]; exact ⟨by omega, by omega, by simp⟩) (by simp) start
  have h₀ : a.toNat * 16 % 64 % 16 = 0 := by omega
  have h₁ : (a.toNat * 16 / 64 * 262144 + a.toNat * 16 % 64 * 4096 + 0 * 64 + 0) / 65536 =
      a.toNat := by omega
  refine h.trans ?_
  show (if a.toNat * 16 % 64 % 16 = 0 then _ else _) = _
  rw [if_pos h₀, joinQuad, h₁, UInt8.ofNat_toNat]
  rfl

theorem decodeFrom_encode_two (start : Nat) (a b : UInt8) :
    decodeFrom start (encode [a, b]) = .ok [a, b] := by
  have ha := a.toNat_lt
  have hb := b.toNat_lt
  obtain ⟨n, hn⟩ : ∃ n, n = a.toNat * 1024 + b.toNat * 4 := ⟨_, rfl⟩
  obtain ⟨last, h⟩ := decodeFrom_symbols (l := [n / 4096, n / 64 % 64, n % 64])
    (by simp only [List.forall_mem_cons]; exact ⟨by omega, by omega, by omega, by simp⟩)
    (by simp) start
  have h₀ : n % 64 % 4 = 0 := by omega
  have hj : n / 4096 * 262144 + n / 64 % 64 * 4096 + n % 64 * 64 + 0 = n * 64 := by omega
  have h₁ : n * 64 / 65536 = a.toNat := by omega
  have h₂ : n * 64 / 256 % 256 = b.toNat := by omega
  rw [encode, ← hn]
  refine h.trans ?_
  show (if n % 64 % 4 = 0 then _ else _) = _
  rw [if_pos h₀, joinQuad, hj, h₁, h₂, UInt8.ofNat_toNat, UInt8.ofNat_toNat]
  rfl

/-- Reading what was written, by recursion on writing. -/
theorem decodeFrom_encode (start : Nat) : ∀ bytes : Bytes, bytes ≠ [] →
    decodeFrom start (encode bytes) = .ok bytes
  | a :: b :: c :: rest, _ => by
    have ha := a.toNat_lt
    have hb := b.toNat_lt
    have hc := c.toNat_lt
    have hj := joinQuad_symbols a b c
    have h₁ : (a.toNat * 65536 + b.toNat * 256 + c.toNat) / 262144 < 64 := by omega
    rw [encode]
    dsimp only at hj ⊢
    generalize a.toNat * 65536 + b.toNat * 256 + c.toNat = n at *
    have h₂ : n / 4096 % 64 < 64 := Nat.mod_lt _ (by decide)
    have h₃ : n / 64 % 64 < 64 := Nat.mod_lt _ (by decide)
    have h₄ : n % 64 < 64 := Nat.mod_lt _ (by decide)
    by_cases hr : rest = []
    · subst hr
      obtain ⟨last, h⟩ := decodeFrom_symbols
        (l := [n / 262144, n / 4096 % 64, n / 64 % 64, n % 64])
        (by simp only [List.forall_mem_cons]; exact ⟨h₁, h₂, h₃, h₄, by simp⟩) (by simp) start
      rw [encode]
      exact h.trans (congrArg Except.ok hj)
    · obtain ⟨e, tail, he⟩ := List.exists_cons_of_ne_nil (encode_ne_nil hr)
      rw [he, decodeFrom, symbolValue?_symbol h₁, symbolValue?_symbol h₂, symbolValue?_symbol h₃,
        symbolValue?_symbol h₄]
      dsimp only
      rw [← he, decodeFrom_encode (start + 4) rest hr, hj]
      rfl
  | [a, b], _ => decodeFrom_encode_two start a b
  | [a], _ => decodeFrom_encode_one start a

/-- The last byte of what was written is a symbol. -/
theorem strayLast?_encode (bytes : Bytes) : strayLast? (encode bytes) = none := by
  rw [strayLast?]
  split
  · rename_i last h
    obtain ⟨n, hn, rfl⟩ := exists_symbol_of_mem_encode (List.mem_of_getLast? h)
    refine if_neg fun h => ?_
    rw [symbolValue?_symbol hn] at h
    exact absurd h.2.2 (Option.some_ne_none n)
  · rfl

theorem decode_encode (bytes : Bytes) : decode (encode bytes) = .ok bytes := by
  by_cases h : bytes = []
  · subst h
    rfl
  · obtain ⟨x, rest, he⟩ := List.exists_cons_of_ne_nil (encode_ne_nil h)
    unfold decode
    rw [strayLast?_encode, he]
    dsimp only
    rw [← he, decodeFrom_encode 0 bytes h]

/-! ## What can be read -/

/-- A byte that stands for six bits is the symbol for them. -/
theorem eq_symbol_of_symbolValue? {b : UInt8} {n : Nat} (h : symbolValue? b = some n) :
    n < 64 ∧ b = symbol n := by
  have hall : ∀ k < 256, ∀ n ∈ symbolValue? (UInt8.ofNat k), n < 64 ∧ UInt8.ofNat k = symbol n := by
    decide +kernel
  have hb := hall b.toNat b.toNat_lt n
  rw [UInt8.ofNat_toNat] at hb
  exact hb h

/-- The bytes of four groups of six bits are written as these groups. -/
theorem encode_joinQuad {a b c d : Nat} (ha : a < 64) (hb : b < 64) (hc : c < 64) (hd : d < 64)
    (rest : Bytes) : encode (joinQuad a b c d ++ rest) =
      symbol a :: symbol b :: symbol c :: symbol d :: encode rest := by
  obtain ⟨n, hn⟩ : ∃ n, n = a * 262144 + b * 4096 + c * 64 + d := ⟨_, rfl⟩
  have h₁ : (UInt8.ofNat (n / 65536)).toNat = n / 65536 :=
    UInt8.toNat_ofNat_of_lt' (by show _ < 256; omega)
  have h₂ : (UInt8.ofNat (n / 256 % 256)).toNat = n / 256 % 256 :=
    UInt8.toNat_ofNat_of_lt' (Nat.mod_lt _ (by decide))
  have h₃ : (UInt8.ofNat (n % 256)).toNat = n % 256 :=
    UInt8.toNat_ofNat_of_lt' (Nat.mod_lt _ (by decide))
  have hsum : n / 65536 * 65536 + n / 256 % 256 * 256 + n % 256 = n := by omega
  have ha' : n / 262144 = a := by omega
  have hb' : n / 4096 % 64 = b := by omega
  have hc' : n / 64 % 64 = c := by omega
  have hd' : n % 64 = d := by omega
  rw [joinQuad, ← hn, List.cons_append, List.cons_append, List.cons_append, List.nil_append, encode,
    h₁, h₂, h₃, hsum, ha', hb', hc', hd']

/-- The byte of two groups is written as these groups, if the bits left over are zero. -/
theorem encode_joinPair {a b : Nat} (ha : a < 64) (hb : b < 64) (hz : b % 16 = 0) :
    encode ((joinQuad a b 0 0).take 1) = [symbol a, symbol b] := by
  have h₁ : (UInt8.ofNat ((a * 262144 + b * 4096 + 0 * 64 + 0) / 65536)).toNat =
      (a * 64 + b) / 16 := by
    rw [UInt8.toNat_ofNat_of_lt' (by show _ < 256; omega)]
    omega
  have h₂ : (a * 64 + b) / 16 * 16 = a * 64 + b := by omega
  have ha' : (a * 64 + b) / 64 = a := by omega
  have hb' : (a * 64 + b) % 64 = b := by omega
  rw [joinQuad, List.take_succ_cons, List.take_zero, encode, h₁, h₂, ha', hb']

/-- The same for the two bytes of three groups. -/
theorem encode_joinTriple {a b c : Nat} (ha : a < 64) (hb : b < 64) (hc : c < 64)
    (hz : c % 4 = 0) :
    encode ((joinQuad a b c 0).take 2) = [symbol a, symbol b, symbol c] := by
  obtain ⟨n, hn⟩ : ∃ n, n = a * 4096 + b * 64 + c := ⟨_, rfl⟩
  have hj : a * 262144 + b * 4096 + c * 64 + 0 = n * 64 := by omega
  have hn₀ : n % 4 = 0 := by omega
  have hsum : n * 64 / 65536 * 1024 + n * 64 / 256 % 256 * 4 = n := by
    clear hn hj
    omega
  have ha' : n / 4096 = a := by omega
  have hb' : n / 64 % 64 = b := by omega
  have hc' : n % 64 = c := by omega
  have h₁ : (UInt8.ofNat (n * 64 / 65536)).toNat = n * 64 / 65536 :=
    UInt8.toNat_ofNat_of_lt' (by show _ < 256; omega)
  have h₂ : (UInt8.ofNat (n * 64 / 256 % 256)).toNat = n * 64 / 256 % 256 :=
    UInt8.toNat_ofNat_of_lt' (Nat.mod_lt _ (by decide))
  rw [joinQuad, hj, List.take_succ_cons, List.take_succ_cons, List.take_zero, encode, h₁, h₂, hsum,
    ha', hb', hc']

/-- Padding is not forgotten: by induction on the text. -/
theorem padding_of_readTail {start i : Nat} {t t' : Tail} {text : Bytes}
    (h : readTail start i t text = .ok t') (hp : t.padding.isSome) : t'.padding.isSome := by
  induction text generalizing i t with
  | nil =>
    cases h
    exact hp
  | cons b rest ih =>
    obtain ⟨p, hp⟩ := Option.isSome_iff_exists.1 hp
    rw [readTail, hp] at h
    split at h
    · split at h
      · cases h
      · exact ih h rfl
    · cases h

/-- A last group without padding consists of symbols: by induction on the text. -/
theorem eq_symbols_of_readTail {start i : Nat} {values : List Nat} {last : UInt8} {t : Tail}
    {text : Bytes} (h : readTail start i ⟨values, last, none⟩ text = .ok t)
    (hp : t.padding = none) :
    ∃ l : List Nat, (∀ n ∈ l, n < 64) ∧ text = l.map symbol ∧ t.values = values ++ l := by
  induction text generalizing i values last with
  | nil =>
    cases h
    exact ⟨[], by simp, rfl, (List.append_nil _).symm⟩
  | cons b rest ih =>
    rw [readTail] at h
    split at h
    · split at h
      · cases h
      · have := padding_of_readTail h rfl
        rw [hp] at this
        cases this
    · rcases hv : symbolValue? b with _ | n <;> rw [hv] at h
      · cases h
      · obtain ⟨hn, rfl⟩ := eq_symbol_of_symbolValue? hv
        obtain ⟨l, hl, rfl, ht⟩ := ih h
        exact ⟨n :: l, List.forall_mem_cons.2 ⟨hn, hl⟩, rfl, by
          rw [ht, List.append_assoc, List.singleton_append]⟩

/-- What is read as the last group is what is written for its bytes: the bits left over are zero. -/
theorem eq_encode_of_finishTail {start : Nat} {l : List Nat} {last : UInt8} {bytes : Bytes}
    (h : finishTail start ⟨l, last, none⟩ = .ok bytes) (hs : ∀ n ∈ l, n < 64)
    (hl : l.length ≤ 4) : l.map symbol = encode bytes := by
  match l with
  | [] => cases h
  | [_] => cases h
  | [a, b] =>
    obtain ⟨ha, hb⟩ : a < 64 ∧ b < 64 := by simpa using hs
    change (if b % 16 = 0 then _ else _) = _ at h
    split at h
    · rename_i hz
      cases h
      exact (encode_joinPair ha hb hz).symm
    · cases h
  | [a, b, c] =>
    obtain ⟨ha, hb, hc⟩ : a < 64 ∧ b < 64 ∧ c < 64 := by simpa using hs
    change (if c % 4 = 0 then _ else _) = _ at h
    split at h
    · rename_i hz
      cases h
      exact (encode_joinTriple ha hb hc hz).symm
    · cases h
  | [a, b, c, d] =>
    obtain ⟨ha, hb, hc, hd⟩ : a < 64 ∧ b < 64 ∧ c < 64 ∧ d < 64 := by simpa using hs
    cases h
    have := encode_joinQuad ha hb hc hd []
    rw [List.append_nil] at this
    exact this.symm
  | _ :: _ :: _ :: _ :: _ :: _ => exact absurd hl (by simp)

theorem eq_encode_of_tail {start : Nat} {t : Tail} {text bytes : Bytes}
    (hr : readTail start 0 ⟨[], 0, none⟩ text = .ok t) (h : finishTail start t = .ok bytes)
    (hl : text.length ≤ 4) : text = encode bytes := by
  obtain ⟨values, last, padding⟩ := t
  have hp : padding = none := by
    rw [finishTail] at h
    split at h
    · cases h
    · split at h
      · cases h
      · rename_i hp
        simpa using hp
  subst hp
  obtain ⟨l, hs, rfl, rfl⟩ := eq_symbols_of_readTail hr rfl
  exact eq_encode_of_finishTail h hs (by rwa [List.length_map] at hl)

/-- What can be read is what is written for its bytes: by recursion on reading. -/
theorem eq_encode_of_decodeFrom {start : Nat} {text bytes : Bytes}
    (h : decodeFrom start text = .ok bytes) : text = encode bytes := by
  fun_induction decodeFrom start text generalizing bytes with
  | case1 start a b c d e rest a' b' c' d' h₁ h₂ h₃ h₄ ih =>
    obtain ⟨hd, rfl⟩ := eq_symbol_of_symbolValue? h₁
    obtain ⟨hc, rfl⟩ := eq_symbol_of_symbolValue? h₂
    obtain ⟨hb, rfl⟩ := eq_symbol_of_symbolValue? h₃
    obtain ⟨ha, rfl⟩ := eq_symbol_of_symbolValue? h₄
    rcases hr : decodeFrom (start + 4) (e :: rest) with _ | tail <;> rw [hr] at h
    · cases h
    · cases h
      rw [encode_joinQuad ha hb hc hd, ← ih hr]
  | case6 start text hshort =>
    rcases hr : readTail start 0 ⟨[], 0, none⟩ text with _ | t <;> rw [hr] at h
    · cases h
    · refine eq_encode_of_tail hr h ?_
      match text with
      | [] | [_] | [_, _] | [_, _, _] | [_, _, _, _] => simp
      | _ :: _ :: _ :: _ :: _ :: _ => exact (hshort _ _ _ _ _ _ rfl).elim
  | _ => cases h

/-- The format is canonical: a byte string is read from the text that is written for it, and from no
other. -/
theorem decode_eq_ok_iff {text bytes : Bytes} : decode text = .ok bytes ↔ text = encode bytes := by
  refine ⟨fun h => ?_, fun h => h ▸ decode_encode bytes⟩
  unfold decode at h
  split at h
  · cases h
    rfl
  · cases h
  · exact eq_encode_of_decodeFrom h

end Falsify.Text.Base64
