import Falsify.Proofs.Source.Simulation

/-!
# Reading values from draws

A computation reads a value from a sequence of draws, its code, if it gives the value whenever the
code comes next in the forced draws and records just that code (`DrawM.Reads`). What comes before
the code and after it does not matter, and neither do the stream and the budget as long as the code
has room. So codes are put together in the order of the draws:

* `Reads.bind`: the code of one computation after another;
* `reads_bits`, `reads_write`, `reads_drawUntil`: single draws, and a loop that accepts its
  first draw;
* `reads_uniform`, `reads_integerBetween`, `reads_coin`: each value of a choice has a code;
* `reads_repeatWhile`: so does each list of elements that have one, by induction on the list.
-/

namespace Falsify

namespace Source

/-- The code comes next in the forced draws, and the budget has room for it. -/
structure Offers (s : Source) (code : Draws) : Prop where
  next : code <+: s.forced.toList.drop s.record.size
  room : s.record.size + code.length ≤ s.maxDraws

/-- The source `t` is `s` with the code on record. -/
structure Advances (s : Source) (code : Draws) (t : Source) : Prop where
  drawn : t.drawn = s.drawn ++ code
  forced : t.forced = s.forced
  maxDraws : t.maxDraws = s.maxDraws

variable {s t u : Source} {code code' : Draws}

theorem Advances.nil (hr : t.record = s.record) (hf : t.forced = s.forced)
    (hm : t.maxDraws = s.maxDraws) : s.Advances [] t :=
  ⟨by rw [Source.drawn, hr, List.append_nil, Source.drawn], hf, hm⟩

theorem Advances.push (s : Source) (stream : ChaCha8) (d : Draw) :
    s.Advances [d] { s with stream := stream, record := s.record.push d } :=
  ⟨Array.toList_push, rfl, rfl⟩

theorem Advances.trans (h : s.Advances code t) (h' : t.Advances code' u) :
    s.Advances (code ++ code') u :=
  ⟨by rw [h'.drawn, h.drawn, List.append_assoc], h'.forced.trans h.forced,
    h'.maxDraws.trans h.maxDraws⟩

theorem Advances.size (h : s.Advances code t) : t.record.size = s.record.size + code.length := by
  have := congrArg List.length h.drawn
  simpa [Source.drawn] using this

theorem Offers.left (h : s.Offers (code ++ code')) : s.Offers code where
  next := (List.prefix_append _ _).trans h.next
  room := by
    have := h.room
    rw [List.length_append] at this
    omega

/-- After as many draws as the first part of a code has comes its second part. -/
theorem Offers.right_of_length {recorded : Draws} (h : s.Offers (code ++ code'))
    (ha : s.Advances recorded t) (hl : recorded.length = code.length) : t.Offers code' where
  next := by
    obtain ⟨rest, hrest⟩ := h.next
    refine ⟨rest, ?_⟩
    rw [ha.forced, ha.size, hl, ← List.drop_drop, ← hrest, List.append_assoc, List.drop_left]
  room := by
    have := h.room
    rw [List.length_append] at this
    rw [ha.size, ha.maxDraws]
    omega

/-- After the first part of a code comes its second part. -/
theorem Offers.right (h : s.Offers (code ++ code')) (ha : s.Advances code t) : t.Offers code' :=
  h.right_of_length ha rfl

theorem Offers.has_room {d : Draw} (h : s.Offers (d :: code)) : ¬ s.maxDraws ≤ s.record.size := by
  have := h.room
  rw [List.length_cons] at this
  omega

theorem Offers.nextWord {d : Draw} (h : s.Offers (d :: code)) :
    s.nextWord = (d.value, s.stream) := by
  have hd := List.prefix_iff_getElem?.1 h.next 0 (by simp)
  rw [List.getElem?_drop, Nat.add_zero, Array.getElem?_toList] at hd
  simp only [Source.nextWord, hd, List.getElem_cons_zero]

end Source

namespace DrawM

/-- Whenever the code comes next, the computation gives the value and records the code. -/
def Reads {α : Type} (x : DrawM α) (code : Draws) (a : α) : Prop :=
  ∀ s : Source, s.Offers code → ∃ t, x s = (.ok a, t) ∧ s.Advances code t

variable {α β : Type} {x : DrawM α} {f : α → DrawM β} {code code' : Draws} {a : α} {b : β}

theorem Reads.pure (a : α) : Reads (pure a) [] a := fun s _ =>
  ⟨s, rfl, .nil rfl rfl rfl⟩

theorem Reads.bind (hx : Reads x code a) (hf : Reads (f a) code' b) :
    Reads (x >>= f) (code ++ code') b := by
  intro s ho
  obtain ⟨t, ht, ha⟩ := hx s ho.left
  obtain ⟨u, hu, hb⟩ := hf t (ho.right ha)
  refine ⟨u, ?_, ha.trans hb⟩
  rw [bind_of_ok (congrArg Prod.fst ht), congrArg Prod.snd ht]
  exact hu

theorem Reads.map {g : α → β} (hx : Reads x code a) (hg : g a = b) :
    Reads (x >>= fun a => Pure.pure (g a)) code b := by
  have h : Reads (x >>= fun a => Pure.pure (g a)) (code ++ []) (g a) := hx.bind (Reads.pure (g a))
  rwa [List.append_nil, hg] at h

end DrawM

open DrawM

variable {α : Type}

/-! ## Single draws -/

/-- A well-formed draw is not cut. -/
theorem Draw.WellFormed.fit_eq {d : Draw} (h : d.WellFormed) : Draw.fit d.width d.value = d := by
  have hv : d.value &&& mask d.width = d.value := by
    apply UInt64.toNat_inj.1
    rw [toNat_and_mask h.1, Nat.mod_eq_of_lt h.2]
  simp only [Draw.fit, if_pos h.1, hv]

theorem reads_bits {d : Draw} (h : d.WellFormed) : Reads (Source.bits d.width) [d] d.value := by
  intro s ho
  rw [Source.bits_of_room d.width ho.has_room, ho.nextWord, h.fit_eq]
  exact ⟨_, rfl, .push s s.stream d⟩

theorem reads_write (value : UInt64) : Reads (Source.write value) [Source.written value] () :=
  fun s ho => ⟨_, Source.write_of_room value ho.has_room, .push s s.stream _⟩

theorem reads_drawUntil {d : Draw} (h : d.WellFormed) {accept : UInt64 → Option α} {a : α}
    (ha : accept d.value = some a) : Reads (Source.drawUntil d.width accept) [d] a := by
  rw [Source.drawUntil_eq_bind, ← List.append_nil [d]]
  refine (reads_bits h).bind ?_
  rw [ha]
  exact .pure a

/-! ## Choices -/

/-- What is not above a bound is a draw of the bound's width. -/
theorem wellFormed_widthOf {value most : UInt64} (h : value ≤ most) :
    Draw.WellFormed ⟨widthOf most, value⟩ := by
  have hle : value.toNat ≤ most.toNat := UInt64.le_iff_toNat_le.1 h
  have hmost := most.toNat_lt
  have hlength : bitLength most.toNat ≤ 64 ∧ most.toNat < 2 ^ bitLength most.toNat := by
    unfold bitLength
    split
    · rename_i h0
      rw [h0]
      decide
    · rename_i h0
      exact ⟨(Nat.log2_lt h0).2 hmost, Nat.lt_log2_self⟩
  have hwidth : (widthOf most).toNat = bitLength most.toNat := Nat.mod_eq_of_lt (by omega)
  refine ⟨UInt8.le_iff_toNat_le.2 ?_, ?_⟩
  · rw [hwidth]
    exact hlength.1
  · rw [hwidth]
    exact Nat.lt_of_le_of_lt hle hlength.2

theorem reads_uniform {value most : UInt64} (h : value ≤ most) :
    ∃ code, Reads (uniform most) code value := by
  unfold uniform
  split
  · rename_i hmost
    have hvalue : value = 0 := UInt64.le_zero_iff.1 (hmost ▸ h)
    rw [hvalue]
    exact ⟨_, (reads_write 0).map rfl⟩
  · exact ⟨_, reads_drawUntil (wellFormed_widthOf h) (if_pos h)⟩

/-! ## Integers of a range -/

/-- The code across zero of an integer. -/
def zigzagCode (n : Int64) : UInt64 :=
  UInt64.ofNat (if n.toInt < 0 then 2 * n.toInt.natAbs - 1 else 2 * n.toInt.natAbs)

theorem toNat_zigzagCode (n : Int64) :
    (zigzagCode n).toNat =
      if n.toInt < 0 then 2 * n.toInt.natAbs - 1 else 2 * n.toInt.natAbs := by
  have := n.le_toInt
  have := n.toInt_lt
  exact Nat.mod_eq_of_lt (by split <;> omega)

theorem zigzag_zigzagCode (n : Int64) : zigzag (zigzagCode n) = n.toInt := by
  have hcode := toNat_zigzagCode n
  have hodd : zigzagCode n % 2 = 1 ↔ (zigzagCode n).toNat % 2 = 1 := by
    rw [← UInt64.toNat_inj, UInt64.toNat_mod]
    rfl
  unfold zigzag
  by_cases hn : n.toInt < 0
  · rw [if_pos hn] at hcode
    rw [if_pos (hodd.2 (by omega)), Int.ofNat_eq_natCast]
    omega
  · rw [if_neg hn] at hcode
    rw [if_neg (fun h => by have := hodd.1 h; omega), Int.ofNat_eq_natCast]
    omega

/-- The limit of the codes does not leave out an integer of the range. -/
theorem zigzagCode_le {least n most : Int64} (h₁ : least.toInt ≤ n.toInt)
    (h₂ : n.toInt ≤ most.toInt) : zigzagCode n ≤ zigzagLimit least most := by
  have := least.le_toInt
  have := most.toInt_lt
  have hlimit : (zigzagLimit least most).toNat =
      min (2 * max least.toInt.natAbs most.toInt.natAbs) (2 ^ 64 - 1) :=
    Nat.mod_eq_of_lt (by omega)
  rw [UInt64.le_iff_toNat_le, toNat_zigzagCode, hlimit]
  split <;> omega

/-- Each offset of a range has a code. -/
theorem reads_offset {least most : Int64} {n : Int} (h₁ : 0 ≤ n)
    (h₂ : n ≤ most.toInt - least.toInt) :
    ∃ code offset, (offset.toNat : Int) = n ∧
      Reads (uniform (UInt64.ofNat (most.toInt - least.toInt).toNat)) code offset := by
  have := least.le_toInt
  have := most.toInt_lt
  have hn : (UInt64.ofNat n.toNat).toNat = n.toNat := Nat.mod_eq_of_lt (by omega)
  have hspan : (UInt64.ofNat (most.toInt - least.toInt).toNat).toNat =
      (most.toInt - least.toInt).toNat := Nat.mod_eq_of_lt (by omega)
  have hle : UInt64.ofNat n.toNat ≤ UInt64.ofNat (most.toInt - least.toInt).toNat := by
    rw [UInt64.le_iff_toNat_le, hn, hspan]
    omega
  obtain ⟨code, hcode⟩ := reads_uniform hle
  exact ⟨code, _, by omega, hcode⟩

theorem reads_integerBetween {least n most : Int64} (h₁ : least ≤ n) (h₂ : n ≤ most) :
    ∃ code, Reads (integerBetween least most) code n := by
  have hlower : least.toInt ≤ n.toInt := Int64.le_iff_toInt_le.1 h₁
  have hupper : n.toInt ≤ most.toInt := Int64.le_iff_toInt_le.1 h₂
  have hle : ¬ least > most := Int64.not_lt.2 (Int64.le_iff_toInt_le.2 (by omega))
  unfold integerBetween
  rw [if_neg hle]
  split
  · have hspan : n.toInt - least.toInt ≤ most.toInt - least.toInt := by omega
    obtain ⟨code, offset, hoffset, hcode⟩ := reads_offset (by omega) hspan
    refine ⟨code, hcode.map ?_⟩
    rw [hoffset, show least.toInt + (n.toInt - least.toInt) = n.toInt by omega, Int64.ofInt_toInt]
  · split
    · have hspan : most.toInt - n.toInt ≤ most.toInt - least.toInt := by omega
      obtain ⟨code, offset, hoffset, hcode⟩ := reads_offset (by omega) hspan
      refine ⟨code, hcode.map ?_⟩
      rw [hoffset, Int.sub_sub_self, Int64.ofInt_toInt]
    · have hcode := zigzagCode_le hlower hupper
      refine ⟨_, reads_drawUntil (wellFormed_widthOf hcode) ?_⟩
      simp only [zigzag_zigzagCode, Int64.ofInt_toInt]
      exact if_pos ⟨hcode, hlower, hupper⟩

/-! ## Coins and lists -/

/-- The coin comes up false on the lowest word and true on the highest. -/
def Undecided (p : Float) : Prop :=
  (coin p (.replaying [⟨64, 0⟩] 0 1)).1 = .ok false ∧
    (coin p (.replaying [⟨64, 0xFFFFFFFFFFFFFFFF⟩] 0 1)).1 = .ok true

theorem Source.offers_replaying {code : Draws} (seed : UInt64) {maxDraws : Nat}
    (h : code.length ≤ maxDraws) : (replaying code seed maxDraws).Offers code :=
  ⟨by simp [replaying], by simpa [replaying] using h⟩

/-- A coin that is neither false nor true on every word reads each from a word of its own. -/
theorem reads_coin {p : Float} (h : Undecided p) (b : Bool) : ∃ code, Reads (coin p) code b := by
  obtain ⟨hfalse, htrue⟩ := h
  have hlow : ¬ p ≤ 0.0 := by
    intro hp
    rw [coin, if_pos hp] at htrue
    cases htrue
  have hhigh : ¬ p ≥ 1.0 := by
    intro hp
    rw [coin, if_neg hlow, if_pos hp] at hfalse
    cases hfalse
  rw [coin, if_neg hlow, if_neg hhigh] at hfalse htrue
  rw [coin, if_neg hlow, if_neg hhigh]
  have hread (value : UInt64) (b : Bool)
      (hb : ((do
        let probe ← Source.bits 64
        return decide (probe > 0xFFFFFFFFFFFFFFFF - coinThreshold p) : DrawM Bool)
          (.replaying [⟨64, value⟩] 0 1)).1 = .ok b) :
      decide (value > 0xFFFFFFFFFFFFFFFF - coinThreshold p) = b := by
    have hwf : Draw.WellFormed ⟨64, value⟩ := ⟨UInt8.le_refl 64, value.toNat_lt⟩
    obtain ⟨t, ht, -⟩ := (reads_bits hwf).map rfl _ (Source.offers_replaying 0 (Nat.le_refl 1))
    rw [ht] at hb
    exact Except.ok.inj hb
  cases b with
  | false =>
    exact ⟨_, (reads_bits (d := ⟨64, 0⟩) (by decide)).map (hread _ _ hfalse)⟩
  | true =>
    exact ⟨_, (reads_bits (d := ⟨64, 0xFFFFFFFFFFFFFFFF⟩) (by decide)).map (hread _ _ htrue)⟩

/-- Each decision that the bounds of a collection allow has a code. -/
theorem reads_step {g : Growth} (hcoin : g.least < g.most → Undecided g.goOn) {more : Bool}
    (hmore : if more then g.count < g.most else g.least ≤ g.count) :
    ∃ code, Reads g.step code more := by
  unfold Growth.step
  split
  · rename_i hfixed
    refine ⟨[], ?_⟩
    have hdecide : decide (g.count < g.most) = more := by
      cases more <;> simp at hmore ⊢ <;> omega
    rw [hdecide]
    exact .pure more
  · split
    · rename_i hbelow
      cases more with
      | false => simp at hmore; omega
      | true => exact ⟨_, (reads_write 1).map rfl⟩
    · split
      · rename_i habove
        cases more with
        | false => exact ⟨_, (reads_write 0).map rfl⟩
        | true => simp at hmore; omega
      · exact reads_coin (hcoin (by omega)) more

/-- Each list of an allowed length has a code if its elements have, and it is the same for all
computations `element i` if theirs are: by induction on the list, one decision before each element
and one after the last. -/
theorem reads_repeatWhile {ι : Type} {element : ι → DrawM α} {items : List α}
    (h : ∀ a ∈ items, ∃ code, ∀ i, Reads (element i) code a) (g : Growth)
    (hcoin : g.least < g.most → Undecided g.goOn) (hlower : g.least ≤ g.count + items.length)
    (hupper : g.count + items.length ≤ g.most) :
    ∃ code, ∀ i, Reads (g.repeatWhile (element i)) code items := by
  induction items generalizing g with
  | nil =>
    obtain ⟨code, hcode⟩ : ∃ code, Reads g.step code false :=
      reads_step hcoin (by simpa using hlower)
    refine ⟨code ++ [], fun i => ?_⟩
    rw [Growth.repeatWhile_eq_bind]
    exact hcode.bind (.pure [])
  | cons a rest ih =>
    rw [List.length_cons] at hlower hupper
    obtain ⟨codeStep, hstep⟩ : ∃ code, Reads g.step code true :=
      reads_step hcoin (by simp; omega)
    obtain ⟨codeHead, hhead⟩ := h a List.mem_cons_self
    have hmore : g.more.count = g.count + 1 := rfl
    obtain ⟨codeRest, hrest⟩ := ih (fun a ha => h a (List.mem_cons_of_mem _ ha)) g.more hcoin
      (by rw [hmore]; exact (by omega : g.least ≤ g.count + 1 + rest.length))
      (by rw [hmore]; exact (by omega : g.count + 1 + rest.length ≤ g.most))
    refine ⟨codeStep ++ (codeHead ++ codeRest), fun i => ?_⟩
    rw [Growth.repeatWhile_eq_bind]
    exact hstep.bind ((hhead i).bind ((hrest i).map rfl))

end Falsify
