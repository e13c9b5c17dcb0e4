import Falsify.Proofs.Source.Reading
import Falsify.Proofs.Strategy.Conformance

/-!
# No value is out of reach

Every value that conforms to a strategy is generated from some sequence of draws, and its code is
that sequence: a search that tries sequences of draws can find it. This is so for the strategies
whose choices are made by single draws (`Strategy.Coded`), the growth of a list among them as long
as its coin is undecided.

* `reads_retry`: a filter reads the code of a value that it accepts;
* `reads_generate`: each conforming value has a code, by induction on the strategy;
* `generate_reaches`: the theorem.
-/

namespace Falsify

open DrawM

theorem reads_react {α : Type} {reaction : Reaction α} {a : α} (h : reaction.result = .ok a) :
    Reads (react reaction) [] a := by
  intro s _
  refine ⟨{ s with asleep := s.asleep + reaction.asleep }, ?_, .nil rfl rfl rfl⟩
  rw [react, h]

namespace Strategy

/-- A filter accepts the first candidate that it is offered if that is an acceptable one. -/
theorem reads_retry {candidate : DrawM Value} {code : Draws} {value : Value}
    (h : Reads candidate code value) {predicate : Predicate}
    (ha : (predicate.test value).result = .ok true) {attempts : Nat} (hpos : 0 < attempts) :
    Reads (retry candidate predicate attempts) code value := by
  obtain ⟨k, rfl⟩ : ∃ k, attempts = k + 1 := ⟨attempts - 1, by omega⟩
  have hcount : Reads (countPredicate predicate.name true) [] () := fun s _ =>
    ⟨_, rfl, .nil rfl rfl rfl⟩
  have hjudge : Reads (do
      let satisfied ← react (predicate.test value)
      countPredicate predicate.name satisfied
      if satisfied then return value else retry candidate predicate k) [] value :=
    (reads_react ha).bind (hcount.bind (.pure value))
  rw [retry, ← List.append_nil code]
  exact h.bind hjudge

/-- The strategies whose choices are made by single draws. The growth of a list is undecided unless
its length is fixed, and the positions of the options of a choice fit a word. Nothing conforms to an
empty range or to a choice of no options, so these are not left out. -/
inductive Coded : Strategy → Prop
  | integers (least most : Int64) : Coded (.integers least most)
  | booleans : Coded .booleans
  | just (value : Value) : Coded (.just value)
  | lists {elements : Strategy} {least most : UInt64} {average : Float} (each : Coded elements)
    (growth : least < most → Undecided (Growth.start least.toNat most.toNat average).goOn) :
    Coded (.lists elements least most average)
  | tuple {parts : List Strategy} (each : ∀ part ∈ parts, Coded part) : Coded (.tuple parts)
  | oneOf {options : List Strategy} (positions : options.length ≤ 2 ^ 64)
    (each : ∀ option ∈ options, Coded option) : Coded (.oneOf options)
  | filter {inner : Strategy} {predicate : Predicate} (h : Coded inner) :
    Coded (.filter inner predicate)
  | map {inner : Strategy} {transform : Transform} (h : Coded inner) : Coded (.map inner transform)

mutual

/-- A value that conforms has a code, whatever the number of attempts. -/
theorem reads_generate : ∀ (strategy : Strategy) {value : Value}, strategy.Coded →
    strategy.Conforms value → ∃ code, ∀ attempts, Reads (strategy.generate attempts) code value
  | .integers least most, _, _, .integers lower upper => by
    obtain ⟨code, hcode⟩ := reads_integerBetween lower upper
    refine ⟨code, fun attempts => ?_⟩
    rw [generate]
    exact hcode.map rfl
  | .booleans, _, _, .booleans b => by
    refine ⟨[⟨1, if b then 1 else 0⟩], fun attempts => ?_⟩
    rw [generate]
    have hwf : Draw.WellFormed ⟨1, if b then 1 else 0⟩ := by cases b <;> decide
    exact (reads_bits hwf).map (by cases b <;> rfl)
  | .just _, _, _, .just value => by
    refine ⟨[], fun attempts => ?_⟩
    rw [generate]
    exact .pure value
  | .lists elements least most average, _, .lists each growth, .lists lower upper hitems => by
    have hle : ¬ least > most :=
      UInt64.not_lt.2 (UInt64.le_iff_toNat_le.2 (Nat.le_trans lower upper))
    obtain ⟨code, hcode⟩ := reads_repeatWhile
      (fun item hi => reads_generate elements each (hitems item hi))
      (.start least.toNat most.toNat average) (fun h => growth (UInt64.lt_iff_toNat_lt.2 h))
      (by simpa [Growth.start] using lower) (by simpa [Growth.start] using upper)
    refine ⟨code, fun attempts => ?_⟩
    rw [generate, if_neg hle]
    exact (hcode attempts).map rfl
  | .tuple parts, _, .tuple each, .tuple hitems => by
    obtain ⟨code, hcode⟩ := reads_generateAll parts each hitems
    refine ⟨code, fun attempts => ?_⟩
    rw [generate]
    exact (hcode attempts).map rfl
  | .oneOf options, value, .oneOf positions each, .oneOf listed h => by
    obtain ⟨i, hi, code, hcode⟩ := reads_generateAt options each listed h
    have hi' : (UInt64.ofNat i).toNat = i := Nat.mod_eq_of_lt (by omega)
    have hlast : (UInt64.ofNat (options.length - 1)).toNat = options.length - 1 :=
      Nat.mod_eq_of_lt (by omega)
    have hle : UInt64.ofNat i ≤ UInt64.ofNat (options.length - 1) := by
      rw [UInt64.le_iff_toNat_le, hi', hlast]
      omega
    obtain ⟨codeChoice, hchoice⟩ := reads_uniform hle
    refine ⟨codeChoice ++ code, fun attempts => ?_⟩
    rw [generate, if_neg (by simpa using List.ne_nil_of_mem listed)]
    refine hchoice.bind ?_
    rw [hi']
    exact hcode attempts
  | .filter inner predicate, _, .filter hs, .filter hv accepted => by
    obtain ⟨code, hcode⟩ := reads_generate inner hs hv
    refine ⟨code, fun attempts => ?_⟩
    rw [generate]
    exact reads_retry (hcode attempts) accepted (by omega)
  | .map inner transform, _, .map hs, .map hv mapped => by
    obtain ⟨code, hcode⟩ := reads_generate inner hs hv
    refine ⟨code ++ [], fun attempts => ?_⟩
    rw [generate]
    exact (hcode attempts).bind (reads_react mapped)

theorem reads_generateAll : ∀ (parts : List Strategy) {items : List Value},
    (∀ part ∈ parts, part.Coded) → List.Forall₂ Conforms parts items →
      ∃ code, ∀ attempts, Reads (generateAll attempts parts) code items
  | [], _, _, .nil => by
    refine ⟨[], fun attempts => ?_⟩
    rw [generateAll]
    exact .pure []
  | part :: rest, _, hs, .cons hv hvs => by
    obtain ⟨code, hcode⟩ := reads_generate part (hs part List.mem_cons_self) hv
    obtain ⟨codeRest, hrest⟩ :=
      reads_generateAll rest (fun p hp => hs p (List.mem_cons_of_mem _ hp)) hvs
    refine ⟨code ++ codeRest, fun attempts => ?_⟩
    rw [generateAll]
    exact (hcode attempts).bind ((hrest attempts).map rfl)

theorem reads_generateAt : ∀ (options : List Strategy) {option : Strategy} {value : Value},
    (∀ option ∈ options, option.Coded) → option ∈ options → option.Conforms value →
      ∃ i < options.length, ∃ code, ∀ attempts, Reads (generateAt attempts options i) code value
  | first :: rest, option, value, hs, listed, hv => by
    rcases List.mem_cons.1 listed with heq | hrest
    · obtain ⟨code, hcode⟩ := reads_generate first (hs first List.mem_cons_self) (heq ▸ hv)
      refine ⟨0, by simp, code, fun attempts => ?_⟩
      rw [generateAt]
      exact hcode attempts
    · obtain ⟨i, hi, code, hcode⟩ :=
        reads_generateAt rest (fun o ho => hs o (List.mem_cons_of_mem _ ho)) hrest hv
      refine ⟨i + 1, by rw [List.length_cons]; omega, code, fun attempts => ?_⟩
      rw [generateAt]
      exact hcode attempts

end

/-- Every value that conforms to a strategy is generated from some sequence of draws, whatever the
seed and for every budget that has room for the sequence, and the sequence is what is recorded. -/
theorem generate_reaches {strategy : Strategy} {value : Value} (hs : strategy.Coded)
    (hv : strategy.Conforms value) :
    ∃ code : Draws, ∀ (attempts : Nat) (seed : UInt64) (maxDraws : Nat), code.length ≤ maxDraws →
      (strategy.generate attempts (.replaying code seed maxDraws)).1 = .ok value ∧
        (strategy.generate attempts (.replaying code seed maxDraws)).2.drawn = code := by
  obtain ⟨code, hcode⟩ := reads_generate strategy hs hv
  refine ⟨code, fun attempts seed maxDraws hroom => ?_⟩
  obtain ⟨t, ht, ha⟩ := hcode attempts _ (Source.offers_replaying seed hroom)
  rw [ht]
  exact ⟨rfl, ha.drawn⟩

/-- A truth value, or one to three even numbers. -/
def evens : Strategy :=
  .oneOf [.booleans, .lists (.filter (.integers (-8) 8) ⟨"even", fun value =>
    ⟨0, .ok (value.asInteger?.any (· % 2 == 0))⟩⟩) 1 3 5.0]

theorem generate_reaches_evens :
    evens.Coded ∧ evens.Conforms (.list [.integer (-8), .integer 2]) ∧
      ∃ code : Draws, ∀ (attempts : Nat) (seed : UInt64) (maxDraws : Nat), code.length ≤ maxDraws →
        (evens.generate attempts (.replaying code seed maxDraws)).1 =
            .ok (.list [.integer (-8), .integer 2]) ∧
          (evens.generate attempts (.replaying code seed maxDraws)).2.drawn = code := by
  have hs : evens.Coded := by
    refine .oneOf (by decide) fun option listed => ?_
    rcases List.mem_pair.1 listed with rfl | rfl
    · exact .booleans
    · exact .lists (.filter (.integers _ _)) fun _ => ⟨by decide +kernel, by decide +kernel⟩
  have hv : evens.Conforms (.list [.integer (-8), .integer 2]) := by
    refine .oneOf (List.mem_pair.2 (.inr rfl)) (.lists (by decide) (by decide) fun item hitem => ?_)
    rcases List.mem_pair.1 hitem with rfl | rfl
    · exact .filter (.integers (by decide) (by decide)) (by decide)
    · exact .filter (.integers (by decide) (by decide)) (by decide)
  exact ⟨hs, hv, generate_reaches hs hv⟩

end Strategy

end Falsify
