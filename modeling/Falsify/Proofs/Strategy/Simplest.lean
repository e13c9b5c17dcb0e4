import Falsify.Proofs.Source.Zeros
import Falsify.Proofs.Strategy.Conformance

/-!
# The lowest draws give the simplest value

Shrinking lowers draws, so it ends at draws of zero if nothing holds it up. From zeros alone a
strategy of integers, truth values, fixed values, lists, tuples, choices and maps generates its
simplest value (`Strategy.simplest?`): integers next to zero, lists as short as they may be, the
first option. What a bound decides is written and does not read a zero, but comes to the same.

* `settles_generate`: by induction on the strategy;
* `generate_zeros`: the theorem.
-/

namespace Falsify

open DrawM

theorem settles_react {α : Type} {reaction : Reaction α} {a : α} (h : reaction.result = .ok a) :
    Settles (react reaction) a := by
  intro s hs
  refine .inl ⟨{ s with asleep := s.asleep + reaction.asleep }, ?_, ⟨hs.zero, hs.lasts⟩, rfl⟩
  rw [react, h]

namespace Strategy

mutual

/-- The simplest value of a strategy. Filters and weighted choices have none that could be told from
their parts, and there is none if a range is empty or a map crashes. -/
def simplest? : Strategy → Option Value
  | .integers least most =>
    if least > most then none else some (.integer (nearestZero least most))
  | .anyInteger => some (.integer 0)
  | .booleans => some (.boolean false)
  | .just value => some value
  | .lists elements least most _ =>
    if least > most then none
    else if least = 0 then some (.list [])
    else (simplest? elements).map fun value => .list (List.replicate least.toNat value)
  | .tuple parts => (simplestAll? parts).map .tuple
  | .oneOf [] => none
  | .oneOf (option :: _) => simplest? option
  | .frequencies _ => none
  | .filter _ _ => none
  | .map inner transform => do (transform.apply (← simplest? inner)).result.toOption

/-- The simplest value of each strategy, in order. -/
def simplestAll? : List Strategy → Option (List Value)
  | [] => some []
  | part :: rest => do return (← simplest? part) :: (← simplestAll? rest)

end

/-- Every list in the strategy whose size is not fixed may come to an end: its probability of going
on is below one, or no number. -/
def Endable (strategy : Strategy) : Prop :=
  ∀ {elements : Strategy} {least most : UInt64} {average : Float},
    Part (.lists elements least most average) strategy → least < most →
      (Growth.start least.toNat most.toNat average).goOn < 1.0 ∨
        (Growth.start least.toNat most.toNat average).goOn.isNaN

variable {inner outer : Strategy}

theorem Endable.mono (h : outer.Endable) (hp : ∀ part, Part part inner → Part part outer) :
    inner.Endable := fun hpart => h (hp _ hpart)

mutual

/-- From zeros alone, a strategy generates its simplest value. -/
theorem settles_generate (attempts : Nat) : ∀ (strategy : Strategy) {value : Value},
    strategy.simplest? = some value → strategy.Endable →
      Settles (strategy.generate attempts) value
  | .integers least most, value, h, _ => by
    rw [simplest?] at h
    split at h
    · cases h
    · rename_i hle
      cases h
      rw [generate]
      exact (settles_integerBetween (Int64.not_lt.1 hle)).map rfl
  | .anyInteger, _, h, _ => by
    cases h
    rw [generate]
    exact (settles_integerOfLengths _).map rfl
  | .booleans, _, h, _ => by
    cases h
    rw [generate]
    exact (settles_bits 1).map rfl
  | .just value, _, h, _ => by
    cases h
    rw [generate]
    exact .pure value
  | .lists elements least most average, value, h, hs => by
    rw [simplest?] at h
    split at h
    · cases h
    · rename_i hle
      rw [generate, if_neg hle]
      have hgrowth (hlt : least.toNat < most.toNat) :
          ¬ (Growth.start least.toNat most.toNat average).goOn ≥ 1.0 :=
        (hs .self (UInt64.lt_iff_toNat_lt.2 hlt)).elim not_le_of_lt not_le_of_isNaN
      have hbounds : least.toNat ≤ most.toNat := UInt64.le_iff_toNat_le.1 (UInt64.not_lt.1 hle)
      split at h
      · rename_i hzero
        cases h
        subst hzero
        have hnone (hpos : 0 < (0 : UInt64).toNat) :
            Settles (elements.generate attempts) (.list []) := by cases hpos
        exact (settles_repeatWhile hgrowth hbounds (Nat.zero_add _) hnone).map rfl
      · obtain ⟨item, hitem, rfl⟩ := Option.map_eq_some_iff.1 h
        have helement : Settles (elements.generate attempts) item :=
          settles_generate attempts elements hitem (hs.mono fun _ => .elements)
        exact (settles_repeatWhile hgrowth hbounds (Nat.zero_add _) fun _ => helement).map rfl
  | .tuple parts, value, h, hs => by
    obtain ⟨items, hitems, rfl⟩ := Option.map_eq_some_iff.1 h
    rw [generate]
    have hparts : ∀ part ∈ parts, part.Endable := fun _ hpart => hs.mono fun _ => .tuple hpart
    exact (settles_generateAll attempts parts hitems hparts).map rfl
  | .oneOf [], _, h, _ => by cases h
  | .oneOf (option :: rest), value, h, hs => by
    rw [generate, if_neg (by simp)]
    have hfirst := settles_generate attempts option h (hs.mono fun _ => .oneOf List.mem_cons_self)
    refine (settles_uniform _).bind ?_
    rw [UInt64.toNat_zero, generateAt]
    exact hfirst
  | .frequencies _, _, h, _ => by cases h
  | .filter _ _, _, h, _ => by cases h
  | .map inner transform, value, h, hs => by
    obtain ⟨inside, hinside, hmapped⟩ := Option.bind_eq_some_iff.1 h
    have himage : (transform.apply inside).result = .ok value := by
      rcases hr : (transform.apply inside).result with _ | image <;> rw [hr] at hmapped
      · cases hmapped
      · exact congrArg Except.ok (Option.some.inj hmapped)
    rw [generate]
    exact (settles_generate attempts inner hinside (hs.mono fun _ => .map)).bind
      (settles_react himage)

theorem settles_generateAll (attempts : Nat) : ∀ (parts : List Strategy) {items : List Value},
    simplestAll? parts = some items → (∀ part ∈ parts, part.Endable) →
      Settles (generateAll attempts parts) items
  | [], _, h, _ => by
    cases h
    rw [generateAll]
    exact .pure []
  | part :: rest, items, h, hs => by
    obtain ⟨item, hitem, hrest⟩ := Option.bind_eq_some_iff.1 h
    obtain ⟨items, hitems, heq⟩ := Option.bind_eq_some_iff.1 hrest
    cases heq
    rw [generateAll]
    refine (settles_generate attempts part hitem (hs part List.mem_cons_self)).bind ?_
    exact (settles_generateAll attempts rest hitems fun p hp =>
      hs p (List.mem_cons_of_mem _ hp)).map rfl

end

/-- From a sequence of zeros that lasts as long as the budget, whatever their widths and the seed, a
strategy generates its simplest value, or the budget is used up. -/
theorem generate_zeros {strategy : Strategy} {value : Value} (hv : strategy.simplest? = some value)
    (hs : strategy.Endable) {zeros : Draws} (hz : ∀ d ∈ zeros, d.value = 0) (attempts : Nat)
    (seed : UInt64) {maxDraws : Nat} (h : maxDraws ≤ zeros.length) :
    (strategy.generate attempts (.replaying zeros seed maxDraws)).1 = .ok value ∨
      (strategy.generate attempts (.replaying zeros seed maxDraws)).1 =
        .error (.failed (.overrun maxDraws)) := by
  rcases settles_generate attempts strategy hv hs _ (Source.zeros_replaying hz seed h) with
    ⟨_, ht, -⟩ | he
  · exact .inl (congrArg Prod.fst ht)
  · exact .inr he

/-- Integers of three kinds, and a list of truth values turned round. -/
def assorted : Strategy :=
  .tuple [.integers (-9) (-4), .integers (-3) 7, .anyInteger,
    .lists (.oneOf [.map .booleans ⟨"not", fun value =>
      ⟨0, .ok (.boolean (value.asBoolean? == some false))⟩⟩, .just (.integer 1)]) 2 6 5.0]

theorem generate_zeros_assorted :
    let value := Value.tuple [.integer (-4), .integer 0, .integer 0,
      .list [.boolean true, .boolean true]]
    let zeros : Draws := List.replicate 12 ⟨7, 0⟩ ++ List.replicate 8 ⟨64, 0⟩
    assorted.simplest? = some value ∧ assorted.Endable ∧ (∀ d ∈ zeros, d.value = 0) ∧
      20 ≤ zeros.length ∧
        ((assorted.generate 3 (.replaying zeros 7 20)).1 = .ok value ∨
          (assorted.generate 3 (.replaying zeros 7 20)).1 = .error (.failed (.overrun 20))) := by
  intro value zeros
  have hv : assorted.simplest? = some value := rfl
  have hs : assorted.Endable := by
    intro elements least most average hpart _
    rcases hpart with _ | _ | ⟨listed, hpart⟩
    simp only [List.mem_cons, List.not_mem_nil, or_false] at listed
    rcases listed with rfl | rfl | rfl | rfl
    · cases hpart
    · cases hpart
    · cases hpart
    · cases hpart with
      | self => exact .inl (by decide +kernel)
      | elements hpart =>
        cases hpart with
        | oneOf listed hpart =>
          simp only [List.mem_cons, List.not_mem_nil, or_false] at listed
          rcases listed with rfl | rfl
          · cases hpart with
            | map hpart => cases hpart
          · cases hpart
  have hz : ∀ d ∈ zeros, d.value = 0 := by decide
  have hm : 20 ≤ zeros.length := by decide
  exact ⟨hv, hs, hz, hm, generate_zeros hv hs hz 3 7 hm⟩

end Strategy

end Falsify
