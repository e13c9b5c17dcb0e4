import Mathlib.Data.List.Forall2
import Falsify.Proofs.Random.Checked
import Falsify.Proofs.Random.Weights
import Falsify.Strategy.Generate

/-!
# Generated values have the shape of their strategy

Whatever a value is drawn from, also from forced draws that were recorded for something else, it
conforms to its strategy (`Strategy.Conforms`), generation does nothing that a machine word or a
list could not bear (`Strategy.generateChecked`), and it calls a strategy invalid only if a part
of it is (`Strategy.Faulty`).

* `repeatWhileChecked_eq`, `generateChecked_eq`: no check fails;
* `ensures_retry`, `ensures_generate`: what generation ends with, by induction on the
  attempts and on the strategy;
* `generate_conforms`: the theorem.
-/

namespace Falsify

open DrawM

/-! ## Generation with checks -/

namespace Growth

variable {α : Type}

/-- Runs `element` once for each decision to go on, with a check when an element is counted. -/
def repeatWhileChecked (element : DrawM α) (g : Growth) (s : Source) :
    Except Stop (List α) × Source :=
  match _h : g.step s with
  | (.error e, s') => (.error e, s')
  | (.ok false, s') => (.ok [], s')
  | (.ok true, s') =>
    if g.count + 1 < 2 ^ 64 then
      match element s' with
      | (.error e, s') => (.error e, s')
      | (.ok a, s') =>
        match repeatWhileChecked element g.more s' with
        | (.error e, s') => (.error e, s')
        | (.ok rest, s') => (.ok (a :: rest), s')
    else (.error (.crashed overflow), s')
termination_by g.room
decreasing_by
  have := step_true_count_lt _h
  simp only [room, more]
  omega

/-- Elements are counted up to a bound that fits a word. -/
theorem repeatWhileChecked_eq (element : DrawM α) (g : Growth)
    (h : max g.least g.most < 2 ^ 64) :
    g.repeatWhileChecked element = g.repeatWhile element := by
  funext s
  induction hn : g.room using Nat.strongRecOn generalizing g s with
  | _ n ih =>
    rw [repeatWhileChecked, repeatWhile]
    rcases hs : g.step s with ⟨_ | more, s'⟩
    · rfl
    · cases more with
      | false => rfl
      | true =>
        have hlt := step_true_count_lt hs
        have hroom : g.more.room < n := by
          rw [← hn]
          simp only [room, Growth.more]
          omega
        simp only [if_pos (show g.count + 1 < 2 ^ 64 by omega)]
        rcases element s' with ⟨_ | a, s'⟩
        · rfl
        · have hrest := ih _ hroom g.more h s' rfl
          rcases hr : repeatWhile element g.more s' with ⟨_ | _, _⟩ <;> simp only [hrest, hr]

end Growth

namespace Strategy

mutual

/-- One value of a strategy, with checks. The answers of filters are counted without bound and need
none. -/
def generateChecked (attempts : Nat) : Strategy → DrawM Value
  | .integers least most => return .integer (← integerBetweenChecked least most)
  | .anyInteger => do
    let lengths := (← AliasTable.ofWeightsChecked bitLengthWeights).getD ⟨[.single 0]⟩
    return .integer (← integerOfLengthsChecked lengths)
  | .booleans => return .boolean ((← Source.bits 1) == 1)
  | .just value => return value
  | .lists elements least most average => do
    if least > most then
      refuse (.invalidArgument s!"list min_size {least.toNat} exceeds max_size {most.toNat}")
    else
      let growth := Growth.start least.toNat most.toNat average
      return .list (← growth.repeatWhileChecked (generateChecked attempts elements))
  | .tuple parts => return .tuple (← generateAllChecked attempts parts)
  | .oneOf options => do
    if options.isEmpty then refuse (.invalidArgument "one_of needs at least one strategy")
    else
      require (0 < options.length) overflow
      let i ← uniform (UInt64.ofNat (options.length - 1))
      generateAtChecked attempts options i.toNat
  | .frequencies options => do
    match ← AliasTable.ofWeightsChecked (options.map Prod.fst) with
    | none => refuse (.invalidArgument "frequencies needs a strategy with positive weight")
    | some table => do
      let i ← table.sampleChecked
      generateWeightedAtChecked attempts options i
  | .filter inner predicate => retry (generateChecked attempts inner) predicate (max attempts 1)
  | .map inner transform => do react (transform.apply (← generateChecked attempts inner))

/-- One value of each strategy, with checks. -/
def generateAllChecked (attempts : Nat) : List Strategy → DrawM (List Value)
  | [] => return []
  | part :: rest => do
    let value ← generateChecked attempts part
    return value :: (← generateAllChecked attempts rest)

/-- One value of the strategy at a position. There must be one. -/
def generateAtChecked (attempts : Nat) : List Strategy → Nat → DrawM Value
  | [], _ => throw (.crashed outOfRange)
  | option :: _, 0 => generateChecked attempts option
  | _ :: rest, i + 1 => generateAtChecked attempts rest i

/-- One value of the weighted strategy at a position. There must be one. -/
def generateWeightedAtChecked (attempts : Nat) : List (Float32 × Strategy) → Nat → DrawM Value
  | [], _ => throw (.crashed outOfRange)
  | (_, option) :: _, 0 => generateChecked attempts option
  | _ :: rest, i + 1 => generateWeightedAtChecked attempts rest i

end

/-- The bounds of a list strategy fit a word. -/
theorem growth_fits (least most : UInt64) (average : Float) :
    max (Growth.start least.toNat most.toNat average).least
      (Growth.start least.toNat most.toNat average).most < 2 ^ 64 := by
  have := least.toNat_lt
  have := most.toNat_lt
  simp only [Growth.start]
  omega

mutual

/-- No check fails. -/
theorem generateChecked_eq (attempts : Nat) :
    ∀ strategy : Strategy, strategy.generateChecked attempts = strategy.generate attempts
  | .integers least most => by
    rw [generateChecked, generate, integerBetweenChecked_eq]
  | .anyInteger => by
    rw [generateChecked, generate, AliasTable.ofWeightsChecked_eq, pure_bind]
    rw [show (AliasTable.ofWeights? bitLengthWeights).getD ⟨[.single 0]⟩ = bitLengths from rfl]
    simp only [integerOfLengthsChecked_eq bitLengths_among]
  | .booleans => by rw [generateChecked, generate]
  | .just value => by rw [generateChecked, generate]
  | .lists elements least most average => by
    rw [generateChecked, generate, generateChecked_eq attempts elements]
    simp only [Growth.repeatWhileChecked_eq _ _ (growth_fits least most average)]
  | .tuple parts => by rw [generateChecked, generate, generateAllChecked_eq attempts parts]
  | .oneOf options => by
    rw [generateChecked, generate]
    split
    · rfl
    · rename_i hne
      have hpos : 0 < options.length := List.length_pos_iff.2 fun h => hne (by simp [h])
      rw [require_bind hpos]
      exact bind_congr (ensures_uniform _) fun i hi =>
        generateAtChecked_eq attempts options (AliasTable.position_lt hpos hi)
  | .frequencies options => by
    rw [generateChecked, generate, AliasTable.ofWeightsChecked_eq, pure_bind]
    rcases h : AliasTable.ofWeights? (options.map Prod.fst) with _ | table
    · rfl
    · have hamong := (AliasTable.among_of_ofWeights? h).2
      rw [List.length_map] at hamong
      simp only [AliasTable.sampleChecked_eq hamong]
      exact bind_congr (AliasTable.ensures_sample hamong) fun i hi =>
        generateWeightedAtChecked_eq attempts options hi
  | .filter inner predicate => by rw [generateChecked, generate, generateChecked_eq attempts inner]
  | .map inner transform => by rw [generateChecked, generate, generateChecked_eq attempts inner]

theorem generateAllChecked_eq (attempts : Nat) :
    ∀ parts : List Strategy, generateAllChecked attempts parts = generateAll attempts parts
  | [] => by rw [generateAllChecked, generateAll]
  | part :: rest => by
    rw [generateAllChecked, generateAll, generateChecked_eq attempts part,
      generateAllChecked_eq attempts rest]

theorem generateAtChecked_eq (attempts : Nat) :
    ∀ (options : List Strategy) {i : Nat}, i < options.length →
      generateAtChecked attempts options i = generateAt attempts options i
  | [], _, h => absurd h (Nat.not_lt_zero _)
  | option :: _, 0, _ => by rw [generateAtChecked, generateAt, generateChecked_eq attempts option]
  | _ :: rest, i + 1, h => by
    rw [generateAtChecked, generateAt,
      generateAtChecked_eq attempts rest (Nat.lt_of_succ_lt_succ h)]

theorem generateWeightedAtChecked_eq (attempts : Nat) :
    ∀ (options : List (Float32 × Strategy)) {i : Nat}, i < options.length →
      generateWeightedAtChecked attempts options i = generateWeightedAt attempts options i
  | [], _, h => absurd h (Nat.not_lt_zero _)
  | (_, option) :: _, 0, _ => by
    rw [generateWeightedAtChecked, generateWeightedAt, generateChecked_eq attempts option]
  | _ :: rest, i + 1, h => by
    rw [generateWeightedAtChecked, generateWeightedAt,
      generateWeightedAtChecked_eq attempts rest (Nat.lt_of_succ_lt_succ h)]

end

/-! ## Shapes -/

/-- A value has the shape that a strategy describes. -/
inductive Conforms : Strategy → Value → Prop
  | integers {least most n : Int64} (lower : least ≤ n) (upper : n ≤ most) :
    Conforms (.integers least most) (.integer n)
  | anyInteger {n : Int64} (h : n ≠ Int64.minValue) : Conforms .anyInteger (.integer n)
  | booleans (b : Bool) : Conforms .booleans (.boolean b)
  | just (value : Value) : Conforms (.just value) value
  | lists {elements : Strategy} {least most : UInt64} {average : Float} {items : List Value}
    (lower : least.toNat ≤ items.length) (upper : items.length ≤ most.toNat)
    (each : ∀ item ∈ items, Conforms elements item) :
    Conforms (.lists elements least most average) (.list items)
  | tuple {parts : List Strategy} {items : List Value} (each : List.Forall₂ Conforms parts items) :
    Conforms (.tuple parts) (.tuple items)
  | oneOf {options : List Strategy} {option : Strategy} {value : Value} (listed : option ∈ options)
    (h : Conforms option value) : Conforms (.oneOf options) value
  | frequencies {options : List (Float32 × Strategy)} {weight : Float32} {option : Strategy}
    {value : Value} (listed : (weight, option) ∈ options) (h : Conforms option value) :
    Conforms (.frequencies options) value
  | filter {inner : Strategy} {predicate : Predicate} {value : Value} (h : Conforms inner value)
    (accepted : (predicate.test value).result = .ok true) : Conforms (.filter inner predicate) value
  | map {inner : Strategy} {transform : Transform} {value image : Value} (h : Conforms inner value)
    (mapped : (transform.apply value).result = .ok image) : Conforms (.map inner transform) image

/-- A strategy is a part of another one, or that one itself. -/
inductive Part (part : Strategy) : Strategy → Prop
  | self : Part part part
  | elements {elements : Strategy} {least most : UInt64} {average : Float}
    (h : Part part elements) : Part part (.lists elements least most average)
  | tuple {parts : List Strategy} {component : Strategy} (listed : component ∈ parts)
    (h : Part part component) : Part part (.tuple parts)
  | oneOf {options : List Strategy} {option : Strategy} (listed : option ∈ options)
    (h : Part part option) : Part part (.oneOf options)
  | frequencies {options : List (Float32 × Strategy)} {weight : Float32} {option : Strategy}
    (listed : (weight, option) ∈ options) (h : Part part option) : Part part (.frequencies options)
  | filter {inner : Strategy} {predicate : Predicate} (h : Part part inner) :
    Part part (.filter inner predicate)
  | map {inner : Strategy} {transform : Transform} (h : Part part inner) :
    Part part (.map inner transform)

/-- The strategy asks for nothing that there is: for an integer of an empty range, a list longer
than its longest, one of no options, or a choice without a positive weight. -/
inductive Faulty : Strategy → Prop
  | integers {least most : Int64} (h : most < least) : Faulty (.integers least most)
  | lists {elements : Strategy} {least most : UInt64} {average : Float} (h : most < least) :
    Faulty (.lists elements least most average)
  | oneOf : Faulty (.oneOf [])
  | frequencies {options : List (Float32 × Strategy)}
    (h : ∀ option ∈ options, ¬ option.1 > 0.0) : Faulty (.frequencies options)

/-- The caller's code in the strategy crashes on some value. -/
inductive Raises (crash : Crash) : Strategy → Prop
  | filter {inner : Strategy} {predicate : Predicate} {value : Value}
    (h : (predicate.test value).result = .error crash) : Raises crash (.filter inner predicate)
  | map {inner : Strategy} {transform : Transform} {value : Value}
    (h : (transform.apply value).result = .error crash) : Raises crash (.map inner transform)

/-- What generation may stop for: a strategy is called invalid if a part of it is, and a crash is
that of the caller's code in a part. -/
def Excuses (strategy : Strategy) : Stop → Prop
  | .failed (.invalidArgument _) => ∃ part, Part part strategy ∧ part.Faulty
  | .failed (.overrun _) => True
  | .failed (.rejected _) => True
  | .crashed crash => ∃ part, Part part strategy ∧ part.Raises crash

variable {inner outer : Strategy} {e : Stop}

/-- What excuses a stop of a strategy excuses that of a strategy with the same parts and more. -/
theorem Excuses.mono (h : ∀ part, Part part inner → Part part outer) (he : inner.Excuses e) :
    outer.Excuses e := by
  match e, he with
  | .failed (.invalidArgument _), ⟨part, hp, hf⟩ => exact ⟨part, h part hp, hf⟩
  | .failed (.overrun _), _ => trivial
  | .failed (.rejected _), _ => trivial
  | .crashed _, ⟨part, hp, hr⟩ => exact ⟨part, h part hp, hr⟩

theorem Excuses.of_overrun {strategy : Strategy} (h : e.Overrun) : strategy.Excuses e := by
  obtain ⟨_, rfl⟩ := h
  trivial

theorem excused {α : Type} {x : DrawM α} {post : α → Prop}
    {strategy : Strategy} (h : Ensures x post Stop.Overrun) : Ensures x post strategy.Excuses :=
  h.stops fun _ => Excuses.of_overrun

theorem excuses_invalid {strategy : Strategy} (h : strategy.Faulty) (reason : String) :
    strategy.Excuses (.failed (.invalidArgument reason)) :=
  ⟨strategy, .self, h⟩

/-! ## What generation ends with -/

variable {stop : Stop → Prop}

/-- A piece of the caller's code gives its result, or crashes as it does. -/
theorem ensures_react {α : Type} (reaction : Reaction α)
    (hc : ∀ crash, reaction.result = .error crash → stop (.crashed crash)) :
    Ensures (react reaction) (fun a => reaction.result = .ok a) stop := by
  refine ⟨fun s => ?_⟩
  unfold react
  rcases h : reaction.result with crash | a
  · exact hc crash h
  · rfl

/-- A filter gives a candidate that it has accepted: by induction on the attempts. -/
theorem ensures_retry {candidate : DrawM Value} {post : Value → Prop}
    (h : Ensures candidate post stop) (predicate : Predicate)
    (hr : ∀ reason, stop (.failed (.rejected reason)))
    (hc : ∀ value crash, (predicate.test value).result = .error crash → stop (.crashed crash)) :
    ∀ attempts, Ensures (retry candidate predicate attempts)
      (fun value => post value ∧ (predicate.test value).result = .ok true) stop
  | 0 => .throw (hr _)
  | attempts + 1 => by
    refine h.bind fun value hv => (ensures_react _ (hc value)).bind fun satisfied hs => ?_
    have hcount : Ensures (countPredicate predicate.name satisfied) (fun _ => True) stop :=
      ⟨fun _ => trivial⟩
    refine hcount.bind fun _ _ => ?_
    cases satisfied with
    | false => exact ensures_retry h predicate hr hc attempts
    | true => exact .pure ⟨hv, hs⟩

mutual

/-- Generation gives a value that conforms, or stops for an excusable reason. -/
theorem ensures_generate (attempts : Nat) :
    ∀ strategy : Strategy, Ensures (strategy.generate attempts) strategy.Conforms strategy.Excuses
  | .integers least most => by
    rw [generate]
    by_cases h : least > most
    · rw [integerBetween, if_pos h]
      exact .throw (excuses_invalid (.integers h) _)
    · exact (excused (ensures_integerBetween h)).bind fun n hn => .pure (.integers hn.1 hn.2)
  | .anyInteger => by
    rw [generate]
    exact (excused (ensures_integerOfLengths bitLengths_among)).bind
      fun n hn => .pure (.anyInteger hn)
  | .booleans => by
    rw [generate]
    exact (excused (ensures_bits 1)).bind fun _ _ => .pure (.booleans _)
  | .just value => by
    rw [generate]
    exact .pure (.just value)
  | .lists elements least most average => by
    rw [generate]
    split
    · rename_i h
      exact .throw (excuses_invalid (.lists h) _)
    · rename_i h
      have hle : least.toNat ≤ most.toNat := UInt64.le_iff_toNat_le.1 (UInt64.not_lt.1 h)
      have helements : Ensures (elements.generate attempts) elements.Conforms
          (Strategy.lists elements least most average).Excuses :=
        (ensures_generate attempts elements).stops fun _ => .mono fun _ => .elements
      refine (ensures_repeatWhile helements (fun _ => Excuses.of_overrun)
        (.start least.toNat most.toNat average) hle (Nat.zero_le _)).bind
          fun items hitems => .pure ?_
      simp only [Growth.start, Nat.zero_add] at hitems
      exact .lists hitems.1 hitems.2.1 hitems.2.2
  | .tuple parts => by
    rw [generate]
    refine ((ensures_generateAll attempts parts).stops ?_).bind
      fun items hitems => .pure (.tuple hitems)
    rintro e ⟨part, hpart, he⟩
    exact he.mono fun _ => .tuple hpart
  | .oneOf options => by
    rw [generate]
    split
    · rename_i h
      rw [List.isEmpty_iff.1 h]
      exact .throw (excuses_invalid .oneOf _)
    · rename_i hne
      have hpos : 0 < options.length := List.length_pos_iff.2 fun h => hne (by simp [h])
      refine (excused (ensures_uniform _)).bind fun i hi => ?_
      refine (ensures_generateAt attempts options (AliasTable.position_lt hpos hi)).mono ?_ ?_
      · rintro value ⟨option, hlisted, hv⟩
        exact .oneOf hlisted hv
      · rintro e ⟨option, hlisted, he⟩
        exact he.mono fun _ => .oneOf hlisted
  | .frequencies options => by
    rw [generate]
    split
    · rename_i h
      refine .throw (excuses_invalid (.frequencies fun option hlisted => ?_) _)
      exact AliasTable.not_pos_of_ofWeights?_eq_none h _ (List.mem_map_of_mem hlisted)
    · rename_i table h
      have hamong := (AliasTable.among_of_ofWeights? h).2
      rw [List.length_map] at hamong
      refine (excused (AliasTable.ensures_sample hamong)).bind fun i hi => ?_
      refine (ensures_generateWeightedAt attempts options hi).mono ?_ ?_
      · rintro value ⟨⟨weight, option⟩, hlisted, hv⟩
        exact .frequencies hlisted hv
      · rintro e ⟨⟨weight, option⟩, hlisted, he⟩
        exact he.mono fun _ => .frequencies hlisted
  | .filter inner predicate => by
    rw [generate]
    have hinner : Ensures (inner.generate attempts) inner.Conforms
        (Strategy.filter inner predicate).Excuses :=
      (ensures_generate attempts inner).stops fun _ => .mono fun _ => .filter
    exact (ensures_retry hinner predicate (fun _ => trivial)
      (fun value crash h => ⟨_, .self, .filter h⟩) _).gives fun value h => .filter h.1 h.2
  | .map inner transform => by
    rw [generate]
    refine ((ensures_generate attempts inner).stops fun _ => .mono fun _ => .map).bind
      fun value hv => ?_
    exact (ensures_react _ fun crash h => ⟨_, .self, .map h⟩).gives fun image h => .map hv h

theorem ensures_generateAll (attempts : Nat) :
    ∀ parts : List Strategy, Ensures (generateAll attempts parts) (List.Forall₂ Conforms parts)
      fun e => ∃ part ∈ parts, part.Excuses e
  | [] => by
    rw [generateAll]
    exact .pure .nil
  | part :: rest => by
    rw [generateAll]
    refine ((ensures_generate attempts part).stops
      fun e he => ⟨part, List.mem_cons_self, he⟩).bind fun value hv => ?_
    refine ((ensures_generateAll attempts rest).stops ?_).bind
      fun values hvs => .pure (.cons hv hvs)
    rintro e ⟨part, hpart, he⟩
    exact ⟨part, List.mem_cons_of_mem _ hpart, he⟩

theorem ensures_generateAt (attempts : Nat) :
    ∀ (options : List Strategy) {i : Nat}, i < options.length →
      Ensures (generateAt attempts options i)
        (fun value => ∃ option ∈ options, option.Conforms value)
        fun e => ∃ option ∈ options, option.Excuses e
  | [], _, h => absurd h (Nat.not_lt_zero _)
  | option :: _, 0, _ => by
    rw [generateAt]
    exact (ensures_generate attempts option).mono (fun v hv => ⟨option, List.mem_cons_self, hv⟩)
      fun e he => ⟨option, List.mem_cons_self, he⟩
  | _ :: rest, i + 1, h => by
    rw [generateAt]
    refine (ensures_generateAt attempts rest (Nat.lt_of_succ_lt_succ h)).mono ?_ ?_
    · rintro v ⟨option, hlisted, hv⟩
      exact ⟨option, List.mem_cons_of_mem _ hlisted, hv⟩
    · rintro e ⟨option, hlisted, he⟩
      exact ⟨option, List.mem_cons_of_mem _ hlisted, he⟩

theorem ensures_generateWeightedAt (attempts : Nat) :
    ∀ (options : List (Float32 × Strategy)) {i : Nat}, i < options.length →
      Ensures (generateWeightedAt attempts options i)
        (fun value => ∃ option ∈ options, option.2.Conforms value)
        fun e => ∃ option ∈ options, option.2.Excuses e
  | [], _, h => absurd h (Nat.not_lt_zero _)
  | (weight, option) :: _, 0, _ => by
    rw [generateWeightedAt]
    exact (ensures_generate attempts option).mono
      (fun v hv => ⟨(weight, option), List.mem_cons_self, hv⟩)
      fun e he => ⟨(weight, option), List.mem_cons_self, he⟩
  | _ :: rest, i + 1, h => by
    rw [generateWeightedAt]
    refine (ensures_generateWeightedAt attempts rest (Nat.lt_of_succ_lt_succ h)).mono ?_ ?_
    · rintro v ⟨option, hlisted, hv⟩
      exact ⟨option, List.mem_cons_of_mem _ hlisted, hv⟩
    · rintro e ⟨option, hlisted, he⟩
      exact ⟨option, List.mem_cons_of_mem _ hlisted, he⟩

end

/-- Whatever a value is drawn from, no sum overflows and no access is out of range, and the value
has the shape that its strategy describes; a strategy is called invalid only if a part of it is. -/
theorem generate_conforms (strategy : Strategy) (attempts : Nat) (s : Source) :
    strategy.generate attempts s = strategy.generateChecked attempts s ∧
      match (strategy.generate attempts s).1 with
      | .ok value => strategy.Conforms value
      | .error e => strategy.Excuses e := by
  refine ⟨by rw [generateChecked_eq], ?_⟩
  have h := (ensures_generate attempts strategy).outcome s
  rcases hr : (strategy.generate attempts s).1 with e | value <;> rw [hr] at h <;> exact h

end Strategy

end Falsify
