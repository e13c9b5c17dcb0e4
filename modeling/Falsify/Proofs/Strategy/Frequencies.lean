import Falsify.Proofs.Random.FirstChoice
import Falsify.Proofs.Random.Weightless
import Falsify.Strategy.Generate

/-!
# Options with weights

A strategy of weighted options draws the position of an option and goes on as the option
(`generate_frequencies`). As long as the weights add up to a number, what is drawn has weight. Once
their total is too large for one, each share is nothing or no number, and options without weight are
drawn as well.

Draws of zero end at `AliasTable.lowestOf`, which need not be the first option with weight: a slot's
second alternative is certain if the first one has no weight, and a draw of zero does not keep a
certain coin from turning up.

* `sampled_options_have_weight`: options without weight are not drawn;
* `zeros_choose_lowest`: the option that draws of zero choose.
-/

namespace Falsify

open DrawM

namespace Strategy

/-- The position of a weighted option. -/
def drawOption (options : List (Float32 × Strategy)) : DrawM Nat :=
  match AliasTable.ofWeights? (options.map Prod.fst) with
  | none => refuse (.invalidArgument "frequencies needs a strategy with positive weight")
  | some table => table.sample

theorem generate_frequencies (attempts : Nat) (options : List (Float32 × Strategy)) :
    generate attempts (.frequencies options) =
      drawOption options >>= generateWeightedAt attempts options := by
  rw [generate, drawOption]
  rcases AliasTable.ofWeights? (options.map Prod.fst) with _ | table <;> rfl

variable {attempts : Nat} {options : List (Float32 × Strategy)} {option : Strategy} {w : Float32}
  {i : Nat} {s t : Source}

theorem generateWeightedAt_of_getElem? (attempts : Nat) :
    ∀ {options : List (Float32 × Strategy)} {i : Nat}, options[i]? = some (w, option) →
      generateWeightedAt attempts options i = generate attempts option
  | (w', first) :: rest, 0, h => by
    cases h
    rw [generateWeightedAt]
  | _ :: rest, i + 1, h => by
    rw [generateWeightedAt]
    exact generateWeightedAt_of_getElem? attempts h

/-- Once its position is drawn, the option generates the value. -/
theorem generate_of_drawOption (hdraw : drawOption options s = (.ok i, t))
    (hoption : options[i]? = some (w, option)) :
    generate attempts (.frequencies options) s = generate attempts option t := by
  rw [generate_frequencies, bind_of_ok (congrArg Prod.fst hdraw), congrArg Prod.snd hdraw,
    generateWeightedAt_of_getElem? attempts hoption]

theorem exists_option {weights : List Float32} (h : options.map Prod.fst = weights)
    (hw : weights[i]? = some w) : ∃ option, options[i]? = some (w, option) := by
  rw [← h, List.getElem?_map, Option.map_eq_some_iff] at hw
  obtain ⟨⟨_, option⟩, hoption, rfl⟩ := hw
  exact ⟨option, hoption⟩

/-! ## Options without weight -/

theorem ensures_drawOption {weights : List Float32} (h : options.map Prod.fst = weights)
    (hfinite : (AliasTable.totalWeight weights).isFinite = true) (hshort : weights.length ≤ 2048) :
    Ensures (drawOption options) (fun i => ∃ w, weights[i]? = some w ∧ w > 0.0) fun _ => True := by
  unfold drawOption
  rw [h]
  split
  · exact .throw trivial
  · rename_i table htable
    exact (AliasTable.ensures_sample_weight htable hfinite hshort).mono (fun _ => id)
      fun _ _ => trivial

/-- A position is drawn unless no weight counts or the budget of the source is used up. -/
theorem stops_drawOption {weights : List Float32} {e : Stop} (h : options.map Prod.fst = weights)
    (hdraw : drawOption options s = (.error e, t)) :
    AliasTable.ofWeights? weights = none ∨ e = .failed (.overrun s.maxDraws) := by
  unfold drawOption at hdraw
  rw [h] at hdraw
  rcases htable : AliasTable.ofWeights? weights with _ | table
  · exact .inl rfl
  · rw [htable] at hdraw
    exact .inr ((AliasTable.budgeted_sample table).stops s e (congrArg Prod.fst hdraw))

/-- What is drawn from up to 2048 weights has weight if their total is a number: a table gives no
other position, and a strategy generates from an option with weight, unless there is no table or the
budget of the source is used up. -/
theorem sampled_options_have_weight (weights : List Float32)
    (hfinite : (AliasTable.totalWeight weights).isFinite = true) (hshort : weights.length ≤ 2048) :
    (∀ table, AliasTable.ofWeights? weights = some table →
      ∀ s i t, table.sample s = (.ok i, t) → ∃ w, weights[i]? = some w ∧ w > 0.0) ∧
    ∀ options : List (Float32 × Strategy), options.map Prod.fst = weights → ∀ attempts s,
      (∃ e t, drawOption options s = (.error e, t) ∧
        (AliasTable.ofWeights? weights = none ∨ e = .failed (.overrun s.maxDraws)) ∧
        generate attempts (.frequencies options) s = (.error e, t)) ∨
      ∃ i w option t, drawOption options s = (.ok i, t) ∧ options[i]? = some (w, option) ∧
        w > 0.0 ∧ generate attempts (.frequencies options) s = generate attempts option t := by
  refine ⟨fun table htable s i t hs => ?_, fun options hoptions attempts s => ?_⟩
  · have houtcome := (AliasTable.ensures_sample_weight htable hfinite hshort).outcome s
    rw [hs] at houtcome
    exact houtcome
  · have houtcome := (ensures_drawOption hoptions hfinite hshort).outcome s
    rcases hdraw : drawOption options s with ⟨e | i, t⟩
    · refine .inl ⟨e, t, rfl, stops_drawOption hoptions hdraw, ?_⟩
      rw [generate_frequencies, bind_of_error (congrArg Prod.fst hdraw), congrArg Prod.snd hdraw]
    · rw [hdraw] at houtcome
      obtain ⟨w, hw, hpos⟩ := houtcome
      obtain ⟨option, hoption⟩ := exists_option hoptions hw
      exact .inr ⟨i, w, option, t, rfl, hoption, hpos, generate_of_drawOption hdraw hoption⟩

theorem sampled_options_have_weight_three :
    (AliasTable.totalWeight [0.0, 1.0, 5.0]).isFinite = true ∧
      ([0.0, 1.0, 5.0] : List Float32).length ≤ 2048 ∧
      ∃ table, AliasTable.ofWeights? [0.0, 1.0, 5.0] = some table ∧
        ∀ s i t, table.sample s = (.ok i, t) →
          ∃ w : Float32, [0.0, 1.0, 5.0][i]? = some w ∧ w > 0.0 := by
  have hfinite : (AliasTable.totalWeight [0.0, 1.0, 5.0]).isFinite = true := by decide +kernel
  have hsome : (AliasTable.ofWeights? [0.0, 1.0, 5.0]).isSome = true := by decide +kernel
  obtain ⟨table, htable⟩ := Option.isSome_iff_exists.1 hsome
  exact ⟨hfinite, by decide, table, htable,
    (sampled_options_have_weight _ hfinite (by decide)).1 table htable⟩

/-- Two weights of less than the largest number add up to more than it. The first option has no
weight and is chosen all the same. -/
theorem weightless_option_sampled :
    ∃ table t, AliasTable.ofWeights? [0.0, 3e38, 3e38] = some table ∧
      table.sample (.replaying [⟨64, 0⟩, ⟨64, 0⟩] 0 2) = (.ok 0, t) ∧
      generate 1 (.frequencies [(0.0, .just (.integer 0)), (3e38, .just (.integer 1)),
        (3e38, .just (.integer 2))]) (.replaying [⟨64, 0⟩, ⟨64, 0⟩] 0 2) = (.ok (.integer 0), t) ∧
      ¬ (0.0 : Float32) > 0.0 := by
  have hsome : (AliasTable.ofWeights? [0.0, 3e38, 3e38]).isSome = true := by decide +kernel
  have hnone : (AliasTable.Draft.ofWeights [0.0, 3e38, 3e38]).large = [] := by decide +kernel
  obtain ⟨table, htable⟩ := Option.isSome_iff_exists.1 hsome
  have htakes : Takes table.sample [⟨64, 0⟩, ⟨64, 0⟩] 0 :=
    AliasTable.takes_sample_of_leads htable (by decide)
      ((AliasTable.sorted_ofWeights _).leads_of_large_eq_nil hnone) rfl rfl
  obtain ⟨t, -, hrun, -⟩ := htakes _ (Source.offers_replaying 0 (Nat.le_refl 2))
  refine ⟨table, t, htable, hrun, ?_, by decide +kernel⟩
  have hdraw : drawOption [(0.0, .just (.integer 0)), (3e38, .just (.integer 1)),
      (3e38, .just (.integer 2))] (.replaying [⟨64, 0⟩, ⟨64, 0⟩] 0 2) = (.ok 0, t) := by
    rw [← hrun]
    unfold drawOption
    simp only [List.map_cons, List.map_nil, htable]
  rw [generate_of_drawOption hdraw rfl, generate]
  rfl

/-! ## Draws of zero -/

/-- From two draws of zero, a table of weights gives `AliasTable.lowestOf`, and a strategy goes on
as that option. It is the first option with weight if that one comes first of all and what it has is
not lost beside one slot's worth, or if it has more than one slot's worth. -/
theorem zeros_choose_lowest (weights : List Float32)
    (hfinite : (AliasTable.totalWeight weights).isFinite = true)
    (hcounted : weights.length < 2 ^ 64) (d d' : Draw) (hd : d.value = 0)
    (hd' : d'.value = 0) :
    (∀ table, AliasTable.ofWeights? weights = some table →
      Takes table.sample [d, d'] (AliasTable.lowestOf weights) ∧
      ∀ options : List (Float32 × Strategy), options.map Prod.fst = weights → ∀ attempts s,
        s.Offers [d, d'] → ∃ w option t recorded,
          options[AliasTable.lowestOf weights]? = some (w, option) ∧
          s.Advances recorded t ∧ recorded.length = 2 ∧
          generate attempts (.frequencies options) s = generate attempts option t) ∧
    ∀ i, weights.findIdx? (fun w => decide (w > 0.0)) = some i →
      (i = 0 ∧ ¬ 1.0 ≤ 1.0 - AliasTable.shareAt weights 0 ∨
        AliasTable.Large (AliasTable.shareAt weights i)) →
      AliasTable.lowestOf weights = i := by
  refine ⟨fun table htable => ?_, fun i hfirst hkept => ?_⟩
  · have hcount := AliasTable.countable_of_ofWeights? htable hfinite hcounted
    have htakes := AliasTable.takes_sample_of_leads htable hcount.nonempty
      (AliasTable.leads_finish hcount) hd hd'
    refine ⟨htakes, fun options hoptions attempts s ho => ?_⟩
    obtain ⟨t, recorded, hrun, hadvance, hlength⟩ := htakes s ho
    have hdraw : drawOption options s = (.ok (AliasTable.lowestOf weights), t) := by
      unfold drawOption
      rw [hoptions, htable]
      exact hrun
    have hbelow := (AliasTable.ensures_sample (AliasTable.among_of_ofWeights? htable).2).outcome s
    rw [hrun] at hbelow
    obtain ⟨option, hoption⟩ := exists_option hoptions (List.getElem?_eq_getElem hbelow)
    exact ⟨_, option, t, recorded, hoption, hadvance, hlength, generate_of_drawOption hdraw hoption⟩
  · rcases htable : AliasTable.ofWeights? weights with _ | table
    · obtain ⟨hi, hpos, -⟩ := List.findIdx?_eq_some_iff_getElem.1 hfirst
      have hnot := AliasTable.not_pos_of_ofWeights?_eq_none htable _ (List.getElem_mem hi)
      exact absurd (of_decide_eq_true hpos) hnot
    · exact AliasTable.lowestOf_eq (AliasTable.countable_of_ofWeights? htable hfinite hcounted)
        hfirst hkept

theorem zeros_choose_lowest_two :
    (AliasTable.totalWeight [1.0, 5.0]).isFinite = true ∧
      ([1.0, 5.0] : List Float32).length < 2 ^ 64 ∧
      ∃ table, AliasTable.ofWeights? [1.0, 5.0] = some table ∧
        AliasTable.lowestOf [1.0, 5.0] = 0 ∧ Takes table.sample [⟨64, 0⟩, ⟨64, 0⟩] 0 := by
  have hfinite : (AliasTable.totalWeight [1.0, 5.0]).isFinite = true := by decide +kernel
  have hsome : (AliasTable.ofWeights? [1.0, 5.0]).isSome = true := by decide +kernel
  obtain ⟨table, htable⟩ := Option.isSome_iff_exists.1 hsome
  obtain ⟨htakes, hfirst⟩ :=
    zeros_choose_lowest [1.0, 5.0] hfinite (by decide) ⟨64, 0⟩ ⟨64, 0⟩ rfl rfl
  have hlowest : AliasTable.lowestOf [1.0, 5.0] = 0 :=
    hfirst 0 (by decide +kernel) (.inl ⟨rfl, by decide +kernel⟩)
  exact ⟨hfinite, by decide, table, htable, hlowest, hlowest ▸ (htakes table htable).1⟩

/-- The first option with weight is the second one, and draws of zero choose the third. -/
theorem zeros_pass_over_weight :
    ∃ table t, AliasTable.ofWeights? [0.0, 1.0, 5.0] = some table ∧
      table.sample (.replaying [⟨64, 0⟩, ⟨64, 0⟩] 0 2) = (.ok 2, t) ∧
      [0.0, 1.0, 5.0].findIdx? (fun w : Float32 => decide (w > 0.0)) = some 1 := by
  have hfinite : (AliasTable.totalWeight [0.0, 1.0, 5.0]).isFinite = true := by decide +kernel
  have hsome : (AliasTable.ofWeights? [0.0, 1.0, 5.0]).isSome = true := by decide +kernel
  have hlowest : AliasTable.lowestOf [0.0, 1.0, 5.0] = 2 := by decide +kernel
  obtain ⟨table, htable⟩ := Option.isSome_iff_exists.1 hsome
  have hcount := AliasTable.countable_of_ofWeights? htable hfinite (by decide)
  have htakes : Takes table.sample [⟨64, 0⟩, ⟨64, 0⟩] (AliasTable.lowestOf [0.0, 1.0, 5.0]) :=
    AliasTable.takes_sample_of_leads htable hcount.nonempty (AliasTable.leads_finish hcount) rfl rfl
  rw [hlowest] at htakes
  obtain ⟨t, -, hrun, -⟩ := htakes _ (Source.offers_replaying 0 (Nat.le_refl 2))
  exact ⟨table, t, htable, hrun, by decide +kernel⟩

end Strategy

end Falsify
