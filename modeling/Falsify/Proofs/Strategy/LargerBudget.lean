import Mathlib.Data.List.Infix
import Falsify.Proofs.Strategy.Composition

/-!
# Larger budgets

A draw budget cuts generation short and does nothing else: it steers no choice. From one source with
two budgets, a computation overruns the smaller one after the draws that it makes first with the
larger one, or both runs are the same (`DrawM.CutAt`). Single draws are cut so, and a cut in a part
of a computation is a cut in the whole, since what was drawn stays on record.

* `CutAt.bind`: one computation after another;
* `cutAt_composable`: so every computation composed of draws is cut;
* `Strategy.generate_larger_budget`: the law for generated values.
-/

namespace Falsify

namespace Source

/-- The same source with another budget. -/
def withBudget (s : Source) (budget : Nat) : Source :=
  { s with maxDraws := budget }

@[simp] theorem record_withBudget (s : Source) (budget : Nat) :
    (s.withBudget budget).record = s.record := rfl

@[simp] theorem maxDraws_withBudget (s : Source) (budget : Nat) :
    (s.withBudget budget).maxDraws = budget := rfl

@[simp] theorem withBudget_maxDraws (s : Source) : s.withBudget s.maxDraws = s := rfl

end Source

namespace DrawM

variable {α β : Type} {x : DrawM α} {f : α → DrawM β} {s : Source} {budget : Nat}

/-- With this budget the computation overruns, after the draws that it makes first from `s`. -/
structure CutShort (x : DrawM α) (s : Source) (budget : Nat) : Prop where
  result : (x (s.withBudget budget)).1 = .error (.failed (.overrun budget))
  full : (x (s.withBudget budget)).2.record.size = budget
  drawn : (x (s.withBudget budget)).2.drawn <+: (x s).2.drawn

/-- With this budget the computation does what it does from `s`, and does not overrun. -/
structure Spared (x : DrawM α) (s : Source) (budget : Nat) : Prop where
  same : x (s.withBudget budget) = ((x s).1, (x s).2.withBudget budget)
  room : (x s).2.record.size ≤ budget
  complete : ∀ e, (x s).1 = .error e → ¬ e.Overrun

/-- A smaller budget that holds what `s` has drawn does no more than cut the computation short. -/
structure CutAt (x : DrawM α) (s : Source) : Prop where
  grows : s.drawn <+: (x s).2.drawn
  maxDraws : (x s).2.maxDraws = s.maxDraws
  cut : ∀ budget ≤ s.maxDraws, s.record.size ≤ budget → CutShort x s budget ∨ Spared x s budget

/-! ## Elementary steps -/

/-- A step that leaves the record alone is the same with every budget. -/
theorem cutAt_of_record {t : Source} (h : ∀ budget, x (s.withBudget budget) =
    ((x s).1, t.withBudget budget)) (ht : t.record = s.record)
    (he : ∀ e, (x s).1 = .error e → ¬ e.Overrun) : CutAt x s := by
  have hs : (x s).2 = t.withBudget s.maxDraws := congrArg Prod.snd (h s.maxDraws)
  refine ⟨?_, by rw [hs, Source.maxDraws_withBudget], fun budget _ hroom => .inr ⟨?_, ?_, he⟩⟩
  · rw [hs, Source.drawn, Source.drawn, Source.record_withBudget, ht]
  · rw [h, hs]
    rfl
  · rwa [hs, Source.record_withBudget, ht]

/-- A single draw is made if the budget has room for it, and then does not depend on the budget. -/
theorem cutAt_of_push (a : α) (stream : ChaCha8) (d : Draw)
    (hfull : ∀ t : Source, t.maxDraws ≤ t.record.size →
      x t = (.error (.failed (.overrun t.maxDraws)), t))
    (hroom : ∀ budget, ¬ budget ≤ s.record.size → x (s.withBudget budget) =
      (.ok a, { s with stream := stream, record := s.record.push d, maxDraws := budget })) :
    CutAt x s := by
  by_cases hs : s.maxDraws ≤ s.record.size
  · have hx := hfull s hs
    refine ⟨by rw [hx], by rw [hx], fun budget hle hsize => .inl ?_⟩
    obtain rfl : budget = s.maxDraws := by omega
    have hfull : s.record.size = s.maxDraws := Nat.le_antisymm hsize hs
    exact ⟨by rw [Source.withBudget_maxDraws, hx], by rw [Source.withBudget_maxDraws, hx, hfull],
      List.prefix_refl _⟩
  · have hx := hroom s.maxDraws hs
    rw [Source.withBudget_maxDraws] at hx
    have hgrows : s.drawn <+: (x s).2.drawn := by
      rw [hx, Source.drawn, Source.drawn, Array.toList_push]
      exact List.prefix_append _ _
    refine ⟨hgrows, by rw [hx], fun budget hle hsize => ?_⟩
    by_cases hb : budget ≤ s.record.size
    · have hcut := hfull (s.withBudget budget) hb
      refine .inl ⟨by rw [hcut]; rfl, ?_, by rw [hcut]; exact hgrows⟩
      rw [hcut, Source.record_withBudget]
      omega
    · refine .inr ⟨by rw [hroom budget hb, hx]; rfl, ?_, by rw [hx]; nofun⟩
      rw [hx, Array.size_push]
      omega

/-! ## Compositions -/

theorem CutShort.bind (h : CutShort x s budget)
    (hgrows : (x s).2.drawn <+: ((x >>= f) s).2.drawn) : CutShort (x >>= f) s budget := by
  have hrun : (x >>= f) (s.withBudget budget) = _ := bind_of_error h.result
  exact ⟨by rw [hrun], by rw [hrun]; exact h.full, by rw [hrun]; exact h.drawn.trans hgrows⟩

theorem Spared.bind_of_error {e : Stop} (h : Spared x s budget) (hr : (x s).1 = .error e) :
    Spared (x >>= f) s budget := by
  have hrun : (x >>= f) s = _ := DrawM.bind_of_error hr
  have hrun' : (x >>= f) (s.withBudget budget) = _ :=
    DrawM.bind_of_error ((congrArg Prod.fst h.same).trans hr)
  refine ⟨by rw [hrun, hrun', h.same], by rw [hrun]; exact h.room, fun _ he => ?_⟩
  rw [hrun] at he
  cases he
  exact h.complete e hr

/-- Where the first part is spared, the budget cuts the whole as it cuts the second part. -/
theorem Spared.bind_of_ok {a : α} (h : Spared x s budget) (hr : (x s).1 = .ok a)
    (hf : CutShort (f a) (x s).2 budget ∨ Spared (f a) (x s).2 budget) :
    CutShort (x >>= f) s budget ∨ Spared (x >>= f) s budget := by
  have hrun : (x >>= f) s = f a (x s).2 := DrawM.bind_of_ok hr
  have hrun' : (x >>= f) (s.withBudget budget) = f a ((x s).2.withBudget budget) := by
    rw [DrawM.bind_of_ok ((congrArg Prod.fst h.same).trans hr), h.same]
  rcases hf with hcut | hspared
  · exact .inl ⟨by rw [hrun']; exact hcut.result, by rw [hrun']; exact hcut.full,
      by rw [hrun, hrun']; exact hcut.drawn⟩
  · exact .inr ⟨by rw [hrun, hrun']; exact hspared.same, by rw [hrun]; exact hspared.room,
      by rw [hrun]; exact hspared.complete⟩

/-- A cut in the first part is a cut in the whole, as the second part only adds to the record. -/
theorem CutAt.bind (hx : CutAt x s) (hf : ∀ a, (x s).1 = .ok a → CutAt (f a) (x s).2) :
    CutAt (x >>= f) s := by
  rcases hr : (x s).1 with e | a
  · have hrun : (x >>= f) s = _ := DrawM.bind_of_error hr
    refine ⟨by rw [hrun]; exact hx.grows, by rw [hrun]; exact hx.maxDraws,
      fun budget hle hsize => ?_⟩
    rcases hx.cut budget hle hsize with hcut | hspared
    · exact .inl (hcut.bind (by rw [hrun]))
    · exact .inr (hspared.bind_of_error hr)
  · have hrun : (x >>= f) s = _ := DrawM.bind_of_ok hr
    have hgrows : (x s).2.drawn <+: ((x >>= f) s).2.drawn := by
      rw [hrun]
      exact (hf a hr).grows
    refine ⟨hx.grows.trans hgrows, ?_, fun budget hle hsize => ?_⟩
    · rw [hrun]
      exact (hf a hr).maxDraws.trans hx.maxDraws
    · rcases hx.cut budget hle hsize with hcut | hspared
      · exact .inl (hcut.bind hgrows)
      · exact hspared.bind_of_ok hr
          ((hf a hr).cut budget (hx.maxDraws.symm ▸ hle) hspared.room)

/-- What is composed of draws is cut by its budget and not steered. -/
theorem cutAt_composable : Composable CutAt where
  pure _ _ := cutAt_of_record (fun _ => rfl) rfl nofun
  throw _ he _ := cutAt_of_record (fun _ => rfl) rfl fun _ h => Except.error.inj h ▸ he
  bits width s := cutAt_of_push (Draw.fit width s.nextWord.1).value s.nextWord.2
    (Draw.fit width s.nextWord.1) (fun _ => Source.bits_of_full width)
    fun budget hb => Source.bits_of_room (s := s.withBudget budget) width hb
  write value s := cutAt_of_push () s.stream (Source.written value)
    (fun _ => Source.write_of_full value)
    fun budget hb => Source.write_of_room (s := s.withBudget budget) value hb
  count name satisfied s := cutAt_of_record (t := s.recordPredicate name satisfied) (fun _ => rfl)
    rfl nofun
  sleep nanos s := cutAt_of_record (t := { s with asleep := s.asleep + nanos }) (fun _ => rfl)
    rfl nofun
  bind hx hf := hx.bind hf

end DrawM

namespace Strategy

/-- A larger budget only removes overruns. A value that is generated within a budget, or turned down
for another reason than the budget, is so with every larger one, from the same draws and with the
same answers of the filters. Generation that overruns its budget has used it up, by the draws that
it makes first with a larger one. -/
theorem generate_larger_budget (strategy : Strategy) (attempts : Nat) (forced : Draws)
    (seed : UInt64) {budget larger : Nat} (h : budget ≤ larger) :
    let short := strategy.generate attempts (.replaying forced seed budget)
    let long := strategy.generate attempts (.replaying forced seed larger)
    ((∀ limit, short.1 ≠ .error (.failed (.overrun limit))) →
      long.1 = short.1 ∧ long.2.drawn = short.2.drawn ∧
        long.2.predicates = short.2.predicates) ∧
    ∀ limit, short.1 = .error (.failed (.overrun limit)) →
      limit = budget ∧ short.2.drawn.length = budget ∧
        short.2.drawn = long.2.drawn.take budget := by
  intro short long
  have hcut := (DrawM.cutAt_composable.generate attempts strategy
    (.replaying forced seed larger)).cut budget h (Nat.zero_le _)
  rcases hcut with hcut | hspared
  · have hlength : short.2.drawn.length = budget := hcut.full
    refine ⟨fun hno => absurd hcut.result (hno budget), fun limit hlimit => ⟨?_, hlength, ?_⟩⟩
    · exact (DrawError.overrun.inj (Stop.failed.inj
        (Except.error.inj (hcut.result.symm.trans hlimit)))).symm
    · rw [← hlength]
      exact List.prefix_iff_eq_take.1 hcut.drawn
  · have hsame : short = (long.1, long.2.withBudget budget) := hspared.same
    refine ⟨fun _ => by rw [hsame]; exact ⟨rfl, rfl, rfl⟩, fun limit hlimit => ?_⟩
    rw [hsame] at hlimit
    exact absurd ⟨limit, rfl⟩ (hspared.complete _ hlimit)

/-- The filter that lets only `true` through. -/
def onlyTrue : Predicate :=
  ⟨"true", fun
    | .boolean b => ⟨0, .ok b⟩
    | _ => ⟨0, .ok false⟩⟩

theorem generate_larger_budget_filtered :
    let strategy : Strategy := .tuple [.booleans, .filter .booleans onlyTrue]
    let short := strategy.generate 2 (.replaying [⟨1, 1⟩, ⟨1, 0⟩, ⟨1, 1⟩] 0 2)
    let long := strategy.generate 2 (.replaying [⟨1, 1⟩, ⟨1, 0⟩, ⟨1, 1⟩] 0 4)
    2 ≤ 4 ∧ short.1 = .error (.failed (.overrun 2)) ∧
      long.1 = .ok (.tuple [.boolean true, .boolean true]) ∧
      short.2.drawn.length = 2 ∧ short.2.drawn = long.2.drawn.take 2 := by
  intro strategy short long
  have hshort : short.1 = .error (.failed (.overrun 2)) := rfl
  have hlong : long.1 = .ok (.tuple [.boolean true, .boolean true]) := rfl
  obtain ⟨-, h⟩ := generate_larger_budget strategy 2 [⟨1, 1⟩, ⟨1, 0⟩, ⟨1, 1⟩] 0
    (by decide : 2 ≤ 4)
  obtain ⟨-, hlength, hdrawn⟩ := h 2 hshort
  exact ⟨by decide, hshort, hlong, hlength, hdrawn⟩

end Strategy

end Falsify
