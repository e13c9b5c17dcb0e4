import Falsify.Proofs.Source.Simulation
import Falsify.Strategy.Generate

/-!
# Generated values as computations composed of draws

A value is generated by draws, by answers of predicates that are counted, and by code of the caller
that sleeps, and by nothing else. So a property of runs that these have is had by every strategy
(`Composable.generate`), by induction on the strategy, one case for each kind. In particular a
relation between sources that they keep is kept by every strategy, and both runs give the same value
(`Simulation.keeps_generate`).
-/

namespace Falsify

theorem react_eq_bind {α : Type} (reaction : Reaction α) :
    react reaction =
      ((fun s => (.ok (), { s with asleep := s.asleep + reaction.asleep }) : DrawM Unit) >>=
        fun _ =>
          match reaction.result with
          | .ok a => pure a
          | .error crash => throw (.crashed crash)) := by
  funext s
  rw [react, DrawM.bind_apply]
  cases reaction.result <;> rfl

namespace DrawM.Composable

variable {P : ∀ {α : Type}, DrawM α → Source → Prop} {α : Type}

theorem refuse (h : Composable P) {e : DrawError} (he : ∀ limit, e ≠ .overrun limit) (s : Source) :
    P (refuse e : DrawM α) s :=
  h.throw _ (fun ⟨limit, hlimit⟩ => he limit (Stop.failed.inj hlimit)) s

theorem react (h : Composable P) (reaction : Reaction α) (s : Source) : P (react reaction) s := by
  rw [react_eq_bind]
  refine h.bind (h.sleep _ s) fun _ _ => ?_
  split
  · exact h.pure _ _
  · exact h.throw _ (by rintro ⟨_, ⟨⟩⟩) _

/-- A filter, if its candidates have the property: by induction on the attempts. -/
theorem retry (h : Composable P) {candidate : DrawM Value} (hc : ∀ s, P candidate s)
    (p : Predicate) : ∀ attempts s, P (Strategy.retry candidate p attempts) s
  | 0, s => h.refuse (by nofun) s
  | attempts + 1, s => by
    refine h.bind (hc s) fun value _ => h.bind (h.react _ _) fun satisfied _ =>
      h.bind (h.count p.name satisfied _) fun _ _ => ?_
    split
    · exact h.pure _ _
    · exact h.retry hc p attempts _

mutual

/-- Every strategy has the property. -/
theorem generate (h : Composable P) (attempts : Nat) :
    ∀ (strategy : Strategy) (s : Source), P (strategy.generate attempts) s
  | .integers least most, s => h.map (h.integerBetween least most s)
  | .anyInteger, s => h.map (h.integerOfLengths bitLengths s)
  | .booleans, s => h.map (h.bits 1 s)
  | .just value, s => h.pure value s
  | .lists elements least most average, s => by
    unfold Strategy.generate
    split
    · exact h.refuse (by nofun) s
    · exact h.map (h.repeatWhile (h.generate attempts elements) _ s)
  | .tuple parts, s => h.map (h.generateAll attempts parts s)
  | .oneOf options, s => by
    unfold Strategy.generate
    split
    · exact h.refuse (by nofun) s
    · exact h.bind (h.uniform _ s) fun i _ => h.generateAt attempts options i.toNat _
  | .frequencies options, s => by
    unfold Strategy.generate
    split
    · exact h.refuse (by nofun) s
    · exact h.bind (h.sample _ s) fun i _ => h.generateWeightedAt attempts options i _
  | .filter inner predicate, s => h.retry (h.generate attempts inner) predicate _ s
  | .map inner transform, s => h.bind (h.generate attempts inner s) fun _ _ => h.react _ _

theorem generateAll (h : Composable P) (attempts : Nat) :
    ∀ (parts : List Strategy) (s : Source), P (Strategy.generateAll attempts parts) s
  | [], s => h.pure _ s
  | part :: rest, s =>
    h.bind (h.generate attempts part s) fun _ _ => h.map (h.generateAll attempts rest _)

theorem generateAt (h : Composable P) (attempts : Nat) :
    ∀ (options : List Strategy) (i : Nat) (s : Source), P (Strategy.generateAt attempts options i) s
  | [], _, s => h.refuse (by nofun) s
  | option :: _, 0, s => h.generate attempts option s
  | _ :: rest, i + 1, s => h.generateAt attempts rest i s

theorem generateWeightedAt (h : Composable P) (attempts : Nat) :
    ∀ (options : List (Float32 × Strategy)) (i : Nat) (s : Source),
      P (Strategy.generateWeightedAt attempts options i) s
  | [], _, s => h.refuse (by nofun) s
  | (_, option) :: _, 0, s => h.generate attempts option s
  | _ :: rest, i + 1, s => h.generateWeightedAt attempts rest i s

end

end DrawM.Composable

theorem Simulation.keeps_generate {m : Simulation} (hm : m.Lawful) (attempts : Nat)
    (strategy : Strategy) : m.Keeps (strategy.generate attempts) :=
  hm.composable.generate attempts strategy

end Falsify
