import Falsify.Proofs.Source.Composition

/-!
# Simulations between sources

Two runs of one computation on different sources. All that is drawn goes through
`Source.bits` and `Source.write`, so whatever relation between the sources these two
keep (`Simulation.Lawful`), every computation made of them keeps:

* `Simulation`, `Simulation.KeepsAt`: a relation, and what it means to keep it;
* `KeepsAt.bind`: one computation after another;
* `Lawful.composable`: so it is kept by every loop and choice.
-/

namespace Falsify

/-- A comparison of the sources of two runs. -/
structure Simulation where
  /-- How the source of the second run stands to that of the first. -/
  rel : Source → Source → Prop
  /-- What is asked of the end of the first run. -/
  within : Source → Prop
  /-- Errors of the first run that the second need not follow. -/
  exempt : Stop → Prop

namespace Simulation

variable {α β : Type}

/-- Run from `s` and from a related source, the second run follows the first one, provided that the
first one ends where it is asked to. Then that is asked of its start as well. -/
structure KeepsAt (m : Simulation) (x : DrawM α) (s : Source) : Prop where
  back : m.within (x s).2 → m.within s
  follow : ∀ t, m.rel s t → m.within (x s).2 →
    (∃ e, (x s).1 = .error e ∧ m.exempt e) ∨ (x t).1 = (x s).1 ∧ m.rel (x s).2 (x t).2

/-- The second run follows the first one wherever that starts. -/
def Keeps (m : Simulation) (x : DrawM α) : Prop :=
  ∀ s, m.KeepsAt x s

/-- The elementary steps keep the relation. -/
structure Lawful (m : Simulation) : Prop where
  bits (width : UInt8) : m.Keeps (Source.bits width)
  write (value : UInt64) : m.Keeps (Source.write value)
  count (name : String) (satisfied : Bool) :
    m.Keeps fun s => (.ok (), s.recordPredicate name satisfied)
  sleep (nanos : Nat) : m.Keeps fun s => (.ok (), { s with asleep := s.asleep + nanos })

variable {m : Simulation}

theorem keeps_pure (a : α) : m.Keeps (pure a : DrawM α) := fun _ =>
  ⟨id, fun _ h _ => .inr ⟨rfl, h⟩⟩

theorem keeps_throw (e : Stop) : m.Keeps (throw e : DrawM α) := fun _ =>
  ⟨id, fun _ h _ => .inr ⟨rfl, h⟩⟩

/-- One computation after another, the second one from where the first one ends. -/
theorem KeepsAt.bind {x : DrawM α} {f : α → DrawM β} {s : Source} (hx : m.KeepsAt x s)
    (hf : ∀ a, (x s).1 = .ok a → m.KeepsAt (f a) (x s).2) : m.KeepsAt (x >>= f) s := by
  rcases h : (x s).1 with e | a
  · have hs : (x >>= f) s = (.error e, (x s).2) := DrawM.bind_of_error h
    refine ⟨fun hw => hx.back (by rwa [hs] at hw), fun t ht hw => ?_⟩
    rw [hs] at hw ⊢
    rcases hx.follow t ht hw with ⟨e', he, hm⟩ | ⟨h₁, h₂⟩
    · cases h.symm.trans he
      exact .inl ⟨e, rfl, hm⟩
    · rw [DrawM.bind_of_error (h₁.trans h)]
      exact .inr ⟨rfl, h₂⟩
  · have hs : (x >>= f) s = f a (x s).2 := DrawM.bind_of_ok h
    refine ⟨fun hw => hx.back ((hf a h).back (by rwa [hs] at hw)), fun t ht hw => ?_⟩
    rw [hs] at hw ⊢
    rcases hx.follow t ht ((hf a h).back hw) with ⟨e, he, _⟩ | ⟨h₁, h₂⟩
    · cases h.symm.trans he
    · rw [DrawM.bind_of_ok (h₁.trans h)]
      exact (hf a h).follow _ h₂ hw

/-- What the elementary steps keep, every computation composed of them keeps. -/
theorem Lawful.composable (hm : m.Lawful) : DrawM.Composable m.KeepsAt where
  pure a s := keeps_pure a s
  throw e _ s := keeps_throw e s
  bits width s := hm.bits width s
  write value s := hm.write value s
  count name satisfied s := hm.count name satisfied s
  sleep nanos s := hm.sleep nanos s
  bind hx hf := hx.bind hf

theorem keeps_step (hm : m.Lawful) (g : Growth) : m.Keeps g.step :=
  hm.composable.step g

end Simulation

end Falsify
