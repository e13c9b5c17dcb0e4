import Falsify.Run.Phases

/-!
# What the parts of a run leave alone

Most of what a run does is telling, observing and saving. None of it plays a body or changes
how bodies are played.

* `bind_eq_ok`: a part of a run that gives a result, taken apart;
* `Ends`: a part of a run that always gives a result, and what it leaves alone;
* `World.Told`: only the log and the receivers of records have changed;
* `World.Continues`: no body was played, and bodies will be played as before.
-/

namespace Falsify

namespace RunM

variable {σ α β : Type} {x : RunM σ α} {f : α → RunM σ β} {w w' : World σ}

theorem bind_of_ok {a : α} (h : x w = (.ok a, w')) : (x >>= f) w = f a w' := by
  change (ExceptT.bindCont f (x w).1) (x w).2 = _
  rw [h]
  rfl

theorem bind_of_error {e : RunError} (h : x w = (.error e, w')) : (x >>= f) w = (.error e, w') := by
  change (ExceptT.bindCont f (x w).1) (x w).2 = _
  rw [h]
  rfl

/-- One part of a run after another: if both give a result, so did the first. -/
theorem bind_eq_ok {b : β} (h : (x >>= f) w = (.ok b, w')) :
    ∃ a w₁, x w = (.ok a, w₁) ∧ f a w₁ = (.ok b, w') := by
  rcases hx : x w with ⟨e | a, w₁⟩
  · rw [bind_of_error hx] at h
    cases h
  · rw [bind_of_ok hx] at h
    exact ⟨a, w₁, rfl, h⟩

/-! ## Parts that always give a result -/

/-- A relation between worlds that holds of doing nothing and of doing one thing after another. -/
structure Frame (R : World σ → World σ → Prop) : Prop where
  refl (w : World σ) : R w w
  trans {u v w : World σ} : R u v → R v w → R u w

/-- A part of a run always gives a result, and the worlds before and after it are related. -/
def Ends (R : World σ → World σ → Prop) (x : RunM σ α) : Prop :=
  ∀ w, ∃ a w', x w = (.ok a, w') ∧ R w w'

variable {R S : World σ → World σ → Prop}

theorem ends_pure (hR : Frame R) (a : α) : Ends R (pure a : RunM σ α) := fun w =>
  ⟨a, w, rfl, hR.refl w⟩

theorem Ends.bind (hR : Frame R) (hx : Ends R x) (hf : ∀ a, Ends R (f a)) : Ends R (x >>= f) := by
  intro w
  obtain ⟨a, w₁, h, h₁⟩ := hx w
  obtain ⟨b, w₂, h', h₂⟩ := hf a w₁
  exact ⟨b, w₂, (bind_of_ok h).trans h', hR.trans h₁ h₂⟩

/-- What such a part came to is related to where it began. -/
theorem Ends.rel (hx : Ends R x) {r : Except RunError α} (h : x w = (r, w')) : R w w' := by
  obtain ⟨a, w₁, hw, h₁⟩ := hx w
  cases hw.symm.trans h
  exact h₁

theorem Ends.mono (hx : Ends R x) (h : ∀ {w w'}, R w w' → S w w') : Ends S x := by
  intro w
  obtain ⟨a, w₁, hw, h₁⟩ := hx w
  exact ⟨a, w₁, hw, h h₁⟩

/-- A part that always gives a result, in front of one that gave one. -/
theorem Ends.bind_eq_ok (hx : Ends R x) {b : β} (h : (x >>= f) w = (.ok b, w')) :
    ∃ a w₁, R w w₁ ∧ f a w₁ = (.ok b, w') := by
  obtain ⟨a, w₁, hw, h₁⟩ := hx w
  rw [bind_of_ok hw] at h
  exact ⟨a, w₁, h₁, h⟩

/-- The same for a part that may be left out. -/
theorem Ends.ite_bind_eq_ok {p : Prop} [Decidable p] {x : RunM σ Unit} {f : Unit → RunM σ β}
    (hR : Frame R) (hx : Ends R x) {b : β}
    (h : (if p then x >>= fun a => f a else f ()) w = (.ok b, w')) :
    ∃ w₁, R w w₁ ∧ f () w₁ = (.ok b, w') := by
  split at h
  · obtain ⟨⟨⟩, w₁, h₁, h⟩ := hx.bind_eq_ok h
    exact ⟨w₁, h₁, h⟩
  · exact ⟨w, hR.refl w, h⟩

theorem ends_modify {g : World σ → World σ} (h : ∀ w, R w (g w)) :
    Ends R (modify g : RunM σ Unit) := fun w =>
  ⟨(), g w, rfl, h w⟩

/-- Reading the runner changes nothing. -/
theorem runner_bind (f : Runner σ → RunM σ β) (w : World σ) :
    (runner >>= f) w = f w.runner w := rfl

theorem modify_bind (g : World σ → World σ) (f : Unit → RunM σ β) (w : World σ) :
    (modify g >>= f) w = f () (g w) := rfl

theorem stored_bind (x : StoreM σ α) (f : Except DatabaseError α → RunM σ β) (w : World σ) :
    (stored x >>= f) w = f (x w.storage).1 { w with storage := (x w.storage).2 } := rfl

theorem ends_runner_bind {f : Runner σ → RunM σ β} (h : ∀ r, Ends R (f r)) :
    Ends R (runner >>= f) := fun w => h w.runner w

end RunM

/-! ## Telling -/

namespace World

variable {σ : Type} {w w' : World σ}

/-- Only the log and the receivers of records have changed. -/
def Told (w w' : World σ) : Prop :=
  ∃ sinks log, w' = { w with
    runner := { w.runner with sinks := sinks }, storage := { w.storage with log := log } }

theorem told_frame : RunM.Frame (Told (σ := σ)) where
  refl w := ⟨w.runner.sinks, w.storage.log, rfl⟩
  trans := by
    rintro u _ _ ⟨s, l, rfl⟩ ⟨s', l', rfl⟩
    exact ⟨s', l', rfl⟩

/-- No body was played, and bodies will be played as before. -/
structure Continues (w w' : World σ) : Prop where
  settings : w'.runner.settings = w.runner.settings
  deadline : w'.runner.deadline.deadline = w.runner.deadline.deadline
  interrupted : w'.runner.interrupted = w.runner.interrupted
  executed : w'.executed = w.executed
  crash : w'.crash = w.crash

theorem continues_frame : RunM.Frame (Continues (σ := σ)) where
  refl _ := ⟨rfl, rfl, rfl, rfl, rfl⟩
  trans h h' := ⟨h'.settings.trans h.settings, h'.deadline.trans h.deadline,
    h'.interrupted.trans h.interrupted, h'.executed.trans h.executed, h'.crash.trans h.crash⟩

theorem Told.continues (h : w.Told w') : w.Continues w' := by
  obtain ⟨_, _, rfl⟩ := h
  exact ⟨rfl, rfl, rfl, rfl, rfl⟩

end World

namespace RunM

open World

variable {σ : Type}

theorem ends_tell (level : LogLevel) (text : String) : Ends Told (tell level text : RunM σ Unit) :=
  ends_modify fun w => ⟨w.runner.sinks, _, rfl⟩

theorem ends_tellPhase (text : String) : Ends Told (tellPhase text : RunM σ Unit) :=
  ends_runner_bind fun _ => ends_tell _ text

theorem ends_observe (o : Observation) : Ends Told (observe o : RunM σ Unit) :=
  ends_modify fun _ => ⟨_, _, rfl⟩

theorem ends_observeMessage (kind : MessageRecord → Observation) (title content : String) :
    Ends Told (observeMessage kind title content : RunM σ Unit) := by
  refine ends_runner_bind fun r => ?_
  split
  · exact ends_pure told_frame ()
  · exact ends_observe _

theorem ends_databaseError (activity : String) (error : DatabaseError) :
    Ends Told (databaseError activity error : RunM σ Unit) :=
  ends_runner_bind fun _ => (ends_tell _ _).bind told_frame fun _ => ends_observeMessage _ _ _

theorem ends_tellCase (c : Case) : Ends Told (tellCase c : RunM σ Unit) :=
  ends_runner_bind fun _ => ends_tell _ _

theorem ends_tellUnhealthy (failure : HealthFailure) :
    Ends Told (tellUnhealthy failure : RunM σ Unit) :=
  ends_runner_bind fun _ => (ends_tell _ _).bind told_frame fun _ => ends_observeMessage _ _ _

/-! ## Storing -/

theorem ends_stored {α : Type} (x : StoreM σ α) : Ends Continues (stored x) := fun w =>
  ⟨(x w.storage).1, { w with storage := (x w.storage).2 }, rfl, ⟨rfl, rfl, rfl, rfl, rfl⟩⟩

theorem ends_withStore (activity : String) (op : Backend σ → Key → StoreM σ Unit) :
    Ends Continues (withStore activity op) := by
  refine ends_runner_bind fun r => ?_
  split
  · exact ends_pure continues_frame ()
  · refine (ends_stored _).bind continues_frame fun answer => ?_
    split
    · exact ends_pure continues_frame ()
    · exact (ends_databaseError _ _).mono Told.continues

/-- An operation on a store is done, and what comes of it may be told. -/
theorem withStore_told {w : World σ} {backend : Backend σ} (hs : w.runner.store = some backend)
    (activity : String) (op : Backend σ → Key → StoreM σ Unit) :
    ∃ w', withStore activity op w = (.ok (), w') ∧
      Told { w with storage := (op backend w.runner.key w.storage).2 } w' := by
  rw [withStore, runner_bind, hs]
  dsimp only
  rw [stored_bind]
  rcases (op backend w.runner.key w.storage).1 with e | ⟨⟩
  · obtain ⟨⟨⟩, w', h, t⟩ := ends_databaseError activity e
      { w with storage := (op backend w.runner.key w.storage).2 }
    exact ⟨w', h, t⟩
  · exact ⟨_, rfl, told_frame.refl _⟩

theorem ends_modifyRunner {g : Runner σ → Runner σ} (hs : ∀ r, (g r).settings = r.settings)
    (hd : ∀ r, (g r).deadline.deadline = r.deadline.deadline)
    (hi : ∀ r, (g r).interrupted = r.interrupted) : Ends Continues (modifyRunner g) :=
  ends_modify fun w => ⟨hs w.runner, hd w.runner, hi w.runner, rfl, rfl⟩

theorem ends_setMode (mode : DeadlineMode) : Ends Continues (setMode mode : RunM σ Unit) :=
  ends_modifyRunner (fun _ => rfl) (fun _ => rfl) fun _ => rfl

theorem ends_now : Ends Continues (now : RunM σ Duration) := fun w =>
  ⟨w.clock.read.1, { w with clock := w.clock.read.2 }, rfl, ⟨rfl, rfl, rfl, rfl, rfl⟩⟩

theorem ends_resolveSeed (host : Host σ) : Ends Told (resolveSeed host) := by
  refine ends_runner_bind fun r => ?_
  split
  · exact ends_pure told_frame _
  · split
    · exact ends_pure told_frame _
    · exact ends_pure told_frame _

theorem ends_saveIfCovering (c : Case) : Ends Continues (saveIfCovering c : RunM σ Unit) := by
  refine ends_runner_bind fun r => ?_
  split
  · refine Ends.bind continues_frame (ends_modifyRunner ?_ ?_ ?_) fun _ => ?_
    · exact fun _ => rfl
    · exact fun _ => rfl
    · exact fun _ => rfl
    split
    · refine Ends.bind continues_frame (ends_modifyRunner ?_ ?_ ?_) fun _ => ends_withStore _ _
      · exact fun _ => rfl
      · exact fun _ => rfl
      · exact fun _ => rfl
    · exact ends_pure continues_frame ()
  · exact ends_pure continues_frame ()

theorem ends_saveFailure (c : Case) : Ends Continues (saveFailure c : RunM σ Unit) :=
  ((ends_tell _ _).mono Told.continues).bind continues_frame fun _ => ends_withStore _ _

theorem ends_tellSearch (search : Search (World σ)) : Ends Continues (tellSearch search) := by
  refine ((ends_tell _ _).mono Told.continues).bind continues_frame fun _ => ?_
  refine Ends.bind continues_frame (ends_modifyRunner ?_ ?_ ?_) fun _ => ?_
  · exact fun _ => rfl
  · exact fun _ => rfl
  · exact fun _ => rfl
  split
  · exact (ends_tell _ _).mono Told.continues
  · exact ends_pure continues_frame ()

end RunM

end Falsify
