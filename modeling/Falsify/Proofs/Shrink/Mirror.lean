import Falsify.Proofs.Shrink.Steps

/-!
# Searches seen through an image of their world

A search learns of its world by its trials alone. If each trial can be told from an image of the
world, then so can the whole search, and what it does to the world shows in the image. A trial may
spoil the world for good; nothing is said of searches that end in a spoilt one.

* `Mirror`: an image of states, and the states that are not spoilt;
* `Mirror.Reflects`: what a computation does can be told from images;
* `reflects_minimizeInteger`, `follows_run`: if trials can, and the time if it matters, so can
  searches.
-/

namespace Falsify

/-- An image of states, and which states are not spoilt. -/
structure Mirror (α β : Type) where
  good : α → Prop
  image : α → β

namespace Mirror

variable {α β ρ ρ' : Type} (m : Mirror α β)

/-- A computation that ends in a good state has begun in one, and another computation does on images
what it does. -/
def Reflects (f : StateM α ρ) (g : StateM β ρ) : Prop :=
  ∀ a, m.good (f a).2 → m.good a ∧ g (m.image a) = ((f a).1, m.image (f a).2)

/-- The same for a change of states. -/
def Follows (f : α → α) (g : β → β) : Prop :=
  ∀ a, m.good (f a) → m.good a ∧ g (m.image a) = m.image (f a)

variable {m} {f : StateM α ρ} {g : StateM β ρ}

theorem reflects_pure (r : ρ) : m.Reflects (pure r) (pure r) := fun _ h => ⟨h, rfl⟩

theorem Reflects.bind {f' : ρ → StateM α ρ'} {g' : ρ → StateM β ρ'} (h : m.Reflects f g)
    (h' : ∀ r, m.Reflects (f' r) (g' r)) : m.Reflects (f >>= f') (g >>= g') := by
  intro a ha
  obtain ⟨ha₁, he₁⟩ := h' (f a).1 (f a).2 ha
  obtain ⟨ha₀, he₀⟩ := h a ha₁
  refine ⟨ha₀, ?_⟩
  change g' (g (m.image a)).1 (g (m.image a)).2 = _
  rw [he₀]
  exact he₁

theorem reflects_get_bind {f' : α → StateM α ρ} {g' : β → StateM β ρ}
    (h : ∀ a, m.Reflects (f' a) (g' (m.image a))) : m.Reflects (get >>= f') (get >>= g') :=
  fun a => h a a

theorem Reflects.follows (h : m.Reflects f g) :
    m.Follows (fun a => (f a).2) (fun b => (g b).2) := by
  intro a ha
  obtain ⟨ha₀, he⟩ := h a ha
  exact ⟨ha₀, congrArg Prod.snd he⟩

theorem follows_id : m.Follows id id := fun _ h => ⟨h, rfl⟩

theorem Follows.comp {f f' : α → α} {g g' : β → β} (h : m.Follows f g) (h' : m.Follows f' g') :
    m.Follows (f' ∘ f) (g' ∘ g) := by
  intro a ha
  obtain ⟨ha₁, he₁⟩ := h' (f a) ha
  obtain ⟨ha₀, he₀⟩ := h a ha₁
  exact ⟨ha₀, (congrArg g' he₀).trans he₁⟩

/-- What every step of a fold does shows in the image, so what the fold does shows. -/
theorem follows_foldl {ι : Type} {step : α → ι → α} {step' : β → ι → β}
    (h : ∀ i, m.Follows (step · i) (step' · i)) (l : List ι) :
    m.Follows (fun a => l.foldl step a) (fun b => l.foldl step' b) := by
  induction l with
  | nil => exact follows_id
  | cons i l ih => exact (h i).comp ih

/-! ## Searches for numbers -/

section Find

variable {f : Trial α} {g : Trial β} (h : ∀ n, m.Reflects (f n) (g n))

include h

theorem reflects_bisect (low high : Nat) : m.Reflects (bisect f low high) (bisect g low high) := by
  induction hn : high - low using Nat.strongRecOn generalizing low high with
  | _ n ih =>
    rw [bisect, bisect]
    split
    · refine (h _).bind fun b => ?_
      split
      · exact ih _ (by omega) _ _ rfl
      · exact ih _ (by omega) _ _ rfl
    · exact reflects_pure low

theorem reflects_gallop (low high : Nat) : m.Reflects (gallop f low high) (gallop g low high) := by
  induction hn : wordLimit - high using Nat.strongRecOn generalizing low high with
  | _ n ih =>
    rw [gallop.eq_def f, gallop.eq_def g]
    refine (h high).bind fun b => ?_
    split
    · split
      · exact ih _ (by omega) _ _ rfl
      · exact reflects_pure high
    · exact reflects_bisect h low high

theorem reflects_stepFrom (i steps : Nat) :
    m.Reflects (stepFrom f i steps) (stepFrom g i steps) := by
  induction steps generalizing i with
  | zero => exact reflects_gallop h _ _
  | succ steps ih =>
    refine (h i).bind fun b => ?_
    split
    · exact ih _
    · exact reflects_pure _

theorem reflects_findInteger : m.Reflects (findInteger f) (findInteger g) :=
  reflects_stepFrom h 1 4

end Find

/-- Descents, of which only the state of the trials has another image. -/
def descent (m : Mirror α β) : Mirror (Descent α) (Descent β) where
  good d := m.good d.world
  image d := ⟨d.current, m.image d.world⟩

@[simp] theorem current_descent (d : Descent α) : (m.descent.image d).current = d.current := rfl

section Descend

open Descent

variable {f : Trial α} {g : Trial β} (h : ∀ n, m.Reflects (f n) (g n))

include h

theorem reflects_consider (n : Nat) :
    m.descent.Reflects (Descent.consider f n) (Descent.consider g n) := by
  intro d hd
  rcases Nat.lt_trichotomy n d.current with hn | hn | hn
  · rw [consider_of_lt hn] at hd
    obtain ⟨hd₀, he⟩ := h n d.world hd
    refine ⟨hd₀, ?_⟩
    rw [consider_of_lt hn, consider_of_lt (d := m.descent.image d) hn]
    change (let r := g n (m.image d.world); (r.1, Descent.mk (if r.1 then n else _) r.2)) = _
    rw [he]
    rfl
  · rw [consider_of_eq hn] at hd ⊢
    exact ⟨hd, consider_of_eq (d := m.descent.image d) hn⟩
  · rw [consider_of_gt hn] at hd ⊢
    exact ⟨hd, consider_of_gt (d := m.descent.image d) hn⟩

theorem reflects_considerFirst (values : List Nat) :
    m.descent.Reflects (considerFirst f values) (considerFirst g values) := by
  induction values with
  | nil => exact reflects_pure ()
  | cons n rest ih =>
    refine (reflects_consider h n).bind fun b => ?_
    split
    · exact reflects_pure ()
    · exact ih

theorem reflects_lowerByMultiples (k : Nat) :
    m.descent.Reflects (lowerByMultiples f k) (lowerByMultiples g k) := by
  refine reflects_get_bind fun d => (reflects_findInteger fun n => ?_).bind fun _ =>
    reflects_pure ()
  rw [current_descent]
  split
  · exact reflects_consider h _
  · exact reflects_pure false

theorem reflects_shortCut : m.descent.Reflects (shortCut f) (shortCut g) := by
  refine (reflects_consider h 0).bind fun b => ?_
  split
  · exact reflects_pure true
  · refine (reflects_consider h 1).bind fun b => ?_
    split
    · exact reflects_pure true
    · refine reflects_get_bind fun d => (reflects_considerFirst h _).bind fun _ =>
        reflects_get_bind fun d => ?_
      rw [current_descent]
      have hlast : m.descent.Reflects (do return (← get).current == 2)
          (do return (← get).current == 2) := reflects_get_bind fun d => reflects_pure _
      dsimp only
      split
      · exact reflects_get_bind fun _ => (reflects_consider h _).bind fun _ =>
          reflects_get_bind fun _ => (reflects_consider h _).bind fun _ => hlast
      · exact hlast

theorem reflects_lowerOnce : m.descent.Reflects (lowerOnce f) (lowerOnce g) :=
  reflects_get_bind fun _ => (reflects_considerFirst h _).bind fun _ =>
    (reflects_lowerByMultiples h 2).bind fun _ => reflects_lowerByMultiples h 1

theorem follows_lower : m.descent.Follows (lower f) (lower g) := by
  intro d
  induction hn : d.current using Nat.strongRecOn generalizing d with
  | _ n ih =>
    have hround := (reflects_lowerOnce h).follows d
    rw [lower.eq_def f, lower.eq_def g]
    dsimp only at hround ⊢
    generalize (lowerOnce f d).2 = d₁ at hround ⊢
    intro hd
    split at hd
    · rename_i hlt
      obtain ⟨hd₁, he₁⟩ := ih _ (hn ▸ hlt) d₁ rfl hd
      obtain ⟨hd₀, he₀⟩ := hround hd₁
      rw [he₀, current_descent, current_descent, dif_pos hlt, dif_pos hlt]
      exact ⟨hd₀, he₁⟩
    · rename_i hlt
      obtain ⟨hd₀, he₀⟩ := hround hd
      rw [he₀, current_descent, current_descent, dif_neg hlt, dif_neg hlt]
      exact ⟨hd₀, rfl⟩

theorem reflects_descended (start : Nat) (a : α) (ha : m.descent.good (descended f start a)) :
    m.good a ∧ descended g start (m.image a) = m.descent.image (descended f start a) := by
  have hcut := reflects_shortCut h ⟨start, a⟩
  unfold descended at ha ⊢
  change _ ∧ (if (shortCut g (m.descent.image ⟨start, a⟩)).1
    then (shortCut g (m.descent.image ⟨start, a⟩)).2
    else lower g (shortCut g (m.descent.image ⟨start, a⟩)).2) = _
  by_cases hdone : (shortCut f ⟨start, a⟩).1 = true
  · rw [if_pos hdone] at ha ⊢
    obtain ⟨hd, he⟩ := hcut ha
    rw [he]
    exact ⟨hd, if_pos hdone⟩
  · rw [if_neg hdone] at ha ⊢
    obtain ⟨hd₁, he₁⟩ := follows_lower h _ ha
    obtain ⟨hd, he⟩ := hcut hd₁
    rw [he, ← he₁]
    exact ⟨hd, if_neg hdone⟩

theorem reflects_minimizeInteger (start : Nat) :
    m.Reflects (minimizeInteger f start) (minimizeInteger g start) := by
  intro a ha
  obtain ⟨hd, he⟩ := reflects_descended h start a ha
  refine ⟨hd, ?_⟩
  rw [minimizeInteger_apply, minimizeInteger_apply, he]
  rfl

end Descend

/-! ## Searches for sequences -/

/-- Searches, of which only the world has another image. -/
def search (m : Mirror α β) : Mirror (Search α) (Search β) where
  good s := m.good s.world
  image s := ⟨s.current, s.seen, s.attempts, s.improvements, s.exhausted, m.image s.world⟩

@[simp] theorem current_search (s : Search α) : (m.search.image s).current = s.current := rfl

@[simp] theorem exhausted_search (s : Search α) :
    (m.search.image s).exhausted = s.exhausted := rfl

section Passes

open Search

/- Trials can be told from images of the world, and so can the time if it matters. -/
variable {o : Oracle α} {o' : Oracle β} {b : ShrinkBudget}
  (h : ∀ c, m.Reflects (o.trial c) (o'.trial c))
  (hb : b.timeout = none ∨ m.Reflects o.elapsed o'.elapsed)

include h in
theorem reflects_attempt (c : Draws) :
    m.search.Reflects (attempt o c) (attempt o' c) := by
  intro s hs
  have ht := h c s.world
  have hw : (m.search.image s).world = m.image s.world := rfl
  simp only [attempt, hw] at hs ⊢
  generalize o.trial c s.world = answer at hs ht ⊢
  rcases answer with ⟨_ | recorded, world⟩
  · obtain ⟨hs₀, he⟩ := ht hs
    rw [he]
    exact ⟨hs₀, rfl⟩
  · dsimp only at hs ⊢
    split at hs
    · rename_i hlt
      obtain ⟨hs₀, he⟩ := ht hs
      rw [he, if_pos hlt]
      exact ⟨hs₀, if_pos hlt⟩
    · rename_i hlt
      obtain ⟨hs₀, he⟩ := ht hs
      rw [he, if_neg hlt]
      exact ⟨hs₀, if_neg hlt⟩

include hb in
theorem follows_checkBudget :
    m.search.Follows (checkBudget o b) (checkBudget o' b) := by
  intro s
  have hattempts : (m.search.image s).attempts = s.attempts := rfl
  have hw : (m.search.image s).world = m.image s.world := rfl
  unfold checkBudget
  rw [hattempts, hw]
  split
  · exact fun hs => ⟨hs, rfl⟩
  · rcases ht : b.timeout with _ | timeout
    · exact fun hs => ⟨hs, rfl⟩
    · intro hs
      obtain ⟨hs₀, he⟩ := hb.resolve_left (by rw [ht]; nofun) s.world hs
      dsimp only
      rw [he]
      exact ⟨hs₀, rfl⟩

include h hb

theorem reflects_consider_search (c : Draws) :
    m.search.Reflects (consider o b c) (consider o' b c) := by
  intro s
  have hbudget : m.search.good (s.checkBudget o b) → m.search.good s ∧
      (m.search.image s).checkBudget o' b = m.search.image (s.checkBudget o b) :=
    follows_checkBudget hb s
  have hattempt := reflects_attempt h c (s.checkBudget o b)
  unfold consider
  rw [current_search]
  change _ → _ ∧ (if c = s.current then _
    else if ¬ c.Simpler s.current ∨ s.seen.contains c then _ else _) = _
  split
  · exact fun hs => ⟨hs, rfl⟩
  · split
    · exact fun hs => ⟨hs, rfl⟩
    · split
      · rename_i hx
        intro hs
        obtain ⟨hs₀, he⟩ := hbudget hs
        rw [he, exhausted_search, if_pos hx]
        exact ⟨hs₀, rfl⟩
      · rename_i hx
        intro hs
        obtain ⟨hs₁, he₁⟩ := hattempt hs
        obtain ⟨hs₀, he⟩ := hbudget hs₁
        rw [he, exhausted_search, if_neg hx]
        exact ⟨hs₀, he₁⟩

theorem reflects_considerValue (positions : List Nat) (value : Nat) :
    m.search.Reflects (considerValue o b positions value) (considerValue o' b positions value) := by
  intro s
  unfold considerValue
  rw [current_search]
  split
  · exact reflects_consider_search h hb _ s
  · exact fun hs => ⟨hs, rfl⟩

theorem follows_minimizeAt (i : Nat) :
    m.search.Follows (minimizeAt o b · i) (minimizeAt o' b · i) := by
  intro s
  dsimp only [minimizeAt]
  rw [current_search, exhausted_search]
  split
  · split
    · exact fun hs => ⟨hs, rfl⟩
    · exact (reflects_minimizeInteger (reflects_considerValue h hb _) _).follows s
  · exact fun hs => ⟨hs, rfl⟩

theorem follows_reorderAt (i : Nat) :
    m.search.Follows (reorderAt o b · i) (reorderAt o' b · i) := by
  intro s
  dsimp only [reorderAt]
  rw [current_search, exhausted_search]
  split
  · exact (reflects_consider_search h hb _).follows s
  · exact fun hs => ⟨hs, rfl⟩

theorem follows_minimizeGroup (g : UInt64 × List Nat) :
    m.search.Follows (minimizeGroup o b · g) (minimizeGroup o' b · g) := by
  intro s
  dsimp only [minimizeGroup]
  rw [exhausted_search]
  split
  · exact fun hs => ⟨hs, rfl⟩
  · exact (reflects_minimizeInteger (reflects_considerValue h hb _) _).follows s

theorem follows_deleteBlocks (size i : Nat) :
    m.search.Follows (deleteBlocks o b size i) (deleteBlocks o' b size i) := by
  intro s
  fun_induction deleteBlocks o b size i s with
  | case1 i s hc s' he ih =>
    intro hs
    obtain ⟨hs₁, he₁⟩ := ih hs
    have hstep := reflects_consider_search h hb (s.current.withoutRange i (i + size)) s
    rw [he] at hstep
    obtain ⟨hs₀, he₀⟩ := hstep hs₁
    exact ⟨hs₀, (deleteBlocks_of_consider (s := m.search.image s) hc he₀).trans he₁⟩
  | case2 i s hc s' he ih =>
    intro hs
    obtain ⟨hs₁, he₁⟩ := ih hs
    have hstep := reflects_consider_search h hb (s.current.withoutRange i (i + size)) s
    rw [he] at hstep
    obtain ⟨hs₀, he₀⟩ := hstep hs₁
    exact ⟨hs₀, (deleteBlocks_of_consider (s := m.search.image s) hc he₀).trans he₁⟩
  | case3 i s hc =>
    intro hs
    refine ⟨hs, ?_⟩
    rw [deleteBlocks]
    exact dif_neg hc

theorem follows_runPass (pass : ShrinkPass) :
    m.search.Follows (runPass o b pass) (runPass o' b pass) := by
  cases pass with
  | deleteDraws => exact follows_foldl (fun k => follows_deleteBlocks h hb _ 0) _
  | minimizeDraws => exact fun s => follows_foldl (follows_minimizeAt h hb) _ s
  | reorderDraws => exact fun s => follows_foldl (follows_reorderAt h hb) _ s
  | minimizeDuplicates => exact fun s => follows_foldl (follows_minimizeGroup h hb) _ s

theorem follows_repeatPass (pass : ShrinkPass) :
    m.search.Follows (repeatPass o b pass) (repeatPass o' b pass) := by
  intro s
  fun_induction repeatPass o b pass s with
  | case1 s he =>
    intro hs
    rw [repeatPass, exhausted_search, if_pos he]
    exact ⟨hs, rfl⟩
  | case2 s he s' hlt ih =>
    intro hs
    obtain ⟨hs₁, he₁⟩ := ih hs
    obtain ⟨hs₀, he₀⟩ := follows_runPass h hb pass s hs₁
    rw [repeatPass, exhausted_search, if_neg he]
    dsimp only
    rw [he₀, current_search, current_search, dif_pos hlt]
    exact ⟨hs₀, he₁⟩
  | case3 s he s' hlt =>
    intro hs
    obtain ⟨hs₀, he₀⟩ := follows_runPass h hb pass s hs
    rw [repeatPass, exhausted_search, if_neg he]
    dsimp only
    rw [he₀, current_search, current_search, dif_neg hlt]
    exact ⟨hs₀, rfl⟩

theorem follows_cycle : m.search.Follows (cycle o b) (cycle o' b) :=
  follows_foldl (follows_repeatPass h hb) _

theorem follows_run : m.search.Follows (run o b) (run o' b) := by
  intro s
  fun_induction run o b s with
  | case1 s s' hc ih =>
    intro hs
    obtain ⟨hs₁, he₁⟩ := ih hs
    obtain ⟨hs₀, he₀⟩ := follows_cycle h hb s hs₁
    rw [run, he₀, current_search, current_search, exhausted_search, dif_pos hc]
    exact ⟨hs₀, he₁⟩
  | case2 s s' hc =>
    intro hs
    obtain ⟨hs₀, he₀⟩ := follows_cycle h hb s hs
    rw [run, he₀, current_search, current_search, exhausted_search, dif_neg hc]
    exact ⟨hs₀, rfl⟩

end Passes

end Mirror

end Falsify
