import Falsify.Proofs.Source.Decisions
import Falsify.Proofs.Strategy.Composition

/-!
# The budget and the growth of lists

A list whose length is not fixed decides on each element by a draw, so it has at most as many
elements as the source may draw (`Strategy.length_le_maxDraws`). A list of a fixed length draws
nothing for its decisions: it is bounded by the budget only if its elements draw, and elements that
draw nothing can be more than the budget (`Strategy.list_beyond_budget`).

* `Source.Spends`: what was drawn between two states of a source, at least, and within the budget;
* `spends_repeatWhile`: a list spends a draw for each element, by induction on the elements.
-/

namespace Falsify

open DrawM

namespace Source

variable {s t u : Source} {n k : Nat}

/-- At least `n` draws were made from `s` to `t`, all of them within the budget. -/
structure Spends (s t : Source) (n : Nat) : Prop where
  least : s.record.size + n ≤ t.record.size
  room : t.record.size ≤ max s.record.size s.maxDraws
  maxDraws : t.maxDraws = s.maxDraws

theorem Spends.trans (h : s.Spends t n) (h' : t.Spends u k) : s.Spends u (n + k) := by
  obtain ⟨h₁, h₂, h₃⟩ := h
  obtain ⟨h₄, h₅, h₆⟩ := h'
  exact ⟨by omega, by omega, by omega⟩

theorem Spends.weaken (h : s.Spends t n) (hk : k ≤ n) : s.Spends t k :=
  ⟨by have := h.least; omega, h.room, h.maxDraws⟩

theorem Spends.le_maxDraws (h : s.Spends t n) : n ≤ s.maxDraws := by
  obtain ⟨h₁, h₂, -⟩ := h
  omega

end Source

namespace DrawM

variable {α : Type} {x : DrawM α}

/-- Whenever the computation gives a value, it has drawn. -/
def AlwaysDraws (x : DrawM α) : Prop :=
  ∀ ⦃s t : Source⦄ ⦃a : α⦄, x s = (.ok a, t) → s.record.size < t.record.size

theorem Rereads.spends (hx : Rereads x) {s t : Source} {a : α} (h : x s = (.ok a, t)) :
    s.Spends t (t.record.size - s.record.size) := by
  obtain ⟨slice, ha, hroom, -⟩ := hx h
  have hsize := ha.size
  refine ⟨by omega, ?_, ha.maxDraws⟩
  rcases hroom with rfl | hroom
  · rw [hsize, List.length_nil, Nat.add_zero]
    exact Nat.le_max_left _ _
  · rw [ha.maxDraws] at hroom
    omega

theorem OneDraw.alwaysDraws {post : Draw → α → Prop} (hx : OneDraw x post) : AlwaysDraws x := by
  intro s t a h
  obtain ⟨-, d, -, ha⟩ := hx h
  rw [ha.size]
  exact Nat.lt_succ_self _

end DrawM

/-- A turn of the growth spends a draw: on its decision unless the size is fixed, and else on its
element. -/
theorem spends_repeatWhile {α : Type} {element : DrawM α} (he : Rereads element) {g : Growth}
    (hd : g.least < g.most ∨ AlwaysDraws element) {s t : Source} {items : List α}
    (h : g.repeatWhile element s = (.ok items, t)) : s.Spends t items.length := by
  have hstep (g : Growth) : Rereads g.step :=
    rereads_of_keeps fun _ hm => Simulation.keeps_step hm g
  induction items generalizing g s with
  | nil =>
    rcases Growth.repeatWhile_eq_ok h with ⟨-, hs⟩ | ⟨_, _, _, _, hnil, -⟩
    · exact ((hstep g).spends hs).weaken (Nat.zero_le _)
    · cases hnil
  | cons a rest ih =>
    rcases Growth.repeatWhile_eq_ok h with ⟨hnil, -⟩ | ⟨s₁, _, s₂, _, hcons, hs, ha, hr⟩
    · cases hnil
    · cases hcons
      have hrest : s₂.Spends t rest.length := ih (g := g.more) hd hr
      have hturn : s.Spends s₂ _ := ((hstep g).spends hs).trans (he.spends ha)
      have hdrawn : s.record.size < s₁.record.size ∨ s₁.record.size < s₂.record.size :=
        hd.imp (fun hg => (Growth.oneDraw_step hg).alwaysDraws hs) (fun hd => hd ha)
      refine (hturn.trans hrest).weaken ?_
      rw [List.length_cons]
      omega

theorem Growth.step_of_fixed {g : Growth} (h : g.least = g.most) :
    g.step = pure (decide (g.count < g.most)) := by
  rw [step, if_pos h]

/-- A growth of a fixed size whose elements draw nothing draws nothing at all. -/
theorem repeatWhile_constant {α : Type} {element : DrawM α} {a : α}
    (ha : ∀ s, element s = (.ok a, s)) {g : Growth} (hg : g.least = g.most) {n : Nat}
    (hn : g.count + n = g.most) (s : Source) :
    g.repeatWhile element s = (.ok (List.replicate n a), s) := by
  induction n generalizing g with
  | zero =>
    have hend : ¬ g.count < g.most := by omega
    refine Growth.repeatWhile_stop ?_
    rw [Growth.step_of_fixed hg, decide_eq_false hend]
    rfl
  | succ n ih =>
    have hmore : g.count < g.most := by omega
    have hrest : g.more.count + n = g.more.most := by
      simp only [Growth.more]
      omega
    refine Growth.repeatWhile_turn ?_ (ha s) (ih (g := g.more) hg hrest)
    rw [Growth.step_of_fixed hg, decide_eq_true hmore]
    rfl

namespace Strategy

theorem rereads_generate (strategy : Strategy) (attempts : Nat) :
    Rereads (strategy.generate attempts) :=
  rereads_of_keeps fun _ hm => Simulation.keeps_generate hm attempts strategy

section Lists

variable {elements : Strategy} {least most : UInt64} {average : Float} {attempts : Nat}
  {s t : Source}

/-- What a list strategy generates is what its growth gives. -/
theorem generate_lists {items : List Value} (hle : least ≤ most)
    (h : (Growth.start least.toNat most.toNat average).repeatWhile (elements.generate attempts) s =
      (.ok items, t)) :
    (lists elements least most average).generate attempts s = (.ok (.list items), t) := by
  rw [generate, if_neg (UInt64.not_lt.2 hle), bind_of_ok (congrArg Prod.fst h), h]
  rfl

theorem generate_lists_eq_ok {value : Value}
    (h : (lists elements least most average).generate attempts s = (.ok value, t)) :
    least ≤ most ∧ ∃ items, value = .list items ∧
      (Growth.start least.toNat most.toNat average).repeatWhile (elements.generate attempts) s =
        (.ok items, t) := by
  rw [generate] at h
  split at h
  · cases h
  · rename_i hle
    refine ⟨UInt64.not_lt.1 hle, ?_⟩
    dsimp only at h
    rw [bind_apply] at h
    rcases hr : (Growth.start least.toNat most.toNat average).repeatWhile
      (elements.generate attempts) s with ⟨e | items, u⟩ <;> rw [hr] at h
    · cases h
    · cases h
      exact ⟨items, rfl, rfl⟩

/-- A list has at most as many elements as its source may draw, provided that its length is not
fixed or that its elements draw. -/
theorem length_le_maxDraws {items : List Value}
    (h : (lists elements least most average).generate attempts s = (.ok (.list items), t))
    (hd : least = most → AlwaysDraws (elements.generate attempts)) :
    items.length ≤ s.maxDraws := by
  obtain ⟨hle, _, heq, hr⟩ := generate_lists_eq_ok h
  cases heq
  refine (spends_repeatWhile (rereads_generate elements attempts) ?_ hr).le_maxDraws
  rcases UInt64.lt_or_eq_of_le hle with hlt | heq
  · exact .inl (UInt64.lt_iff_toNat_lt.1 hlt)
  · exact .inr (hd heq)

theorem generate_booleans : booleans.generate attempts =
    Source.bits 1 >>= fun v => (pure (.boolean (v == 1)) : DrawM Value) := by
  rw [generate]

theorem reads_booleans (b : Bool) :
    Reads (booleans.generate attempts) [⟨1, if b then 1 else 0⟩] (.boolean b) := by
  have hwf : Draw.WellFormed ⟨1, if b then 1 else 0⟩ := by cases b <;> decide
  rw [generate_booleans]
  exact (reads_bits hwf).map (by cases b <;> rfl)

theorem length_le_maxDraws_booleans :
    let s : Source := .replaying [⟨1, 1⟩, ⟨1, 0⟩] 1 2
    let items : List Value := [.boolean true, .boolean false]
    ∃ t, (lists .booleans 2 2 5.0).generate 3 s = (.ok (.list items), t) ∧
      AlwaysDraws (booleans.generate 3) ∧ items.length ≤ s.maxDraws := by
  intro s items
  have ho : s.Offers ([⟨1, 1⟩] ++ [⟨1, 0⟩]) := Source.offers_replaying 1 (Nat.le_refl 2)
  obtain ⟨s₁, h₁, ha⟩ := reads_booleans true s ho.left
  obtain ⟨s₂, h₂, -⟩ := reads_booleans false s₁ (ho.right ha)
  have h : (lists .booleans 2 2 5.0).generate 3 s = (.ok (.list items), s₂) :=
    generate_lists (UInt64.le_refl 2) (Growth.repeatWhile_turn rfl h₁
      (Growth.repeatWhile_turn rfl h₂ (Growth.repeatWhile_stop rfl)))
  have hdraw : OneDraw (booleans.generate 3) fun _ _ => True := by
    rw [generate_booleans]
    exact (oneDraw_bits 1).map fun _ _ _ => trivial
  exact ⟨s₂, h, hdraw.alwaysDraws, length_le_maxDraws h fun _ => hdraw.alwaysDraws⟩

/-- A list of a fixed length of one value is generated without a draw, whatever the budget. -/
theorem generate_lists_just (value : Value) (length : UInt64) :
    (lists (.just value) length length average).generate attempts s =
      (.ok (.list (List.replicate length.toNat value)), s) :=
  have ha (s : Source) : (just value).generate attempts s = (.ok value, s) := by
    rw [generate]
    rfl
  generate_lists (UInt64.le_refl length) (repeatWhile_constant ha rfl (Nat.zero_add _) s)

/-- Two elements of one value are generated by a source that may draw once. -/
theorem list_beyond_budget :
    let s : Source := .fresh 1 1
    let items : List Value := [.integer 7, .integer 7]
    ((lists (.just (.integer 7)) 2 2 5.0).generate 3 s).1 = .ok (.list items) ∧
      s.maxDraws < items.length :=
  ⟨congrArg Prod.fst (generate_lists_just _ _), Nat.lt_succ_self 1⟩

end Lists

end Strategy

end Falsify
