import Mathlib.Data.List.Flatten
import Mathlib.Data.List.InsertIdx
import Falsify.Proofs.Strategy.ListBudget

/-!
# Elements are deleted with their draws

A list of an open length records, for each element, the draw of the decision to go on and the draws
of the element, and one more draw for the decision to stop (`Growth.turns`). If the draws of one
turn are left out of the record, the list is generated again without the turn's element, as long as
it is not needed for the least length (`Strategy.generate_without_element`).

After the deletion all later decisions are made one element earlier, where a draw may be read that
was written and written that was read. Both ways it decides the same (`Growth.Decides.earlier`).

* `Growth.Unfolds`: a growth as a list of turns;
* `Growth.unfolds_of_run`, `Growth.Unfolds.takes_repeatWhile`: from a run to its turns, and from
  turns to a run;
* `Growth.Unfolds.eraseIdx`: the turns without one of them.
-/

namespace Falsify

open DrawM

namespace Growth

variable {α : Type} {element : DrawM α} {g : Growth} {s t : Source}

/-! ## What is recorded -/

/-- The draws that are recorded in each turn of a growth: that of the decision first, and then those
of the element. The last turn is the decision to stop. -/
def turns (element : DrawM α) (g : Growth) (s : Source) : List Draws :=
  match _h : g.step s with
  | (.ok true, s₁) =>
    match element s₁ with
    | (.ok _, s₂) => s₂.drawn.drop s.record.size :: turns element g.more s₂
    | (.error _, s₂) => [s₂.drawn.drop s.record.size]
  | (.ok false, s₁) => [s₁.drawn.drop s.record.size]
  | (.error _, s₁) => [s₁.drawn.drop s.record.size]
termination_by g.room
decreasing_by
  have := step_true_count_lt _h
  simp only [room, more]
  omega

theorem turns_stop (hs : g.step s = (.ok false, t)) :
    g.turns element s = [t.drawn.drop s.record.size] := by
  rw [turns]
  rcases h : g.step s with ⟨_ | _, _⟩ <;> rw [hs] at h <;> cases h
  rfl

theorem turns_turn {s₁ s₂ : Source} {a : α} (hs : g.step s = (.ok true, s₁))
    (ha : element s₁ = (.ok a, s₂)) :
    g.turns element s = s₂.drawn.drop s.record.size :: g.more.turns element s₂ := by
  rw [turns]
  rcases h : g.step s with ⟨_ | _, _⟩ <;> rw [hs] at h <;> cases h
  simp only [ha]

/-! ## Turns -/

/-- A turn of a growth: the draw that decided to go on, and an element with a code of it. -/
structure Turn (element : DrawM α) where
  flag : Draw
  slice : Draws
  value : α
  reads : Reads element slice value

def Turn.draws (turn : Turn element) : Draws :=
  turn.flag :: turn.slice

/-- The growth goes on as the turns say, and then stops by the last draw. -/
inductive Unfolds (last : Draw) : Growth → List (Turn element) → Prop
  | stop {g : Growth} (h : g.Decides last false) : Unfolds last g []
  | turn {g : Growth} {turn : Turn element} {rest : List (Turn element)}
    (h : g.Decides turn.flag true) (hr : Unfolds last g.more rest) : Unfolds last g (turn :: rest)

variable {last : Draw} {steps : List (Turn element)}

/-- The same turns may be taken one element earlier, if there are enough of them. -/
theorem Unfolds.earlier (h : g.more.Unfolds last steps) (hl : g.least ≤ g.count + steps.length) :
    g.Unfolds last steps := by
  induction steps generalizing g with
  | nil =>
    cases h with
    | stop h => exact .stop (h.earlier fun _ => hl)
  | cons turn rest ih =>
    cases h with
    | turn h hr =>
      refine .turn (h.earlier nofun) (ih hr ?_)
      simp only [List.length_cons, more] at hl ⊢
      omega

/-- A turn may be left out, if the others are enough. -/
theorem Unfolds.eraseIdx (h : g.Unfolds last steps) {i : Nat} (hi : i < steps.length)
    (hl : g.least < g.count + steps.length) : g.Unfolds last (steps.eraseIdx i) := by
  induction h generalizing i with
  | stop => cases hi
  | @turn g turn rest h hr ih =>
    simp only [List.length_cons] at hi hl
    cases i with
    | zero => exact hr.earlier (by omega)
    | succ i =>
      refine .turn h (ih (by omega) ?_)
      simp only [more]
      omega

theorem Unfolds.takes_repeatWhile (h : g.Unfolds last steps) (hg : g.least < g.most)
    (hp : Uncertain g.goOn) :
    Takes (g.repeatWhile element) (steps.map Turn.draws ++ [[last]]).flatten
      (steps.map Turn.value) := by
  induction h with
  | stop h =>
    rw [repeatWhile_eq_bind]
    exact (takes_step hg hp h).bind (Reads.pure []).takes
  | @turn g turn rest h hr ih =>
    have hrest := ih hg hp
    rw [repeatWhile_eq_bind]
    exact (takes_step hg hp h).bind (turn.reads.takes.bind (hrest.map rfl))

/-- A growth that comes to an end consists of turns. -/
theorem unfolds_of_run (he : Rereads element) (hg : g.least < g.most) {items : List α}
    (h : g.repeatWhile element s = (.ok items, t)) :
    ∃ (steps : List (Turn element)) (last : Draw), g.Unfolds last steps ∧
      items = steps.map Turn.value ∧ g.turns element s = steps.map Turn.draws ++ [[last]] ∧
      s.Advances (g.turns element s).flatten t := by
  induction items generalizing g s with
  | nil =>
    rcases repeatWhile_eq_ok h with ⟨-, hs⟩ | ⟨_, _, _, _, hnil, -⟩
    · obtain ⟨-, last, hd, ha⟩ := oneDraw_step hg hs
      have hturns : g.turns element s = [[last]] := by
        rw [turns_stop hs, ha.drawn_drop]
      exact ⟨[], last, .stop hd, rfl, hturns, by rw [hturns]; exact ha⟩
    · cases hnil
  | cons a rest ih =>
    rcases repeatWhile_eq_ok h with ⟨hnil, -⟩ | ⟨s₁, _, s₂, _, hcons, hs, ha, hr⟩
    · cases hnil
    · cases hcons
      obtain ⟨-, flag, hd, hflag⟩ := oneDraw_step hg hs
      obtain ⟨slice, hslice, -, hreads⟩ := he ha
      obtain ⟨steps, last, hu, hitems, hturns, hrest⟩ := ih (g := g.more) hg hr
      have hturn : s.Advances (flag :: slice) s₂ := hflag.trans hslice
      refine ⟨⟨flag, slice, a, hreads⟩ :: steps, last, .turn hd hu, ?_, ?_, ?_⟩
      · rw [hitems, List.map_cons]
      · rw [turns_turn hs ha, hturn.drawn_drop, hturns]
        rfl
      · rw [turns_turn hs ha, hturn.drawn_drop]
        exact hturn.trans hrest

end Growth

namespace Strategy

variable {elements : Strategy} {least most : UInt64} {average : Float} {attempts : Nat}
  {s t : Source}

/-- If the draws of one turn are left out of what a list recorded, the list without the element of
that turn is generated, and as many draws are recorded as are left, whatever the seed and for every
budget that has room for them; the budget that the list had has. -/
theorem generate_without_element {items : List Value} {i : Nat} (hsize : least < most)
    (hpos : 0.0 < (Growth.start least.toNat most.toNat average).goOn)
    (hproper : (Growth.start least.toNat most.toNat average).goOn < 1.0) (hs : s.record = #[])
    (h : (lists elements least most average).generate attempts s = (.ok (.list items), t))
    (hn : least.toNat < items.length) (hi : i < items.length) :
    let turns := (Growth.start least.toNat most.toNat average).turns (elements.generate attempts) s
    let rest := (turns.eraseIdx i).flatten
    t.drawn = turns.flatten ∧ turns.length = items.length + 1 ∧ rest.length ≤ s.maxDraws ∧
      ∀ (seed : UInt64) (maxDraws : Nat), rest.length ≤ maxDraws →
        ∃ u, (lists elements least most average).generate attempts (.replaying rest seed maxDraws) =
            (.ok (.list (items.eraseIdx i)), u) ∧ u.drawn.length = rest.length := by
  intro turns rest
  obtain ⟨hle, _, heq, hr⟩ := generate_lists_eq_ok h
  cases heq
  have hg := UInt64.lt_iff_toNat_lt.1 hsize
  obtain ⟨steps, last, hu, hitems, hturns, ha⟩ :=
    Growth.unfolds_of_run (rereads_generate elements attempts) hg hr
  have hlength : items.length = steps.length := by rw [hitems, List.length_map]
  have hrest : rest = ((steps.eraseIdx i).map Growth.Turn.draws ++ [[last]]).flatten := by
    have hmap : i < (steps.map Growth.Turn.draws).length := by rwa [List.length_map, ← hlength]
    simp only [rest, turns, hturns, List.eraseIdx_append_of_lt_length hmap, List.eraseIdx_map]
  have hdrawn : t.drawn = turns.flatten := by
    have hdrawn := ha.drawn
    rwa [Source.drawn, Source.drawn, hs, List.nil_append] at hdrawn
  refine ⟨hdrawn, ?_, ?_, fun seed maxDraws hroom => ?_⟩
  · simp only [turns, hturns, List.length_append, List.length_map, List.length_singleton, hlength]
  · have hspent : t.drawn.length ≤ max s.record.size s.maxDraws :=
      ((rereads_generate _ attempts).spends h).room
    rw [hs, hdrawn] at hspent
    have hless : rest.length ≤ turns.flatten.length :=
      (List.Sublist.flatten (List.eraseIdx_sublist turns i)).length_le
    simp only [List.size_toArray, List.length_nil, Nat.zero_max] at hspent
    omega
  · have hshort := hu.eraseIdx (hlength ▸ hi) (by simpa [Growth.start, ← hlength] using hn)
    have htakes := hshort.takes_repeatWhile hg (.of_between hpos hproper)
    rw [← hrest] at htakes
    obtain ⟨u, recorded, hrun, hadv, hlen⟩ := htakes _ (Source.offers_replaying seed hroom)
    refine ⟨u, ?_, ?_⟩
    · rw [hitems, List.eraseIdx_map]
      exact generate_lists hle hrun
    · rw [hadv.drawn, ← hlen]
      rfl

theorem generate_without_element_booleans :
    let word : UInt64 := 0xFFFFFFFFFFFFFFFF
    let s : Source := .replaying [⟨64, word⟩, ⟨1, 1⟩, ⟨64, word⟩, ⟨1, 0⟩, ⟨64, 0⟩] 7 5
    let growth := Growth.start 0 3 5.0
    (0.0 < growth.goOn ∧ growth.goOn < 1.0) ∧
      ∃ t, (lists .booleans 0 3 5.0).generate 3 s =
          (.ok (.list [.boolean true, .boolean false]), t) ∧
        let rest := ((growth.turns (booleans.generate 3) s).eraseIdx 0).flatten
        rest.length ≤ s.maxDraws ∧
          ∃ u, (lists .booleans 0 3 5.0).generate 3 (.replaying rest 8 s.maxDraws) =
              (.ok (.list [.boolean false]), u) ∧ u.drawn.length = rest.length := by
  intro word s growth
  have hpos : 0.0 < growth.goOn := by decide +kernel
  have hproper : growth.goOn < 1.0 := by decide +kernel
  have hword : shows growth.goOn word = true := by decide +kernel
  have hfirst : growth.Decides ⟨64, word⟩ true := ⟨fun _ => by decide, nofun, fun _ _ => hword⟩
  have hsecond : growth.more.Decides ⟨64, word⟩ true :=
    ⟨fun _ => by decide, nofun, fun _ _ => hword⟩
  have hlast : growth.more.more.Decides ⟨64, 0⟩ false :=
    ⟨nofun, fun _ => by decide, fun _ _ => shows_zero _⟩
  let turn (b : Bool) : Growth.Turn (booleans.generate 3) := ⟨⟨64, word⟩, _, _, reads_booleans b⟩
  have hu : growth.Unfolds ⟨64, 0⟩ [turn true, turn false] :=
    .turn hfirst (.turn hsecond (.stop hlast))
  have htakes := hu.takes_repeatWhile (by decide) (.of_between hpos hproper)
  obtain ⟨t, -, hrun, -⟩ := htakes s (Source.offers_replaying 7 (Nat.le_refl 5))
  have h : (lists .booleans 0 3 5.0).generate 3 s =
      (.ok (.list [.boolean true, .boolean false]), t) :=
    generate_lists (by decide) hrun
  obtain ⟨-, -, hroom, hshort⟩ :=
    generate_without_element (i := 0) (by decide) hpos hproper rfl h (by decide) (by decide)
  exact ⟨⟨hpos, hproper⟩, t, h, hroom, hshort 8 5 hroom⟩

end Strategy

end Falsify
