import Falsify.Proofs.Shrink.Mirror

/-!
# The course of a search

Whatever its trials answer, a search puts only new and simpler sequences to trial, and its current
sequence changes only to what a trial has just recorded. So the calls of its trials, kept in a list
beside the world (`Oracle.noted`), tell all that the search did (`Search.Course`).

* `Draws.Edit.wellFormed`: what the passes try is well formed;
* `Course.origin`, `Course.current_eq_or_simpler`, `Course.attempts_eq`, `Course.improvements_eq`:
  what a course says of its end;
* `Accounted`: what a search keeps count of, which every step keeps;
* `run_only_improves`: the theorem.
-/

namespace Falsify

/-! ## Edits of well-formed sequences -/

namespace Draws

variable {s : Draws}

theorem WellFormed.withoutRange (h : s.WellFormed) (i j : Nat) :
    (s.withoutRange i j).WellFormed := by
  intro d hd
  rcases List.mem_append.1 hd with hd | hd
  · exact h d (List.mem_of_mem_take hd)
  · exact h d (List.mem_of_mem_drop hd)

theorem WellFormed.swapped (h : s.WellFormed) (i j : Nat) : (s.swapped i j).WellFormed := by
  unfold Draws.swapped
  split
  case h_2 => exact h
  rename_i a b ha hb
  intro d hd
  rcases List.mem_or_eq_of_mem_set hd with hd | rfl
  · rcases List.mem_or_eq_of_mem_set hd with hd | rfl
    · exact h d hd
    · exact h d (List.mem_of_getElem? hb)
  · exact h d (List.mem_of_getElem? ha)

theorem WellFormed.withValueAt (h : s.WellFormed) (positions : List Nat) (value : UInt64) :
    (s.withValueAt positions value).WellFormed := by
  intro d hd
  obtain ⟨i, hi⟩ := List.getElem?_of_mem hd
  rw [getElem?_withValueAt] at hi
  split at hi
  · obtain ⟨d', -, rfl⟩ := Option.map_eq_some_iff.1 hi
    exact Draw.fit_wellFormed _ _
  · exact h d (List.mem_of_getElem? hi)

/-- What the passes make of a well-formed sequence is well formed. -/
theorem Edit.wellFormed {c : Draws} (he : s.Edit c) (h : s.WellFormed) : c.WellFormed := by
  cases he with
  | delete i j => exact h.withoutRange i j
  | swap i j => exact h.swapped i j
  | lower positions value => exact h.withValueAt positions value

end Draws

/-! ## Trials that are noted -/

/-- A trial that was made: what was tried, and what the trial recorded if that still failed. -/
structure TrialNote where
  candidate : Draws
  answer : Option Draws

/-- Trials that keep a list of themselves beside the world, the first one first. -/
def Oracle.noted {σ : Type} (o : Oracle σ) : Oracle (σ × List TrialNote) where
  trial candidate := fun w =>
    let answer := o.trial candidate w.1
    (answer.1, answer.2, w.2 ++ [⟨candidate, answer.1⟩])
  elapsed := fun w =>
    let time := o.elapsed w.1
    (time.1, time.2, w.2)

namespace Search

variable {σ : Type}

/-- The trials made so far. -/
def notes (s : Search (σ × List TrialNote)) : List TrialNote :=
  s.world.2

/-- The search without its notes. -/
def plain (s : Search (σ × List TrialNote)) : Search σ where
  current := s.current
  seen := s.seen
  attempts := s.attempts
  improvements := s.improvements
  exhausted := s.exhausted
  world := s.world.1

/-- Taking notes does not change what a search does. -/
theorem plain_run (o : Oracle σ) {b : ShrinkBudget} (hb : b.timeout = none)
    (s : Search (σ × List TrialNote)) : (s.run o.noted b).plain = s.plain.run o b := by
  let m : Mirror (σ × List TrialNote) σ := ⟨fun _ => True, Prod.fst⟩
  have h : ∀ c, m.Reflects (o.noted.trial c) (o.trial c) := fun c _ _ => ⟨trivial, rfl⟩
  exact (Mirror.follows_run h (.inl hb) s trivial).2.symm

/-! ## Courses -/

/-- A candidate that is fit for trial, where `past` are the sequences that have been current so far:
it is simpler than the current sequence, and it was neither tried before nor current. -/
structure Fresh (s : Search (σ × List TrialNote)) (past : List Draws) (c : Draws) : Prop where
  wellFormed : c.WellFormed
  simpler : c.Simpler s.current
  untried : ∀ n ∈ s.notes, n.candidate ≠ c
  unmet : c ∉ past

/-- How a search came from `initial` to where it is, step by step. The list has the sequences that
have been current, the latest first: `initial` is its last member, and all others were accepted. -/
inductive Course (o : Oracle σ) (b : ShrinkBudget) (initial : Draws) (world : σ) :
    Search (σ × List TrialNote) → List Draws → Prop where
  | start : Course o b initial world (start initial (world, [])) [initial]
  /-- No trial is made. -/
  | rest {s t : Search (σ × List TrialNote)} {past : List Draws}
    (h : Course o b initial world s past) (step : Step o.noted b s t)
    (current : t.current = s.current) (notes : t.notes = s.notes)
    (attempts : t.attempts = s.attempts) (improvements : t.improvements = s.improvements) :
    Course o b initial world t past
  /-- A trial is made, and the current sequence stays. -/
  | refuse {s t : Search (σ × List TrialNote)} {past : List Draws} {c : Draws}
    {answer : Option Draws} (h : Course o b initial world s past) (step : Step o.noted b s t)
    (fresh : s.Fresh past c) (notes : t.notes = s.notes ++ [⟨c, answer⟩])
    (current : t.current = s.current) (attempts : t.attempts = s.attempts + 1)
    (improvements : t.improvements = s.improvements) : Course o b initial world t past
  /-- A trial is made, and the simpler sequence that it has recorded becomes the current one. -/
  | accept {s t : Search (σ × List TrialNote)} {past : List Draws} {c : Draws}
    (h : Course o b initial world s past) (step : Step o.noted b s t) (fresh : s.Fresh past c)
    (notes : t.notes = s.notes ++ [⟨c, some t.current⟩]) (simpler : t.current.Simpler s.current)
    (attempts : t.attempts = s.attempts + 1) (improvements : t.improvements = s.improvements + 1) :
    Course o b initial world t (t.current :: past)

namespace Course

variable {o : Oracle σ} {b : ShrinkBudget} {initial : Draws} {world : σ}
  {s : Search (σ × List TrialNote)} {past : List Draws}

/-- The current sequence is the latest one that was current. -/
theorem head?_eq (h : Course o b initial world s past) : past.head? = some s.current := by
  induction h with
  | start => rfl
  | rest _ _ current _ _ _ ih => rw [ih, current]
  | refuse _ _ _ _ current _ _ ih => rw [ih, current]
  | accept => rfl

/-- Each sequence that was current is simpler than all that were current before it. -/
theorem ordered (h : Course o b initial world s past) : past.Pairwise Draws.Simpler := by
  induction h with
  | start => exact List.pairwise_singleton _ _
  | rest _ _ _ _ _ _ ih => exact ih
  | refuse _ _ _ _ _ _ _ ih => exact ih
  | accept h _ _ _ simpler _ _ ih =>
    refine List.pairwise_cons.2 ⟨fun r hr => ?_, ih⟩
    obtain ⟨rest, rfl⟩ := List.head?_eq_some_iff.1 h.head?_eq
    rcases List.mem_cons.1 hr with rfl | hr
    · exact simpler
    · exact simpler.trans (List.rel_of_pairwise_cons ih hr)

theorem initial_mem (h : Course o b initial world s past) : initial ∈ past := by
  induction h with
  | start => exact List.mem_singleton_self _
  | rest _ _ _ _ _ _ ih => exact ih
  | refuse _ _ _ _ _ _ _ ih => exact ih
  | accept _ _ _ _ _ _ _ ih => exact List.mem_cons_of_mem _ ih

/-- What was current is the first sequence or was recorded by a trial. -/
theorem origin (h : Course o b initial world s past) :
    ∀ r ∈ past, r = initial ∨ ∃ n ∈ s.notes, n.answer = some r := by
  induction h with
  | start => exact fun r hr => .inl (List.mem_singleton.1 hr)
  | rest _ _ _ notes _ _ ih => rwa [notes]
  | refuse _ _ _ notes _ _ _ ih =>
    rw [notes]
    exact fun r hr => (ih r hr).imp_right fun ⟨n, hn, he⟩ => ⟨n, List.mem_append_left _ hn, he⟩
  | @accept s t past c _ _ _ notes _ _ _ ih =>
    rw [notes]
    intro r hr
    rcases List.mem_cons.1 hr with rfl | hr
    · exact .inr ⟨⟨c, some t.current⟩, by simp, rfl⟩
    · exact (ih r hr).imp_right fun ⟨n, hn, he⟩ => ⟨n, List.mem_append_left _ hn, he⟩

/-- What is current at the end is the first sequence or was recorded by a trial. -/
theorem current_origin (h : Course o b initial world s past) :
    s.current = initial ∨ ∃ n ∈ s.notes, n.answer = some s.current :=
  h.origin _ (List.mem_of_head? h.head?_eq)

/-- The first sequence was never left, or what is current is simpler. -/
theorem current_eq_or_simpler (h : Course o b initial world s past) :
    s.current = initial ∨ s.current.Simpler initial := by
  obtain ⟨rest, rfl⟩ := List.head?_eq_some_iff.1 h.head?_eq
  rcases List.mem_cons.1 h.initial_mem with he | he
  · exact .inl he.symm
  · exact .inr (List.rel_of_pairwise_cons h.ordered he)

/-- The attempts that are counted are the trials. -/
theorem attempts_eq (h : Course o b initial world s past) : s.attempts = s.notes.length := by
  induction h with
  | start => rfl
  | rest _ _ _ notes attempts _ ih => rw [attempts, ih, notes]
  | refuse _ _ _ notes _ attempts _ ih => rw [attempts, ih, notes, List.length_append]; rfl
  | accept _ _ _ notes _ attempts _ ih => rw [attempts, ih, notes, List.length_append]; rfl

/-- The improvements that are counted are the changes of the current sequence. -/
theorem improvements_eq (h : Course o b initial world s past) :
    s.improvements + 1 = past.length := by
  induction h with
  | start => rfl
  | rest _ _ _ _ _ improvements ih => rw [improvements, ih]
  | refuse _ _ _ _ _ _ improvements ih => rw [improvements, ih]
  | accept _ _ _ _ _ _ improvements ih => rw [improvements, ih, List.length_cons]

end Course

/-! ## What a search keeps count of -/

/-- A search whose course is known: it has seen all that was tried or current, and its budget is used
up only when all trials are made. -/
structure Accounted (o : Oracle σ) (b : ShrinkBudget) (initial : Draws) (world : σ)
    (s : Search (σ × List TrialNote)) (past : List Draws) : Prop where
  course : Course o b initial world s past
  wellFormed : s.current.WellFormed
  tried : ∀ n ∈ s.notes, n.candidate ∈ s.seen
  met : ∀ r ∈ past, r ∈ s.seen
  bounded : s.attempts ≤ b.maxAttempts
  exhausted : s.exhausted = true → s.attempts = b.maxAttempts

variable {o : Oracle σ} {b : ShrinkBudget} {initial : Draws} {world : σ}
  {s t : Search (σ × List TrialNote)} {past : List Draws}

theorem accounted_start (o : Oracle σ) (b : ShrinkBudget) (world : σ) (h : initial.WellFormed) :
    Accounted o b initial world (start initial (world, [])) [initial] where
  course := .start
  wellFormed := h
  tried := fun n hn => by cases hn
  met := fun r hr => by
    rw [List.mem_singleton.1 hr]
    exact Std.HashSet.mem_insert_self
  bounded := Nat.zero_le _
  exhausted := fun h => by cases h

/-- Without a limit in time, the budget is used up when all trials are made. -/
theorem checkBudget_untimed (o : Oracle σ) (hb : b.timeout = none) (s : Search σ) :
    s.checkBudget o b = if b.maxAttempts ≤ s.attempts then { s with exhausted := true } else s := by
  rw [checkBudget, hb]

/-- A budget that is not used up after a look at it has trials left, and looking changed nothing. -/
theorem checkBudget_of_left (hb : b.timeout = none) {s : Search σ}
    (hx : (s.checkBudget o b).exhausted = false) :
    s.checkBudget o b = s ∧ s.attempts < b.maxAttempts := by
  rw [checkBudget_untimed o hb] at hx ⊢
  split at hx
  · cases hx
  · rename_i h
    exact ⟨if_neg h, Nat.lt_of_not_le h⟩

namespace Accounted

/-- Looking at the budget is accounted for. -/
theorem checkBudget (h : Accounted o b initial world s past) (hb : b.timeout = none)
    (hstep : Step o.noted b s (s.checkBudget o.noted b)) :
    Accounted o b initial world (s.checkBudget o.noted b) past := by
  rw [checkBudget_untimed o.noted hb] at hstep ⊢
  split at hstep
  · rename_i hmax
    rw [if_pos hmax]
    exact ⟨.rest h.course hstep rfl rfl rfl rfl, h.wellFormed, h.tried, h.met, h.bounded,
      fun _ => Nat.le_antisymm h.bounded hmax⟩
  · rename_i hmax
    rwa [if_neg hmax]

/-- A candidate that was not seen is fit for trial. -/
theorem fresh (h : Accounted o b initial world s past) {c : Draws} (hw : c.WellFormed)
    (hs : c.Simpler s.current) (hn : c ∉ s.seen) : s.Fresh past c where
  wellFormed := hw
  simpler := hs
  untried := fun n hmem he => hn (he ▸ h.tried n hmem)
  unmet := fun hmem => hn (h.met c hmem)

section Trials

variable (h : Accounted o b initial world s past) {c r : Draws} {w : σ}
  (hc : s.Fresh past c) (hlt : s.attempts < b.maxAttempts)

include h

theorem tried_note (answer : Option Draws) : ∀ n ∈ s.notes ++ [⟨c, answer⟩],
    n.candidate ∈ s.seen.insert c := by
  intro n hn
  rcases List.mem_append.1 hn with hn | hn
  · exact Std.HashSet.mem_insert.2 (.inr (h.tried n hn))
  · rw [List.mem_singleton.1 hn]
    exact Std.HashSet.mem_insert_self

theorem met_note (c : Draws) : ∀ r ∈ past, r ∈ s.seen.insert c :=
  fun r hr => Std.HashSet.mem_insert.2 (.inr (h.met r hr))

include hc hlt

/-- A trial of which nothing simpler comes is accounted for. -/
theorem note {answer : Option Draws} {t : Search (σ × List TrialNote)}
    (ht : t = s.note c (w, s.notes ++ [⟨c, answer⟩])) (hstep : Step o.noted b s t) :
    Accounted o b initial world t past := by
  subst ht
  exact ⟨.refuse h.course hstep hc rfl rfl rfl rfl, h.wellFormed, h.tried_note answer, h.met_note c,
    hlt, fun hx => absurd (h.exhausted hx) (Nat.ne_of_lt hlt)⟩

/-- A trial that has recorded something simpler is accounted for. -/
theorem improve {t : Search (σ × List TrialNote)}
    (ht : t = (s.note c (w, s.notes ++ [⟨c, some r⟩])).improve r) (hstep : Step o.noted b s t)
    (hr : r.Simpler s.current) (hw : r.WellFormed) :
    Accounted o b initial world t (r :: past) := by
  subst ht
  refine ⟨.accept h.course hstep hc rfl hr rfl rfl, hw, fun n hn => ?_, fun r' hr' => ?_, hlt,
    fun hx => absurd (h.exhausted hx) (Nat.ne_of_lt hlt)⟩
  · exact Std.HashSet.mem_insert.2 (.inr (h.tried_note (some r) n hn))
  · rcases List.mem_cons.1 hr' with rfl | hr'
    · exact Std.HashSet.mem_insert_self
    · exact Std.HashSet.mem_insert.2 (.inr (h.met_note c r' hr'))

end Trials

/-- Considering an edit of the current sequence is accounted for, whatever its trial answers. -/
theorem consider (h : Accounted o b initial world s past) (hb : b.timeout = none)
    (ho : ∀ c w r, (o.trial c w).1 = some r → r.WellFormed) {c : Draws} (hc : s.current.Edit c) :
    ∃ past', Accounted o b initial world (s.consider o.noted b c).2 past' := by
  have hstep : Step o.noted b s (s.consider o.noted b c).2 := ⟨c, hc, rfl⟩
  have hcases := considered o.noted b c s
  have hw := hc.wellFormed h.wellFormed
  generalize s.consider o.noted b c = r at hcases hstep
  cases hcases with
  | same => exact ⟨past, h⟩
  | skipped => exact ⟨past, h⟩
  | exhausted => exact ⟨past, h.checkBudget hb hstep⟩
  | refused answer w hs hn hx ht =>
    obtain ⟨hself, hlt⟩ := checkBudget_of_left hb hx
    rw [hself] at ht hstep ⊢
    cases ht
    exact ⟨past, h.note (h.fresh hw hs hn) hlt rfl hstep⟩
  | improved r w hs hn hx ht hr =>
    obtain ⟨hself, hlt⟩ := checkBudget_of_left hb hx
    rw [hself] at ht hstep ⊢
    obtain ⟨hanswer, rfl⟩ := Prod.mk.inj ht
    refine ⟨r :: past, h.improve (w := (o.trial c s.world.1).2) (h.fresh hw hs hn) hlt ?_ hstep hr
      (ho c _ r hanswer)⟩
    rw [← hanswer]
    rfl

/-- All steps of a search are accounted for. -/
theorem reaches (h : Accounted o b initial world s past) (hb : b.timeout = none)
    (ho : ∀ c w r, (o.trial c w).1 = some r → r.WellFormed) (hr : Reaches o.noted b s t) :
    ∃ past', Accounted o b initial world t past' := by
  induction hr with
  | refl => exact ⟨past, h⟩
  | tail _ hstep ih =>
    obtain ⟨past', h'⟩ := ih
    obtain ⟨c, hc, rfl⟩ := hstep
    exact h'.consider hb ho hc

end Accounted

/-- Whatever its trials answer, a search only improves: the trials that it makes follow a course, so
each candidate is well formed, new, and simpler than the current sequence, which changes only to a
simpler sequence that a trial has just recorded. Attempts and improvements are counted, and there are
no more attempts than the budget has. -/
theorem run_only_improves (o : Oracle σ) (b : ShrinkBudget) (hb : b.timeout = none)
    (ho : ∀ c w r, (o.trial c w).1 = some r → r.WellFormed) (initial : Draws)
    (hi : initial.WellFormed) (world : σ) :
    let s := (start initial world).run o b
    let noted := (start initial (world, [])).run o.noted b
    noted.plain = s ∧
    (∃ past, Course o b initial world noted past ∧ s.improvements + 1 = past.length) ∧
    (s.current = initial ∨ ∃ n ∈ noted.notes, n.answer = some s.current) ∧
    (s.current = initial ∨ s.current.Simpler initial) ∧
    s.attempts = noted.notes.length ∧ s.attempts ≤ b.maxAttempts ∧
    (s.exhausted = true → s.attempts = b.maxAttempts) := by
  intro s noted
  have hplain : noted.plain = s := plain_run o hb _
  obtain ⟨past, h⟩ := (accounted_start o b world hi).reaches hb ho (reaches_run _)
  rw [← hplain]
  exact ⟨rfl, ⟨past, h.course, h.course.improvements_eq⟩, h.course.current_origin,
    h.course.current_eq_or_simpler, h.course.attempts_eq, h.bounded, h.exhausted⟩

/-- Trials that answer by how many there were before: every other one records a single zero, whatever
was tried. -/
def wavering : Oracle Nat :=
  ⟨fun _ n => (if n % 2 = 0 then some [⟨1, 0⟩] else none, n + 1), fun n => (.zero, n)⟩

theorem run_only_improves_wavering :
    let s := (start [⟨8, 3⟩, ⟨8, 3⟩] 0).run wavering ⟨4, none⟩
    let noted := (start [⟨8, 3⟩, ⟨8, 3⟩] (0, [])).run wavering.noted ⟨4, none⟩
    noted.plain = s ∧
    (∃ past, Course wavering ⟨4, none⟩ [⟨8, 3⟩, ⟨8, 3⟩] 0 noted past ∧
      s.improvements + 1 = past.length) ∧
    (s.current = [⟨8, 3⟩, ⟨8, 3⟩] ∨ ∃ n ∈ noted.notes, n.answer = some s.current) ∧
    (s.current = [⟨8, 3⟩, ⟨8, 3⟩] ∨ s.current.Simpler [⟨8, 3⟩, ⟨8, 3⟩]) ∧
    s.attempts = noted.notes.length ∧ s.attempts ≤ 4 ∧ (s.exhausted = true → s.attempts = 4) := by
  refine run_only_improves wavering ⟨4, none⟩ rfl (fun c n r hr => ?_) [⟨8, 3⟩, ⟨8, 3⟩] ?_ 0
  · dsimp only [wavering] at hr
    split at hr
    · cases hr
      decide
    · cases hr
  · decide

end Search

end Falsify
