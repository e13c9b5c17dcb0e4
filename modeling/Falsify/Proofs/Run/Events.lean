import Mathlib.Data.List.Induction
import Mathlib.Data.List.Nodup
import Falsify.Statistics

/-!
# How often features were seen

Statistics count features by their labels, a label for each pair of a name and a value. However the
cases came, the labels are listed in the order in which they first came up, each with how often it
did (`events_foldl_record`). These are the features of the cases, each with the number of cases that
show it, exactly if the labels tell the features apart (`events_count_features`); names without a
colon are enough for that (`labelOf_injOn`). In general they do not, and then two features are
counted as one (`label_of_two_features`).
-/

namespace Falsify

namespace Statistics

/-! ## Labels -/

/-- The label of a feature. -/
def labelOf (feature : String × String) : String :=
  label feature.1 feature.2

theorem toList_labelOf (feature : String × String) :
    (labelOf feature).toList = feature.1.toList ++ ':' :: ' ' :: feature.2.toList := by
  simp [labelOf, label, toString]

/-- The first colon of a label ends the name, if no name has one. -/
theorem labelOf_injOn {features : List (String × String)}
    (h : ∀ f ∈ features, ':' ∉ f.1.toList) :
    ∀ f ∈ features, ∀ g ∈ features, labelOf f = labelOf g → f = g := by
  have hname {cs rest : List Char} (hcs : ':' ∉ cs) :
      (cs ++ ':' :: rest).takeWhile (· ≠ ':') = cs := by
    have hall : ∀ c ∈ cs, decide (c ≠ ':') = true := fun c hc =>
      decide_eq_true fun heq => hcs (heq ▸ hc)
    rw [List.takeWhile_append_of_pos hall]
    simp
  intro f hf g hg heq
  have hlists := congrArg String.toList heq
  rw [toList_labelOf, toList_labelOf] at hlists
  have hfirst := congrArg (List.takeWhile (· ≠ ':')) hlists
  rw [hname (h f hf), hname (h g hg)] at hfirst
  rw [hfirst] at hlists
  have hsecond : f.2.toList = g.2.toList := by simpa using hlists
  exact Prod.ext (String.toList_inj.1 hfirst) (String.toList_inj.1 hsecond)

/-! ## Counting -/

/-- The different ones among some labels, as they first come up, and how often each comes up. -/
def countsOf (labels : List String) : List (String × Nat) :=
  labels.eraseDups.map fun l => (l, labels.count l)

/-- A label that is counted already is counted once more, if no label is counted twice. -/
theorem tally_of_mem {l : String} {table : List (String × Nat)} (hn : (table.map Prod.fst).Nodup)
    (h : l ∈ table.map Prod.fst) :
    tally l table = table.map fun e => (e.1, if e.1 = l then e.2 + 1 else e.2) := by
  induction table with
  | nil => cases h
  | cons e rest ih =>
    obtain ⟨hnew, hrest⟩ := List.nodup_cons.1 hn
    rw [tally]
    split
    · rename_i hl
      have hothers : rest.map (fun e => (e.1, if e.1 = l then e.2 + 1 else e.2)) = rest := by
        refine (List.map_congr_left fun e' he' => ?_).trans (List.map_id _)
        have hne : e'.1 ≠ l := fun heq => hnew (hl ▸ heq ▸ List.mem_map_of_mem he')
        rw [if_neg hne]
        rfl
      rw [List.map_cons, hothers, if_pos hl]
    · rename_i hl
      have hmem : l ∈ rest.map Prod.fst := (List.mem_cons.1 h).resolve_left (Ne.symm hl)
      rw [ih hrest hmem, List.map_cons, if_neg hl]

/-- A new label is put at the end. -/
theorem tally_of_not_mem {l : String} {table : List (String × Nat)}
    (h : l ∉ table.map Prod.fst) : tally l table = table ++ [(l, 1)] := by
  induction table with
  | nil => rfl
  | cons e rest ih =>
    rw [List.map_cons, List.mem_cons, not_or] at h
    rw [tally, if_neg (Ne.symm h.1), ih h.2]
    rfl

section FirstOccurrences

variable {α β : Type} [BEq α] [LawfulBEq α] [BEq β] [LawfulBEq β] {l : List α} {a : α}

theorem eraseDups_concat_of_mem (h : a ∈ l) : (l ++ [a]).eraseDups = l.eraseDups := by
  rw [List.eraseDups_append, List.removeAll]
  simp [h]

theorem eraseDups_concat_of_not_mem (h : a ∉ l) :
    (l ++ [a]).eraseDups = l.eraseDups ++ [a] := by
  rw [List.eraseDups_append, List.removeAll]
  simp [h, List.eraseDups_cons]

theorem nodup_eraseDups (l : List α) : l.eraseDups.Nodup := by
  induction l using List.reverseRecOn with
  | nil => exact List.nodup_nil
  | append_singleton l a ih =>
    by_cases h : a ∈ l
    · rwa [eraseDups_concat_of_mem h]
    · rw [eraseDups_concat_of_not_mem h, ← List.concat_eq_append]
      exact ih.concat (mt List.mem_eraseDups.1 h)

/-- A function that tells the members of a list apart keeps their first occurrences. -/
theorem eraseDups_map {f : α → β} (h : ∀ a ∈ l, ∀ b ∈ l, f a = f b → a = b) :
    (l.map f).eraseDups = l.eraseDups.map f := by
  induction l using List.reverseRecOn with
  | nil => rfl
  | append_singleton l a ih =>
    have hl {b : α} (hb : b ∈ l) : b ∈ l ++ [a] := List.mem_append_left _ hb
    have ih := ih fun b hb c hc => h b (hl hb) c (hl hc)
    rw [List.map_append, List.map_singleton]
    by_cases ha : a ∈ l
    · rw [eraseDups_concat_of_mem (List.mem_map_of_mem ha), eraseDups_concat_of_mem ha, ih]
    · have hfa : f a ∉ l.map f := by
        intro hmem
        obtain ⟨b, hb, heq⟩ := List.mem_map.1 hmem
        exact ha (h b (hl hb) a (by simp) heq ▸ hb)
      rw [eraseDups_concat_of_not_mem hfa, eraseDups_concat_of_not_mem ha, ih, List.map_append,
        List.map_singleton]

end FirstOccurrences

theorem map_fst_countsOf (labels : List String) :
    (countsOf labels).map Prod.fst = labels.eraseDups := by
  rw [countsOf, List.map_map]
  exact List.map_id _

/-- Counting one more label. -/
theorem tally_countsOf (labels : List String) (l : String) :
    tally l (countsOf labels) = countsOf (labels ++ [l]) := by
  have hkeys := map_fst_countsOf labels
  by_cases h : l ∈ labels
  · have hmem : l ∈ (countsOf labels).map Prod.fst := hkeys ▸ List.mem_eraseDups.2 h
    rw [tally_of_mem (hkeys ▸ nodup_eraseDups labels) hmem, countsOf, countsOf,
      eraseDups_concat_of_mem h, List.map_map]
    refine List.map_congr_left fun l' _ => Prod.ext rfl ?_
    by_cases heq : l' = l <;> simp [heq, List.count_append, Ne.symm]
  · have hmem : l ∉ (countsOf labels).map Prod.fst := by rwa [hkeys, List.mem_eraseDups]
    rw [tally_of_not_mem hmem, countsOf, countsOf, eraseDups_concat_of_not_mem h,
      List.map_append]
    refine congrArg₂ (· ++ ·) (List.map_congr_left fun l' hl' => Prod.ext rfl ?_) ?_
    · have hne : l ≠ l' := fun heq => h (heq ▸ List.mem_eraseDups.1 hl')
      simp [List.count_append, hne]
    · simp [List.count_append, List.count_eq_zero.2 h]

/-- Counting the features of a case: by induction on them. -/
theorem tallyAll_countsOf (labels : List String) (features : Assoc String String) :
    tallyAll features (countsOf labels) = countsOf (labels ++ features.map labelOf) := by
  induction features generalizing labels with
  | nil => rw [List.map_nil, List.append_nil]; rfl
  | cons f rest ih =>
    change tallyAll rest (tally (labelOf f) (countsOf labels)) = _
    rw [tally_countsOf, ih, List.append_assoc]
    rfl

/-- The features that some cases show, case by case. -/
def shown (cases : List Case) : List (String × String) :=
  cases.flatMap Case.features

/-- Each label is listed once, as it first came up, with how often it did: by induction on the
cases. -/
theorem events_foldl_record (cases : List Case) :
    (cases.foldl record {}).events = countsOf ((shown cases).map labelOf) := by
  suffices h : ∀ (s : Statistics) labels, s.events = countsOf labels →
      (cases.foldl record s).events = countsOf (labels ++ (shown cases).map labelOf) from
    h {} [] rfl
  intro s labels hs
  induction cases generalizing s labels with
  | nil => simpa [shown] using hs
  | cons c rest ih =>
    have hstep : (s.record c).events = countsOf (labels ++ c.features.map labelOf) := by
      rw [← tallyAll_countsOf, ← hs]
      rfl
    rw [List.foldl_cons, ih _ _ hstep, List.append_assoc, ← List.map_append]
    rfl

/-! ## Features -/

/-- Of labels that tell the features apart, each stands for one. -/
theorem countsOf_map_labelOf {features : List (String × String)}
    (h : ∀ f ∈ features, ∀ g ∈ features, labelOf f = labelOf g → f = g) :
    countsOf (features.map labelOf) =
      features.eraseDups.map fun f => (labelOf f, features.count f) := by
  have hcount : ∀ f ∈ features, (features.map labelOf).count (labelOf f) = features.count f := by
    intro f hf
    rw [List.count, List.countP_map, List.count]
    refine List.countP_congr fun g hg => ?_
    simpa using ⟨fun heq => h g hg f hf heq, fun heq => heq ▸ rfl⟩
  rw [countsOf, eraseDups_map h, List.map_map]
  exact List.map_congr_left fun f hf =>
    congrArg (labelOf f, ·) (hcount f (List.mem_eraseDups.1 hf))

/-- A feature comes up once in each case that shows it. -/
theorem count_shown (cases : List Case) (f : String × String) :
    (shown cases).count f = cases.countP (f ∈ ·.features) := by
  induction cases with
  | nil => rfl
  | cons c rest ih =>
    have hone : List.count f c.features = if f ∈ c.features then 1 else 0 :=
      c.features_ordered.nodup.count
    rw [shown, List.flatMap_cons, List.count_append, List.countP_cons, ← shown, ih, hone,
      Nat.add_comm]
    simp only [decide_eq_true_eq]

/-- A list that has one label for each feature comes only of labels that tell the features apart. -/
theorem injOn_of_countsOf {features : List (String × String)} {count : String × String → Nat}
    (h : countsOf (features.map labelOf) =
      features.eraseDups.map fun f => (labelOf f, count f)) :
    ∀ f ∈ features, ∀ g ∈ features, labelOf f = labelOf g → f = g := by
  have hlabels : (features.map labelOf).eraseDups = features.eraseDups.map labelOf := by
    rw [← map_fst_countsOf, h, List.map_map]
    rfl
  have hn : (features.eraseDups.map labelOf).Nodup := hlabels ▸ nodup_eraseDups _
  exact fun f hf g hg heq =>
    List.inj_on_of_nodup_map hn (List.mem_eraseDups.2 hf) (List.mem_eraseDups.2 hg) heq

/-- The labels of the features that the cases show are listed as they first come up, each with how
often it does. There is one for each feature, counted for each case that shows the feature, exactly
if the labels tell the features apart; and then no count exceeds the number of cases. -/
theorem events_count_features (cases : List Case) :
    (cases.foldl record {}).events = countsOf ((shown cases).map labelOf) ∧
    ((cases.foldl record {}).events =
        (shown cases).eraseDups.map (fun f => (labelOf f, cases.countP (f ∈ ·.features))) ↔
      ∀ f ∈ shown cases, ∀ g ∈ shown cases, labelOf f = labelOf g → f = g) ∧
    ((∀ f ∈ shown cases, ∀ g ∈ shown cases, labelOf f = labelOf g → f = g) →
      ∀ event ∈ (cases.foldl record {}).events, event.2 ≤ cases.length) := by
  have hevents (hl : ∀ f ∈ shown cases, ∀ g ∈ shown cases, labelOf f = labelOf g → f = g) :
      (cases.foldl record {}).events =
        (shown cases).eraseDups.map fun f => (labelOf f, cases.countP (f ∈ ·.features)) := by
    rw [events_foldl_record, countsOf_map_labelOf hl]
    exact List.map_congr_left fun f _ => Prod.ext rfl (count_shown cases f)
  refine ⟨events_foldl_record cases,
    ⟨fun h => injOn_of_countsOf ((events_foldl_record cases).symm.trans h), hevents⟩,
    fun hl event he => ?_⟩
  rw [hevents hl] at he
  obtain ⟨f, -, rfl⟩ := List.mem_map.1 he
  exact List.countP_le_length

/-- A case that passed and shows some features. -/
def passedWith (features : List (String × String)) : Case where
  outcome := .passed
  timing := ⟨.ofSeconds 0, .ofSeconds 0⟩
  draws := []
  source := .generated
  arguments := []
  notes := []
  features := .ofList features
  predicates := []
  crash := none

theorem events_count_features_branches :
    let cases := [passedWith [("branch", "left"), ("size", "2")], passedWith [("branch", "left")],
      passedWith [("branch", "right")]]
    (∀ f ∈ shown cases, ∀ g ∈ shown cases, labelOf f = labelOf g → f = g) ∧
      (cases.foldl record {}).events = [("branch: left", 2), ("size: 2", 1), ("branch: right", 1)] ∧
      ∀ event ∈ (cases.foldl record {}).events, event.2 ≤ 3 := by
  intro cases
  have hl : ∀ f ∈ shown cases, ∀ g ∈ shown cases, labelOf f = labelOf g → f = g :=
    labelOf_injOn (by decide +kernel)
  obtain ⟨-, hiff, hle⟩ := events_count_features cases
  exact ⟨hl, (hiff.2 hl).trans (by decide +kernel), hle hl⟩

/-- Two features have one label, and a case that shows both is counted twice. -/
theorem label_of_two_features :
    ¬ ∀ cases : List Case,
      (cases.foldl record {}).events =
        (shown cases).eraseDups.map (fun f => (labelOf f, cases.countP (f ∈ ·.features))) ∧
      ∀ event ∈ (cases.foldl record {}).events, event.2 ≤ cases.length := by
  intro h
  obtain ⟨-, hle⟩ := h [passedWith [("a", "b: c"), ("a: b", "c")]]
  exact absurd hle (by decide +kernel)

end Statistics

end Falsify
