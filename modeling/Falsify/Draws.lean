import Falsify.Draw

/-!
# Draw sequences

The draws of one test case, in the order in which they were made. Sequences are compared in
shortlex order on their values: fewer draws are simpler, and of two sequences of equal length the
one whose list of values comes first. Widths take no part in the comparison.

* `Draws.Simpler`: the order;
* `Draws.rank_lt_of_simpler`: it is well founded, since each sequence has a rank among the lists
  of words, and a simpler one has a lower rank.
-/

namespace Falsify

/-- The record of a test case: what it drew, first draw first. -/
abbrev Draws := List Draw

namespace Draws

def values (s : Draws) : List UInt64 :=
  s.map Draw.value

/-- `s` is strictly simpler than `t`. -/
def Simpler (s t : Draws) : Prop :=
  s.length < t.length ∨ s.length = t.length ∧ s.values < t.values

instance (s t : Draws) : Decidable (s.Simpler t) :=
  inferInstanceAs (Decidable (_ ∨ _ ∧ _))

/-- `s` is at most as complex as `t`. -/
def simplerOrEquivalent (s t : Draws) : Bool :=
  !decide (t.Simpler s)

/-- Every draw of the sequence is well formed. -/
def WellFormed (s : Draws) : Prop :=
  ∀ d ∈ s, d.WellFormed

instance (s : Draws) : Decidable s.WellFormed :=
  inferInstanceAs (Decidable (∀ d ∈ s, d.WellFormed))

/-! ## Edits -/

/-- The draw at position `i` gets another value, cut to its width. -/
def withValue (s : Draws) (i : Nat) (value : UInt64) : Draws :=
  s.modify i fun d => Draw.fit d.width value

/-- The draws from position `start` up to position `stop`, which is not included, are left out. -/
def withoutRange (s : Draws) (start stop : Nat) : Draws :=
  let stop := min stop s.length
  let start := min start stop
  s.take start ++ s.drop stop

/-- The draws at positions `i` and `j` change places, if there are both. -/
def swapped (s : Draws) (i j : Nat) : Draws :=
  match s[i]?, s[j]? with
  | some a, some b => (s.set i b).set j a
  | _, _ => s

/-- The draws at all the given positions get one value, each cut to its width. -/
def withValueAt (s : Draws) (positions : List Nat) (value : UInt64) : Draws :=
  positions.foldl (fun s i => s.withValue i value) s

@[simp] theorem length_values (s : Draws) : s.values.length = s.length := by
  simp [values]

@[simp] theorem length_withValue (s : Draws) (i : Nat) (value : UInt64) :
    (s.withValue i value).length = s.length := by
  simp [withValue]

@[simp] theorem length_swapped (s : Draws) (i j : Nat) : (s.swapped i j).length = s.length := by
  unfold swapped
  split <;> simp

@[simp] theorem length_withValueAt (s : Draws) (positions : List Nat) (value : UInt64) :
    (s.withValueAt positions value).length = s.length := by
  unfold withValueAt
  induction positions generalizing s with
  | nil => rfl
  | cons i rest ih => rw [List.foldl_cons, ih, length_withValue]

theorem length_withoutRange (s : Draws) {i j : Nat} (hij : i ≤ j) (hj : j ≤ s.length) :
    (s.withoutRange i j).length = s.length - (j - i) := by
  simp only [withoutRange, List.length_append, List.length_take, List.length_drop]
  omega

/-! ## The rank of a sequence -/

/-- The place of a list of words in shortlex order, read on from place `start`: the words, each one
higher, are the digits of a number. -/
def rankFrom (start : Nat) : List UInt64 → Nat
  | [] => start
  | w :: rest => rankFrom (start * 2 ^ 64 + w.toNat + 1) rest

/-- The place of a sequence in shortlex order. -/
def rank (s : Draws) : Nat :=
  rankFrom 0 s.values

theorem rankFrom_lt_of_lt {a b : List UInt64} (h : a.length = b.length) {r s : Nat} (hrs : r < s) :
    rankFrom r a < rankFrom s b := by
  induction a generalizing b r s with
  | nil =>
    cases b with
    | nil => exact hrs
    | cons => simp at h
  | cons x a ih =>
    cases b with
    | nil => simp at h
    | cons y b =>
      have hx := x.toNat_lt
      exact ih (Nat.succ.inj h) (by omega)

theorem rankFrom_lt_of_lex {a b : List UInt64} (h : a.length = b.length) (hab : a < b) (r : Nat) :
    rankFrom r a < rankFrom r b := by
  induction hab generalizing r with
  | nil => simp at h
  | @rel x xs y ys hxy =>
    have hxy : x.toNat < y.toNat := UInt64.lt_iff_toNat_lt.1 hxy
    refine rankFrom_lt_of_lt (Nat.succ.inj h) ?_
    omega
  | cons _ ih => exact ih (Nat.succ.inj h) _

theorem lt_rankFrom (r : Nat) {a : List UInt64} (h : a ≠ []) : r < rankFrom r a := by
  induction a generalizing r with
  | nil => exact absurd rfl h
  | cons x a ih =>
    cases a with
    | nil => simp only [rankFrom]; omega
    | cons y a =>
      have := ih (r * 2 ^ 64 + x.toNat + 1) (by simp)
      rw [rankFrom]
      omega

theorem rankFrom_append (r : Nat) (a b : List UInt64) :
    rankFrom r (a ++ b) = rankFrom (rankFrom r a) b := by
  induction a generalizing r with
  | nil => rfl
  | cons x a ih => exact ih _

/-- A simpler sequence has a lower rank, so no sequence is the start of an endless descent. -/
theorem rank_lt_of_simpler {s t : Draws} (h : s.Simpler t) : s.rank < t.rank := by
  rcases h with h | ⟨h, hlex⟩
  · have hsplit := List.take_append_drop (t.length - s.length) t.values
    have hne : t.values.take (t.length - s.length) ≠ [] := by
      intro h0
      have := congrArg List.length h0
      simp at this
      omega
    rw [rank, rank, ← hsplit, rankFrom_append]
    exact rankFrom_lt_of_lt (by simp; omega) (lt_rankFrom 0 hne)
  · exact rankFrom_lt_of_lex (by simpa using h) hlex 0

theorem Simpler.irrefl (s : Draws) : ¬ s.Simpler s := fun h =>
  Nat.lt_irrefl _ (rank_lt_of_simpler h)

theorem Simpler.length_le {s t : Draws} (h : s.Simpler t) : s.length ≤ t.length := by
  rcases h with h | ⟨h, _⟩ <;> omega

end Draws

end Falsify
