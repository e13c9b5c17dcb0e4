import Falsify.Assoc
import Falsify.Shrink.Integer
import Falsify.Shrink.Search

/-!
# The passes of a search

A search goes through its passes in a fixed order: it deletes blocks of draws, minimizes each draw
as an integer, swaps neighbours that are out of order, and lowers draws of equal value together. A
pass is repeated as long as it makes the sequence simpler, and so is the whole cycle of passes.
Each repetition starts from a simpler sequence than the one before, so the search ends whatever
the trials answer.

* `Search.runPass`, `Search.cycle`, `Search.run`;
* `neighbours`: the sequences one elementary step away.
-/

namespace Falsify

/-- The longest block of draws that is deleted at once. -/
def maxDeleteBlock : Nat := 8

inductive ShrinkPass where
  | deleteDraws
  | minimizeDraws
  | reorderDraws
  | minimizeDuplicates
  deriving DecidableEq

namespace ShrinkPass

def name : ShrinkPass → String
  | .deleteDraws => "delete_draws"
  | .minimizeDraws => "minimize_draws"
  | .reorderDraws => "reorder_draws"
  | .minimizeDuplicates => "minimize_duplicates"

/-- The order in which the passes run. -/
def order : List ShrinkPass :=
  [.deleteDraws, .minimizeDraws, .reorderDraws, .minimizeDuplicates]

end ShrinkPass

/-- The positions of each value other than zero, in the order of the values. -/
def positionsByValue (s : Draws) : Assoc UInt64 (List Nat) :=
  s.values.zipIdx.foldl
    (fun groups (value, i) =>
      if value = 0 then groups else Assoc.alter value (fun old => old.getD [] ++ [i]) groups)
    []

/-- The values other than zero that occur more than once, and their positions. -/
def duplicateGroups (s : Draws) : List (UInt64 × List Nat) :=
  (positionsByValue s).filter fun (_, positions) => 1 < positions.length

namespace Search

variable {σ : Type}

/-- Considers values for the draws at some positions, as long as they are all there. -/
def considerValue (o : Oracle σ) (b : ShrinkBudget) (positions : List Nat) : Trial (Search σ) :=
  fun value s =>
    if positions.all (· < s.current.length) then
      s.consider o b (s.current.withValueAt positions (UInt64.ofNat value))
    else (false, s)

/-- Deletes blocks of `size` draws, from position `i` on. A block that has gone makes place for the
next one. -/
def deleteBlocks (o : Oracle σ) (b : ShrinkBudget) (size i : Nat) (s : Search σ) : Search σ :=
  if _h : 0 < size ∧ i + size ≤ s.current.length ∧ s.exhausted = false then
    match _hc : s.consider o b (s.current.withoutRange i (i + size)) with
    | (true, s') => deleteBlocks o b size i s'
    | (false, s') => deleteBlocks o b size (i + 1) s'
  else s
termination_by (s.current.rank, s.current.length - i)
decreasing_by
  all_goals
    have hne : s.current.withoutRange i (i + size) ≠ s.current := fun heq => by
      have hl := Draws.length_withoutRange s.current (Nat.le_add_right i size) _h.2.1
      rw [heq] at hl
      omega
    have hs := steps_consider o b hne
    rw [_hc] at hs
  · exact Prod.Lex.left _ _ (Draws.rank_lt_of_simpler hs)
  · rw [show s'.current = s.current from hs]
    exact Prod.Lex.right _ (by omega)

/-- Deletes blocks of draws, the longest ones first. -/
def deleteDraws (o : Oracle σ) (b : ShrinkBudget) (s : Search σ) : Search σ :=
  (List.range maxDeleteBlock).foldl (fun s k => s.deleteBlocks o b (maxDeleteBlock - k) 0) s

/-- Minimizes each draw as an integer, from the first to the last. -/
def minimizeDraws (o : Oracle σ) (b : ShrinkBudget) (s : Search σ) : Search σ :=
  (List.range s.current.length).foldl
    (fun s i =>
      match s.exhausted, s.current[i]? with
      | false, some draw =>
        if draw.value = 0 then s
        else (minimizeInteger (considerValue o b [i]) draw.value.toNat s).2
      | _, _ => s)
    s

/-- Two neighbouring draws at a position are out of order. -/
def outOfOrder (s : Draws) (i : Nat) : Bool :=
  match s[i]?, s[i + 1]? with
  | some a, some b => b.value < a.value
  | _, _ => false

/-- Swaps neighbouring draws that are out of order, from the first to the last. -/
def reorderDraws (o : Oracle σ) (b : ShrinkBudget) (s : Search σ) : Search σ :=
  (List.range s.current.length).foldl
    (fun s i =>
      if s.exhausted = false ∧ outOfOrder s.current i then
        (s.consider o b (s.current.swapped i (i + 1))).2
      else s)
    s

/-- Lowers the draws of equal value together, one value after another. The groups are those of the
sequence at the start. -/
def minimizeDuplicates (o : Oracle σ) (b : ShrinkBudget) (s : Search σ) : Search σ :=
  (duplicateGroups s.current).foldl
    (fun s (value, positions) =>
      if s.exhausted then s
      else (minimizeInteger (considerValue o b positions) value.toNat s).2)
    s

def runPass (o : Oracle σ) (b : ShrinkBudget) : ShrinkPass → Search σ → Search σ
  | .deleteDraws => deleteDraws o b
  | .minimizeDraws => minimizeDraws o b
  | .reorderDraws => reorderDraws o b
  | .minimizeDuplicates => minimizeDuplicates o b

/-- Runs a pass again and again as long as it makes the sequence simpler. -/
def repeatPass (o : Oracle σ) (b : ShrinkBudget) (pass : ShrinkPass) (s : Search σ) : Search σ :=
  if s.exhausted then s
  else
    let s' := s.runPass o b pass
    if _h : s'.current.Simpler s.current then s'.repeatPass o b pass else s'
termination_by s.current.rank
decreasing_by exact Draws.rank_lt_of_simpler _h

/-- Runs all passes in order, each as often as it helps. -/
def cycle (o : Oracle σ) (b : ShrinkBudget) (s : Search σ) : Search σ :=
  ShrinkPass.order.foldl (fun s pass => s.repeatPass o b pass) s

/-- Runs cycles as long as they make the sequence simpler and the budget lasts. -/
def run (o : Oracle σ) (b : ShrinkBudget) (s : Search σ) : Search σ :=
  let s' := s.cycle o b
  if _h : s'.current.Simpler s.current ∧ s'.exhausted = false then s'.run o b else s'
termination_by s.current.rank
decreasing_by exact Draws.rank_lt_of_simpler _h.1

end Search

/-! ## Elementary steps -/

/-- All blocks of `size` draws left out, one at a time. -/
def deletions (s : Draws) (size : Nat) : List Draws :=
  (List.range (s.length + 1 - size)).map fun i => s.withoutRange i (i + size)

/-- The values below a value other than zero that are tried first. -/
def lowered (value : UInt64) : List UInt64 :=
  [0, value - 1, value / 2]

/-- The sequences one elementary step away: a block of draws left out, a draw set to zero, lowered
by one or halved, two neighbours that are out of order swapped, or draws of equal value lowered
together. -/
def neighbours (s : Draws) : List Draws :=
  ((List.range (min maxDeleteBlock s.length)).flatMap fun k => deletions s (k + 1)) ++
  (s.zipIdx.flatMap fun (draw, i) =>
    if draw.value = 0 then [] else (lowered draw.value).map (s.withValue i)) ++
  ((List.range (s.length - 1)).flatMap fun i =>
    if Search.outOfOrder s i then [s.swapped i (i + 1)] else []) ++
  (duplicateGroups s).flatMap fun (value, positions) =>
    (lowered value).map (s.withValueAt positions)

end Falsify
