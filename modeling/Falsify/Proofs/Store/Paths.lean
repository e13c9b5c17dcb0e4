import Mathlib.Algebra.Order.BigOperators.Group.List
import Falsify.Proofs.Store.Tree

/-!
# Paths below a directory

Below the directory of a store there are the directories of keys, and in them files. Their paths are
that of the store's directory and one or two plain names. A step that follows such a path finds what
is at the place of these names, and looks at no entry besides but that of the directory around it.

* `Path.join_join`, `Path.parent_join`: putting names together and taking them apart again;
* `FileTree.locate_join`, `FileTree.locate_join_join`: what is at the end.
-/

namespace Falsify

/-! ## Paths -/

namespace Path

variable {path : Path} {k n : String}

/-- A path without the slash at its end. -/
def front (path : Path) : Path :=
  if path.getLast? = some "" then path.dropLast else path

theorem join_eq (path : Path) (names : List String) : path.join names = path.front ++ names := by
  unfold join front
  split <;> rfl

theorem size_append (path path' : Path) : (path ++ path').size = path.size + path'.size := by
  simp only [size, List.map_append, List.sum_append]

theorem front_sublist (path : Path) : path.front.Sublist path := by
  unfold front
  split
  · exact List.dropLast_sublist path
  · exact List.Sublist.refl path

theorem size_front_le (path : Path) : path.front.size ≤ path.size :=
  (path.front_sublist.map _).sum_le_sum fun _ _ => Nat.zero_le _

theorem front_concat (path : Path) (hk : stays k = false) : (path ++ [k]).front = path ++ [k] := by
  rw [front, if_neg]
  rw [List.getLast?_concat, Option.some.injEq]
  rintro rfl
  exact absurd hk (by decide)

theorem join_join (path : Path) (hk : stays k = false) :
    (path.join [k]).join [n] = path.join [k, n] := by
  rw [join_eq path, join_eq (path.front ++ [k]), front_concat _ hk, join_eq, List.append_assoc]
  rfl

theorem parent_join (path : Path) (hk : stays k = false) :
    (path.join [k, n]).parent = path.join [k] := by
  have hsplit : path.join [k, n] = path.front ++ [k] ++ [n] := by
    rw [join_eq, List.append_assoc]
    rfl
  rw [parent, hsplit, List.dropLast_concat, List.reverse_concat, List.dropWhile_cons_of_neg,
    ← List.reverse_concat, List.reverse_reverse, join_eq]
  simp [hk]

theorem endsInDot_join (path : Path) (hk : stays k = false) :
    (path.join [k]).endsInDot = false := by
  rw [stays, Bool.or_eq_false_iff, decide_eq_false_iff_not] at hk
  rw [endsInDot, join_eq, List.filter_append]
  simp [hk.1, hk.2]

end Path

/-! ## Entries below the directory of a store -/

namespace FileTree

variable {t : FileTree} {base : Path} {root : Place} {k n : String}

theorem pathFault?_join {names : List String} (hf : pathFault? base = none)
    (hn : ∀ name ∈ names, '\x00' ∉ name.toList)
    (hroom : base.size + Path.size names ≤ maxPathLength) :
    pathFault? (base.join names) = none := by
  have hnul : base.any (fun name => name.toList.contains '\x00') = false := by
    unfold pathFault? at hf
    split at hf
    · cases hf
    · rename_i h
      simpa using h
  have hfront : base.front.any (fun name => name.toList.contains '\x00') = false := by
    rw [List.any_eq_false] at hnul ⊢
    exact fun name hname => hnul name (base.front_sublist.subset hname)
  have hsize := base.size_front_le
  rw [pathFault?, Path.join_eq, List.any_append, hfront, if_neg, if_neg]
  · rw [Path.size_append]
    omega
  · simpa using hn

theorem walk_front (h : t.walk [] base = .ok root) : t.walk [] base.front = .ok root := by
  unfold Path.front
  split
  · rename_i hlast
    obtain ⟨front, rfl⟩ := List.getLast?_eq_some_iff.1 hlast
    rw [List.dropLast_concat]
    obtain ⟨place, hw, hlast⟩ := exists_of_walk_append h
    obtain ⟨next, hn, hr⟩ := exists_of_walk_cons hlast
    cases hn
    cases hr
    exact hw
  · exact h

section Anchored

variable (ha : t.Anchored base root) (hk : Path.Plain k)

include ha hk

/-- Behind the path of the directory a plain name leads on from the directory itself. -/
theorem resolve_join_cons {names : List String} (hnames : ∀ name ∈ names, Path.Plain name)
    (hroom : base.size + Path.size (k :: names) ≤ maxPathLength) :
    t.resolve (base.join (k :: names)) = t.walk (root ++ [k]) names := by
  obtain ⟨hr, hd⟩ := of_locate ha.locate
  obtain ⟨hf, hw⟩ := walk_of_resolve hr
  have hnul : ∀ name ∈ k :: names, '\x00' ∉ name.toList :=
    List.forall_mem_cons.2 ⟨hk.noNul, fun name hname => (hnames name hname).noNul⟩
  rw [resolve_of_walk (pathFault?_join hf hnul hroom), Path.join_eq, walk_append _ (walk_front hw),
    walk_cons names hd, follow_plain root hk]
  rfl

theorem locate_join (hroom : base.size + Path.size [k] ≤ maxPathLength) : t.locate (base.join [k]) =
    match t.entry? (root ++ [k]) with
    | some e => .ok (root ++ [k], e)
    | none => .error .notFound :=
  locate_of_resolve (resolve_join_cons ha hk (by simp) hroom)

variable (hn : Path.Plain n) (hroom : base.size + Path.size [k, n] ≤ maxPathLength)

include hn hroom

theorem resolve_join_join (hd : t.entry? (root ++ [k]) = some .directory) :
    t.resolve (base.join [k, n]) = .ok (root ++ [k, n]) := by
  rw [resolve_join_cons ha hk (by simpa using hn) hroom, walk_cons [] hd, follow_plain _ hn,
    List.append_assoc]
  rfl

theorem locate_join_join (hd : t.entry? (root ++ [k]) = some .directory) :
    t.locate (base.join [k, n]) =
      match t.entry? (root ++ [k, n]) with
      | some e => .ok (root ++ [k, n], e)
      | none => .error .notFound :=
  locate_of_resolve (resolve_join_join ha hk hn hroom hd)

theorem locate_join_join_of_none (hd : t.entry? (root ++ [k]) = none) :
    t.locate (base.join [k, n]) = .error .notFound := by
  refine locate_of_error ?_
  rw [resolve_join_cons ha hk (by simpa using hn) hroom, walk, hd]

end Anchored

end FileTree

end Falsify
