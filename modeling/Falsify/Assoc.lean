/-!
# Association lists in key order

Small tables keyed by text or by number: features, filter counts, groups of equal values. A table
is a list of pairs whose keys increase strictly, so that equal tables are equal lists and reading
one off from front to back gives its entries in the order of their keys. Texts are ordered by
their characters' code points.

* `Assoc.alter`: the one operation that writes;
* `Assoc.Ordered`: the keys increase, which `alter` keeps so;
* `Assoc.find?_alter_self`: what is written under a key is read there.
-/

namespace Falsify

/-- A table: pairs of key and value. -/
abbrev Assoc (α β : Type) := List (α × β)

namespace Assoc

variable {α β : Type} [Ord α]

/-- The value under a key. -/
def find? (key : α) : Assoc α β → Option β
  | [] => none
  | (k, v) :: rest => if compare k key = .eq then some v else find? key rest

/-- The value under `key` becomes what `f` makes of it; a key not met yet is put at its place. -/
def alter (key : α) (f : Option β → β) : Assoc α β → Assoc α β
  | [] => [(key, f none)]
  | (k, v) :: rest =>
    match compare key k with
    | .lt => (key, f none) :: (k, v) :: rest
    | .eq => (k, f (some v)) :: rest
    | .gt => (k, v) :: alter key f rest

/-- `value` takes the place of what was under `key`. -/
def insert (key : α) (value : β) (table : Assoc α β) : Assoc α β :=
  alter key (fun _ => value) table

/-- The table of a list of entries; of two with one key the later counts. -/
def ofList (entries : List (α × β)) : Assoc α β :=
  entries.foldl (fun table entry => insert entry.1 entry.2 table) []

/-- What is in a table after writing: what was there, or what has been written. -/
theorem mem_alter [Std.LawfulEqOrd α] {key : α} {f : Option β → β}
    {table : Assoc α β} {e : α × β} (h : e ∈ alter key f table) :
    e ∈ table ∨ e.1 = key ∧ (e.2 = f none ∨ ∃ v, (key, v) ∈ table ∧ e.2 = f (some v)) := by
  induction table with
  | nil =>
    rw [alter, List.mem_singleton] at h
    exact .inr ⟨h ▸ rfl, .inl (h ▸ rfl)⟩
  | cons entry rest ih =>
    obtain ⟨k, v⟩ := entry
    rw [alter] at h
    split at h
    · rcases List.mem_cons.1 h with rfl | h
      · exact .inr ⟨rfl, .inl rfl⟩
      · exact .inl h
    · rename_i hk
      have hk := Std.LawfulEqOrd.eq_of_compare hk
      subst hk
      rcases List.mem_cons.1 h with rfl | h
      · exact .inr ⟨rfl, .inr ⟨v, List.mem_cons_self, rfl⟩⟩
      · exact .inl (List.mem_cons_of_mem _ h)
    · rcases List.mem_cons.1 h with rfl | h
      · exact .inl List.mem_cons_self
      · rcases ih h with h | ⟨h₁, h | ⟨v', h, h'⟩⟩
        · exact .inl (List.mem_cons_of_mem _ h)
        · exact .inr ⟨h₁, .inl h⟩
        · exact .inr ⟨h₁, .inr ⟨v', List.mem_cons_of_mem _ h, h'⟩⟩

/-! ## The order of the keys -/

/-- The keys increase. -/
def Ordered (table : Assoc α β) : Prop :=
  table.Pairwise fun a b => compare a.1 b.1 = .lt

instance (table : Assoc α β) : Decidable table.Ordered :=
  inferInstanceAs (Decidable (List.Pairwise _ _))

theorem ordered_nil : Ordered ([] : Assoc α β) := .nil

/-- Writing keeps the order: by induction on the table. -/
theorem Ordered.alter [Std.TransOrd α] [Std.LawfulEqOrd α] {table : Assoc α β} (h : table.Ordered)
    (key : α) (f : Option β → β) : (Assoc.alter key f table).Ordered := by
  induction table with
  | nil => exact List.pairwise_singleton _ _
  | cons entry rest ih =>
    obtain ⟨k, v⟩ := entry
    obtain ⟨hk, hrest⟩ := List.pairwise_cons.1 h
    rw [Assoc.alter]
    split
    · rename_i hlt
      refine List.pairwise_cons.2 ⟨fun e he => ?_, h⟩
      rcases List.mem_cons.1 he with rfl | he
      · exact hlt
      · exact Std.TransCmp.lt_trans hlt (hk e he)
    · exact List.pairwise_cons.2 ⟨hk, hrest⟩
    · rename_i hgt
      refine List.pairwise_cons.2 ⟨fun e he => ?_, ih hrest⟩
      rcases mem_alter he with he | ⟨hkey, -⟩
      · exact hk e he
      · exact hkey ▸ Std.OrientedCmp.lt_of_gt hgt

theorem Ordered.insert [Std.TransOrd α] [Std.LawfulEqOrd α] {table : Assoc α β} (h : table.Ordered)
    (key : α) (value : β) : (Assoc.insert key value table).Ordered :=
  h.alter key _

theorem ordered_ofList [Std.TransOrd α] [Std.LawfulEqOrd α] (entries : List (α × β)) :
    (ofList entries).Ordered :=
  List.foldlRecOn entries _ ordered_nil fun _ h entry _ => h.insert entry.1 entry.2

/-- No entry is in a table twice. -/
theorem Ordered.nodup [Std.TransOrd α] {table : Assoc α β} (h : table.Ordered) :
    table.Nodup := by
  refine List.Pairwise.imp (fun {a b} hab => ?_) h
  rintro rfl
  cases hab.symm.trans Std.ReflOrd.compare_self

/-- Writing under a key shows when reading it back. -/
theorem find?_alter_self [Std.TransOrd α] (key : α) (f : Option β → β)
    (table : Assoc α β) (sorted : table.Ordered) :
    find? key (alter key f table) = some (f (find? key table)) := by
  induction table with
  | nil => simp [alter, find?, Std.ReflOrd.compare_self]
  | cons entry rest ih =>
    obtain ⟨k, v⟩ := entry
    simp only [alter]
    split
    · rename_i h
      have hne : ∀ e ∈ (k, v) :: rest, compare e.1 key ≠ .eq := by
        intro e he heq
        have hk : compare key e.1 = .lt := by
          rcases List.mem_cons.1 he with rfl | he
          · exact h
          · exact Std.TransCmp.lt_trans h (List.rel_of_pairwise_cons sorted he)
        rw [Std.OrientedCmp.eq_symm heq] at hk
        cases hk
      have hnone : ∀ t : Assoc α β, (∀ e ∈ t, compare e.1 key ≠ .eq) → find? key t = none := by
        intro t ht
        induction t with
        | nil => rfl
        | cons e t iht =>
          rw [find?, if_neg (ht e (by simp)), iht fun e he => ht e (List.mem_cons_of_mem _ he)]
      rw [hnone _ hne, find?, if_pos Std.ReflOrd.compare_self]
    · rename_i h
      simp [find?, Std.OrientedCmp.eq_symm h]
    · rename_i h
      have hne : compare k key ≠ .eq := fun heq => by
        rw [Std.OrientedCmp.eq_symm heq] at h
        cases h
      rw [find?, if_neg hne, ih (List.Pairwise.of_cons sorted), find?, if_neg hne]

end Assoc

end Falsify
