import Falsify.Store.Backend

/-!
# Stores in memory

A store without a file: a list of keys, each with its values. A key has an entry as long as it has a
value, and no value is there twice.

* `Memory.insert`, `Memory.erase`, `Memory.valuesOf`;
* `Memory.nodup_valuesOf`: the values under a key are a set;
* `memoryBackend`: the backend made of them, which never fails.
-/

namespace Falsify

/-- Keys with the sets of their values. -/
structure Memory where
  corpora : List (Key × List Bytes)
  nodup_keys : (corpora.map Prod.fst).Nodup
  nodup_values : ∀ c ∈ corpora, c.2.Nodup
  values_ne_nil : ∀ c ∈ corpora, c.2 ≠ []

namespace Memory

def empty : Memory where
  corpora := []
  nodup_keys := List.nodup_nil
  nodup_values := nofun
  values_ne_nil := nofun

/-- The values under a key. -/
def valuesOf (m : Memory) (key : Key) : List Bytes :=
  ((m.corpora.find? fun c => c.1 = key).map Prod.snd).getD []

theorem nodup_valuesOf (m : Memory) (key : Key) : (m.valuesOf key).Nodup := by
  rw [valuesOf]
  cases h : m.corpora.find? fun c => c.1 = key with
  | none => exact List.nodup_nil
  | some c => exact m.nodup_values c (List.mem_of_find?_eq_some h)

/-- The store without a key. -/
def without (m : Memory) (key : Key) : Memory where
  corpora := m.corpora.filter fun c => c.1 ≠ key
  nodup_keys := m.nodup_keys.sublist (List.filter_sublist.map _)
  nodup_values c hc := m.nodup_values c (List.mem_filter.1 hc).1
  values_ne_nil c hc := m.values_ne_nil c (List.mem_filter.1 hc).1

theorem ne_key_of_mem_without {m : Memory} {key : Key} {c : Key × List Bytes}
    (h : c ∈ (m.without key).corpora) : c.1 ≠ key :=
  of_decide_eq_true (List.mem_filter.1 h).2

/-- The values under a key become others. A key without values has no entry. -/
def setValues (m : Memory) (key : Key) (values : List Bytes) (nodup : values.Nodup) : Memory :=
  if h : values = [] then m.without key
  else {
    corpora := (m.without key).corpora ++ [(key, values)]
    nodup_keys := by
      rw [List.map_append, List.nodup_append]
      refine ⟨(m.without key).nodup_keys, by simp, fun k hk k' hk' => ?_⟩
      obtain ⟨c, hc, rfl⟩ := List.mem_map.1 hk
      exact List.mem_singleton.1 hk' ▸ ne_key_of_mem_without hc
    nodup_values := by
      intro c hc
      rcases List.mem_append.1 hc with hc | hc
      · exact (m.without key).nodup_values c hc
      · exact List.mem_singleton.1 hc ▸ nodup
    values_ne_nil := by
      intro c hc
      rcases List.mem_append.1 hc with hc | hc
      · exact (m.without key).values_ne_nil c hc
      · exact List.mem_singleton.1 hc ▸ h }

def insert (m : Memory) (key : Key) (value : Bytes) : Memory :=
  if h : value ∈ m.valuesOf key then m
  else m.setValues key (m.valuesOf key ++ [value]) (List.nodup_append.2
    ⟨m.nodup_valuesOf key, by simp, fun b hb b' hb' he =>
      h (List.mem_singleton.1 hb' ▸ he ▸ hb)⟩)

def erase (m : Memory) (key : Key) (value : Bytes) : Memory :=
  m.setValues key ((m.valuesOf key).filter (· ≠ value))
    ((m.nodup_valuesOf key).sublist List.filter_sublist)

/-- How many values there are under a key. -/
def count (m : Memory) (key : Key) : Nat :=
  (m.valuesOf key).length

/-- How many values there are under all keys. -/
def size (m : Memory) : Nat :=
  (m.corpora.map fun c => c.2.length).sum

end Memory

/-- The store in memory as a backend. It fetches the values of a key in the order of its list. That
is no promise: a list may hold the set in any order. -/
def memoryBackend : Backend Memory where
  save key value := modify fun s => { s with contents := s.contents.insert key value }
  fetch key := do return (← get).contents.valuesOf key
  delete key value := modify fun s => { s with contents := s.contents.erase key value }

end Falsify
