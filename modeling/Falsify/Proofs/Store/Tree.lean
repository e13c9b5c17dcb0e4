import Falsify.Proofs.Store.KeyText
import Falsify.Proofs.Store.Memory

/-!
# Steps below a directory

A store works below its directory and nowhere else. If nothing below a place is needed to get there,
as is so when it is made or found empty, a path that leads there does so whatever is put below the
place (`FileTree.Anchored`), and what follows the path is one name after another.

* `FileTree.entry?_put`, `FileTree.entry?_erase`: an entry is changed and no other;
* `FileTree.mem_childNames`, `FileTree.nodup_childNames_put`: the names in a directory;
* `FileTree.walk_outside`, `FileTree.Anchored`: paths that do not depend on what is below their end;
* `FileTree.walk_of_createFrom`: a path along which directories were made can be followed;
* `FileTree.Changes`: what is below the directory after some steps.
-/

namespace Falsify

/-- The place is inside the directory at `root`, at any depth. -/
def Place.Below (root place : Place) : Prop :=
  ∃ name rest, place = root ++ name :: rest

theorem Place.Below.ne_nil {root place : Place} (h : Place.Below root place) : place ≠ [] := by
  obtain ⟨name, rest, rfl⟩ := h
  simp

namespace FileTree

variable {t t' : FileTree} {place place' root here : Place} {e : FileEntry} {name : String}

/-! ## Entries -/

theorem entry?_eq (hp : place ≠ []) :
    t.entry? place = (t.entries.find? fun c => c.1 = place).map Prod.snd :=
  if_neg (by simpa using hp)

theorem entry?_put (hp : place ≠ []) :
    entry? (t.put place e) place' = if place' = place then some e else t.entry? place' := by
  by_cases hnil : place' = []
  · subst hnil
    exact (if_neg (Ne.symm hp)).symm
  · rw [entry?_eq hnil, entry?_eq hnil, put, List.find?_append, find?_filter_ne]
    by_cases h : place' = place
    · simp [h]
    · simp [h, Ne.symm h]

theorem entry?_put_self (hp : place ≠ []) : entry? (t.put place e) place = some e :=
  (entry?_put hp).trans (if_pos rfl)

theorem entry?_erase (hp : place ≠ []) :
    entry? (t.erase place) place' = if place' = place then none else t.entry? place' := by
  by_cases hnil : place' = []
  · subst hnil
    exact (if_neg (Ne.symm hp)).symm
  · rw [entry?_eq hnil, entry?_eq hnil, erase, find?_filter_ne]
    split <;> rfl

/-- The name in a directory, if the place is one in it. -/
def nameIn (directory place : Place) : Option String :=
  if place.dropLast = directory then place.getLast? else none

theorem nameIn_eq_some_iff {directory : Place} :
    nameIn directory place = some name ↔ place = directory ++ [name] := by
  unfold nameIn
  rcases List.eq_nil_or_concat' place with rfl | ⟨front, last, rfl⟩
  · simp
  · simp only [List.dropLast_concat, List.getLast?_concat, Option.ite_none_right_eq_some,
      Option.some.injEq]
    exact ⟨fun ⟨h₁, h₂⟩ => by rw [h₁, h₂], fun h => by simpa using h⟩

theorem mem_childNames : name ∈ t.childNames place ↔ ∃ e, t.entry? (place ++ [name]) = some e := by
  rw [← Option.isSome_iff_exists, entry?_eq (by simp), Option.isSome_map, List.find?_isSome,
    childNames, List.mem_mergeSort, List.mem_filterMap]
  exact exists_congr fun c => and_congr_right fun _ => by
    rw [decide_eq_true_iff, ← nameIn_eq_some_iff]
    rfl

theorem nodup_childNames_iff :
    (t.childNames place).Nodup ↔ (t.entries.filterMap fun c => nameIn place c.1).Nodup :=
  (List.mergeSort_perm _ _).nodup_iff

theorem nodup_childNames_erase (h : (t.childNames place').Nodup) :
    ((t.erase place).childNames place').Nodup := by
  rw [nodup_childNames_iff] at h ⊢
  exact h.sublist (List.filter_sublist.filterMap _)

theorem nodup_childNames_put (h : (t.childNames place').Nodup) :
    ((t.put place e).childNames place').Nodup := by
  have hrest : ((t.erase place).childNames place').Nodup := nodup_childNames_erase h
  rw [nodup_childNames_iff] at hrest ⊢
  rw [put, List.filterMap_append]
  rcases hname : nameIn place' place with _ | name
  · simp only [List.filterMap_cons, hname, List.filterMap_nil, List.append_nil]
    exact hrest
  · simp only [List.filterMap_cons, hname, List.filterMap_nil]
    refine List.nodup_append.2 ⟨hrest, List.nodup_singleton _, fun old hold new hnew heq => ?_⟩
    obtain ⟨c, hc, hc'⟩ := List.mem_filterMap.1 hold
    rw [heq, List.mem_singleton.1 hnew, nameIn_eq_some_iff, ← nameIn_eq_some_iff.1 hname] at hc'
    exact absurd hc' (by simpa using (List.mem_filter.1 hc).2)

/-! ## Walks -/

/-- Where a name leads from a directory. -/
def follow (here : Place) (name : String) : Except FileError Place :=
  if Path.stays name then .ok here
  else if name = ".." then .ok here.dropLast
  else if name.utf8ByteSize > maxNameLength then .error .nameTooLong
  else .ok (here ++ [name])

theorem follow_plain (here : Place) (h : Path.Plain name) :
    follow here name = .ok (here ++ [name]) := by
  rw [follow, if_neg (by simp [h.goes]), if_neg h.inward, if_neg (Nat.not_lt.2 h.short)]

theorem walk_cons (path : Path) (hd : t.entry? here = some .directory) :
    t.walk here (name :: path) = follow here name >>= fun next => t.walk next path := by
  rw [walk, hd, follow]
  dsimp only
  split
  · rfl
  · split
    · rfl
    · split <;> rfl

theorem directory_of_walk_cons {path : Path} (h : t.walk here (name :: path) = .ok place) :
    t.entry? here = some .directory := by
  rw [walk] at h
  rcases he : t.entry? here with _ | _ | _
  · rw [he] at h
    cases h
  · rw [he] at h
    cases h
  · rfl

/-- The first step of a walk that succeeds. -/
theorem exists_of_walk_cons {path : Path} (h : t.walk here (name :: path) = .ok place) :
    ∃ next, follow here name = .ok next ∧ t.walk next path = .ok place := by
  rw [walk_cons path (directory_of_walk_cons h)] at h
  rcases hn : follow here name with _ | next <;> rw [hn] at h
  · cases h
  · exact ⟨next, rfl, h⟩

theorem walk_append {path : Path} (path' : Path) (h : t.walk here path = .ok place) :
    t.walk here (path ++ path') = t.walk place path' := by
  induction path generalizing here with
  | nil =>
    cases h
    rfl
  | cons name rest ih =>
    obtain ⟨next, hn, hr⟩ := exists_of_walk_cons h
    rw [List.cons_append, walk_cons _ (directory_of_walk_cons h), hn]
    exact ih hr

theorem exists_of_walk_append {path path' : Path} (h : t.walk here (path ++ path') = .ok place) :
    ∃ place', t.walk here path = .ok place' ∧ t.walk place' path' = .ok place := by
  induction path generalizing here with
  | nil => exact ⟨here, rfl, h⟩
  | cons name rest ih =>
    obtain ⟨next, hn, hr⟩ := exists_of_walk_cons h
    obtain ⟨place', hw, hw'⟩ := ih hr
    refine ⟨place', ?_, hw'⟩
    rw [walk_cons rest (directory_of_walk_cons h), hn]
    exact hw

/-- A walk that ends in a directory goes through directories all along. -/
theorem directory_of_walk {path : Path} (h : t.walk here path = .ok place)
    (hd : t.entry? place = some .directory) : t.entry? here = some .directory := by
  cases path with
  | nil =>
    cases h
    exact hd
  | cons name rest => exact directory_of_walk_cons h

/-- Below the place there is nothing. -/
def Bare (t : FileTree) (root : Place) : Prop :=
  ∀ place, Place.Below root place → t.entry? place = none

/-- The trees differ below the place at most. -/
def SameOutside (root : Place) (t t' : FileTree) : Prop :=
  ∀ place, ¬ Place.Below root place → t'.entry? place = t.entry? place

/-- A walk that ends at a place with nothing below it does not come by there, and does not see what
is put there. -/
theorem walk_outside {path : Path} (hbare : t.Bare root) (hsame : SameOutside root t t')
    (h : t.walk here path = .ok root) : t'.walk here path = .ok root := by
  induction path generalizing here with
  | nil => exact h
  | cons name rest ih =>
    have hd := directory_of_walk_cons h
    have hd' : t'.entry? here = some .directory := by
      rw [hsame here fun hbelow => ?_, hd]
      rw [hbare here hbelow] at hd
      cases hd
    obtain ⟨next, hn, hr⟩ := exists_of_walk_cons h
    rw [walk_cons rest hd', hn]
    exact ih hr

/-! ## Making directories -/

theorem createFrom_cons {next : Place} (path : Path) (h : follow here name = .ok next)
    (hd : t.entry? next = some .directory) :
    t.createFrom here (name :: path) = t.createFrom next path := by
  rw [follow] at h
  rw [createFrom]
  split at h
  · rename_i hstays
    cases h
    rw [if_pos hstays]
  · rename_i hstays
    rw [if_neg hstays]
    split at h
    · rename_i hup
      cases h
      rw [if_pos hup]
    · rename_i hup
      rw [if_neg hup]
      split at h
      · cases h
      · rename_i hlong
        cases h
        rw [if_neg hlong, hd]

/-- Directories that are there already are not made. -/
theorem createFrom_append {path : Path} (path' : Path) (h : t.walk here path = .ok place)
    (hd : t.entry? place = some .directory) :
    t.createFrom here (path ++ path') = t.createFrom place path' := by
  induction path generalizing here with
  | nil =>
    cases h
    rfl
  | cons name rest ih =>
    obtain ⟨next, hn, hr⟩ := exists_of_walk_cons h
    rw [List.cons_append, createFrom_cons _ hn (directory_of_walk hr hd)]
    exact ih hr

/-- All places on the way to this one are directories, and so is it. -/
def Solid (t : FileTree) (place : Place) : Prop :=
  ∀ front, front <+: place → t.entry? front = some .directory

theorem Solid.directory (h : t.Solid place) : t.entry? place = some .directory :=
  h place (List.prefix_refl _)

theorem Solid.dropLast (h : t.Solid place) : t.Solid place.dropLast := fun front hf =>
  h front (hf.trans (List.dropLast_prefix _))

theorem Solid.concat (h : t.Solid place) (hd : t.entry? (place ++ [name]) = some .directory) :
    t.Solid (place ++ [name]) := by
  intro front hf
  rcases List.prefix_concat_iff.1 hf with rfl | hf
  · exact hd
  · exact h front hf

/-- No directory is lost. -/
def Keeps (t t' : FileTree) : Prop :=
  ∀ place, t.entry? place = some .directory → t'.entry? place = some .directory

/-- The first step of making directories, if all are made: the next one was there or is made. -/
theorem exists_of_createFrom_cons {path : Path} (hs : t.Solid here)
    (h : t.createFrom here (name :: path) = (.ok (), t')) :
    ∃ next t₁, follow here name = .ok next ∧ t₁.Solid next ∧ t.Keeps t₁ ∧
      t₁.createFrom next path = (.ok (), t') := by
  rw [createFrom] at h
  rw [follow]
  split at h
  · rename_i hstays
    exact ⟨here, t, if_pos hstays, hs, fun _ => id, h⟩
  · rename_i hstays
    rw [if_neg hstays]
    split at h
    · rename_i hup
      exact ⟨here.dropLast, t, if_pos hup, hs.dropLast, fun _ => id, h⟩
    · rename_i hup
      rw [if_neg hup]
      split at h
      · cases h
      · rename_i hlong
        rw [if_neg hlong]
        split at h
        · rename_i hthere
          exact ⟨here ++ [name], t, rfl, hs.concat hthere, fun _ => id, h⟩
        · cases h
        · rename_i hnone
          let t₁ := t.put (here ++ [name]) .directory
          have hkeeps : t.Keeps t₁ := fun p hp => by
            rw [entry?_put (by simp)]
            split
            · rfl
            · exact hp
          have hmade : t₁.entry? (here ++ [name]) = some .directory := entry?_put_self (by simp)
          have hsolid : t₁.Solid here := fun front hf => hkeeps front (hs front hf)
          exact ⟨here ++ [name], t₁, rfl, hsolid.concat hmade, hkeeps, h⟩

/-- A path along which directories were made can be followed, and leads to a directory. -/
theorem walk_of_createFrom {path : Path} (hs : t.Solid here)
    (h : t.createFrom here path = (.ok (), t')) :
    (∃ place, t'.walk here path = .ok place ∧ t'.entry? place = some .directory) ∧ t.Keeps t' := by
  induction path generalizing t here with
  | nil =>
    cases h
    exact ⟨⟨here, rfl, hs.directory⟩, fun _ => id⟩
  | cons name rest ih =>
    obtain ⟨next, t₁, hn, hs₁, hk, hr⟩ := exists_of_createFrom_cons hs h
    obtain ⟨⟨place, hw, hd⟩, hk'⟩ := ih hs₁ hr
    refine ⟨⟨place, ?_, hd⟩, fun p hp => hk' p (hk p hp)⟩
    rw [walk_cons rest (hk' here (hk here hs.directory)), hn]
    exact hw

/-! ## Anchors -/

theorem bare_of_listing (h : t.listing root = []) : t.Bare root := by
  rintro place ⟨name, rest, rfl⟩
  rw [← Option.not_isSome_iff_eq_none]
  intro hsome
  rw [entry?_eq (by simp), Option.isSome_map, List.find?_isSome] at hsome
  obtain ⟨⟨place, e⟩, hc, hplace⟩ := hsome
  obtain rfl : place = root ++ name :: rest := of_decide_eq_true hplace
  rw [listing] at h
  have hnone := List.filterMap_eq_nil_iff.1 (List.nil_perm.1 (h ▸ List.mergeSort_perm _ _)) _ hc
  simp at hnone

/-- The path leads to the directory at `root`, whatever is below. -/
def Anchored (t : FileTree) (path : Path) (root : Place) : Prop :=
  ∀ t', SameOutside root t t' → t'.locate path = .ok (root, .directory)

theorem Anchored.of_sameOutside {path : Path} (h : t.Anchored path root)
    (hs : SameOutside root t t') : t'.Anchored path root := fun t'' hs' =>
  h t'' fun place hp => (hs' place hp).trans (hs place hp)

theorem Anchored.put {path : Path} (h : t.Anchored path root) (hb : Place.Below root place)
    (e : FileEntry) : (t.put place e).Anchored path root :=
  h.of_sameOutside fun place' hp => by
    have hne : place' ≠ place := by
      rintro rfl
      exact hp hb
    rw [entry?_put hb.ne_nil, if_neg hne]

theorem Anchored.erase {path : Path} (h : t.Anchored path root) (hb : Place.Below root place) :
    (t.erase place).Anchored path root :=
  h.of_sameOutside fun place' hp => by
    have hne : place' ≠ place := by
      rintro rfl
      exact hp hb
    rw [entry?_erase hb.ne_nil, if_neg hne]

theorem Anchored.locate {path : Path} (h : t.Anchored path root) :
    t.locate path = .ok (root, .directory) :=
  h t fun _ _ => rfl

theorem locate_of_resolve {path : Path} (h : t.resolve path = .ok place) : t.locate path =
    match t.entry? place with
    | some e => .ok (place, e)
    | none => .error .notFound := by
  unfold FileTree.locate
  rw [h]
  change (match t.entry? place with
    | some e => pure (place, e)
    | none => throw FileError.notFound) = _
  split <;> rfl

theorem locate_of_error {path : Path} {e : FileError} (h : t.resolve path = .error e) :
    t.locate path = .error e := by
  unfold FileTree.locate
  rw [h]
  rfl

theorem of_locate {path : Path} (h : t.locate path = .ok (place, e)) :
    t.resolve path = .ok place ∧ t.entry? place = some e := by
  rcases hr : t.resolve path with _ | place'
  · unfold FileTree.locate at h
    rw [hr] at h
    cases h
  · rw [locate_of_resolve hr] at h
    split at h
    · rename_i he
      cases h
      exact ⟨rfl, he⟩
    · cases h

theorem walk_of_resolve {path : Path} (h : t.resolve path = .ok place) :
    pathFault? path = none ∧ t.walk [] path = .ok place := by
  unfold resolve at h
  split at h
  · cases h
  · rename_i hf
    exact ⟨hf, h⟩

theorem resolve_of_walk {path : Path} (hf : pathFault? path = none) :
    t.resolve path = t.walk [] path := by
  rw [resolve, hf]

theorem anchored_of_bare {path : Path} (h : t.locate path = .ok (root, .directory))
    (hb : t.Bare root) : t.Anchored path root := by
  intro t' hs
  obtain ⟨hr, hd⟩ := of_locate h
  obtain ⟨hf, hw⟩ := walk_of_resolve hr
  have hr' : t'.resolve path = .ok root := by
    rw [resolve_of_walk hf]
    exact walk_outside hb hs hw
  have hroot : ¬ Place.Below root root := by
    rintro ⟨name, rest, h⟩
    simp at h
  rw [locate_of_resolve hr', hs root hroot, hd]

/-! ## Changes -/

/-- Steps below `root` have led from `t` to `t'`, where the entries are `entries`: the path leads to
`root` as before, and no name has got into a directory twice. -/
structure Changes (path : Path) (root : Place) (t t' : FileTree)
    (entries : Place → Option FileEntry) : Prop where
  anchored : t'.Anchored path root
  entry : ∀ place, t'.entry? place = entries place
  single : ∀ place, (t.childNames place).Nodup → (t'.childNames place).Nodup

section Changes

variable {path : Path} {t₁ t₂ : FileTree} {entries entries' : Place → Option FileEntry}

theorem Anchored.changes (h : t.Anchored path root) : Changes path root t t t.entry? :=
  ⟨h, fun _ => rfl, fun _ hn => hn⟩

theorem Changes.congr (h : Changes path root t t' entries)
    (he : ∀ place, entries place = entries' place) : Changes path root t t' entries' :=
  ⟨h.anchored, fun place => (h.entry place).trans (he place), h.single⟩

theorem Changes.trans (h : Changes path root t t₁ entries) (h' : Changes path root t₁ t₂ entries') :
    Changes path root t t₂ entries' :=
  ⟨h'.anchored, h'.entry, fun p hn => h'.single p (h.single p hn)⟩

theorem Changes.put (h : Changes path root t t' entries) (hb : Place.Below root place)
    (e : FileEntry) : Changes path root t (t'.put place e) fun p =>
      if p = place then some e else entries p where
  anchored := h.anchored.put hb e
  entry p := by rw [entry?_put hb.ne_nil, h.entry]
  single p hn := nodup_childNames_put (h.single p hn)

theorem Changes.erase (h : Changes path root t t' entries) (hb : Place.Below root place) :
    Changes path root t (t'.erase place) fun p => if p = place then none else entries p where
  anchored := h.anchored.erase hb
  entry p := by rw [entry?_erase hb.ne_nil, h.entry]
  single p hn := nodup_childNames_erase (h.single p hn)

end Changes

end FileTree

end Falsify
