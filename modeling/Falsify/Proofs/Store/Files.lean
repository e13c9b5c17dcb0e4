import Falsify.Proofs.Store.Agreement
import Falsify.Proofs.Store.Places

/-!
# The files of a corpus

What a store in a directory fetches of a key are the contents of the files in the key's directory,
whatever their names say about them; what it deletes is the file that bears the name of a value,
whatever there is in it. So files may be looked at by name, each with what it holds.

* `Directory.files`: the files of a key that can be read;
* `Directory.fetch_files`: their contents are fetched;
* `Directory.delete_files`: one of them at most is deleted, and no file of another key.
-/

namespace Falsify

open Directory FileProgram FileTree

/-! ## Fetching -/

namespace FileTree

theorem perform_read_snd (t : FileTree) (path : Path) : (t.perform (.read path)).2 = t := by
  simp only [FileTree.perform]
  split <;> rfl

theorem perform_list_snd (t : FileTree) (path : Path) : (t.perform (.list path)).2 = t := by
  simp only [FileTree.perform]
  split <;> rfl

theorem locate_of_read {t : FileTree} {path : Path} {contents : Bytes}
    (h : (t.perform (.read path)).1 = .ok contents) :
    ∃ place, t.locate path = .ok (place, .file contents) := by
  rcases hl : t.locate path with e | ⟨place, contents' | _⟩ <;>
    simp only [FileTree.perform, hl] at h <;> cases h
  exact ⟨place, rfl⟩

/-- The files of some names that can be read, with what is in them. -/
def readable (t : FileTree) (directory : Path) (names : List String) : List (String × Bytes) :=
  names.filterMap fun name =>
    match (t.perform (.read (directory.join [name]))).1 with
    | .ok contents => some (name, contents)
    | .error _ => none

/-- Those that are there and cannot be read, with the reason. -/
def unreadable (t : FileTree) (directory : Path) (names : List String) : List (Path × FileError) :=
  names.filterMap fun name =>
    match (t.perform (.read (directory.join [name]))).1 with
    | .ok _ => none
    | .error .notFound => none
    | .error e => some (directory.join [name], e)

end FileTree

namespace Directory

/-- The files of a key, with what is in them: none if the directory of the key is not there. -/
def files (d : Directory) (t : FileTree) (key : Key) : Except FileError (List (String × Bytes)) :=
  match (t.perform (.list (d.keyDirectory key))).1 with
  | .ok names => .ok (t.readable (d.keyDirectory key) (names.filter fun n => !n.startsWith "."))
  | .error .notFound => .ok []
  | .error e => .error e

variable {d : Directory} {t t' : FileTree} {root : Place} {key key' : Key} {value : Bytes}

theorem run_readAll_readable (directory : Path) (names : List String) (t : FileTree) :
    (readAll directory names).run t =
      (((t.readable directory names).map Prod.snd, t.unreadable directory names), t) := by
  induction names with
  | nil => rfl
  | cons name rest ih =>
    have hsame := t.perform_read_snd (directory.join [name])
    rw [readAll, readable, unreadable, List.filterMap_cons, List.filterMap_cons]
    change (andThen (.attempt (.read (directory.join [name]))) _).run t = _
    rw [run_andThen, run_attempt, hsame]
    change (andThen (readAll directory rest) _).run t = _
    rw [run_andThen, ih]
    rcases (t.perform (.read (directory.join [name]))).1 with e | contents
    · cases e <;> rfl
    · rfl

theorem exec_fetchProgram_files (d : Directory) (key : Key) (t : FileTree) :
    ∃ unreadable, exec (d.fetchProgram key) t =
      ((d.files t key).map fun files => (files.map Prod.snd, unreadable), t) := by
  have hsame := t.perform_list_snd (d.keyDirectory key)
  rw [fetchProgram, exec_bind_of_ok (exec_inspect _ t), hsame, files]
  rcases (t.perform (.list (d.keyDirectory key))).1 with e | names
  · cases e <;> exact ⟨[], rfl⟩
  · refine ⟨t.unreadable (d.keyDirectory key) (names.filter fun n => !n.startsWith "."), ?_⟩
    change (andThen (readAll (d.keyDirectory key) _) _).run t = _
    rw [run_andThen, run_readAll_readable]
    rfl

/-- Telling of each thing in a list. -/
theorem forIn_tell {α σ : Type} (level : LogLevel) (text : α → String) (things : List α)
    (st : Storage σ) : ∃ log, (forIn things PUnit.unit fun thing _ => do
      StoreM.tell level (text thing)
      pure (.yield PUnit.unit) : StoreM σ PUnit) st = (.ok .unit, ⟨st.contents, log⟩) := by
  induction things generalizing st with
  | nil => exact ⟨st.log, rfl⟩
  | cons thing rest ih =>
    obtain ⟨log, h⟩ := ih ⟨st.contents, st.log.push ⟨level, text thing⟩⟩
    refine ⟨log, ?_⟩
    rw [List.forIn_cons, ← h]
    rfl

/-- What is fetched is what is in the files. -/
theorem fetch_files (d : Directory) (key : Key) (st : Storage FileTree) :
    ∃ log, d.backend.fetch key st =
      (((d.files st.contents key).map (List.map Prod.snd)).mapError .io, ⟨st.contents, log⟩) := by
  obtain ⟨unreadable, hexec⟩ := exec_fetchProgram_files d key st.contents
  have hrun := runStored_eq (d.fetchProgram key) st
  rw [hexec] at hrun
  unfold backend
  dsimp only
  rcases hfiles : d.files st.contents key with e | files <;> rw [hfiles] at hrun
  · exact ⟨st.log, StoreM.bind_of_error hrun⟩
  · obtain ⟨log, htell⟩ := forIn_tell .warn (fun p : Path × FileError =>
      let place := "/".intercalate p.1
      s!"skipping unreadable example /{place}: {p.2.message}") unreadable st
    refine ⟨log, ?_⟩
    rw [StoreM.bind_of_ok hrun]
    dsimp only
    rw [StoreM.bind_of_ok htell]
    rfl

end Directory

/-! ## Steps elsewhere -/

namespace FileTree

variable {t t' : FileTree} {base : Path} {root place : Place} {k n : String}

/-- What is erased is missing from the names around it. -/
theorem childNames_erase (t : FileTree) (place directory : Place) :
    (t.erase place).childNames directory =
      (t.childNames directory).filter fun name => directory ++ [name] ≠ place := by
  have hsorted (names : List String) : names.mergeSort.Pairwise (· ≤ ·) := by
    have h : names.mergeSort.Pairwise fun a b => decide (a ≤ b) = true :=
      List.pairwise_mergeSort
        (fun a b c hab hbc => by
          rw [decide_eq_true_iff] at *
          exact String.le_trans hab hbc)
        (fun a b => by
          rw [Bool.or_eq_true, decide_eq_true_iff, decide_eq_true_iff]
          exact String.le_total a b) names
    exact h.imp of_decide_eq_true
  have hnames : (t.erase place).entries.filterMap (fun e => nameIn directory e.1) =
      (t.entries.filterMap fun e => nameIn directory e.1).filter fun name =>
        directory ++ [name] ≠ place := by
    rw [erase, List.filter_filterMap, List.filterMap_filter]
    refine List.filterMap_congr fun e _ => ?_
    rcases hname : nameIn directory e.1 with _ | name
    · simp
    · rw [nameIn_eq_some_iff] at hname
      by_cases he : directory ++ [name] = place <;> simp [hname, he, Option.filter]
  refine List.Perm.eq_of_pairwise (fun a b _ _ => String.le_antisymm) (hsorted _)
    ((hsorted _).filter _) ?_
  exact (List.mergeSort_perm _ _).trans
    ((List.Perm.of_eq hnames).trans ((List.mergeSort_perm _ _).filter _).symm)

section Anchored

variable (ha : t.Anchored base root)

include ha

theorem resolve_folder_eq (k : String) : t.resolve (base.join [k]) =
    match pathFault? (base.join [k]) with
    | some fault => .error fault
    | none => follow root k := by
  rcases hfault : pathFault? (base.join [k]) with _ | fault
  · obtain ⟨hr, hd⟩ := of_locate ha.locate
    rw [resolve_of_walk hfault, Path.join_eq, walk_append _ (walk_front (walk_of_resolve hr).2),
      walk_cons [] hd]
    rcases follow root k with _ | _ <;> rfl
  · rw [resolve, hfault]

theorem resolve_file_eq (hk : Path.Inward k) (hd : t.entry? (root ++ [k]) = some .directory)
    (n : String) : t.resolve (base.join [k, n]) =
      match pathFault? (base.join [k, n]) with
      | some fault => .error fault
      | none => follow root k >>= fun folder => follow folder n := by
  rcases hfault : pathFault? (base.join [k, n]) with _ | fault
  · obtain ⟨hr, hroot⟩ := of_locate ha.locate
    rw [resolve_of_walk hfault, Path.join_eq, walk_append _ (walk_front (walk_of_resolve hr).2),
      walk_cons [n] hroot]
    rcases follow_inward root hk with hf | hf <;> rw [hf]
    · change t.walk (root ++ [k]) [n] = follow (root ++ [k]) n
      rw [walk_cons [] hd]
      rcases follow (root ++ [k]) n with _ | _ <;> rfl
    · rfl
  · rw [resolve, hfault]

theorem directory_of_resolve_file (hk : Path.Inward k)
    (h : t.resolve (base.join [k, n]) = .ok place) : t.entry? (root ++ [k]) = some .directory := by
  rcases resolve_join ha [k, n] with hr | ⟨e, -, hr⟩
  · obtain ⟨next, hn, hw⟩ := exists_of_walk_cons (hr.symm.trans h)
    rcases follow_inward root hk with hf | hf <;> cases hf.symm.trans hn
    exact directory_of_walk_cons hw
  · cases hr.symm.trans h

/-- The path of a file leads to its place, unless the name leads nowhere else or out. -/
theorem place_of_resolve_file (hk : Path.Inward k)
    (hd : t.entry? (root ++ [k]) = some .directory)
    (h : t.resolve (base.join [k, n]) = .ok place) :
    place = root ++ [k, n] ∨ place = root ++ [k] ∨ place = root := by
  rw [resolve_file_eq ha hk hd] at h
  split at h
  · cases h
  · rcases follow_inward root hk with hf | hf <;> rw [hf] at h
    · change follow (root ++ [k]) n = .ok place at h
      unfold follow at h
      split at h
      · exact .inr (.inl (Except.ok.inj h).symm)
      · split at h
        · rw [List.dropLast_concat] at h
          exact .inr (.inr (Except.ok.inj h).symm)
        · split at h
          · cases h
          · rw [List.append_assoc] at h
            exact .inl (Except.ok.inj h).symm
    · cases h

theorem list_eq_ok (hk : Path.Inward k) {names : List String}
    (h : (t.perform (.list (base.join [k]))).1 = .ok names) :
    t.locate (base.join [k]) = .ok (root ++ [k], .directory) ∧
      names = t.childNames (root ++ [k]) := by
  rcases leads_folder ha hk with ⟨e, -, hl⟩ | ⟨-, hl⟩ | ⟨e, -, hl⟩ <;>
    simp only [FileTree.perform, hl] at h
  · rcases e with _ | _
    · cases h
    · exact ⟨hl, (Except.ok.inj h).symm⟩
  · cases h
  · cases h

theorem list_eq_notFound (hk : Path.Inward k)
    (h : (t.perform (.list (base.join [k]))).1 = .error .notFound) :
    t.entry? (root ++ [k]) = none := by
  rcases leads_folder ha hk with ⟨e, -, hl⟩ | ⟨he, -⟩ | ⟨e, htextual, hl⟩
  · simp only [FileTree.perform, hl] at h
    rcases e with _ | _ <;> cases h
  · exact he
  · simp only [FileTree.perform, hl] at h
    cases h
    rcases htextual with h | h <;> cases h

variable (ha' : t'.Anchored base root)

include ha'

theorem locate_folder_congr (hk : Path.Inward k)
    (hd : t'.entry? (root ++ [k]) = t.entry? (root ++ [k])) :
    t'.locate (base.join [k]) = t.locate (base.join [k]) := by
  have hsame : t'.resolve (base.join [k]) = t.resolve (base.join [k]) := by
    rw [resolve_folder_eq ha', resolve_folder_eq ha]
  rcases hr : t.resolve (base.join [k]) with e | place
  · rw [locate_of_error hr, locate_of_error (hsame.trans hr)]
  · have hplace : place = root ++ [k] := by
      rw [resolve_folder_eq ha] at hr
      split at hr
      · cases hr
      · rcases follow_inward root hk with hf | hf <;> cases hf.symm.trans hr
        rfl
    rw [locate_of_resolve hr, locate_of_resolve (hsame.trans hr), hplace, hd]

/-- The names in a directory depend on nothing else in the tree. -/
theorem list_congr (hk : Path.Inward k) (hd : t'.entry? (root ++ [k]) = t.entry? (root ++ [k]))
    (hnames : t'.childNames (root ++ [k]) = t.childNames (root ++ [k])) :
    (t'.perform (.list (base.join [k]))).1 = (t.perform (.list (base.join [k]))).1 := by
  simp only [FileTree.perform, locate_folder_congr ha ha' hk hd]
  rcases leads_folder ha hk with ⟨e, -, hl⟩ | ⟨-, hl⟩ | ⟨e, -, hl⟩ <;> simp only [hl]
  rcases e with _ | _
  · rfl
  · simp only [hnames]

/-- What is in a file depends on nothing else in the tree. -/
theorem read_congr (hk : Path.Inward k) (hd : t.entry? (root ++ [k]) = some .directory)
    (hd' : t'.entry? (root ++ [k]) = some .directory)
    (he : t'.entry? (root ++ [k, n]) = t.entry? (root ++ [k, n])) :
    (t'.perform (.read (base.join [k, n]))).1 = (t.perform (.read (base.join [k, n]))).1 := by
  have hsame : t'.resolve (base.join [k, n]) = t.resolve (base.join [k, n]) := by
    rw [resolve_file_eq ha' hk hd', resolve_file_eq ha hk hd]
  have hlocate : t'.locate (base.join [k, n]) = t.locate (base.join [k, n]) := by
    rcases hr : t.resolve (base.join [k, n]) with e | place
    · rw [locate_of_error hr, locate_of_error (hsame.trans hr)]
    · have hentry : t'.entry? place = t.entry? place := by
        rcases place_of_resolve_file ha hk hd hr with rfl | rfl | rfl
        · exact he
        · rw [hd, hd']
        · rw [(of_locate ha.locate).2, (of_locate ha'.locate).2]
      rw [locate_of_resolve hr, locate_of_resolve (hsame.trans hr), hentry]
  simp only [FileTree.perform, hlocate]
  split <;> rfl

end Anchored

theorem readable_congr {directory directory' : Path} {names : List String}
    (h : ∀ name ∈ names, (t'.perform (.read (directory'.join [name]))).1 =
      (t.perform (.read (directory.join [name]))).1) :
    t'.readable directory' names = t.readable directory names :=
  List.filterMap_congr fun name hname => by rw [h name hname]

/-- Without some names, the files of these names are missing. -/
theorem readable_filter (t : FileTree) (directory : Path) (names : List String)
    (p : String → Bool) :
    t.readable directory (names.filter p) =
      (t.readable directory names).filter fun file => p file.1 := by
  rw [readable, readable, List.filter_filterMap, List.filterMap_filter]
  refine List.filterMap_congr fun name _ => ?_
  rcases (t.perform (.read (directory.join [name]))).1 with _ | contents
  · split <;> rfl
  · by_cases hp : p name = true <;> simp [hp, Option.filter]

theorem mem_readable {directory : Path} {names : List String} {file : String × Bytes} :
    file ∈ t.readable directory names ↔ file.1 ∈ names ∧
      (t.perform (.read (directory.join [file.1]))).1 = .ok file.2 := by
  rw [readable, List.mem_filterMap]
  constructor
  · rintro ⟨name, hname, h⟩
    split at h
    · rename_i contents hread
      cases h
      exact ⟨hname, hread⟩
    · cases h
  · rintro ⟨hname, hread⟩
    exact ⟨file.1, hname, by rw [hread]⟩

end FileTree

/-! ## Deleting -/

namespace Directory

variable {d : Directory} {t t' : FileTree} {root : Place} {key key' : Key} {value : Bytes}
  {files : List (String × Bytes)}

/-- Files of one name are one file. -/
theorem files_functional (h : d.files t key = .ok files) {file file' : String × Bytes}
    (hf : file ∈ files) (hf' : file' ∈ files) (heq : file.1 = file'.1) : file = file' := by
  unfold Directory.files at h
  split at h
  · cases h
    obtain ⟨-, hread⟩ := mem_readable.1 hf
    obtain ⟨-, hread'⟩ := mem_readable.1 hf'
    rw [heq] at hread
    exact Prod.ext heq (Except.ok.inj (hread.symm.trans hread'))
  · cases h
    cases hf
  · cases h

/-- The files of a key that has nothing to do with the changes of a tree. -/
theorem files_congr (ha : t.Anchored d.base root) (ha' : t'.Anchored d.base root)
    (hk : key.OneName) (hd : t'.entry? (root ++ [key.text]) = t.entry? (root ++ [key.text]))
    (he : ∀ name, t'.entry? (root ++ [key.text, name]) = t.entry? (root ++ [key.text, name]))
    (hnames : t'.childNames (root ++ [key.text]) = t.childNames (root ++ [key.text])) :
    d.files t' key = d.files t key := by
  have hlist := list_congr ha ha' key.inward_text hd hnames
  unfold Directory.files
  rw [keyDirectory_of_oneName d hk, hlist]
  split
  · rename_i names hok
    have hfolder := (of_locate (list_eq_ok ha key.inward_text hok).1).2
    refine congrArg Except.ok (readable_congr fun name _ => ?_)
    rw [Path.join_join _ key.goes_text]
    exact read_congr ha ha' key.inward_text hfolder (hd.trans hfolder) (he name)
  · rfl
  · rfl

/-- Where no file can be read, there is none to be left out. -/
theorem filter_files_eq_self (hfiles : d.files t key = .ok files) {name : String}
    (h : ∀ contents, (t.perform (.read ((d.keyDirectory key).join [name]))).1 ≠ .ok contents) :
    (files.filter fun file => file.1 ≠ name) = files := by
  refine List.filter_eq_self.2 fun file hf => decide_eq_true ?_
  rintro rfl
  unfold Directory.files at hfiles
  split at hfiles
  · cases hfiles
    exact h _ (mem_readable.1 hf).2
  · cases hfiles
    cases hf
  · cases hfiles

/-- What is erased elsewhere is no file of the key. -/
theorem files_erase_elsewhere (ha : t.Anchored d.base root) (hk : key.OneName) {place : Place}
    (hb : Place.Below root place) (h : ∀ names, place ≠ root ++ key.text :: names) :
    d.files (t.erase place) key = d.files t key := by
  refine files_congr ha (ha.erase hb) hk ?_ (fun name => ?_) ?_
  · rw [entry?_erase hb.ne_nil, if_neg (h []).symm]
  · rw [entry?_erase hb.ne_nil, if_neg (h [name]).symm]
  · rw [childNames_erase, List.filter_eq_self]
    intro name _
    rw [List.append_assoc]
    exact decide_eq_true (h [name]).symm

/-- The directory of a key stays where it is when a file is erased. -/
theorem locate_erase_file (ha : t.Anchored d.base root) (hk : key.OneName) (name : String) :
    (t.erase (root ++ [key.text, name])).locate (d.keyDirectory key) =
      t.locate (d.keyDirectory key) := by
  have hb : Place.Below root (root ++ [key.text, name]) := ⟨_, _, rfl⟩
  rw [keyDirectory_of_oneName d hk]
  refine locate_folder_congr ha (ha.erase hb) key.inward_text ?_
  rw [entry?_erase hb.ne_nil, if_neg (by simp)]

/-- A file that is erased is no file of its key any more. -/
theorem files_erase_file (ha : t.Anchored d.base root) (hk : key.OneName)
    (hd : t.locate (d.keyDirectory key) = .ok (root ++ [key.text], .directory))
    (hfiles : d.files t key = .ok files) (name : String) :
    d.files (t.erase (root ++ [key.text, name])) key =
      .ok (files.filter fun file => file.1 ≠ name) := by
  have hb : Place.Below root (root ++ [key.text, name]) := ⟨_, _, rfl⟩
  have hd' := (locate_erase_file ha hk name).trans hd
  have hfolder := (of_locate hd).2
  have hfolder' := (of_locate hd').2
  have hnames : ((t.erase (root ++ [key.text, name])).childNames (root ++ [key.text])).filter
        (fun n => !n.startsWith ".") =
      ((t.childNames (root ++ [key.text])).filter fun n => !n.startsWith ".").filter fun n =>
        n ≠ name := by
    rw [childNames_erase, List.filter_filter, List.filter_filter]
    refine List.filter_congr fun n _ => ?_
    rw [Bool.and_comm]
    simp
  unfold Directory.files at hfiles ⊢
  simp only [FileTree.perform, hd] at hfiles
  simp only [FileTree.perform, hd']
  obtain rfl := Except.ok.inj hfiles
  rw [hnames]
  refine congrArg Except.ok ((readable_congr fun n hn => ?_).trans (readable_filter t _ _ _))
  have hne : n ≠ name := of_decide_eq_true (List.mem_filter.1 hn).2
  rw [keyDirectory_of_oneName d hk, Path.join_join _ key.goes_text]
  refine read_congr ha (ha.erase hb) key.inward_text hfolder hfolder' ?_
  rw [entry?_erase hb.ne_nil, if_neg (by simpa using hne)]

/-- Where there is no file, nothing is deleted. -/
theorem exec_deleteProgram_of_no_file
    (h : ∀ place contents, t.locate (d.valuePath key value) ≠ .ok (place, .file contents)) :
    ∃ answer, exec (d.deleteProgram key value) t = (answer, t) := by
  obtain ⟨e, hremove⟩ : ∃ e, t.perform (.removeFile (d.valuePath key value)) = (.error e, t) := by
    rcases hl : t.locate (d.valuePath key value) with e | ⟨place, contents | _⟩
    · exact ⟨e, by simp only [FileTree.perform, hl]⟩
    · exact absurd hl (h place contents)
    · exact ⟨_, by simp only [FileTree.perform, hl]; rfl⟩
  rw [deleteProgram, exec_bind_of_ok (exec_inspect _ t), hremove]
  cases e <;> exact ⟨_, rfl⟩

/-- A file is deleted, and the directory around it if it can be. -/
theorem exec_deleteProgram_of_file {place : Place} {contents : Bytes}
    (h : t.locate (d.valuePath key value) = .ok (place, .file contents)) :
    exec (d.deleteProgram key value) t =
      (.ok (), ((t.erase place).perform (.removeDir (d.keyDirectory key))).2) := by
  have hremove : t.perform (.removeFile (d.valuePath key value)) = (.ok (), t.erase place) := by
    simp only [FileTree.perform, h]
  rw [deleteProgram, exec_bind_of_ok (exec_inspect _ t), hremove]
  dsimp only
  rw [exec_bind_of_ok (exec_inspect _ (t.erase place))]
  rfl

/-- An empty directory that is removed had no files. -/
theorem files_erase_folder (ha : t.Anchored d.base root) (hk : key.OneName)
    (hd : t.locate (d.keyDirectory key) = .ok (root ++ [key.text], .directory))
    (hempty : (t.childNames (root ++ [key.text])).isEmpty = true) :
    d.files (t.erase (root ++ [key.text])) key = d.files t key := by
  have hb : Place.Below root (root ++ [key.text]) := ⟨_, _, rfl⟩
  have hr := (of_locate hd).1
  have hr' : (t.erase (root ++ [key.text])).resolve (d.keyDirectory key) =
      .ok (root ++ [key.text]) := by
    rw [keyDirectory_of_oneName d hk] at hr ⊢
    rw [resolve_folder_eq (ha.erase hb), ← resolve_folder_eq ha, hr]
  have hl := locate_of_resolve hr'
  rw [entry?_erase hb.ne_nil, if_pos rfl] at hl
  unfold Directory.files
  simp only [FileTree.perform, hd, hl, List.isEmpty_iff.1 hempty]
  rfl

/-- A file that a value's path leads to is in the directory of the key. -/
theorem place_of_valuePath (ha : t.Anchored d.base root) (hk : key.OneName)
    (hfiles : d.files t key = .ok files) {place : Place} {contents : Bytes}
    (hl : t.locate (d.valuePath key value) = .ok (place, .file contents)) :
    t.locate (d.keyDirectory key) = .ok (root ++ [key.text], .directory) ∧
      place = root ++ [key.text, fileName value] := by
  obtain ⟨hr, he⟩ := of_locate hl
  rw [valuePath_of_oneName d hk] at hr
  have hfolder := directory_of_resolve_file ha key.inward_text hr
  refine ⟨?_, ?_⟩
  · unfold Directory.files at hfiles
    rw [keyDirectory_of_oneName d hk] at hfiles ⊢
    split at hfiles
    · rename_i names hok
      exact (list_eq_ok ha key.inward_text hok).1
    · rename_i hnone
      rw [list_eq_notFound ha key.inward_text hnone] at hfolder
      cases hfolder
    · cases hfiles
  · rcases place_of_resolve_file ha key.inward_text hfolder hr with h | rfl | rfl
    · exact h
    · cases he.symm.trans hfolder
    · cases he.symm.trans (of_locate ha.locate).2

/-- A file is deleted, and its key's directory if there is nothing left in it. -/
theorem delete_file (ha : t.Anchored d.base root) (hk : key.OneName)
    (hd : t.locate (d.keyDirectory key) = .ok (root ++ [key.text], .directory))
    {contents : Bytes}
    (hl : t.locate (d.valuePath key value) =
      .ok (root ++ [key.text, fileName value], .file contents)) :
    ∃ t', exec (d.deleteProgram key value) t = (.ok (), t') ∧
      (t' = t.erase (root ++ [key.text, fileName value]) ∨
        t' = (t.erase (root ++ [key.text, fileName value])).erase (root ++ [key.text]) ∧
          ((t.erase (root ++ [key.text, fileName value])).childNames
            (root ++ [key.text])).isEmpty = true) := by
  have hd' := (locate_erase_file ha hk (fileName value)).trans hd
  have hdot : (d.keyDirectory key).endsInDot = false := by
    rw [keyDirectory_of_oneName d hk, Path.endsInDot_join _ key.goes_text]
  refine ⟨_, exec_deleteProgram_of_file hl, ?_⟩
  simp only [FileTree.perform, hd', hdot, Bool.false_eq_true, if_false]
  split
  · rename_i hempty
    exact .inr ⟨rfl, hempty⟩
  · exact .inl rfl

/-- Whatever comes of deleting a value, the file of its name can be read no more, and all others
can. -/
theorem delete_files (st : Storage FileTree) (ha : st.contents.Anchored d.base root)
    (hk : key.OneName) (hfiles : d.files st.contents key = .ok files) (value : Bytes) :
    ∃ answer st', d.backend.delete key value st = (answer, st') ∧
      st'.contents.Anchored d.base root ∧
      d.files st'.contents key = .ok (files.filter fun file => file.1 ≠ fileName value) ∧
      ∀ key' : Key, key'.OneName → key' ≠ key →
        d.files st'.contents key' = d.files st.contents key' := by
  have hstored := runStored_eq (d.deleteProgram key value) st
  by_cases hfile : ∃ place contents,
      st.contents.locate (d.valuePath key value) = .ok (place, .file contents)
  · obtain ⟨place, contents, hl⟩ := hfile
    obtain ⟨hd, rfl⟩ := place_of_valuePath ha hk hfiles hl
    have hb : Place.Below root (root ++ [key.text, fileName value]) := ⟨_, _, rfl⟩
    have hb' : Place.Below root (root ++ [key.text]) := ⟨_, _, rfl⟩
    have ha₁ := ha.erase hb
    have hf₁ := files_erase_file ha hk hd hfiles (fileName value)
    have hothers (key' : Key) (hk' : key'.OneName) (hne : key' ≠ key) (names : List String) :
        ∀ names', root ++ key.text :: names ≠ root ++ key'.text :: names' := by
      intro names' heq
      have htext := (List.cons.inj (List.append_cancel_left heq)).1
      exact hne (Key.text_injective htext).symm
    obtain ⟨t', hexec, ht⟩ := delete_file ha hk hd hl
    rw [hexec] at hstored
    refine ⟨_, _, hstored, ?_⟩
    rcases ht with rfl | ⟨rfl, hempty⟩
    · exact ⟨ha₁, hf₁, fun key' hk' hne =>
        files_erase_elsewhere ha hk' hb (hothers key' hk' hne _)⟩
    · have hd₁ := (locate_erase_file ha hk (fileName value)).trans hd
      refine ⟨ha₁.erase hb', (files_erase_folder ha₁ hk hd₁ hempty).trans hf₁,
        fun key' hk' hne => ?_⟩
      exact (files_erase_elsewhere ha₁ hk' hb' (hothers key' hk' hne [])).trans
        (files_erase_elsewhere ha hk' hb (hothers key' hk' hne _))
  · have hnone : ∀ place contents,
        st.contents.locate (d.valuePath key value) ≠ .ok (place, .file contents) :=
      fun place contents hl => hfile ⟨place, contents, hl⟩
    obtain ⟨answer, hexec⟩ := exec_deleteProgram_of_no_file hnone
    rw [hexec] at hstored
    refine ⟨_, _, hstored, ha, ?_, fun _ _ _ => rfl⟩
    rw [filter_files_eq_self hfiles fun contents hread => ?_]
    · exact hfiles
    · obtain ⟨place, hl⟩ := locate_of_read hread
      exact hnone place contents hl

end Directory

end Falsify
