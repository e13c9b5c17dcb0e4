import Falsify.Proofs.Store.Files
import Falsify.Proofs.Store.Loading

/-!
# What loading cleans

Loading deletes what does not decode, by its value. In memory that is gone then: loading once more
gives the same sequences and finds nothing to discard. In a directory it is gone exactly if the
files that bear the names of such values are those that do not decode (`load_cleans`), as they are
if each of them bears the name of what is in it. A file that was altered bears another name. It
stays, and is found at each loading (`altered_file_stays`).

* `Directory.swept`: the files that are left of a corpus that is loaded;
* `Directory.Named`, `Directory.Named.of_cleaned`: when these are the files that decode;
* `Examples.loadKind_files`: loading a corpus from a directory, whatever its files are;
* `Examples.load_files`, `Examples.load_clean`: both corpora, and both once they are clean.
-/

namespace Falsify

open Directory Encoding FileTree

namespace Directory

/-- The names under which the values that do not decode are deleted. -/
def discardedNames (entries : List Bytes) : List String :=
  (entries.filter undecodable).map fileName

/-- The files that are left of a corpus that is loaded. -/
def swept (files : List (String × Bytes)) : List (String × Bytes) :=
  files.filter fun file => file.1 ∉ discardedNames (files.map Prod.snd)

/-- The files that are deleted of a corpus that is loaded are those that do not decode. -/
def Named (files : List (String × Bytes)) : Prop :=
  ∀ file ∈ files, file.1 ∈ discardedNames (files.map Prod.snd) ↔ undecodable file.2 = true

/-- All files decode. -/
def Clean (files : List (String × Bytes)) : Prop :=
  ∀ file ∈ files, undecodable file.2 = false

theorem mem_discardedNames {entries : List Bytes} {name : String} :
    name ∈ discardedNames entries ↔
      ∃ entry ∈ entries, undecodable entry = true ∧ fileName entry = name := by
  simp [discardedNames, and_assoc]

theorem Clean.swept {files : List (String × Bytes)} (h : Clean files) : swept files = files := by
  refine List.filter_eq_self.2 fun file _ => decide_eq_true fun hmem => ?_
  obtain ⟨entry, he, hu, -⟩ := mem_discardedNames.1 hmem
  obtain ⟨file', hf', rfl⟩ := List.mem_map.1 he
  rw [h file' hf'] at hu
  cases hu

/-- So it is if each file that does not decode bears the name of what is in it. -/
theorem named_of_fileName {d : Directory} {t : FileTree} {key : Key} {files : List (String × Bytes)}
    (hfiles : d.files t key = .ok files)
    (h : ∀ file ∈ files, undecodable file.2 = true → file.1 = fileName file.2) : Named files := by
  intro file hf
  rw [mem_discardedNames]
  constructor
  · rintro ⟨entry, he, hu, hname⟩
    obtain ⟨file', hf', rfl⟩ := List.mem_map.1 he
    rw [← files_functional hfiles hf' hf ((h file' hf' hu).trans hname)]
    exact hu
  · exact fun hu => ⟨file.2, List.mem_map_of_mem hf, hu, (h file hf hu).symm⟩

/-- The files that are left are those that decode. -/
theorem Named.swept {files : List (String × Bytes)} (h : Named files) :
    swept files = files.filter fun file => !undecodable file.2 := by
  refine List.filter_congr fun file hf => ?_
  rw [decide_not, Bool.not_inj_iff, Bool.eq_iff_iff, decide_eq_true_iff]
  exact h file hf

theorem Named.clean_swept {files : List (String × Bytes)} (h : Named files) :
    Clean (Directory.swept files) := by
  intro file hf
  rw [h.swept, List.mem_filter, Bool.not_eq_true'] at hf
  exact hf.2

/-- What is left is not swept any further. -/
theorem swept_swept (files : List (String × Bytes)) : swept (swept files) = swept files := by
  refine List.filter_eq_self.2 fun file hf => decide_eq_true fun hmem => ?_
  obtain ⟨entry, he, hu, hname⟩ := mem_discardedNames.1 hmem
  obtain ⟨file', hf', rfl⟩ := List.mem_map.1 he
  refine of_decide_eq_true (List.mem_filter.1 hf).2 (mem_discardedNames.2 ⟨file'.2, ?_, hu, hname⟩)
  exact List.mem_map_of_mem (List.mem_filter.1 hf').1

/-- The sequences of a corpus, as they are loaded. -/
def sequencesOf (files : List (String × Bytes)) : List Draws :=
  sortDraws ((files.map Prod.snd).filterMap decode?)

/-- How many files do not decode. -/
def discardsOf (files : List (String × Bytes)) : Nat :=
  (files.map Prod.snd).countP undecodable

theorem Clean.discardsOf {files : List (String × Bytes)} (h : Clean files) :
    discardsOf files = 0 := by
  rw [Directory.discardsOf, List.countP_eq_zero]
  intro entry he
  obtain ⟨file, hf, rfl⟩ := List.mem_map.1 he
  simp [h file hf]

theorem sequencesOf_filter (files : List (String × Bytes)) :
    sequencesOf (files.filter fun file => !undecodable file.2) = sequencesOf files := by
  rw [sequencesOf, sequencesOf, List.filterMap_map, List.filterMap_map, List.filterMap_filter]
  refine congrArg sortDraws (List.filterMap_congr fun file _ => ?_)
  rw [undecodable]
  rcases hs : decode? file.2 with _ | s <;> simp [hs]

theorem length_sequencesOf (files : List (String × Bytes)) :
    (sequencesOf files).length = (files.filter fun file => !undecodable file.2).length := by
  rw [sequencesOf, sortDraws, List.length_mergeSort, List.filterMap_map,
    List.length_filterMap_eq_countP, List.countP_eq_length_filter]
  refine congrArg List.length (List.filter_congr fun file _ => ?_)
  rw [undecodable]
  rcases hs : decode? file.2 with _ | s <;> simp [hs]

/-- Only so all that decodes is left and nothing else. -/
theorem Named.of_cleaned {files : List (String × Bytes)}
    (hs : sequencesOf (Directory.swept files) = sequencesOf files)
    (hd : Directory.discardsOf (Directory.swept files) = 0) : Named files := by
  intro file hf
  constructor
  · -- A file that decodes and is deleted would be missing among the sequences.
    intro hdeleted
    by_contra hu
    have hsub := (List.filter_sublist (l := files) (p := fun file =>
      file.1 ∉ discardedNames (files.map Prod.snd))).filter fun file => !undecodable file.2
    have hlength := congrArg List.length hs
    rw [length_sequencesOf, length_sequencesOf] at hlength
    have hmem : file ∈ files.filter fun file => !undecodable file.2 :=
      List.mem_filter.2 ⟨hf, by simpa using hu⟩
    rw [← hsub.eq_of_length hlength] at hmem
    exact of_decide_eq_true (List.mem_filter.1 (List.mem_filter.1 hmem).1).2 hdeleted
  · intro hu
    by_contra hkept
    rw [Directory.discardsOf, List.countP_eq_zero] at hd
    exact hd _ (List.mem_map_of_mem (List.mem_filter.2 ⟨hf, decide_eq_true hkept⟩)) hu

end Directory

namespace Examples

variable {d : Directory} {root : Place} {key : Key} {kind : EntryKind}
  {files : List (String × Bytes)}

/-- Discarding an entry, whether it can be deleted or not. -/
theorem discard_files (st : Storage FileTree) (ha : st.contents.Anchored d.base root)
    (hk : (kind.keyOf key).OneName) (hfiles : d.files st.contents (kind.keyOf key) = .ok files)
    (entry : Bytes) (fault : TokenError) :
    ∃ st', discard d.backend key kind entry fault st = (.ok (), st') ∧
      st'.contents.Anchored d.base root ∧
      d.files st'.contents (kind.keyOf key) =
        .ok (files.filter fun file => file.1 ≠ fileName entry) ∧
      ∀ key' : Key, key'.OneName → key' ≠ kind.keyOf key →
        d.files st'.contents key' = d.files st.contents key' := by
  obtain ⟨st₁, htell, h₁⟩ : ∃ st₁, StoreM.tell .info
      s!"discarding undecodable {kind.title} entry for {key.text}: {fault.message}" st =
      (.ok (), st₁) ∧ st₁.contents = st.contents := ⟨_, rfl, rfl⟩
  rw [← h₁] at ha hfiles ⊢
  obtain ⟨answer, st₂, hdelete, h₂⟩ := delete_files st₁ ha hk hfiles entry
  rw [discard, StoreM.bind_of_ok htell, StoreM.tryCatch_apply, hdelete]
  rcases answer with e | ⟨⟨⟩⟩
  · exact ⟨_, rfl, h₂⟩
  · exact ⟨_, rfl, h₂⟩

/-- What is left once some entries were decoded: by induction on them. -/
theorem decodeEntries_files (entries : List Bytes) (st : Storage FileTree)
    (ha : st.contents.Anchored d.base root) (hk : (kind.keyOf key).OneName)
    (hfiles : d.files st.contents (kind.keyOf key) = .ok files) :
    ∃ st', decodeEntries d.backend key kind entries st =
        (.ok (entries.filterMap decode?, entries.countP undecodable), st') ∧
      st'.contents.Anchored d.base root ∧
      d.files st'.contents (kind.keyOf key) =
        .ok (files.filter fun file => file.1 ∉ discardedNames entries) ∧
      ∀ key' : Key, key'.OneName → key' ≠ kind.keyOf key →
        d.files st'.contents key' = d.files st.contents key' := by
  induction entries generalizing st files with
  | nil => exact ⟨st, rfl, ha, by simpa [discardedNames] using hfiles, fun _ _ _ => rfl⟩
  | cons entry rest ih =>
    rw [decodeEntries]
    rcases he : deserialize entry with fault | s
    · have hn : decode? entry = none := by rw [decode?, he]; rfl
      have hu : undecodable entry = true := by rw [undecodable, hn]; rfl
      obtain ⟨st₁, h₁, ha₁, hf₁, ho₁⟩ := discard_files st ha hk hfiles entry fault
      obtain ⟨st₂, h₂, ha₂, hf₂, ho₂⟩ := ih st₁ ha₁ hf₁
      refine ⟨st₂, ?_, ha₂, ?_, fun key' hk' hne => (ho₂ key' hk' hne).trans (ho₁ key' hk' hne)⟩
      · dsimp only
        rw [StoreM.bind_of_ok h₁, StoreM.bind_of_ok h₂, List.filterMap_cons_none hn,
          List.countP_cons_of_pos hu]
        rfl
      · have hnames : discardedNames (entry :: rest) = fileName entry :: discardedNames rest := by
          rw [discardedNames, List.filter_cons_of_pos hu]
          rfl
        rw [hf₂, List.filter_filter, hnames]
        refine congrArg Except.ok (List.filter_congr fun file _ => ?_)
        rw [← Bool.decide_and, decide_eq_decide, List.mem_cons, not_or, and_comm]
    · have hs : decode? entry = some s := by rw [decode?, he]; rfl
      have hu : ¬ undecodable entry = true := by rw [undecodable, hs]; exact Bool.false_ne_true
      obtain ⟨st₁, h₁, ha₁, hf₁, ho₁⟩ := ih st ha hfiles
      refine ⟨st₁, ?_, ha₁, ?_, ho₁⟩
      · dsimp only
        rw [StoreM.bind_of_ok h₁, List.filterMap_cons_some hs, List.countP_cons_of_neg hu]
        rfl
      · rw [hf₁, discardedNames, discardedNames, List.filter_cons_of_neg hu]

/-- A corpus is loaded from the files that can be read, and the files that bear the names of what
does not decode are gone. -/
theorem loadKind_files (st : Storage FileTree) (ha : st.contents.Anchored d.base root)
    (hk : (kind.keyOf key).OneName) (hfiles : d.files st.contents (kind.keyOf key) = .ok files) :
    ∃ st', loadKind d.backend key kind st = (.ok (sequencesOf files, discardsOf files), st') ∧
      st'.contents.Anchored d.base root ∧
      d.files st'.contents (kind.keyOf key) = .ok (swept files) ∧
      ∀ key' : Key, key'.OneName → key' ≠ kind.keyOf key →
        d.files st'.contents key' = d.files st.contents key' := by
  obtain ⟨log, hfetch⟩ := fetch_files d (kind.keyOf key) st
  rw [hfiles] at hfetch
  obtain ⟨st', h, hkept⟩ := decodeEntries_files (files.map Prod.snd) ⟨st.contents, log⟩ ha hk hfiles
  refine ⟨st', ?_, hkept⟩
  rw [loadKind, StoreM.bind_of_ok hfetch, StoreM.bind_of_ok h]
  rfl

/-- A corpus whose files cannot be listed is not loaded. -/
theorem loadKind_of_error (st : Storage FileTree) {e : FileError}
    (h : d.files st.contents (kind.keyOf key) = .error e) :
    ∃ e st', loadKind d.backend key kind st = (.error e, st') := by
  obtain ⟨log, hfetch⟩ := fetch_files d (kind.keyOf key) st
  rw [h] at hfetch
  exact ⟨_, _, StoreM.bind_of_error hfetch⟩

theorem load_of_loadKind {σ : Type} {b : Backend σ} {st st₁ st₂ : Storage σ}
    {failing covering : List Draws} {badFailing badCovering : Nat}
    (h₁ : loadKind b key .failing st = (.ok (failing, badFailing), st₁))
    (h₂ : loadKind b key .covering st₁ = (.ok (covering, badCovering), st₂)) :
    load b key st = (.ok ⟨failing, covering, badFailing + badCovering⟩, st₂) := by
  rw [load, StoreM.bind_of_ok h₁]
  dsimp only
  rw [StoreM.bind_of_ok h₂]
  rfl

theorem oneName_keyOf (hk : key.OneName) (kind : EntryKind) : (kind.keyOf key).OneName := by
  cases kind with
  | failing => exact hk
  | covering =>
    refine Key.oneName_of_subKey fun sub hsub => ?_
    cases hsub
    decide

/-- Loading both corpora from the files that can be read, of which those stay that bear no name of a
value which does not decode. The two corpora are one for a key which is itself that of a corpus. -/
theorem load_files (st : Storage FileTree) (ha : st.contents.Anchored d.base root)
    (hk : key.OneName) {loaded : LoadedExamples} {st' : Storage FileTree}
    (h : load d.backend key st = (.ok loaded, st')) :
    ∃ failing covering, d.files st.contents (EntryKind.failing.keyOf key) = .ok failing ∧
      (if EntryKind.covering.keyOf key = EntryKind.failing.keyOf key then covering = swept failing
        else d.files st.contents (EntryKind.covering.keyOf key) = .ok covering) ∧
      loaded = ⟨sequencesOf failing, sequencesOf covering,
        discardsOf failing + discardsOf covering⟩ ∧
      st'.contents.Anchored d.base root ∧
      d.files st'.contents (EntryKind.covering.keyOf key) = .ok (swept covering) ∧
      (EntryKind.covering.keyOf key ≠ EntryKind.failing.keyOf key →
        d.files st'.contents (EntryKind.failing.keyOf key) = .ok (swept failing)) := by
  have hkf := oneName_keyOf hk .failing
  have hkc := oneName_keyOf hk .covering
  rcases hf : d.files st.contents (EntryKind.failing.keyOf key) with e | failing
  · obtain ⟨e, st₁, h₁⟩ := loadKind_of_error st hf
    rw [load, StoreM.bind_of_error h₁] at h
    cases h
  · obtain ⟨st₁, h₁, ha₁, hf₁, ho₁⟩ := loadKind_files st ha hkf hf
    rcases hc : d.files st₁.contents (EntryKind.covering.keyOf key) with e | covering
    · obtain ⟨e, st₂, h₂⟩ := loadKind_of_error st₁ hc
      rw [load, StoreM.bind_of_ok h₁] at h
      dsimp only at h
      rw [StoreM.bind_of_error h₂] at h
      cases h
    · obtain ⟨st₂, h₂, ha₂, hc₂, ho₂⟩ := loadKind_files st₁ ha₁ hkc hc
      rw [load_of_loadKind h₁ h₂] at h
      cases h
      refine ⟨failing, covering, rfl, ?_, rfl, ha₂, hc₂, fun hne => ?_⟩
      · split
        · rename_i hkeys
          rw [hkeys, hf₁] at hc
          exact (Except.ok.inj hc).symm
        · rename_i hkeys
          rw [← ho₁ _ hkc hkeys, hc]
      · rw [ho₂ _ hkf hne.symm, hf₁]

/-- What is loaded of two corpora whose files can be listed, and which files stay. -/
theorem load_of_files (st : Storage FileTree) (ha : st.contents.Anchored d.base root)
    (hk : key.OneName) (hkeys : EntryKind.covering.keyOf key ≠ EntryKind.failing.keyOf key)
    {failing covering : List (String × Bytes)}
    (hf : d.files st.contents (EntryKind.failing.keyOf key) = .ok failing)
    (hc : d.files st.contents (EntryKind.covering.keyOf key) = .ok covering) :
    ∃ st', load d.backend key st = (.ok ⟨sequencesOf failing, sequencesOf covering,
        discardsOf failing + discardsOf covering⟩, st') ∧
      st'.contents.Anchored d.base root ∧
      d.files st'.contents (EntryKind.failing.keyOf key) = .ok (swept failing) ∧
      d.files st'.contents (EntryKind.covering.keyOf key) = .ok (swept covering) := by
  have hkf := oneName_keyOf hk .failing
  have hkc := oneName_keyOf hk .covering
  obtain ⟨st₁, h₁, ha₁, hf₁, ho₁⟩ := loadKind_files st ha hkf hf
  obtain ⟨st₂, h₂, ha₂, hc₂, ho₂⟩ := loadKind_files st₁ ha₁ hkc ((ho₁ _ hkc hkeys).trans hc)
  exact ⟨st₂, load_of_loadKind h₁ h₂, ha₂, (ho₂ _ hkf hkeys.symm).trans hf₁, hc₂⟩

/-- What is loaded from files that decode, and that nothing is discarded. -/
theorem load_clean (st : Storage FileTree) (ha : st.contents.Anchored d.base root)
    (hk : key.OneName) {failing covering : List (String × Bytes)}
    (hf : d.files st.contents (EntryKind.failing.keyOf key) = .ok failing)
    (hc : d.files st.contents (EntryKind.covering.keyOf key) = .ok covering)
    (hfailing : Clean failing) (hcovering : Clean covering) :
    ∃ st', load d.backend key st =
      (.ok ⟨sequencesOf failing, sequencesOf covering, 0⟩, st') := by
  obtain ⟨st₁, h₁, ha₁, hf₁, ho₁⟩ := loadKind_files st ha (oneName_keyOf hk .failing) hf
  have hc₁ : d.files st₁.contents (EntryKind.covering.keyOf key) = .ok covering := by
    by_cases hkeys : EntryKind.covering.keyOf key = EntryKind.failing.keyOf key
    · rw [hkeys] at hc ⊢
      rw [hf₁, hfailing.swept, ← hf, hc]
    · rw [ho₁ _ (oneName_keyOf hk .covering) hkeys, hc]
  obtain ⟨st₂, h₂, -⟩ := loadKind_files st₁ ha₁ (oneName_keyOf hk .covering) hc₁
  refine ⟨st₂, ?_⟩
  rw [load_of_loadKind h₁ h₂, hfailing.discardsOf, hcovering.discardsOf]

/-- Where the files that are deleted are those that do not decode, loading leaves those that do. -/
theorem load_leaves_clean (st : Storage FileTree) (ha : st.contents.Anchored d.base root)
    (hk : key.OneName)
    (hn : ∀ (kind : EntryKind) files,
      d.files st.contents (kind.keyOf key) = .ok files → Named files)
    {loaded : LoadedExamples} {st' : Storage FileTree}
    (h : load d.backend key st = (.ok loaded, st')) :
    st'.contents.Anchored d.base root ∧ ∃ failing covering,
      d.files st'.contents (EntryKind.failing.keyOf key) = .ok failing ∧
      d.files st'.contents (EntryKind.covering.keyOf key) = .ok covering ∧
      Clean failing ∧ Clean covering ∧
      loaded.failing = sequencesOf failing ∧ loaded.covering = sequencesOf covering := by
  obtain ⟨failing, covering, hf, hc, rfl, ha', hc', hf'⟩ := load_files st ha hk h
  have hnf := hn .failing failing hf
  have hcf : Clean (swept failing) := hnf.clean_swept
  have hsf : sequencesOf (swept failing) = sequencesOf failing := by
    rw [hnf.swept, sequencesOf_filter]
  refine ⟨ha', swept failing, swept covering, ?_, hc', hcf, ?_⟩
  · by_cases hkeys : EntryKind.covering.keyOf key = EntryKind.failing.keyOf key
    · rw [if_pos hkeys] at hc
      rw [← hkeys, hc', hc, hcf.swept]
    · exact hf' hkeys
  · split at hc
    · subst hc
      rw [hcf.swept]
      exact ⟨hcf, hsf.symm, rfl⟩
    · have hnc := hn .covering covering hc
      refine ⟨hnc.clean_swept, hsf.symm, ?_⟩
      rw [hnc.swept, sequencesOf_filter]

/-- If loading once more finds the same sequences and nothing to discard, the files that were
deleted are those that do not decode. -/
theorem named_of_load_again (st : Storage FileTree) (ha : st.contents.Anchored d.base root)
    (hk : key.OneName) {loaded : LoadedExamples} {st₁ st₂ : Storage FileTree}
    (h₁ : load d.backend key st = (.ok loaded, st₁))
    (h₂ : load d.backend key st₁ = (.ok { loaded with discarded := 0 }, st₂)) (kind : EntryKind)
    (hfiles : d.files st.contents (kind.keyOf key) = .ok files) : Named files := by
  obtain ⟨failing, covering, hf, hc, rfl, ha₁, hc₁, hf₁⟩ := load_files st ha hk h₁
  obtain ⟨failing', covering', hf', hc', hloaded, -⟩ := load_files st₁ ha₁ hk h₂
  obtain ⟨hsf, hsc, hd⟩ := LoadedExamples.mk.inj hloaded
  by_cases hkeys : EntryKind.covering.keyOf key = EntryKind.failing.keyOf key
  · -- The two corpora are one, and have been swept twice.
    rw [if_pos hkeys] at hc
    rw [hkeys, hc, swept_swept] at hc₁
    obtain rfl := Except.ok.inj (hc₁.symm.trans hf')
    have hfiles : d.files st.contents (EntryKind.failing.keyOf key) = .ok files := by
      cases kind with
      | failing => exact hfiles
      | covering => exact hkeys ▸ hfiles
    obtain rfl := Except.ok.inj (hf.symm.trans hfiles)
    exact .of_cleaned hsf.symm (by omega)
  · rw [if_neg hkeys] at hc hc'
    obtain rfl := Except.ok.inj ((hf₁ hkeys).symm.trans hf')
    obtain rfl := Except.ok.inj (hc₁.symm.trans hc')
    cases kind with
    | failing =>
      obtain rfl := Except.ok.inj (hf.symm.trans hfiles)
      exact .of_cleaned hsf.symm (by omega)
    | covering =>
      obtain rfl := Except.ok.inj (hc.symm.trans hfiles)
      exact .of_cleaned hsc.symm (by omega)

/-! ## Loading once more -/

section Memory

variable {m m' : Memory}

/-- Values that do not decode make no difference to what is loaded. -/
theorem entries_of_sifted (h : m'.valuesOf (kind.keyOf key) =
    (m.valuesOf (kind.keyOf key)).filter fun b => (decode? b).isSome) :
    m'.entries key kind = m.entries key kind ∧ m'.undecodable key kind = 0 := by
  rw [Memory.entries, Memory.entries, Memory.undecodable, h, List.filterMap_filter]
  refine ⟨congrArg sortDraws (List.filterMap_congr fun b _ => ?_), ?_⟩
  · rcases decode? b with _ | s <;> rfl
  · rw [List.countP_eq_zero]
    intro b hb
    rw [Option.isNone_iff_eq_none, ← Option.not_isSome_iff_eq_none, not_not]
    exact (List.mem_filter.1 hb).2

/-- What has been sifted once is not changed any more. -/
theorem sifted_again (values : List Bytes) :
    (values.filter fun b => (decode? b).isSome).filter (fun b => (decode? b).isSome) =
      values.filter fun b => (decode? b).isSome :=
  List.filter_eq_self.2 fun _ hb => (List.mem_filter.1 hb).2

theorem load_again_memory (key : Key) (st : Storage Memory) :
    ∃ loaded st₁ st₂, load memoryBackend key st = (.ok loaded, st₁) ∧
      load memoryBackend key st₁ = (.ok { loaded with discarded := 0 }, st₂) := by
  obtain ⟨st₁, h₁, hv₁⟩ := loadKind_memory key .failing st
  obtain ⟨st₂, h₂, hv₂⟩ := loadKind_memory key .covering st₁
  obtain ⟨st₃, h₃, hv₃⟩ := loadKind_memory key .failing st₂
  obtain ⟨st₄, h₄, hv₄⟩ := loadKind_memory key .covering st₃
  have hfailing : st₂.contents.valuesOf (EntryKind.failing.keyOf key) =
      (st.contents.valuesOf (EntryKind.failing.keyOf key)).filter fun b => (decode? b).isSome := by
    rw [hv₂, hv₁, if_pos rfl]
    split
    · exact sifted_again _
    · rfl
  have hcovering : st₃.contents.valuesOf (EntryKind.covering.keyOf key) =
      (st₁.contents.valuesOf (EntryKind.covering.keyOf key)).filter
        fun b => (decode? b).isSome := by
    rw [hv₃, hv₂, if_pos rfl]
    split
    · exact sifted_again _
    · rfl
  obtain ⟨hef, huf⟩ := entries_of_sifted hfailing
  obtain ⟨hec, huc⟩ := entries_of_sifted hcovering
  refine ⟨_, st₂, st₄, load_of_loadKind h₁ h₂, ?_⟩
  rw [load_of_loadKind h₃ h₄, hef, huf, hec, huc]

end Memory

/-- Loading once more gives the same sequences and discards nothing: in memory always, and in a
directory exactly if the files that loading deletes are those that do not decode. The directory's
path is not to lead through what the store keeps there, and the key's text is to be one name. -/
theorem load_cleans (key : Key) :
    (∀ st : Storage Memory, ∃ loaded st₁ st₂,
      load memoryBackend key st = (.ok loaded, st₁) ∧
      load memoryBackend key st₁ = (.ok { loaded with discarded := 0 }, st₂)) ∧
    ∀ (d : Directory) root (st : Storage FileTree) loaded st₁,
      st.contents.Anchored d.base root → key.OneName →
      load d.backend key st = (.ok loaded, st₁) →
      ((∃ st₂, load d.backend key st₁ = (.ok { loaded with discarded := 0 }, st₂)) ↔
        ∀ (kind : EntryKind) files,
          d.files st.contents (kind.keyOf key) = .ok files → Named files) := by
  refine ⟨load_again_memory key, fun d root st loaded st₁ ha hk h => ⟨?_, fun hn => ?_⟩⟩
  · rintro ⟨st₂, h₂⟩ kind files hfiles
    exact named_of_load_again st ha hk h h₂ kind hfiles
  · obtain ⟨ha₁, failing, covering, hf, hc, hfailing, hcovering, hef, hec⟩ :=
      load_leaves_clean st ha hk hn h
    obtain ⟨st₂, h₂⟩ := load_clean st₁ ha₁ hk hf hc hfailing hcovering
    exact ⟨st₂, by rw [h₂, hef, hec]⟩

/-- The key of some test. -/
def someKey : Key :=
  ⟨Vector.replicate 32 0, none⟩

/-- A directory with a file in each corpus of a test: one that does not decode, of some name, and
one that does. -/
def twoCorpora (name : String) : FileTree :=
  ((((FileTree.mk [(["db"], .directory)]).put ["db", someKey.text] .directory).put
    ["db", someKey.text, name] (.file [0x43])).put
      ["db", (someKey.withSubKey "covering").text] .directory).put
        ["db", (someKey.withSubKey "covering").text, "00"] (.file (serialize [⟨8, 5⟩]))

theorem anchored_twoCorpora (name : String) : (twoCorpora name).Anchored ["db"] ["db"] := by
  have hlocate : (FileTree.mk [(["db"], .directory)]).locate ["db"] = .ok (["db"], .directory) := by
    decide +kernel
  have hbare : (FileTree.mk [(["db"], .directory)]).Bare ["db"] :=
    bare_of_listing (by decide +kernel)
  have hmade := ((anchored_of_bare hlocate hbare).put ⟨someKey.text, [], rfl⟩ .directory).put
    ⟨someKey.text, [name], rfl⟩ (.file [0x43])
  exact (hmade.put ⟨(someKey.withSubKey "covering").text, [], rfl⟩ .directory).put
    ⟨(someKey.withSubKey "covering").text, ["00"], rfl⟩ (.file (serialize [⟨8, 5⟩]))

theorem oneName_someKey : someKey.OneName :=
  Key.oneName_of_subKey nofun

/-- The file that does not decode bears the name of what is in it, and is gone. -/
theorem load_cleans_twoCorpora :
    let t := twoCorpora (fileName [0x43])
    t.Anchored ["db"] ["db"] ∧ someKey.OneName ∧
      (∀ (kind : EntryKind) files,
        Directory.files ⟨["db"]⟩ t (kind.keyOf someKey) = .ok files → Named files) ∧
      ∃ loaded st₁ st₂, load (Directory.backend ⟨["db"]⟩) someKey ⟨t, #[]⟩ = (.ok loaded, st₁) ∧
        loaded.covering = [[⟨8, 5⟩]] ∧ loaded.discarded = 1 ∧
        load (Directory.backend ⟨["db"]⟩) someKey st₁ =
          (.ok { loaded with discarded := 0 }, st₂) := by
  intro t
  let d : Directory := ⟨["db"]⟩
  have ha : t.Anchored d.base ["db"] := anchored_twoCorpora _
  have hf : d.files t (EntryKind.failing.keyOf someKey) = .ok [(fileName [0x43], [0x43])] := by
    decide +kernel
  have hc : d.files t (EntryKind.covering.keyOf someKey) = .ok [("00", serialize [⟨8, 5⟩])] := by
    decide +kernel
  have hn : ∀ (kind : EntryKind) files,
      d.files t (kind.keyOf someKey) = .ok files → Named files := by
    intro kind files hfiles
    refine named_of_fileName hfiles ?_
    cases kind with
    | failing =>
      obtain rfl := Except.ok.inj (hf.symm.trans hfiles)
      exact fun file hmem _ => by rw [List.mem_singleton.1 hmem]
    | covering =>
      obtain rfl := Except.ok.inj (hc.symm.trans hfiles)
      have hdecodes : undecodable (serialize [⟨8, 5⟩]) = false := by decide +kernel
      intro file hmem hu
      rw [List.mem_singleton.1 hmem, hdecodes] at hu
      cases hu
  obtain ⟨st₁, h₁, -⟩ := load_of_files ⟨t, #[]⟩ ha oneName_someKey (by decide) hf hc
  obtain ⟨st₂, h₂⟩ :=
    ((load_cleans someKey).2 d ["db"] ⟨t, #[]⟩ _ st₁ ha oneName_someKey h₁).2 hn
  refine ⟨ha, oneName_someKey, hn, _, st₁, st₂, h₁, ?_, by decide +kernel, h₂⟩
  exact List.mergeSort_singleton _

/-- A file whose bytes were altered stays if they do not decode, and is found once more, although
no call of the store fails. -/
theorem altered_file_stays :
    ¬ ∀ (d : Directory) root key (st : Storage FileTree) loaded st₁,
      st.contents.Anchored d.base root → key.OneName →
      load d.backend key st = (.ok loaded, st₁) →
      (load d.backend.journaled key st.opened).2.events.all StoreEvent.succeeded = true →
      ∃ st₂, load d.backend key st₁ = (.ok { loaded with discarded := 0 }, st₂) := by
  intro hall
  let d : Directory := ⟨["db"]⟩
  -- The file was saved with other bytes, whose name it bears.
  let name := fileName (serialize [⟨8, 7⟩])
  have ha := anchored_twoCorpora name
  have hkeys : EntryKind.covering.keyOf someKey ≠ EntryKind.failing.keyOf someKey := by decide
  have hf : d.files (twoCorpora name) (EntryKind.failing.keyOf someKey) =
      .ok [(name, [0x43])] := by decide +kernel
  have hc : d.files (twoCorpora name) (EntryKind.covering.keyOf someKey) =
      .ok [("00", serialize [⟨8, 5⟩])] := by decide +kernel
  obtain ⟨st₁, h₁, ha₁, hf₁, hc₁⟩ :=
    load_of_files ⟨twoCorpora name, #[]⟩ ha oneName_someKey hkeys hf hc
  have hstays : swept [(name, [0x43])] = [(name, [0x43])] := by decide +kernel
  rw [hstays] at hf₁
  obtain ⟨st₂, h₂, -⟩ := load_of_files st₁ ha₁ oneName_someKey hkeys hf₁ hc₁
  obtain ⟨st₂', h₂'⟩ :=
    hall d ["db"] someKey ⟨twoCorpora name, #[]⟩ _ st₁ ha oneName_someKey h₁ (by decide +kernel)
  have hfound : 0 < discardsOf [(name, [0x43])] := by decide +kernel
  have hagain := congrArg LoadedExamples.discarded
    (Except.ok.inj (Prod.mk.inj (h₂.symm.trans h₂')).1)
  dsimp only at hagain
  omega

end Examples

end Falsify
