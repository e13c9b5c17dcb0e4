import Mathlib.Data.Set.Function
import Falsify.Proofs.Store.Programs

/-!
# A directory stores what memory stores

A store in a directory and one in memory, both empty at first, are told the same operations on the
keys of tests' corpora. Both carry out all of them and fetch the same values, each once
(`stores_agree`), as long as the names of files tell the values apart.

* `StoreOp`: the operations, and `StoreOp.performAll`: any number of them;
* `Mirrors`: the directory of a key is there as long as it has a value, and the files in it are
  those of its values;
* `Mirrors.save`, `Mirrors.delete`, `Mirrors.fetch`: what each program keeps of that;
* `performAll_agrees`: any number of operations, by induction on them.
-/

namespace Falsify

/-! ## Operations -/

/-- An operation on a store. -/
inductive StoreOp where
  | save (key : Key) (value : Bytes)
  | fetch (key : Key)
  | delete (key : Key) (value : Bytes)
  | move (source target : Key) (value : Bytes)

namespace StoreOp

def keys : StoreOp → List Key
  | .save key _ => [key]
  | .fetch key => [key]
  | .delete key _ => [key]
  | .move source target _ => [source, target]

def values : StoreOp → List Bytes
  | .save _ value => [value]
  | .fetch _ => []
  | .delete _ value => [value]
  | .move _ _ value => [value]

variable {σ : Type}

/-- Carries out an operation. Its answer are the values, if it was to fetch some. -/
def perform (b : Backend σ) : StoreOp → StoreM σ (Option (List Bytes))
  | .save key value => do
    b.save key value
    return none
  | .fetch key => do return some (← b.fetch key)
  | .delete key value => do
    b.delete key value
    return none
  | .move source target value => do
    b.move source target value
    return none

/-- Carries out one operation after another, until one fails. -/
def performAll (b : Backend σ) : List StoreOp → StoreM σ (List (Option (List Bytes)))
  | [] => return []
  | op :: rest => do
    let answer ← op.perform b
    return answer :: (← performAll b rest)

end StoreOp

/-! ## Values that are deleted -/

namespace Memory

variable {m : Memory} {key key' : Key} {value b : Bytes}

theorem mem_valuesOf_erase :
    b ∈ (m.erase key value).valuesOf key' ↔ b ∈ m.valuesOf key' ∧ ¬ (key' = key ∧ b = value) := by
  rw [valuesOf_erase]
  split
  · rename_i h
    simp [h]
  · rename_i h
    simp [h]

theorem valuesOf_erase_of_not_mem (h : value ∉ m.valuesOf key) :
    (m.erase key value).valuesOf key' = m.valuesOf key' := by
  rw [valuesOf_erase]
  split
  · rename_i hkey
    subst hkey
    refine List.filter_eq_self.2 fun b hb => decide_eq_true ?_
    rintro rfl
    exact h hb
  · rfl

end Memory

/-! ## The directory of a store as memory -/

open Directory FileProgram FileTree

/-- Below the directory of a store there is for each key what is in memory: a directory, if the key
has a value, and in it the files of its values. All values are of the set `used`. -/
structure Mirrors (d : Directory) (root : Place) (used : Set Bytes) (t : FileTree) (m : Memory) :
    Prop where
  anchored : t.Anchored d.base root
  folder : ∀ key : Key, key.Filed →
    t.entry? (root ++ [key.text]) = if m.valuesOf key = [] then none else some .directory
  files : ∀ key : Key, key.Filed → ∀ name e, t.entry? (root ++ [key.text, name]) = some e ↔
    ∃ value ∈ m.valuesOf key, name = fileName value ∧ e = .file value
  single : ∀ key : Key, key.Filed → (t.childNames (root ++ [key.text])).Nodup
  inside : ∀ key, ∀ value ∈ m.valuesOf key, value ∈ used

namespace Mirrors

variable {d : Directory} {root : Place} {used : Set Bytes} {t : FileTree} {m : Memory} {key : Key}
  {value : Bytes}

theorem empty (ha : t.Anchored d.base root) (hb : t.Bare root) :
    Mirrors d root used t Memory.empty := by
  have hbelow (name : String) (names : List String) : t.entry? (root ++ name :: names) = none :=
    hb _ ⟨_, _, rfl⟩
  refine ⟨ha, fun key _ => hbelow _ _, fun key _ name e => ?_, fun key _ => ?_, fun _ _ => nofun⟩
  · rw [hbelow]
    exact ⟨nofun, fun ⟨_, hv, _⟩ => nomatch hv⟩
  · have hnone : t.childNames (root ++ [key.text]) = [] := by
      refine List.eq_nil_iff_forall_not_mem.2 fun name hname => ?_
      rw [mem_childNames, List.append_assoc, List.singleton_append, hbelow] at hname
      obtain ⟨_, ⟨⟩⟩ := hname
    rw [hnone]
    exact List.nodup_nil

theorem congr {m' : Memory} (h : Mirrors d root used t m)
    (hm : ∀ key, m'.valuesOf key = m.valuesOf key) : Mirrors d root used t m' where
  anchored := h.anchored
  folder key hk := by rw [hm, h.folder key hk]
  files key hk := by rw [hm]; exact h.files key hk
  single := h.single
  inside key := by rw [hm]; exact h.inside key

theorem folder_eq_iff {key' : Key} : root ++ [key'.text] = root ++ [key.text] ↔ key' = key := by
  simp [Key.text_injective.eq_iff]

theorem file_eq_iff {key' : Key} {name name' : String} :
    root ++ [key'.text, name'] = root ++ [key.text, name] ↔ key' = key ∧ name' = name := by
  simp [Key.text_injective.eq_iff]

theorem folder_ne_file {key' : Key} {name : String} :
    root ++ [key'.text] ≠ root ++ [key.text, name] := by
  simp

section Steps

variable (h : Mirrors d root used t m) (hk : key.Filed)

include h hk

theorem folder_not_file (contents : Bytes) :
    t.entry? (root ++ [key.text]) ≠ some (.file contents) := by
  rw [h.folder key hk]
  split <;> exact nofun

theorem folder_of_mem (hv : value ∈ m.valuesOf key) :
    t.entry? (root ++ [key.text]) = some .directory := by
  rw [h.folder key hk, if_neg (List.ne_nil_of_mem hv)]

theorem file_of_mem (hv : value ∈ m.valuesOf key) :
    t.entry? (root ++ [key.text, fileName value]) = some (.file value) :=
  (h.files key hk _ _).2 ⟨value, hv, rfl, rfl⟩

theorem file_eq_none (hinj : Set.InjOn fileName used) (hused : value ∈ used)
    (hv : value ∉ m.valuesOf key) : t.entry? (root ++ [key.text, fileName value]) = none := by
  rw [Option.eq_none_iff_forall_ne_some]
  intro e he
  obtain ⟨value', hv', hname, -⟩ := (h.files key hk _ _).1 he
  exact hv (hinj hused (h.inside key value' hv') hname ▸ hv')

theorem temp_eq_none (n : Nat) : t.entry? (root ++ [key.text, tempName n]) = none := by
  rw [Option.eq_none_iff_forall_ne_some]
  intro e he
  obtain ⟨value, -, hname, -⟩ := (h.files key hk _ _).1 he
  exact fileName_ne_tempName value n hname.symm

theorem mem_childNames_iff {name : String} : name ∈ t.childNames (root ++ [key.text]) ↔
    ∃ value ∈ m.valuesOf key, name = fileName value := by
  rw [mem_childNames, List.append_assoc, List.singleton_append]
  simp only [h.files key hk]
  exact ⟨fun ⟨_, value, hv, hname, _⟩ => ⟨value, hv, hname⟩,
    fun ⟨value, hv, hname⟩ => ⟨_, value, hv, hname, rfl⟩⟩

variable (hroom : d.base.size + depth ≤ maxPathLength) (hinj : Set.InjOn fileName used)

include hroom hinj

/-- Fetching gives what is in memory, in some order. -/
theorem fetch : ∃ values, exec (d.fetchProgram key) t = (.ok (values, []), t) ∧
    values.Perm (m.valuesOf key) := by
  by_cases hv : m.valuesOf key = []
  · have hnone : t.entry? (root ++ [key.text]) = none := by rw [h.folder key hk, if_pos hv]
    exact ⟨[], exec_fetchProgram_of_none h.anchored hroom hk hnone, hv ▸ List.Perm.refl _⟩
  · have hd : t.entry? (root ++ [key.text]) = some .directory := by
      rw [h.folder key hk, if_neg hv]
    -- The names of files tell the values apart, so a name tells what is in its file.
    let contents : String → Bytes := Function.invFunOn fileName used
    have hcontents {value : Bytes} (hvalue : value ∈ m.valuesOf key) :
        contents (fileName value) = value :=
      hinj.leftInvOn_invFunOn (h.inside key value hvalue)
    have hrun := exec_fetchProgram h.anchored hroom hk contents hd ?_
    · refine ⟨_, hrun, ?_⟩
      have hall : (t.childNames (root ++ [key.text])).filter (fun name => !name.startsWith ".") =
          t.childNames (root ++ [key.text]) := by
        refine List.filter_eq_self.2 fun name hname => ?_
        obtain ⟨value, -, rfl⟩ := (h.mem_childNames_iff hk).1 hname
        rw [startsWith_fileName]
        rfl
      have hinj' : ∀ b ∈ m.valuesOf key, ∀ b' ∈ m.valuesOf key, fileName b = fileName b' → b = b' :=
        fun b hb b' hb' => hinj (h.inside key b hb) (h.inside key b' hb')
      have hnames : (t.childNames (root ++ [key.text])).Perm ((m.valuesOf key).map fileName) := by
        refine (List.perm_ext_iff_of_nodup (h.single key hk)
          ((List.nodup_map_iff_inj_on (m.nodup_valuesOf key)).2 hinj')).2 fun name => ?_
        rw [h.mem_childNames_iff hk, List.mem_map]
        exact exists_congr fun value => and_congr_right fun _ => eq_comm
      have hvalues : (m.valuesOf key).map (contents ∘ fileName) = m.valuesOf key :=
        (List.map_congr_left fun value hvalue => hcontents hvalue).trans (List.map_id _)
      rw [hall]
      refine (hnames.map contents).trans ?_
      rw [List.map_map, hvalues]
    · intro name hname _
      obtain ⟨value, hvalue, rfl⟩ := (h.mem_childNames_iff hk).1 hname
      rw [hcontents hvalue]
      exact ⟨plain_fileName value, Nat.le_of_eq (size_fileName value), h.file_of_mem hk hvalue⟩

variable (hused : value ∈ used)

include hused

/-- Saving adds the value, unless it is there. -/
theorem save : ∃ t' : FileTree, exec (d.saveProgram key value) t = (.ok (), t') ∧
    Mirrors d root used t' (m.insert key value) := by
  by_cases hv : value ∈ m.valuesOf key
  · refine ⟨t, exec_saveProgram_of_some h.anchored hroom hk (h.folder_of_mem hk hv)
      (h.file_of_mem hk hv), ?_⟩
    rwa [Memory.insert, dif_pos hv]
  · obtain ⟨t', hrun, hc⟩ := exec_saveProgram h.anchored hroom hk (h.folder_not_file hk)
      (h.file_eq_none hk hinj hused hv) (h.temp_eq_none hk 0)
    refine ⟨t', hrun, hc.anchored, fun key' hk' => ?_, fun key' hk' name e => ?_,
      fun key' hk' => hc.single _ (h.single key' hk'), fun key' b hb => ?_⟩
    · rw [hc.entry, if_neg folder_ne_file]
      by_cases hkey : key' = key
      · have hthere : value ∈ (m.insert key value).valuesOf key' :=
          Memory.mem_valuesOf_insert.2 (.inr ⟨hkey, rfl⟩)
        rw [if_pos (folder_eq_iff.2 hkey), if_neg (List.ne_nil_of_mem hthere)]
      · have hsame : (m.insert key value).valuesOf key' = m.valuesOf key' := by
          rw [Memory.valuesOf_insert, if_neg fun hnew => hkey hnew.1]
        rw [if_neg (mt folder_eq_iff.1 hkey), h.folder key' hk', hsame]
    · rw [hc.entry]
      by_cases hplace : key' = key ∧ name = fileName value
      · rw [if_pos (file_eq_iff.2 hplace)]
        constructor
        · intro hfile
          cases hfile
          exact ⟨value, Memory.mem_valuesOf_insert.2 (.inr ⟨hplace.1, rfl⟩), hplace.2, rfl⟩
        · rintro ⟨b, hb, hname, rfl⟩
          rcases Memory.mem_valuesOf_insert.1 hb with hb | ⟨-, rfl⟩
          · rw [hinj hused (h.inside key' b hb) (hplace.2.symm.trans hname)]
          · rfl
      · rw [if_neg (mt file_eq_iff.1 hplace), if_neg folder_ne_file.symm, h.files key' hk' name e]
        constructor
        · rintro ⟨b, hb, hfile⟩
          exact ⟨b, Memory.mem_valuesOf_insert.2 (.inl hb), hfile⟩
        · rintro ⟨b, hb, hname, hfile⟩
          rcases Memory.mem_valuesOf_insert.1 hb with hb | ⟨hkey, rfl⟩
          · exact ⟨b, hb, hname, hfile⟩
          · exact absurd ⟨hkey, hname⟩ hplace
    · rcases Memory.mem_valuesOf_insert.1 hb with hb | ⟨-, rfl⟩
      · exact h.inside key' b hb
      · exact hused

/-- Deleting takes the value out, if it is there. -/
theorem delete : ∃ t' : FileTree, exec (d.deleteProgram key value) t = (.ok (), t') ∧
    Mirrors d root used t' (m.erase key value) := by
  by_cases hv : value ∈ m.valuesOf key
  · obtain ⟨t', hrun, hc⟩ := exec_deleteProgram h.anchored hroom hk (h.folder_of_mem hk hv)
      (h.file_of_mem hk hv)
    have hlast : (∀ name ∈ t.childNames (root ++ [key.text]), name = fileName value) ↔
        (m.erase key value).valuesOf key = [] := by
      rw [List.eq_nil_iff_forall_not_mem]
      constructor
      · intro hall b hb
        obtain ⟨hb, hne⟩ := Memory.mem_valuesOf_erase.1 hb
        have hname := hall _ ((h.mem_childNames_iff hk).2 ⟨b, hb, rfl⟩)
        exact hne ⟨rfl, hinj (h.inside key b hb) hused hname⟩
      · intro hall name hname
        obtain ⟨b, hb, rfl⟩ := (h.mem_childNames_iff hk).1 hname
        have hsame : b = value := by
          by_contra hne
          exact hall b (Memory.mem_valuesOf_erase.2 ⟨hb, fun heq => hne heq.2⟩)
        rw [hsame]
    refine ⟨t', hrun, hc.anchored, fun key' hk' => ?_, fun key' hk' name e => ?_,
      fun key' hk' => hc.single _ (h.single key' hk'), fun key' b hb => ?_⟩
    · rw [hc.entry, if_neg folder_ne_file]
      by_cases hkey : key' = key
      · subst hkey
        simp only [true_and, hlast, h.folder_of_mem hk hv]
      · rw [if_neg fun hfolder => hkey (folder_eq_iff.1 hfolder.1), h.folder key' hk',
          Memory.valuesOf_erase, if_neg hkey]
    · rw [hc.entry]
      by_cases hplace : key' = key ∧ name = fileName value
      · rw [if_pos (file_eq_iff.2 hplace)]
        refine ⟨nofun, ?_⟩
        rintro ⟨b, hb, hname, -⟩
        obtain ⟨hb, hne⟩ := Memory.mem_valuesOf_erase.1 hb
        exact absurd ⟨hplace.1, hinj (h.inside key' b hb) hused (hname.symm.trans hplace.2)⟩ hne
      · rw [if_neg (mt file_eq_iff.1 hplace), if_neg fun hfolder => folder_ne_file hfolder.1.symm,
          h.files key' hk' name e]
        refine exists_congr fun b => ?_
        rw [Memory.mem_valuesOf_erase, and_assoc]
        refine and_congr_right fun hb => (and_iff_right_of_imp ?_).symm
        rintro ⟨hname, -⟩ ⟨hkey, rfl⟩
        exact hplace ⟨hkey, hname⟩
    · exact h.inside key' b (Memory.mem_valuesOf_erase.1 hb).1
  · refine ⟨t, exec_deleteProgram_of_none h.anchored hroom hk (h.folder_not_file hk)
      (h.file_eq_none hk hinj hused hv), h.congr fun key' => ?_⟩
    exact Memory.valuesOf_erase_of_not_mem hv

end Steps

end Mirrors

/-! ## Both stores -/

/-- The answers say the same: nothing, or the same values, each once. -/
def SameAnswer : Option (List Bytes) → Option (List Bytes) → Prop :=
  Option.Rel fun values values' => values.Perm values' ∧ values.Nodup

section Runs

variable {d : Directory} {root : Place} {used : Set Bytes} {st : Storage FileTree}
  {mem : Storage Memory}

theorem runStored_eq {α : Type} (p : ExceptT FileError FileProgram α) (st : Storage FileTree) :
    runStored p st = ((exec p st.contents).1.mapError .io,
      { st with contents := (exec p st.contents).2 }) := rfl

theorem runStored_of_exec {α : Type} {p : ExceptT FileError FileProgram α} {a : α} {t' : FileTree}
    (h : exec p st.contents = (.ok a, t')) :
    runStored p st = (.ok a, { st with contents := t' }) := by
  rw [runStored_eq, h]
  rfl

variable (hroom : d.base.size + depth ≤ maxPathLength) (hinj : Set.InjOn fileName used)

include hroom hinj

/-- One operation: both stores answer the same, and go on to do so. -/
theorem perform_agrees (h : Mirrors d root used st.contents mem.contents) (op : StoreOp)
    (hkeys : ∀ key ∈ op.keys, key.Filed) (hvalues : ∀ value ∈ op.values, value ∈ used) :
    ∃ answer st' answer' mem', op.perform d.backend st = (.ok answer, st') ∧
      op.perform memoryBackend mem = (.ok answer', mem') ∧ SameAnswer answer answer' ∧
      Mirrors d root used st'.contents mem'.contents := by
  cases op with
  | save key value =>
    obtain ⟨t', hrun, h'⟩ := h.save (hkeys key List.mem_cons_self) hroom hinj
      (hvalues value List.mem_cons_self)
    refine ⟨none, { st with contents := t' }, none, _, ?_, rfl, .none, h'⟩
    exact StoreM.bind_of_ok (runStored_of_exec hrun)
  | fetch key =>
    obtain ⟨values, hrun, hperm⟩ := h.fetch (hkeys key List.mem_cons_self) hroom hinj
    have hfetch : d.backend.fetch key st = (.ok values, { st with contents := st.contents }) :=
      StoreM.bind_of_ok (runStored_of_exec hrun)
    refine ⟨some values, st, some _, mem, StoreM.bind_of_ok hfetch, rfl, .some ?_, h⟩
    exact ⟨hperm, hperm.nodup_iff.2 (mem.contents.nodup_valuesOf key)⟩
  | delete key value =>
    obtain ⟨t', hrun, h'⟩ := h.delete (hkeys key List.mem_cons_self) hroom hinj
      (hvalues value List.mem_cons_self)
    refine ⟨none, { st with contents := t' }, none, _, ?_, rfl, .none, h'⟩
    exact StoreM.bind_of_ok (runStored_of_exec hrun)
  | move source target value =>
    have hused := hvalues value List.mem_cons_self
    obtain ⟨t₁, hrun₁, h₁⟩ := h.delete (hkeys source List.mem_cons_self) hroom hinj hused
    obtain ⟨t₂, hrun₂, h₂⟩ := h₁.save (hkeys target (by simp [StoreOp.keys])) hroom hinj hused
    have hsave : runStored (d.saveProgram target value) { st with contents := t₁ } =
        (.ok (), { st with contents := t₂ }) := runStored_of_exec hrun₂
    have hmove : d.backend.move source target value st = (.ok (), { st with contents := t₂ }) :=
      (StoreM.bind_of_ok (runStored_of_exec hrun₁)).trans hsave
    exact ⟨none, { st with contents := t₂ }, none, _, StoreM.bind_of_ok hmove, rfl, .none, h₂⟩

/-- Any number of operations. -/
theorem performAll_agrees (h : Mirrors d root used st.contents mem.contents) {ops : List StoreOp}
    (hkeys : ∀ op ∈ ops, ∀ key ∈ op.keys, key.Filed)
    (hvalues : ∀ op ∈ ops, ∀ value ∈ op.values, value ∈ used) :
    ∃ answers st' answers' mem', StoreOp.performAll d.backend ops st = (.ok answers, st') ∧
      StoreOp.performAll memoryBackend ops mem = (.ok answers', mem') ∧
      List.Forall₂ SameAnswer answers answers' := by
  induction ops generalizing st mem with
  | nil => exact ⟨[], st, [], mem, rfl, rfl, .nil⟩
  | cons op rest ih =>
    obtain ⟨hkey, hkeys⟩ := List.forall_mem_cons.1 hkeys
    obtain ⟨hvalue, hvalues⟩ := List.forall_mem_cons.1 hvalues
    obtain ⟨answer, st₁, answer', mem₁, hst, hmem, hsame, h₁⟩ :=
      perform_agrees hroom hinj h op hkey hvalue
    obtain ⟨answers, st₂, answers', mem₂, hst', hmem', hsame'⟩ := ih h₁ hkeys hvalues
    refine ⟨answer :: answers, st₂, answer' :: answers', mem₂, ?_, ?_, .cons hsame hsame'⟩
    · rw [StoreOp.performAll, StoreM.bind_of_ok hst, StoreM.bind_of_ok hst']
      rfl
    · rw [StoreOp.performAll, StoreM.bind_of_ok hmem, StoreM.bind_of_ok hmem']
      rfl

end Runs

/-- A directory that was opened is there. -/
theorem openDirectory_eq_ok {path : String} {st st' : Storage FileTree} {b : Backend FileTree}
    (h : openDirectory path st = (.ok b, st')) :
    b = (Directory.mk (pathOf path)).backend ∧
      ∃ root, st'.contents.locate (pathOf path) = .ok (root, .directory) := by
  rcases hrun : exec (.perform (.createDirs (pathOf path))) st.contents with ⟨e | _, t'⟩
  · have hstored := runStored_eq (.perform (.createDirs (pathOf path))) st
    rw [hrun] at hstored
    rw [openDirectory, StoreM.bind_of_error hstored] at h
    cases h
  · have hstored := runStored_of_exec hrun
    rw [openDirectory, StoreM.bind_of_ok hstored] at h
    cases h
    refine ⟨rfl, ?_⟩
    rw [exec_perform, FileTree.perform, createDirs] at hrun
    split at hrun
    · cases hrun
    · rename_i hfault
      have hroot : st.contents.Solid [] := fun front hf => by
        rw [List.prefix_nil.1 hf]
        rfl
      obtain ⟨⟨root, hw, hd⟩, -⟩ := walk_of_createFrom hroot hrun
      refine ⟨root, ?_⟩
      rw [locate_of_resolve ((resolve_of_walk hfault).trans hw), hd]

/-- A store in a directory and one in memory, both empty at first, carry out all operations on the
keys of corpora, and fetch the same values, each once. The directory may be any that can be made or
is there, has nothing in it, and whose path leaves room for the names of files; the names, which are
digests cut in half, are to tell the values apart. -/
theorem stores_agree {path : String} {tree : FileTree} {log log' : Log} {b : Backend FileTree}
    {st : Storage FileTree} {root : Place} (hopen : openDirectory path ⟨tree, log⟩ = (.ok b, st))
    (hroot : st.contents.resolve (pathOf path) = .ok root) (hempty : st.contents.listing root = [])
    (hroom : (pathOf path).size + depth ≤ maxPathLength) {ops : List StoreOp}
    (hkeys : ∀ op ∈ ops, ∀ key ∈ op.keys, key.subKey = none ∨ key.subKey = some "covering")
    (hinj : Set.InjOn (fun value => (Sha256.digest value).toList.take 16)
      {value | ∃ op ∈ ops, value ∈ op.values}) :
    ∃ answers st' answers' mem', StoreOp.performAll b ops st = (.ok answers, st') ∧
      StoreOp.performAll memoryBackend ops ⟨.empty, log'⟩ = (.ok answers', mem') ∧
      List.Forall₂ SameAnswer answers answers' := by
  obtain ⟨rfl, root', hlocate⟩ := openDirectory_eq_ok hopen
  obtain rfl : root' = root := Except.ok.inj ((of_locate hlocate).1.symm.trans hroot)
  have hbare := bare_of_listing hempty
  have hnames : Set.InjOn fileName {value | ∃ op ∈ ops, value ∈ op.values} :=
    fun v hv w hw heq => hinj hv hw (Text.Hex.encode_injective heq)
  exact performAll_agrees hroom hnames (Mirrors.empty (anchored_of_bare hlocate hbare) hbare) hkeys
    fun op hop value hvalue => ⟨op, hop, hvalue⟩

theorem stores_agree_moving :
    let key : Key := ⟨Vector.replicate 32 0, none⟩
    let covering := key.withSubKey "covering"
    let ops : List StoreOp := [.save key [1], .save key [2], .save key [1], .move key covering [2],
      .fetch key, .delete key [1], .fetch key, .fetch covering]
    ∃ b st, openDirectory "db" ⟨.empty, #[]⟩ = (.ok b, st) ∧
      st.contents.resolve (pathOf "db") = .ok ["db"] ∧ st.contents.listing ["db"] = [] ∧
      (pathOf "db").size + depth ≤ maxPathLength ∧
      (∀ op ∈ ops, ∀ key ∈ op.keys, key.subKey = none ∨ key.subKey = some "covering") ∧
      Set.InjOn (fun value => (Sha256.digest value).toList.take 16)
        {value | ∃ op ∈ ops, value ∈ op.values} ∧
      ∃ answers st' answers' mem', StoreOp.performAll b ops st = (.ok answers, st') ∧
        StoreOp.performAll memoryBackend ops ⟨.empty, #[]⟩ = (.ok answers', mem') ∧
        List.Forall₂ SameAnswer answers answers' := by
  intro key covering ops
  have hopen : openDirectory "db" ⟨.empty, #[]⟩ =
      (.ok (Directory.mk ["db"]).backend, ⟨⟨[(["db"], .directory)]⟩, #[]⟩) := rfl
  have hroot : (FileTree.mk [(["db"], .directory)]).resolve (pathOf "db") = .ok ["db"] := by
    decide +kernel
  have hempty : (FileTree.mk [(["db"], .directory)]).listing ["db"] = [] := by decide +kernel
  have hroom : (pathOf "db").size + depth ≤ maxPathLength := by decide +kernel
  have hkeys : ∀ op ∈ ops, ∀ key ∈ op.keys,
      key.subKey = none ∨ key.subKey = some "covering" := by decide +kernel
  have hinj : Set.InjOn (fun value => (Sha256.digest value).toList.take 16)
      {value | ∃ op ∈ ops, value ∈ op.values} := by
    have hvalues : ∀ op ∈ ops, ∀ value ∈ op.values, value = [1] ∨ value = [2] := by decide +kernel
    have hdigests : (Sha256.digest [1]).toList.take 16 ≠ (Sha256.digest [2]).toList.take 16 := by
      decide +kernel
    rintro v ⟨op, hop, hv⟩ w ⟨op', hop', hw⟩ heq
    rcases hvalues op hop v hv with rfl | rfl <;> rcases hvalues op' hop' w hw with rfl | rfl
    · rfl
    · exact absurd heq hdigests
    · exact absurd heq.symm hdigests
    · rfl
  exact ⟨_, _, hopen, hroot, hempty, hroom, hkeys, hinj,
    stores_agree hopen hroot hempty hroom hkeys hinj⟩

end Falsify
