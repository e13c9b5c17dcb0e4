import Falsify.Proofs.Store.Paths

/-!
# What the programs of a store do

A program that saves, fetches or deletes works in the directory of one key, and on its own it does
there what its name says.

* `FileProgram.exec_bind_of_ok`: one program after another;
* `Directory.exec_fetchProgram`: the contents of the files that are no temporary ones;
* `Directory.exec_saveProgram`: one file more, in a directory that is made if need be;
* `Directory.exec_deleteProgram`: one file less, and no directory if it was the last one.
-/

namespace Falsify

/-! ## Programs -/

namespace FileProgram

variable {α β : Type} {x : ExceptT FileError FileProgram α}
  {f : α → ExceptT FileError FileProgram β} {t t' : FileTree}

theorem run_andThen (p : FileProgram α) (f : α → FileProgram β) (t : FileTree) :
    (p.andThen f).run t = (f (p.run t).1).run (p.run t).2 := by
  induction p generalizing t with
  | done a => rfl
  | step op next ih => exact ih _ _

theorem run_attempt (op : FileOp β) (t : FileTree) :
    (attempt op).run t = t.perform op := rfl

/-- Runs a program that may fail. -/
def exec (x : ExceptT FileError FileProgram α) (t : FileTree) : Except FileError α × FileTree :=
  FileProgram.run x t

theorem exec_bind_of_ok {a : α} (h : exec x t = (.ok a, t')) :
    exec (x >>= f) t = exec (f a) t' := by
  change (andThen x (ExceptT.bindCont f)).run t = _
  rw [run_andThen, show FileProgram.run x t = _ from h]
  rfl

theorem exec_perform (op : FileOp β) (t : FileTree) :
    exec (FileProgram.perform op) t = t.perform op := rfl

theorem exec_inspect (op : FileOp β) (t : FileTree) :
    exec (FileProgram.inspect op) t = (.ok (t.perform op).1, (t.perform op).2) := rfl

end FileProgram

namespace Directory

open FileProgram FileTree

variable {d : Directory} {t : FileTree} {root : Place} {key : Key} {value : Bytes}

theorem keyDirectory_of_oneName (d : Directory) (h : key.OneName) :
    d.keyDirectory key = d.base.join [key.text] := by
  rw [keyDirectory, pathOf_text h]

theorem valuePath_of_oneName (d : Directory) (h : key.OneName) (value : Bytes) :
    d.valuePath key value = d.base.join [key.text, fileName value] := by
  rw [valuePath, keyDirectory_of_oneName d h, Path.join_join _ key.goes_text]
  rfl

theorem keyDirectory_eq (d : Directory) (h : key.Filed) :
    d.keyDirectory key = d.base.join [key.text] :=
  d.keyDirectory_of_oneName h.oneName

theorem valuePath_eq (d : Directory) (h : key.Filed) (value : Bytes) :
    d.valuePath key value = d.base.join [key.text, fileName value] :=
  d.valuePath_of_oneName h.oneName value

/-- The bytes that the text of a key and the name of a file add to the path of a store, with a slash
for each. -/
def depth : Nat :=
  107

theorem room_folder (hroom : d.base.size + depth ≤ maxPathLength) (h : key.Filed) :
    d.base.size + Path.size [key.text] ≤ maxPathLength := by
  have := h.size_text
  simp only [Path.size, List.map_cons, List.map_nil, List.sum_cons, List.sum_nil, depth] at hroom ⊢
  omega

theorem room_file (hroom : d.base.size + depth ≤ maxPathLength) (h : key.Filed) {name : String}
    (hname : name.utf8ByteSize ≤ 32) :
    d.base.size + Path.size [key.text, name] ≤ maxPathLength := by
  have := h.size_text
  simp only [Path.size, List.map_cons, List.map_nil, List.sum_cons, List.sum_nil, depth] at hroom ⊢
  omega

theorem freshName_of_not_mem {taken : List String} {n fuel : Nat} (h : tempName n ∉ taken) :
    freshName taken n fuel = tempName n := by
  cases fuel with
  | zero => rfl
  | succ fuel => rw [freshName, if_neg (by simpa using h)]

section Programs

variable (ha : t.Anchored d.base root) (hroom : d.base.size + depth ≤ maxPathLength)
  (hk : key.Filed)

include ha hroom hk

/-! ### Paths -/

theorem locate_keyDirectory : t.locate (d.keyDirectory key) =
    match t.entry? (root ++ [key.text]) with
    | some e => .ok (root ++ [key.text], e)
    | none => .error .notFound := by
  rw [keyDirectory_eq d hk]
  exact locate_join ha hk.plain_text (room_folder hroom hk)

theorem locate_file (hd : t.entry? (root ++ [key.text]) = some .directory) {name : String}
    (hname : Path.Plain name) (hsize : name.utf8ByteSize ≤ 32) :
    t.locate ((d.keyDirectory key).join [name]) =
      match t.entry? (root ++ [key.text, name]) with
      | some e => .ok (root ++ [key.text, name], e)
      | none => .error .notFound := by
  rw [keyDirectory_eq d hk, Path.join_join _ hk.plain_text.goes]
  exact locate_join_join ha hk.plain_text hname (room_file hroom hk hsize) hd

theorem locate_valuePath (hd : t.entry? (root ++ [key.text]) = some .directory) (value : Bytes) :
    t.locate (d.valuePath key value) =
      match t.entry? (root ++ [key.text, fileName value]) with
      | some e => .ok (root ++ [key.text, fileName value], e)
      | none => .error .notFound :=
  locate_file ha hroom hk hd (plain_fileName value) (Nat.le_of_eq (size_fileName value))

theorem locate_valuePath_of_none
    (hd : ∀ contents, t.entry? (root ++ [key.text]) ≠ some (.file contents))
    (hv : t.entry? (root ++ [key.text, fileName value]) = none) :
    t.locate (d.valuePath key value) = .error .notFound := by
  rcases he : t.entry? (root ++ [key.text]) with _ | contents | _
  · rw [valuePath_eq d hk]
    exact locate_join_join_of_none ha hk.plain_text (plain_fileName value)
      (room_file hroom hk (Nat.le_of_eq (size_fileName value))) he
  · exact absurd he (hd contents)
  · rw [locate_valuePath ha hroom hk he value, hv]

/-! ### Fetching -/

/-- Without a directory there is no value. -/
theorem exec_fetchProgram_of_none (hd : t.entry? (root ++ [key.text]) = none) :
    exec (d.fetchProgram key) t = (.ok ([], []), t) := by
  have hlocate := locate_keyDirectory ha hroom hk
  rw [hd] at hlocate
  have hlist : t.perform (.list (d.keyDirectory key)) = (.error .notFound, t) := by
    simp only [FileTree.perform, hlocate]
  rw [fetchProgram, exec_bind_of_ok (exec_inspect _ t), hlist]
  rfl

/-- The files are read one after another. -/
theorem run_readAll {names : List String} {contents : String → Bytes}
    (hd : t.entry? (root ++ [key.text]) = some .directory)
    (h : ∀ name ∈ names, Path.Plain name ∧ name.utf8ByteSize ≤ 32 ∧
      t.entry? (root ++ [key.text, name]) = some (.file (contents name))) :
    (readAll (d.keyDirectory key) names).run t = ((names.map contents, []), t) := by
  induction names with
  | nil => rfl
  | cons name rest ih =>
    obtain ⟨⟨hplain, hsize, hfile⟩, hrest⟩ := List.forall_mem_cons.1 h
    have hlocate := locate_file ha hroom hk hd hplain hsize
    rw [hfile] at hlocate
    have hread : t.perform (.read ((d.keyDirectory key).join [name])) =
        (.ok (contents name), t) := by
      simp only [FileTree.perform, hlocate]
    rw [readAll]
    change (andThen (.attempt (.read ((d.keyDirectory key).join [name]))) _).run t = _
    rw [run_andThen, run_attempt, hread]
    change (andThen (readAll (d.keyDirectory key) rest) _).run t = _
    rw [run_andThen, ih hrest]
    rfl

/-- The values are the contents of the files whose names do not start with a dot. -/
theorem exec_fetchProgram (contents : String → Bytes)
    (hd : t.entry? (root ++ [key.text]) = some .directory)
    (h : ∀ name ∈ t.childNames (root ++ [key.text]), name.startsWith "." = false →
      Path.Plain name ∧ name.utf8ByteSize ≤ 32 ∧
        t.entry? (root ++ [key.text, name]) = some (.file (contents name))) :
    exec (d.fetchProgram key) t =
      (.ok (((t.childNames (root ++ [key.text])).filter fun name => !name.startsWith ".").map
        contents, []), t) := by
  have hlocate := locate_keyDirectory ha hroom hk
  rw [hd] at hlocate
  have hlist : t.perform (.list (d.keyDirectory key)) =
      (.ok (t.childNames (root ++ [key.text])), t) := by
    simp only [FileTree.perform, hlocate]
  have hread {names : List String} (hnames : names =
        (t.childNames (root ++ [key.text])).filter fun name => !name.startsWith ".") :
      (readAll (d.keyDirectory key) names).run t = ((names.map contents, []), t) :=
    run_readAll ha hroom hk hd (by simpa [hnames] using h)
  rw [fetchProgram, exec_bind_of_ok (exec_inspect _ t), hlist]
  change (andThen (readAll (d.keyDirectory key) _) _).run t = _
  rw [run_andThen, hread rfl]
  rfl

/-! ### Saving -/

/-- What is in its place is not saved again. -/
theorem exec_saveProgram_of_some (hd : t.entry? (root ++ [key.text]) = some .directory)
    {e : FileEntry} (he : t.entry? (root ++ [key.text, fileName value]) = some e) :
    exec (d.saveProgram key value) t = (.ok (), t) := by
  have hlocate := locate_valuePath ha hroom hk hd value
  rw [he] at hlocate
  have htest : exec (FileProgram.perform (.test (d.valuePath key value))) t = (.ok true, t) := by
    rw [exec_perform]
    simp only [FileTree.perform, hlocate]
  rw [saveProgram, exec_bind_of_ok htest]
  rfl

/-- The directory of a key is made if it is not there. -/
theorem perform_createDirs
    (hd : ∀ contents, t.entry? (root ++ [key.text]) ≠ some (.file contents)) :
    ∃ t₁ : FileTree, t.perform (.createDirs (d.keyDirectory key)) = (.ok (), t₁) ∧
      Changes d.base root t t₁ fun place =>
        if place = root ++ [key.text] then some .directory else t.entry? place := by
  obtain ⟨hr, hroot⟩ := of_locate ha.locate
  obtain ⟨hf, hw⟩ := walk_of_resolve hr
  have hbelow : Place.Below root (root ++ [key.text]) := ⟨_, _, rfl⟩
  have hfault : pathFault? (d.keyDirectory key) = none := by
    rw [keyDirectory_eq d hk]
    exact pathFault?_join hf (by simpa using hk.plain_text.noNul) (room_folder hroom hk)
  have hmade : t.perform (.createDirs (d.keyDirectory key)) = t.createFrom root [key.text] := by
    rw [FileTree.perform, createDirs, hfault, keyDirectory_eq d hk, Path.join_eq]
    exact createFrom_append _ (walk_front hw) hroot
  rw [hmade, createFrom, if_neg (by simp [hk.plain_text.goes]), if_neg hk.plain_text.inward,
    if_neg (Nat.not_lt.2 hk.plain_text.short)]
  rcases he : t.entry? (root ++ [key.text]) with _ | contents | _
  · exact ⟨_, rfl, ha.changes.put hbelow _⟩
  · exact absurd he (hd contents)
  · refine ⟨_, rfl, ha.changes.congr fun place => ?_⟩
    split
    · rename_i h
      rw [h, he]
    · rfl

section Made

variable (hd : t.entry? (root ++ [key.text]) = some .directory)

include hd

/-- The name of the temporary file is the first one, as there is no other. -/
theorem perform_createTemp (htemp : t.entry? (root ++ [key.text, tempName 0]) = none) :
    t.perform (.createTemp (d.keyDirectory key)) = (.ok ((d.keyDirectory key).join [tempName 0]),
      t.put (root ++ [key.text, tempName 0]) (.file [])) := by
  have hlocate := locate_keyDirectory ha hroom hk
  rw [hd] at hlocate
  have hfresh : tempName 0 ∉ t.childNames (root ++ [key.text]) := by
    rw [mem_childNames, List.append_assoc, List.singleton_append, htemp]
    rintro ⟨_, ⟨⟩⟩
  have hfault : pathFault? ((d.keyDirectory key).join [tempName 0]) = none := by
    obtain ⟨hf, -⟩ := walk_of_resolve (of_locate ha.locate).1
    rw [keyDirectory_eq d hk, Path.join_join _ hk.plain_text.goes]
    refine pathFault?_join hf ?_ (room_file hroom hk (by decide))
    exact List.forall_mem_cons.2 ⟨hk.plain_text.noNul, by decide⟩
  simp only [FileTree.perform, hlocate, freshName_of_not_mem hfresh, hfault, List.append_assoc,
    List.singleton_append]

theorem perform_write {name : String} (hname : Path.Plain name) (hsize : name.utf8ByteSize ≤ 32)
    {contents : Bytes} (hfile : t.entry? (root ++ [key.text, name]) = some (.file contents)) :
    t.perform (.write ((d.keyDirectory key).join [name]) value) =
      (.ok (), t.put (root ++ [key.text, name]) (.file value)) := by
  have hlocate := locate_file ha hroom hk hd hname hsize
  rw [hfile] at hlocate
  simp only [FileTree.perform, hlocate]

theorem perform_rename {name : String} (hname : Path.Plain name) (hsize : name.utf8ByteSize ≤ 32)
    {contents : Bytes} (hfile : t.entry? (root ++ [key.text, name]) = some (.file contents))
    (hgoal : t.entry? (root ++ [key.text, fileName value]) ≠ some .directory) :
    t.perform (.rename ((d.keyDirectory key).join [name]) (d.valuePath key value)) =
      (.ok (), (t.erase (root ++ [key.text, name])).put (root ++ [key.text, fileName value])
        (.file contents)) := by
  have hlocate := locate_file ha hroom hk hd hname hsize
  rw [hfile] at hlocate
  have hresolve := resolve_join_join ha hk.plain_text (plain_fileName value)
    (room_file hroom hk (Nat.le_of_eq (size_fileName value))) hd
  rw [← valuePath_eq d hk] at hresolve
  simp only [FileTree.perform, hlocate, hresolve]

/-- The three steps by which a file gets to its place leave nothing else behind. -/
theorem perform_moved (hgoal : t.entry? (root ++ [key.text, fileName value]) ≠ some .directory)
    (htemp : t.entry? (root ++ [key.text, tempName 0]) = none) :
    ∃ t₁ t₂ t₃ : FileTree,
      t.perform (.createTemp (d.keyDirectory key)) =
        (.ok ((d.keyDirectory key).join [tempName 0]), t₁) ∧
      t₁.perform (.write ((d.keyDirectory key).join [tempName 0]) value) = (.ok (), t₂) ∧
      t₂.perform (.rename ((d.keyDirectory key).join [tempName 0]) (d.valuePath key value)) =
        (.ok (), t₃) ∧
      Changes d.base root t t₃ fun place =>
        if place = root ++ [key.text, fileName value] then some (.file value)
        else t.entry? place := by
  have hbelow (name : String) : Place.Below root (root ++ [key.text, name]) := ⟨_, _, rfl⟩
  have hfolder {name : String} : root ++ [key.text] ≠ root ++ [key.text, name] := by simp
  have hplaces : root ++ [key.text, fileName value] ≠ root ++ [key.text, tempName 0] := by
    simpa using fileName_ne_tempName value 0
  have hplain : Path.Plain (tempName 0) := ⟨by decide, by decide, by decide, by decide⟩
  let t₁ := t.put (root ++ [key.text, tempName 0]) (.file [])
  let t₂ := t₁.put (root ++ [key.text, tempName 0]) (.file value)
  have h₁ : Changes d.base root t t₁ _ := ha.changes.put (hbelow _) _
  have h₂ : Changes d.base root t t₂ _ := h₁.put (hbelow _) _
  have h₃ := (h₂.erase (hbelow (tempName 0))).put (hbelow (fileName value)) (.file value)
  have hd₁ : t₁.entry? (root ++ [key.text]) = some .directory := by
    rw [h₁.entry, if_neg hfolder, hd]
  have hd₂ : t₂.entry? (root ++ [key.text]) = some .directory := by
    rw [h₂.entry, if_neg hfolder, if_neg hfolder, hd]
  have hgoal₂ : t₂.entry? (root ++ [key.text, fileName value]) ≠ some .directory := by
    rwa [h₂.entry, if_neg hplaces, if_neg hplaces]
  have hcreate := perform_createTemp ha hroom hk hd htemp
  have hwrite : t₁.perform (.write ((d.keyDirectory key).join [tempName 0]) value) = (.ok (), t₂) :=
    perform_write h₁.anchored hroom hk hd₁ hplain (by decide) ((h₁.entry _).trans (if_pos rfl))
  have hrename := perform_rename h₂.anchored hroom hk hd₂ hplain (by decide)
    ((h₂.entry _).trans (if_pos rfl)) hgoal₂
  refine ⟨t₁, t₂, _, hcreate, hwrite, hrename, h₃.congr fun place => ?_⟩
  by_cases hplace : place = root ++ [key.text, tempName 0]
  · simp only [hplace, if_pos, if_neg hplaces.symm, htemp]
  · simp only [if_neg hplace]

end Made

/-- A file is written whole: its directory is made, and it is moved there. -/
theorem exec_writeWhole (hd : ∀ contents, t.entry? (root ++ [key.text]) ≠ some (.file contents))
    (hv : t.entry? (root ++ [key.text, fileName value]) = none)
    (htemp : t.entry? (root ++ [key.text, tempName 0]) = none) :
    ∃ t' : FileTree, exec (writeWhole (d.valuePath key value) value) t = (.ok (), t') ∧
      Changes d.base root t t' fun place =>
        if place = root ++ [key.text, fileName value] then some (.file value)
        else if place = root ++ [key.text] then some .directory else t.entry? place := by
  obtain ⟨t₁, hmake, h₁⟩ := perform_createDirs ha hroom hk hd
  have hfolder {name : String} : root ++ [key.text, name] ≠ root ++ [key.text] := by simp
  have hd₁ : t₁.entry? (root ++ [key.text]) = some .directory := by rw [h₁.entry, if_pos rfl]
  have htemp₁ : t₁.entry? (root ++ [key.text, tempName 0]) = none := by
    rw [h₁.entry, if_neg hfolder, htemp]
  have hgoal₁ : t₁.entry? (root ++ [key.text, fileName value]) ≠ some .directory := by
    rw [h₁.entry, if_neg hfolder, hv]
    exact nofun
  obtain ⟨t₂, t₃, t₄, hcreate, hwrite, hrename, h₄⟩ :=
    perform_moved h₁.anchored hroom hk hd₁ hgoal₁ htemp₁
  have hparent : (d.valuePath key value).parent = d.keyDirectory key := by
    rw [valuePath_eq d hk, Path.parent_join _ hk.plain_text.goes, keyDirectory_eq d hk]
  refine ⟨t₄, ?_, (h₁.trans h₄).congr fun place => by rw [h₁.entry]⟩
  rw [writeWhole, hparent, exec_bind_of_ok ((exec_perform _ t).trans hmake),
    exec_bind_of_ok ((exec_perform _ t₁).trans hcreate), exec_bind_of_ok (exec_inspect _ t₂),
    hwrite]
  dsimp only
  rw [exec_bind_of_ok (exec_inspect _ t₃), hrename]
  rfl

/-- A value that is not in its place is put there, and nothing else is left behind. -/
theorem exec_saveProgram (hd : ∀ contents, t.entry? (root ++ [key.text]) ≠ some (.file contents))
    (hv : t.entry? (root ++ [key.text, fileName value]) = none)
    (htemp : t.entry? (root ++ [key.text, tempName 0]) = none) :
    ∃ t' : FileTree, exec (d.saveProgram key value) t = (.ok (), t') ∧
      Changes d.base root t t' fun place =>
        if place = root ++ [key.text, fileName value] then some (.file value)
        else if place = root ++ [key.text] then some .directory else t.entry? place := by
  have hmissing := locate_valuePath_of_none ha hroom hk hd hv
  have htest : exec (FileProgram.perform (.test (d.valuePath key value))) t = (.ok false, t) := by
    rw [exec_perform]
    simp only [FileTree.perform, hmissing]
  rw [saveProgram, exec_bind_of_ok htest]
  exact exec_writeWhole ha hroom hk hd hv htemp

/-! ### Deleting -/

/-- What is not there is not deleted. -/
theorem exec_deleteProgram_of_none
    (hd : ∀ contents, t.entry? (root ++ [key.text]) ≠ some (.file contents))
    (hv : t.entry? (root ++ [key.text, fileName value]) = none) :
    exec (d.deleteProgram key value) t = (.ok (), t) := by
  have hmissing := locate_valuePath_of_none ha hroom hk hd hv
  have hremove : t.perform (.removeFile (d.valuePath key value)) = (.error .notFound, t) := by
    simp only [FileTree.perform, hmissing]
  rw [deleteProgram, exec_bind_of_ok (exec_inspect _ t), hremove]
  rfl

/-- The file of a value is removed, and the directory if there is no other file. -/
theorem exec_deleteProgram (hd : t.entry? (root ++ [key.text]) = some .directory) {contents : Bytes}
    (hv : t.entry? (root ++ [key.text, fileName value]) = some (.file contents)) :
    ∃ t' : FileTree, exec (d.deleteProgram key value) t = (.ok (), t') ∧
      Changes d.base root t t' fun place =>
        if place = root ++ [key.text, fileName value] then none
        else if place = root ++ [key.text] ∧
          ∀ name ∈ t.childNames (root ++ [key.text]), name = fileName value then none
        else t.entry? place := by
  have hbelow (name : String) (names : List String) : Place.Below root (root ++ name :: names) :=
    ⟨_, _, rfl⟩
  have hfolder : root ++ [key.text] ≠ root ++ [key.text, fileName value] := by simp
  have hlocate := locate_valuePath ha hroom hk hd value
  rw [hv] at hlocate
  have hremove : t.perform (.removeFile (d.valuePath key value)) =
      (.ok (), t.erase (root ++ [key.text, fileName value])) := by
    simp only [FileTree.perform, hlocate]
  let t₁ := t.erase (root ++ [key.text, fileName value])
  have h₁ : Changes d.base root t t₁ _ := ha.changes.erase (hbelow _ _)
  have hd₁ : t₁.entry? (root ++ [key.text]) = some .directory := by
    rw [h₁.entry, if_neg hfolder, hd]
  have hlocate₁ := locate_keyDirectory h₁.anchored hroom hk
  rw [hd₁] at hlocate₁
  have hdot : (d.keyDirectory key).endsInDot = false := by
    rw [keyDirectory_eq d hk, Path.endsInDot_join _ hk.plain_text.goes]
  have hempty : (t₁.childNames (root ++ [key.text])).isEmpty = true ↔
      ∀ name ∈ t.childNames (root ++ [key.text]), name = fileName value := by
    rw [List.isEmpty_iff, List.eq_nil_iff_forall_not_mem]
    refine forall_congr' fun name => ?_
    rw [mem_childNames, mem_childNames, h₁.entry]
    by_cases hname : name = fileName value <;> simp [hname]
  have hprogram {answer : Except FileError Unit} {t' : FileTree}
      (h : t₁.perform (.removeDir (d.keyDirectory key)) = (answer, t')) :
      exec (d.deleteProgram key value) t = (.ok (), t') := by
    rw [deleteProgram, exec_bind_of_ok (exec_inspect _ t), hremove]
    dsimp only
    rw [exec_bind_of_ok (exec_inspect _ t₁), h]
    rfl
  by_cases hlast : (t₁.childNames (root ++ [key.text])).isEmpty
  · have hdir : t₁.perform (.removeDir (d.keyDirectory key)) =
        (.ok (), t₁.erase (root ++ [key.text])) := by
      simp only [FileTree.perform, hlocate₁, hdot, hlast, if_pos, Bool.false_eq_true, if_false]
    refine ⟨_, hprogram hdir, (h₁.erase (hbelow _ _)).congr fun place => ?_⟩
    by_cases hplace : place = root ++ [key.text, fileName value]
    · simp only [if_pos hplace, ite_self]
    · simp only [if_neg hplace, and_iff_left (hempty.1 hlast)]
  · have hdir : t₁.perform (.removeDir (d.keyDirectory key)) = (.error .notEmpty, t₁) := by
      simp only [FileTree.perform, hlocate₁, hdot, hlast, Bool.false_eq_true, if_false]
    refine ⟨_, hprogram hdir, h₁.congr fun place => ?_⟩
    rw [if_neg fun h : place = root ++ [key.text] ∧ _ => hlast (hempty.2 h.2)]

end Programs

end Directory

end Falsify
