import Falsify.Proofs.Store.Programs

/-!
# Where the paths of a store lead

A key may have any text and a temporary file any number, so that a path may be too long or have a
character that no path may have. Otherwise the path of a key's directory leads to the place of its
text, and that of a file in it to the place of both names. Neither depends on what there is at other
places.

* `FileTree.Leads`: the path leads to the place, unless its text is at fault;
* `FileTree.leads_folder`, `FileTree.leads_file`: directories of keys, and files in them;
* `FileTree.freshName_not_mem`: temporary files get names that no other file has.
-/

namespace Falsify

/-- A name that leads into a directory, unless it is too long: it neither stays nor leads out. -/
structure Path.Inward (name : String) : Prop where
  goes : stays name = false
  inward : name ≠ ".."

theorem Path.Plain.inward_name {name : String} (h : Plain name) : Inward name :=
  ⟨h.goes, h.inward⟩

/-- It is the text of the path that is at fault. -/
def FileError.Textual (e : FileError) : Prop :=
  e = .nameTooLong ∨ e = .badName

theorem Key.inward_text (key : Key) : Path.Inward key.text := by
  refine ⟨key.goes_text, fun h => ?_⟩
  have hlength := key.le_length_text
  rw [h] at hlength
  exact absurd hlength (by decide)

/-- The path that a step follows to what it needs. -/
def FileOp.needs? {β : Type} : FileOp β → Option Path
  | .test _ => none
  | .createDirs _ => none
  | .createTemp directory => some directory
  | .write path _ => some path
  | .rename source _ => some source
  | .removeFile path => some path
  | .removeDir path => some path
  | .list path => some path
  | .read path => some path

namespace FileTree

variable {t : FileTree} {base : Path} {root place : Place} {k n : String}

/-! ## Paths -/

/-- The path leads to the place, unless its text is at fault. -/
inductive Leads (t : FileTree) (path : Path) (place : Place) : Prop where
  | there (e : FileEntry) (hentry : t.entry? place = some e)
    (hlocate : t.locate path = .ok (place, e))
  | absent (hentry : t.entry? place = none) (hlocate : t.locate path = .error .notFound)
  | faulty (e : FileError) (htextual : e.Textual) (hlocate : t.locate path = .error e)

theorem textual_of_pathFault? {path : Path} {e : FileError} (h : pathFault? path = some e) :
    e.Textual := by
  unfold pathFault? at h
  split at h
  · exact .inr (Option.some.inj h).symm
  · split at h
    · exact .inl (Option.some.inj h).symm
    · cases h

theorem follow_inward (here : Place) (h : Path.Inward n) :
    follow here n = .ok (here ++ [n]) ∨ follow here n = .error .nameTooLong := by
  rw [follow, if_neg (by simp [h.goes]), if_neg h.inward]
  split
  · exact .inr rfl
  · exact .inl rfl

theorem leads_of_resolve {path : Path} (h : t.resolve path = .ok place) : t.Leads path place := by
  have hl := locate_of_resolve h
  rcases he : t.entry? place with _ | e <;> rw [he] at hl
  · exact .absent he hl
  · exact .there e he hl

theorem leads_of_error {path : Path} {e : FileError} (he : e.Textual)
    (h : t.resolve path = .error e) : t.Leads path place :=
  .faulty e he (locate_of_error h)

/-- What is there is found. -/
theorem Leads.of_entry {path : Path} {e : FileEntry} (h : t.Leads path place)
    (he : t.entry? place = some e) : t.locate path = .ok (place, e) ∨
      ∃ fault : FileError, fault.Textual ∧ t.locate path = .error fault := by
  rcases h with ⟨e', he', hl⟩ | ⟨hnone, -⟩ | hfaulty
  · exact .inl (Option.some.inj (he'.symm.trans he) ▸ hl)
  · rw [he] at hnone
    cases hnone
  · exact .inr ⟨_, ‹_›, ‹_›⟩

/-- A step that does not find what it needs says so and changes nothing. -/
theorem perform_of_error {β : Type} {op : FileOp β} {path : Path} {e : FileError}
    (hp : op.needs? = some path) (hl : t.locate path = .error e) :
    t.perform op = (.error e, t) := by
  cases op <;> cases hp <;> simp only [FileTree.perform, hl]

section Anchored

variable (ha : t.Anchored base root)

include ha

/-- Names behind the path of the directory are followed from there. -/
theorem resolve_join (names : List String) : t.resolve (base.join names) = t.walk root names ∨
    ∃ e : FileError, e.Textual ∧ t.resolve (base.join names) = .error e := by
  rcases hfault : pathFault? (base.join names) with _ | e
  · obtain ⟨-, hw⟩ := walk_of_resolve (of_locate ha.locate).1
    rw [resolve_of_walk hfault, Path.join_eq, walk_append _ (walk_front hw)]
    exact .inl rfl
  · exact .inr ⟨e, textual_of_pathFault? hfault, by rw [resolve, hfault]⟩

theorem leads_folder (hk : Path.Inward k) : t.Leads (base.join [k]) (root ++ [k]) := by
  obtain ⟨-, hd⟩ := of_locate ha.locate
  rcases resolve_join ha [k] with hr | ⟨e, he, hr⟩
  · rw [walk_cons [] hd] at hr
    rcases follow_inward root hk with hf | hf <;> rw [hf] at hr
    · exact leads_of_resolve hr
    · exact leads_of_error (.inl rfl) hr
  · exact leads_of_error he hr

/-- In a directory that is there, the names alone decide what the path leads to. -/
theorem resolve_file (hk : Path.Inward k) (hn : Path.Inward n)
    (hd : t.entry? (root ++ [k]) = some .directory) :
    t.resolve (base.join [k, n]) = .ok (root ++ [k, n]) ∨
      ∃ e : FileError, e.Textual ∧ t.resolve (base.join [k, n]) = .error e := by
  obtain ⟨-, hroot⟩ := of_locate ha.locate
  rcases resolve_join ha [k, n] with hr | hr
  · rw [walk_cons [n] hroot] at hr
    rcases follow_inward root hk with hf | hf <;> rw [hf] at hr
    · change _ = t.walk (root ++ [k]) [n] at hr
      rw [walk_cons [] hd] at hr
      rcases follow_inward (root ++ [k]) hn with hf | hf <;> rw [hf] at hr
      · rw [List.append_assoc] at hr
        exact .inl hr
      · exact .inr ⟨_, .inl rfl, hr⟩
    · exact .inr ⟨_, .inl rfl, hr⟩
  · exact .inr hr

theorem leads_file (hk : Path.Inward k) (hn : Path.Inward n)
    (hfolder : ∀ contents, t.entry? (root ++ [k]) ≠ some (.file contents))
    (hnested : t.entry? (root ++ [k]) = none → t.entry? (root ++ [k, n]) = none) :
    t.Leads (base.join [k, n]) (root ++ [k, n]) := by
  rcases hd : t.entry? (root ++ [k]) with _ | contents | _
  · rcases resolve_join ha [k, n] with hr | ⟨e, he, hr⟩
    · rw [walk_cons [n] (of_locate ha.locate).2] at hr
      rcases follow_inward root hk with hf | hf <;> rw [hf] at hr
      · change _ = t.walk (root ++ [k]) [n] at hr
        rw [walk, hd] at hr
        exact .absent (hnested hd) (locate_of_error hr)
      · exact leads_of_error (.inl rfl) hr
    · exact leads_of_error he hr
  · exact absurd hd (hfolder contents)
  · rcases resolve_file ha hk hn hd with hr | ⟨e, he, hr⟩
    · exact leads_of_resolve hr
    · exact leads_of_error he hr

/-- The directory is made if it is not there. -/
theorem createDirs_join (hk : Path.Inward k)
    (hfolder : ∀ contents, t.entry? (root ++ [k]) ≠ some (.file contents)) :
    (t.createDirs (base.join [k]) = (.ok (), t) ∧ t.entry? (root ++ [k]) = some .directory) ∨
      t.createDirs (base.join [k]) = (.ok (), t.put (root ++ [k]) .directory) ∨
      ∃ e : FileError, e.Textual ∧ t.createDirs (base.join [k]) = (.error e, t) := by
  obtain ⟨hr, hroot⟩ := of_locate ha.locate
  rcases hfault : pathFault? (base.join [k]) with _ | e
  · have hmade : t.createDirs (base.join [k]) = t.createFrom root [k] := by
      rw [createDirs, hfault, Path.join_eq]
      exact createFrom_append _ (walk_front (walk_of_resolve hr).2) hroot
    rw [hmade, createFrom, if_neg (by simp [hk.goes]), if_neg hk.inward]
    split
    · exact .inr (.inr ⟨_, .inl rfl, rfl⟩)
    · rcases he : t.entry? (root ++ [k]) with _ | contents | _
      · exact .inr (.inl rfl)
      · exact absurd he (hfolder contents)
      · exact .inl ⟨rfl, rfl⟩
  · exact .inr (.inr ⟨e, textual_of_pathFault? hfault, by rw [createDirs, hfault]⟩)

end Anchored

/-! ## Temporary names -/

theorem toList_tempName (n : Nat) : ∃ zeros, (tempName n).toList =
    '.' :: 't' :: 'm' :: 'p' :: (List.replicate zeros '0' ++ Nat.toDigits 10 n) :=
  ⟨6 - (toString n).length, by simp [tempName, Nat.repr]⟩

/-- The digits of a temporary name tell its number. -/
theorem tempName_injective : Function.Injective tempName := by
  have hdigits (n : Nat) : Nat.ofDigitChars 10 ((tempName n).toList.drop 4) 0 = n := by
    obtain ⟨zeros, h⟩ := toList_tempName n
    rw [h]
    simp [Nat.ofDigitChars_append]
  intro m n h
  rw [← hdigits m, h, hdigits]

theorem inward_tempName (n : Nat) : Path.Inward (tempName n) := by
  obtain ⟨zeros, h⟩ := toList_tempName n
  refine ⟨Path.goes_of_length (by rw [h]; simp), fun heq => ?_⟩
  rw [heq] at h
  simp at h

theorem startsWith_tempName (n : Nat) : (tempName n).startsWith "." = true := by
  obtain ⟨zeros, h⟩ := toList_tempName n
  rw [String.startsWith_string_iff, h]
  exact ⟨_, rfl⟩

theorem exists_freshName (taken : List String) (n fuel : Nat) :
    ∃ m, freshName taken n fuel = tempName m ∧ (tempName m ∉ taken ∨ m = n + fuel) ∧
      ∀ i, n ≤ i → i < m → tempName i ∈ taken := by
  induction fuel generalizing n with
  | zero => exact ⟨n, rfl, .inr rfl, fun i hi hi' => absurd hi' (Nat.not_lt.2 hi)⟩
  | succ fuel ih =>
    rw [freshName]
    split
    · rename_i htaken
      obtain ⟨m, hm, hend, hall⟩ := ih (n + 1)
      refine ⟨m, hm, hend.imp_right (by omega), fun i hi hi' => ?_⟩
      rcases Nat.eq_or_lt_of_le hi with rfl | hi
      · simpa using htaken
      · exact hall i hi hi'
    · rename_i hfree
      exact ⟨n, rfl, .inl (by simpa using hfree), fun i hi hi' => absurd hi' (Nat.not_lt.2 hi)⟩

/-- Among one name more than are taken there is a free one. -/
theorem freshName_not_mem (taken : List String) : freshName taken 0 taken.length ∉ taken := by
  obtain ⟨m, hm, hend, hall⟩ := exists_freshName taken 0 taken.length
  rw [hm]
  rcases hend with hfree | rfl
  · exact hfree
  · intro hlast
    have hsub : (List.range (taken.length + 1)).map tempName ⊆ taken := by
      intro name hname
      obtain ⟨i, hi, rfl⟩ := List.mem_map.1 hname
      rcases Nat.eq_or_lt_of_le (Nat.le_of_lt_succ (List.mem_range.1 hi)) with rfl | hi
      · simpa using hlast
      · exact hall i (Nat.zero_le i) (by simpa using hi)
    have hnodup : ((List.range (taken.length + 1)).map tempName).Nodup :=
      List.nodup_range.map tempName_injective
    have := (List.subperm_of_subset hnodup hsub).length_le
    simp at this

end FileTree

end Falsify
