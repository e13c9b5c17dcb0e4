import Falsify.Proofs.Store.Places
import Falsify.Proofs.Store.Processes

/-!
# What processes do to each other

Processes that share a store change its tree step by step. Whatever they do, in the directory of a
key there are whole values that somebody saved under it, and temporary files (`Sound`). A step
leaves alone the temporary files of others; and it takes away the file of a value or the directory
of a key only when it is a delete that does so (`Spares`).

* `Sound`: what holds after each step, proven for each way in which a step changes the tree;
* `Spares`: what a step leaves as it is, proven likewise.
-/

namespace Falsify

open Directory FileTree

/-- A process that was to save the value under the key has moved the file to its place. -/
def Saved (d : Directory) (past : List Event) (key : Key) (value : Bytes) : Prop :=
  ∃ p temp, .stepped p (.save key value) (.rename temp (d.valuePath key value)) (.ok ()) ∈ past

namespace Event

/-- A delete under the key removes the file of the value. It may be one of another value whose file
has the same name. -/
def Removes (d : Directory) (key : Key) (value : Bytes) (e : Event) : Prop :=
  ∃ p v, fileName v = fileName value ∧
    e = .stepped p (.delete key v) (.removeFile (d.valuePath key v)) (.ok ())

/-- A delete under the key removes the key's directory. -/
def Clears (d : Directory) (key : Key) (e : Event) : Prop :=
  ∃ p v, e = .stepped p (.delete key v) (.removeDir (d.keyDirectory key)) (.ok ())

end Event

/-- In the directory of the store there are directories, and in them files. Those in the directory
of a key that are no temporary ones hold values that were saved under it. -/
structure Sound (d : Directory) (root : Place) (t : FileTree) (past : List Event) : Prop where
  anchored : t.Anchored d.base root
  folders : ∀ name contents, t.entry? (root ++ [name]) ≠ some (.file contents)
  nested : ∀ name name' e, t.entry? (root ++ [name, name']) = some e →
    t.entry? (root ++ [name]) = some .directory ∧ e ≠ .directory
  whole : ∀ (key : Key) name contents, t.entry? (root ++ [key.text, name]) = some (.file contents) →
    name.startsWith "." = false → name = fileName contents ∧ Saved d past key contents

/-- What a step leaves as it is: temporary files, but for the one that is the process's own; the
directory of a key, unless a delete removes it; and a file in the place of a value, unless a delete
removes it. -/
structure Spares (d : Directory) (root : Place) (own : Option Place) (t t' : FileTree) (e : Event) :
    Prop where
  temps : ∀ (key : Key) name contents, own ≠ some (root ++ [key.text, name]) →
    name.startsWith "." = true → t.entry? (root ++ [key.text, name]) = some (.file contents) →
    t'.entry? (root ++ [key.text, name]) = some (.file contents)
  folders : ∀ key : Key, t.entry? (root ++ [key.text]) = some .directory →
    t'.entry? (root ++ [key.text]) = some .directory ∨ e.Clears d key
  values : ∀ (key : Key) value,
    (∃ contents, t.entry? (root ++ [key.text, fileName value]) = some (.file contents)) →
    (∃ contents, t'.entry? (root ++ [key.text, fileName value]) = some (.file contents)) ∨
      e.Removes d key value

variable {d : Directory} {root : Place} {own : Option Place} {t t' : FileTree} {past : List Event}
  {key : Key} {value contents : Bytes} {name : String} {e : Event}

theorem Saved.append (h : Saved d past key value) (later : List Event) :
    Saved d (past ++ later) key value :=
  h.imp fun _ ⟨temp, hp⟩ => ⟨temp, List.mem_append_left _ hp⟩

/-! ## Trees that stay sound -/

namespace Sound

theorem append (h : Sound d root t past) (later : List Event) : Sound d root t (past ++ later) where
  anchored := h.anchored
  folders := h.folders
  nested := h.nested
  whole key name contents he hname :=
    (h.whole key name contents he hname).imp_right (·.append later)

theorem eq_directory (h : Sound d root t past) {e : FileEntry}
    (he : t.entry? (root ++ [name]) = some e) : e = .directory := by
  cases e with
  | file contents => exact absurd he (h.folders name contents)
  | directory => rfl

theorem leads_folder (h : Sound d root t past) (hk : key.OneName) :
    t.Leads (d.keyDirectory key) (root ++ [key.text]) := by
  rw [keyDirectory_of_oneName d hk]
  exact FileTree.leads_folder h.anchored key.inward_text

theorem leads_file (h : Sound d root t past) (hk : key.OneName) (hn : Path.Inward name) :
    t.Leads ((d.keyDirectory key).join [name]) (root ++ [key.text, name]) := by
  rw [keyDirectory_of_oneName d hk, Path.join_join _ key.goes_text]
  refine FileTree.leads_file h.anchored key.inward_text hn (h.folders _) fun hnone => ?_
  refine Option.eq_none_iff_forall_ne_some.2 fun e he => ?_
  rw [(h.nested _ _ e he).1] at hnone
  cases hnone

theorem leads_value (h : Sound d root t past) (hk : key.OneName) (value : Bytes) :
    t.Leads (d.valuePath key value) (root ++ [key.text, fileName value]) :=
  h.leads_file hk (plain_fileName value).inward_name

theorem put_folder (h : Sound d root t past) (name : String) :
    Sound d root (t.put (root ++ [name]) .directory) past where
  anchored := h.anchored.put ⟨_, _, rfl⟩ _
  folders name' contents := by
    rw [entry?_put (by simp)]
    split
    · exact nofun
    · exact h.folders name' contents
  nested name' name'' e he := by
    rw [entry?_put (by simp), if_neg (by simp)] at he
    obtain ⟨hd, hfile⟩ := h.nested _ _ e he
    refine ⟨?_, hfile⟩
    rw [entry?_put (by simp), hd, ite_self]
  whole key name' contents he := by
    rw [entry?_put (by simp), if_neg (by simp)] at he
    exact h.whole key name' contents he

theorem put_file (h : Sound d root t past) {name' : String}
    (hd : t.entry? (root ++ [name]) = some .directory)
    (hwhole : ∀ key : Key, key.text = name → name'.startsWith "." = false →
      name' = fileName contents ∧ Saved d past key contents) :
    Sound d root (t.put (root ++ [name, name']) (.file contents)) past where
  anchored := h.anchored.put ⟨_, _, rfl⟩ _
  folders n c := by
    rw [entry?_put (by simp), if_neg (by simp)]
    exact h.folders n c
  nested n n' e he := by
    rw [entry?_put (by simp)] at he
    rw [entry?_put (by simp), if_neg (by simp)]
    split at he
    · rename_i hplace
      cases he
      obtain ⟨rfl, -⟩ : n = name ∧ n' = name' := by simpa using hplace
      exact ⟨hd, nofun⟩
    · exact h.nested n n' e he
  whole key n c he hn := by
    rw [entry?_put (by simp)] at he
    split at he
    · rename_i hplace
      cases he
      obtain ⟨hkey, rfl⟩ : key.text = name ∧ n = name' := by simpa using hplace
      exact hwhole key hkey hn
    · exact h.whole key n c he hn

theorem erase_file (h : Sound d root t past) (name name' : String) :
    Sound d root (t.erase (root ++ [name, name'])) past where
  anchored := h.anchored.erase ⟨_, _, rfl⟩
  folders n c := by
    rw [entry?_erase (by simp), if_neg (by simp)]
    exact h.folders n c
  nested n n' e he := by
    rw [entry?_erase (by simp), Option.ite_none_left_eq_some] at he
    rw [entry?_erase (by simp), if_neg (by simp)]
    exact h.nested n n' e he.2
  whole key n c he := by
    rw [entry?_erase (by simp), Option.ite_none_left_eq_some] at he
    exact h.whole key n c he.2

theorem erase_folder (h : Sound d root t past) (hempty : t.childNames (root ++ [name]) = []) :
    Sound d root (t.erase (root ++ [name])) past where
  anchored := h.anchored.erase ⟨_, _, rfl⟩
  folders n c := by
    rw [entry?_erase (by simp)]
    split
    · exact nofun
    · exact h.folders n c
  nested n n' e he := by
    rw [entry?_erase (by simp), if_neg (by simp)] at he
    have hne : n ≠ name := by
      rintro rfl
      have hchild : n' ∈ t.childNames (root ++ [n]) :=
        mem_childNames.2 ⟨e, by rwa [List.append_assoc]⟩
      rw [hempty] at hchild
      cases hchild
    rw [entry?_erase (by simp), if_neg (by simpa using hne)]
    exact h.nested n n' e he
  whole key n c he := by
    rw [entry?_erase (by simp), if_neg (by simp)] at he
    exact h.whole key n c he

end Sound

/-! ## Steps that spare others -/

theorem fileName_ne_of_startsWith (h : name.startsWith "." = true) (value : Bytes) :
    fileName value ≠ name := by
  rintro rfl
  rw [startsWith_fileName] at h
  cases h

namespace Spares

theorem refl (own : Option Place) (t : FileTree) (e : Event) : Spares d root own t t e :=
  ⟨fun _ _ _ _ _ h => h, fun _ h => .inl h, fun _ _ h => .inl h⟩

theorem put_folder (key : Key) : Spares d root own t (t.put (root ++ [key.text]) .directory) e where
  temps key' name contents _ _ h := by
    rwa [entry?_put (by simp), if_neg (by simp)]
  folders key' h := by
    rw [entry?_put (by simp), h, ite_self]
    exact .inl rfl
  values key' value h := by
    rw [entry?_put (by simp), if_neg (by simp)]
    exact .inl h

/-- A file is written where there was none, or where the process's own one was. -/
theorem put_temp (h : t.entry? (root ++ [key.text, name]) = none ∨
      own = some (root ++ [key.text, name])) :
    Spares d root own t (t.put (root ++ [key.text, name]) (.file contents)) e where
  temps key' name' c hown _ hthere := by
    rw [entry?_put (by simp), if_neg, hthere]
    intro hplace
    rw [hplace] at hown hthere
    rcases h with h | h
    · rw [h] at hthere
      cases hthere
    · exact hown h
  folders key' h := by
    rw [entry?_put (by simp), if_neg (by simp)]
    exact .inl h
  values key' value h := by
    rw [entry?_put (by simp)]
    split
    · exact .inl ⟨_, rfl⟩
    · exact .inl h

theorem put_value (value : Bytes) :
    Spares d root own t (t.put (root ++ [key.text, fileName value]) (.file contents)) e where
  temps key' name' c _ hname hthere := by
    rw [entry?_put (by simp), if_neg, hthere]
    intro hplace
    obtain ⟨-, rfl⟩ : key'.text = key.text ∧ name' = fileName value := by simpa using hplace
    exact fileName_ne_of_startsWith hname value rfl
  folders key' h := by
    rw [entry?_put (by simp), if_neg (by simp)]
    exact .inl h
  values key' value h := by
    rw [entry?_put (by simp)]
    split
    · exact .inl ⟨_, rfl⟩
    · exact .inl h

theorem erase_temp (hown : own = some (root ++ [key.text, name]))
    (hname : name.startsWith "." = true) :
    Spares d root own t (t.erase (root ++ [key.text, name])) e where
  temps key' name' c hne _ hthere := by
    rw [entry?_erase (by simp), if_neg, hthere]
    intro hplace
    exact hne (hplace ▸ hown)
  folders key' h := by
    rw [entry?_erase (by simp), if_neg (by simp)]
    exact .inl h
  values key' value h := by
    rw [entry?_erase (by simp), if_neg]
    · exact .inl h
    · simpa using fun _ => fileName_ne_of_startsWith hname value

theorem erase_value (he : e.Removes d key value) :
    Spares d root own t (t.erase (root ++ [key.text, fileName value])) e where
  temps key' name' c _ hname hthere := by
    rw [entry?_erase (by simp), if_neg, hthere]
    simpa using fun _ => (fileName_ne_of_startsWith hname value).symm
  folders key' h := by
    rw [entry?_erase (by simp), if_neg (by simp)]
    exact .inl h
  values key' value' h := by
    rw [entry?_erase (by simp)]
    split
    · rename_i hplace
      obtain ⟨hkey, hname⟩ : key'.text = key.text ∧ fileName value' = fileName value := by
        simpa using hplace
      obtain ⟨p, v, hv, he⟩ := he
      exact .inr ⟨p, v, hv.trans hname.symm, Key.text_injective hkey ▸ he⟩
    · exact .inl h

theorem erase_folder (he : e.Clears d key) :
    Spares d root own t (t.erase (root ++ [key.text])) e where
  temps key' name' c _ _ hthere := by
    rwa [entry?_erase (by simp), if_neg (by simp)]
  folders key' h := by
    rw [entry?_erase (by simp)]
    split
    · rename_i hplace
      rw [List.append_cancel_left_eq, List.cons.injEq] at hplace
      exact .inr (Key.text_injective hplace.1 ▸ he)
    · exact .inl h
  values key' value h := by
    rw [entry?_erase (by simp), if_neg (by simp)]
    exact .inl h

theorem trans {t₁ : FileTree} (h : Spares d root own t t₁ e) (h' : Spares d root own t₁ t' e) :
    Spares d root own t t' e where
  temps key name c hown hname hthere :=
    h'.temps key name c hown hname (h.temps key name c hown hname hthere)
  folders key hd := (h.folders key hd).elim (h'.folders key) .inr
  values key value hv := (h.values key value hv).elim (h'.values key value) .inr

end Spares

end Falsify
