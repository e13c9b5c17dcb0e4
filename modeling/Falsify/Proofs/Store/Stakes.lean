import Falsify.Proofs.Store.Interference

/-!
# Programs among others

Between two steps of a program other processes change the tree. What a program goes by nevertheless
is a stake that the steps of others leave to it: a temporary file of its own, a file in the place of
a value, values that were read. Each step of a program turns a stake into another one, and its
answer tells which.

* `Stake`, `Stake.Holds`: stakes and what they say, and `Stake.Holds.spared`: others leave them
  alone;
* `Does`, `Safe`: what a step and a program make of a stake, with a rule for each way to put
  programs together;
* `does_test`, `does_createDirs`, …, `does_removeDir`: what each step does to a stake;
* `safe_save`, `safe_fetch`, `safe_delete`: the programs.
-/

namespace Falsify

open Directory FileTree FileProgram

/-! ## Stakes -/

/-- What a process sees: the tree, all that has happened, and what of it since it took on its
request. -/
structure Scene : Type 1 where
  tree : FileTree
  past : List Event
  since : List Event

/-- The scene after one more event. -/
def Scene.after (w : Scene) (t : FileTree) (e : Event) : Scene :=
  ⟨t, w.past ++ [e], w.since ++ [e]⟩

/-- A process makes the directory of its key. -/
def Event.making (d : Directory) (p : Nat) (r : Request) : Event :=
  .stepped p r (.createDirs (d.keyDirectory r.key)) (.ok ())

/-- A process finds no directory to put its temporary file in. -/
def Event.missing (d : Directory) (p : Nat) (r : Request) : Event :=
  .stepped p r (.createTemp (d.keyDirectory r.key)) (.error .notFound)

/-- Since a process has made the directory of its key, a delete of another process under the key has
removed it. -/
def Cleared (d : Directory) (p : Nat) (r : Request) (since : List Event) : Prop :=
  ∃ e : Event, e.Clears d r.key ∧ e.process ≠ p ∧ [.making d p r, e].Sublist since

/-- That has happened before the process could make a file in the directory. -/
def Crossed (d : Directory) (p : Nat) (r : Request) (since : List Event) : Prop :=
  ∃ e : Event, e.Clears d r.key ∧ e.process ≠ p ∧
    [.making d p r, e, .missing d p r].Sublist since

/-- There is a file in the place of the value, unless a delete has removed one. -/
def Remains (d : Directory) (root : Place) (t : FileTree) (since : List Event) (key : Key)
    (value : Bytes) : Prop :=
  (∃ contents, t.entry? (root ++ [key.text, fileName value]) = some (.file contents)) ∨
    ∃ e ∈ since, e.Removes d key value

/-- A process finds the file of the value in its place, or moves it there. -/
def Event.Secures (d : Directory) (p : Nat) (r : Request) (value : Bytes) (e : Event) : Prop :=
  e = .stepped p r (.test (d.valuePath r.key value)) (.ok true) ∨
    ∃ temp, e = .stepped p r (.rename temp (d.valuePath r.key value)) (.ok ())

/-- A process has secured the file of the value, and it is there unless a delete has removed it
since. -/
def Secured (d : Directory) (root : Place) (p : Nat) (r : Request) (t : FileTree)
    (since : List Event) (value : Bytes) : Prop :=
  ∃ earlier e later, since = earlier ++ e :: later ∧ e.Secures d p r value ∧
    Remains d root t later r.key value

/-- What a process has in the tree or knows of it. -/
inductive Stake where
  | nothing
  /-- The directory of the key was made. -/
  | made
  /-- It was made and removed by another process. -/
  | lost
  /-- There was a file in the place of the value. -/
  | secured (value : Bytes)
  | temp (key : Key) (name : String) (contents : Bytes)
  /-- The values were saved under the key. -/
  | known (values : List Bytes)

namespace Stake

/-- The place of the temporary file that belongs to the process. -/
def place? (root : Place) : Stake → Option Place
  | .temp key name _ => some (root ++ [key.text, name])
  | _ => none

/-- What a stake says. -/
def Holds (d : Directory) (root : Place) (p : Nat) (r : Request) (w : Scene) : Stake → Prop
  | .nothing => True
  | .made =>
    [.making d p r].Sublist w.since ∧ w.tree.entry? (root ++ [r.key.text]) = some .directory ∨
      Cleared d p r w.since
  | .lost => Crossed d p r w.since
  | .secured value => Secured d root p r w.tree w.since value
  | .temp key name contents => name.startsWith "." = true ∧
    w.tree.entry? (root ++ [key.text, name]) = some (.file contents)
  | .known values => ∀ value ∈ values, Saved d w.past r.key value

end Stake

variable {d : Directory} {root : Place} {p : Nat} {r : Request} {own : Option Place} {t : FileTree}
  {e : Event} {w : Scene} {h h' : Stake} {key : Key} {value : Bytes}

theorem Cleared.append {since : List Event} (h : Cleared d p r since) (later : List Event) :
    Cleared d p r (since ++ later) :=
  h.imp fun _ ⟨hclears, hne, hsub⟩ => ⟨hclears, hne, hsub.trans (List.sublist_append_left _ _)⟩

theorem Crossed.append {since : List Event} (h : Crossed d p r since) (later : List Event) :
    Crossed d p r (since ++ later) :=
  h.imp fun _ ⟨hclears, hne, hsub⟩ => ⟨hclears, hne, hsub.trans (List.sublist_append_left _ _)⟩

theorem Remains.step {since : List Event} (hk : Remains d root t since key value) {t' : FileTree}
    (hs : Spares d root own t t' e) : Remains d root t' (since ++ [e]) key value := by
  rcases hk with hthere | ⟨e', he', hremoves⟩
  · exact (hs.values key value hthere).imp_right fun h =>
      ⟨e, List.mem_append_right _ (List.mem_singleton_self e), h⟩
  · exact .inr ⟨e', List.mem_append_left _ he', hremoves⟩

theorem Secured.step {since : List Event} (h : Secured d root p r t since value) {t' : FileTree}
    (hs : Spares d root own t t' e) : Secured d root p r t' (since ++ [e]) value := by
  obtain ⟨earlier, e', later, rfl, hsecures, hkept⟩ := h
  exact ⟨earlier, e', later ++ [e], by simp, hsecures, hkept.step hs⟩

/-- The step of another process leaves a stake as it is. -/
theorem Stake.Holds.spared (hh : h.Holds d root p r w) {t' : FileTree}
    (hs : Spares d root own w.tree t' e) (hother : e.process ≠ p)
    (hown : ∀ place, h.place? root = some place → own ≠ some place) :
    h.Holds d root p r (w.after t' e) := by
  cases h with
  | nothing => exact trivial
  | made =>
    rcases hh with ⟨hmade, hd⟩ | hcleared
    · rcases hs.folders r.key hd with hd | hclears
      · exact .inl ⟨hmade.trans (List.sublist_append_left _ _), hd⟩
      · exact .inr ⟨e, hclears, hother, hmade.append_right [e]⟩
    · exact .inr (hcleared.append _)
  | lost => exact Crossed.append hh _
  | secured value => exact Secured.step hh hs
  | temp key name contents =>
    obtain ⟨hname, hthere⟩ := hh
    exact ⟨hname, hs.temps key name contents (hown _ rfl) hname hthere⟩
  | known values => exact fun value hv => (hh value hv).append _

/-- A stake outlasts an event that changes nothing. -/
theorem Stake.Holds.idle (hh : h.Holds d root p r w) (e : Event) :
    h.Holds d root p r (w.after w.tree e) := by
  cases h with
  | nothing => exact trivial
  | made =>
    exact hh.imp (fun ⟨hmade, hd⟩ => ⟨hmade.trans (List.sublist_append_left _ _), hd⟩)
      (Cleared.append · _)
  | lost => exact Crossed.append hh _
  | secured value => exact Secured.step hh (.refl none _ _)
  | temp => exact hh
  | known values => exact fun value hv => (hh value hv).append _

/-! ## Steps and programs -/

/-- A step with this outcome keeps the tree sound, does no harm to others but by a delete, and turns
one stake into another. A temporary file that it brings in is a new one. -/
structure Turns (d : Directory) (root : Place) (p : Nat) (r : Request) (w : Scene) {β : Type}
    (op : FileOp β) (out : Except FileError β × FileTree) (h h' : Stake) : Prop where
  sound : Sound d root out.2 (w.past ++ [.stepped p r op out.1])
  spares : Spares d root (h.place? root) w.tree out.2 (.stepped p r op out.1)
  holds : h'.Holds d root p r (w.after out.2 (.stepped p r op out.1))
  fresh : ∀ place, h'.place? root = some place →
    h.place? root = some place ∨ w.tree.entry? place = none

/-- In this scene the step turns the stake into one that goes with its answer. -/
def DoesIn (d : Directory) (root : Place) (p : Nat) (r : Request) (w : Scene) {β : Type}
    (op : FileOp β) (h : Stake) (post : Except FileError β → Stake → Prop) : Prop :=
  ∃ h', Turns d root p r w op (w.tree.perform op) h h' ∧ post (w.tree.perform op).1 h'

/-- Whatever others have done, it does so. -/
def Does (d : Directory) (root : Place) (p : Nat) (r : Request) {β : Type} (op : FileOp β)
    (h : Stake) (post : Except FileError β → Stake → Prop) : Prop :=
  ∀ w : Scene, Sound d root w.tree w.past → h.Holds d root p r w → DoesIn d root p r w op h post

/-- Whatever others do, the program turns the stake into one that goes with its result. -/
def Safe (d : Directory) (root : Place) (p : Nat) (r : Request) {α : Type}
    (post : α → Stake → Prop) : FileProgram α → Stake → Prop
  | .done a, h => post a h
  | .step op next, h => Does d root p r op h fun answer h' => Safe d root p r post (next answer) h'

section Rules

variable {α β : Type} {op : FileOp β} {post : α → Stake → Prop}

theorem Does.mono {mid mid' : Except FileError β → Stake → Prop} (hop : Does d root p r op h mid)
    (himp : ∀ answer h', mid answer h' → mid' answer h') : Does d root p r op h mid' := by
  intro w hsound hh
  obtain ⟨h', hturns, hmid⟩ := hop w hsound hh
  exact ⟨h', hturns, himp _ _ hmid⟩

theorem Safe.andThen {γ : Type} {x : FileProgram γ} {f : γ → FileProgram α}
    {mid : γ → Stake → Prop} (hx : Safe d root p r mid x h)
    (hf : ∀ c h', mid c h' → Safe d root p r post (f c) h') :
    Safe d root p r post (x.andThen f) h := by
  induction x generalizing h with
  | done c => exact hf c h hx
  | step op next ih => exact Does.mono hx fun answer h' hnext => ih answer hnext

variable {γ : Type} {f : β → ExceptT FileError FileProgram γ}
  {mid : Except FileError β → Stake → Prop} {post : Except FileError γ → Stake → Prop}

theorem Safe.bind {x : ExceptT FileError FileProgram β} (hx : Safe d root p r mid x.run h)
    (hok : ∀ b h', mid (.ok b) h' → Safe d root p r post (f b).run h')
    (herror : ∀ e h', mid (.error e) h' → post (.error e) h') :
    Safe d root p r post (x >>= f).run h :=
  Safe.andThen hx fun answer h' hmid =>
    match answer with
    | .ok b => hok b h' hmid
    | .error e => herror e h' hmid

theorem Safe.perform_bind (hop : Does d root p r op h mid)
    (hok : ∀ b h', mid (.ok b) h' → Safe d root p r post (f b).run h')
    (herror : ∀ e h', mid (.error e) h' → post (.error e) h') :
    Safe d root p r post (FileProgram.perform op >>= f).run h :=
  Safe.bind (x := FileProgram.perform op) hop hok herror

theorem Safe.inspect_bind {f : Except FileError β → ExceptT FileError FileProgram γ}
    (hop : Does d root p r op h mid)
    (hf : ∀ answer h', mid answer h' → Safe d root p r post (f answer).run h') :
    Safe d root p r post (FileProgram.inspect op >>= f).run h :=
  Does.mono hop hf

end Rules

/-! ## Single steps -/

/-- The text of a path is at fault. -/
def Faulty {β : Type} (answer : Except FileError β) : Prop :=
  ∃ e : FileError, e.Textual ∧ answer = .error e

namespace DoesIn

variable {β : Type} {op : FileOp β} {answer : Except FileError β}
  {post : Except FileError β → Stake → Prop}

/-- A step with a known outcome. -/
theorem of_perform (h' : Stake) {t' : FileTree} (hop : w.tree.perform op = (answer, t'))
    (hturns : Turns d root p r w op (answer, t') h h') (hpost : post answer h') :
    DoesIn d root p r w op h post := by
  refine ⟨h', ?_, ?_⟩ <;> rw [hop]
  · exact hturns
  · exact hpost

/-- A step after which the process has no file of its own. -/
theorem settle (h' : Stake) {t' : FileTree} (hop : w.tree.perform op = (answer, t'))
    (hs : Sound d root t' (w.past ++ [.stepped p r op answer]))
    (hspares : Spares d root (h.place? root) w.tree t' (.stepped p r op answer))
    (hh : h'.Holds d root p r (w.after t' (.stepped p r op answer)))
    (hplace : h'.place? root = none) (hpost : post answer h') : DoesIn d root p r w op h post :=
  of_perform h' hop ⟨hs, hspares, hh, fun _ hp => by simp [hplace] at hp⟩ hpost

/-- A step that changes nothing may tell the process something. -/
theorem learn (h' : Stake) (hop : w.tree.perform op = (answer, w.tree))
    (hs : Sound d root w.tree w.past)
    (hh : h'.Holds d root p r (w.after w.tree (.stepped p r op answer)))
    (hplace : h'.place? root = none) (hpost : post answer h') : DoesIn d root p r w op h post :=
  settle h' hop (hs.append _) (.refl _ _ _) hh hplace hpost

/-- A step that changes nothing leaves the stake as it is. -/
theorem stay (hop : w.tree.perform op = (answer, w.tree)) (hs : Sound d root w.tree w.past)
    (hh : h.Holds d root p r w) (hpost : post answer h) : DoesIn d root p r w op h post :=
  of_perform h hop ⟨hs.append _, .refl _ _ _, hh.idle _, fun _ => .inl⟩ hpost

/-- A step that does not find what it needs changes nothing. -/
theorem refused {path : Path} {e : FileError} (hl : w.tree.locate path = .error e)
    (hp : op.needs? = some path) (hs : Sound d root w.tree w.past) (hh : h.Holds d root p r w)
    (hpost : post (.error e) h) : DoesIn d root p r w op h post :=
  stay (perform_of_error hp hl) hs hh hpost

end DoesIn

section Steps

variable (hk : r.key.OneName)

include hk

theorem does_test (value : Bytes) : Does d root p r (.test (d.valuePath r.key value)) .nothing
    fun answer h => answer = .ok true ∧ h = .secured value ∨ answer = .ok false ∧ h = .nothing := by
  intro w hs hh
  have hfalse {e : FileError} (hl : w.tree.locate (d.valuePath r.key value) = .error e) :
      w.tree.perform (.test (d.valuePath r.key value)) = (.ok false, w.tree) := by
    simp only [FileTree.perform, hl]
  rcases hs.leads_value hk value with ⟨e, he, hl⟩ | ⟨-, hl⟩ | ⟨e, -, hl⟩
  · have hop : w.tree.perform (.test (d.valuePath r.key value)) = (.ok true, w.tree) := by
      simp only [FileTree.perform, hl]
    refine .learn (.secured value) hop hs ⟨w.since, _, [], rfl, .inl rfl, .inl ?_⟩ rfl
      (.inl ⟨rfl, rfl⟩)
    cases e with
    | file contents => exact ⟨contents, he⟩
    | directory => exact absurd rfl (hs.nested _ _ _ he).2
  · exact .stay (hfalse hl) hs hh (.inr ⟨rfl, rfl⟩)
  · exact .stay (hfalse hl) hs hh (.inr ⟨rfl, rfl⟩)

theorem does_createDirs : Does d root p r (.createDirs (d.keyDirectory r.key)) .nothing
    fun answer h => answer = .ok () ∧ h = .made ∨ Faulty answer ∧ h = .nothing := by
  intro w hs hh
  have hmaking : [.making d p r].Sublist (w.since ++ [.making d p r]) :=
    List.sublist_append_right _ _
  rcases createDirs_join hs.anchored r.key.inward_text (hs.folders _) with
    ⟨hop, hd⟩ | hop | ⟨e, he, hop⟩ <;> rw [← keyDirectory_of_oneName d hk] at hop
  · exact .learn .made hop hs (.inl ⟨hmaking, hd⟩) rfl (.inl ⟨rfl, rfl⟩)
  · exact .settle .made hop ((hs.put_folder _).append _) (.put_folder _)
      (.inl ⟨hmaking, entry?_put_self (by simp)⟩) rfl (.inl ⟨rfl, rfl⟩)
  · exact .stay hop hs hh (.inr ⟨⟨e, he, rfl⟩, rfl⟩)

theorem does_createTemp : Does d root p r (.createTemp (d.keyDirectory r.key)) .made fun answer h =>
    (∃ name, Path.Inward name ∧ answer = .ok ((d.keyDirectory r.key).join [name]) ∧
      h = .temp r.key name []) ∨
    answer = .error .notFound ∧ h = .lost ∨ Faulty answer ∧ h = .made := by
  intro w hs hh
  rcases hs.leads_folder hk with ⟨e, he, hl⟩ | ⟨hnone, hl⟩ | ⟨e, he, hl⟩
  · obtain rfl := hs.eq_directory he
    let names := w.tree.childNames (root ++ [r.key.text])
    obtain ⟨n, hn, -⟩ := exists_freshName names 0 names.length
    have hfree : w.tree.entry? (root ++ [r.key.text, tempName n]) = none := by
      have hfresh := freshName_not_mem names
      rw [hn, mem_childNames, not_exists, List.append_assoc] at hfresh
      exact Option.eq_none_iff_forall_ne_some.2 hfresh
    rcases hfault : pathFault? ((d.keyDirectory r.key).join [freshName names 0 names.length])
      with _ | fault
    · have hop : w.tree.perform (.createTemp (d.keyDirectory r.key)) =
          (.ok ((d.keyDirectory r.key).join [tempName n]),
            w.tree.put (root ++ [r.key.text, tempName n]) (.file [])) := by
        simp only [FileTree.perform, hl, names, hfault, ← hn, List.append_assoc,
          List.singleton_append]
      refine .of_perform (.temp r.key (tempName n) []) hop
        ⟨?_, .put_temp (.inl hfree), ⟨startsWith_tempName n, ?_⟩, fun place hp => .inr ?_⟩
        (.inl ⟨_, inward_tempName n, rfl, rfl⟩)
      · refine (hs.put_file he fun key _ hname => ?_).append _
        rw [startsWith_tempName] at hname
        cases hname
      · exact entry?_put_self (by simp)
      · rw [← Option.some.inj hp, hfree]
    · have hop : w.tree.perform (.createTemp (d.keyDirectory r.key)) = (.error fault, w.tree) := by
        simp only [FileTree.perform, hl, names, hfault]
      exact .stay hop hs hh (.inr (.inr ⟨⟨fault, textual_of_pathFault? hfault, rfl⟩, rfl⟩))
  · -- The directory was there when the process had made it, so that somebody has removed it since.
    refine .learn .lost (perform_of_error rfl hl) hs ?_ rfl (.inr (.inl ⟨rfl, rfl⟩))
    rcases hh with ⟨-, hd⟩ | ⟨e, hclears, hne, hsub⟩
    · rw [hnone] at hd
      cases hd
    · exact ⟨e, hclears, hne, hsub.append_right [_]⟩
  · exact .refused hl rfl hs hh (.inr (.inr ⟨⟨e, he, rfl⟩, rfl⟩))

section Temp

variable {name : String} (hn : Path.Inward name) {contents : Bytes}

include hn

theorem does_write (value : Bytes) :
    Does d root p r (.write ((d.keyDirectory r.key).join [name]) value) (.temp r.key name contents)
      fun answer h => answer = .ok () ∧ h = .temp r.key name value ∨
        Faulty answer ∧ h = .temp r.key name contents := by
  rintro w hs ⟨hname, hthere⟩
  rcases (hs.leads_file hk hn).of_entry hthere with hl | ⟨e, he, hl⟩
  · have hop : w.tree.perform (.write ((d.keyDirectory r.key).join [name]) value) =
        (.ok (), w.tree.put (root ++ [r.key.text, name]) (.file value)) := by
      simp only [FileTree.perform, hl]
    refine .of_perform (.temp r.key name value) hop
      ⟨?_, .put_temp (.inr rfl), ⟨hname, ?_⟩, fun _ => .inl⟩ (.inl ⟨rfl, rfl⟩)
    · refine (hs.put_file (hs.nested _ _ _ hthere).1 fun key _ hdot => ?_).append _
      rw [hname] at hdot
      cases hdot
    · exact entry?_put_self (by simp)
  · exact .refused hl rfl hs ⟨hname, hthere⟩ (.inr ⟨⟨e, he, rfl⟩, rfl⟩)

theorem does_removeTemp :
    Does d root p r (.removeFile ((d.keyDirectory r.key).join [name])) (.temp r.key name contents)
      fun _ h => h = .nothing := by
  rintro w hs ⟨hname, hthere⟩
  rcases (hs.leads_file hk hn).of_entry hthere with hl | ⟨e, -, hl⟩
  · have hop : w.tree.perform (.removeFile ((d.keyDirectory r.key).join [name])) =
        (.ok (), w.tree.erase (root ++ [r.key.text, name])) := by
      simp only [FileTree.perform, hl]
    exact .settle .nothing hop ((hs.erase_file _ _).append _) (.erase_temp rfl hname) trivial rfl
      rfl
  · exact .learn .nothing (perform_of_error rfl hl) hs trivial rfl rfl

end Temp

theorem does_list : Does d root p r (.list (d.keyDirectory r.key)) .nothing fun answer h =>
    h = .known [] ∧ ((∃ names : List String, answer = .ok names ∧
      ∀ name ∈ names, name.startsWith "." = false → ∃ value, name = fileName value) ∨
    answer = .error .notFound ∨ Faulty answer) := by
  intro w hs hh
  rcases hs.leads_folder hk with ⟨e, he, hl⟩ | ⟨-, hl⟩ | ⟨e, he, hl⟩
  · obtain rfl := hs.eq_directory he
    have hop : w.tree.perform (.list (d.keyDirectory r.key)) =
        (.ok (w.tree.childNames (root ++ [r.key.text])), w.tree) := by
      simp only [FileTree.perform, hl]
    refine .learn (.known []) hop hs (List.forall_mem_nil _) rfl
      ⟨rfl, .inl ⟨_, rfl, fun name hname hdot => ?_⟩⟩
    obtain ⟨e, hthere⟩ := mem_childNames.1 hname
    rw [List.append_assoc, List.singleton_append] at hthere
    cases e with
    | file contents => exact ⟨contents, (hs.whole _ _ _ hthere hdot).1⟩
    | directory => exact absurd rfl (hs.nested _ _ _ hthere).2
  · exact .learn (.known []) (perform_of_error rfl hl) hs (List.forall_mem_nil _) rfl
      ⟨rfl, .inr (.inl rfl)⟩
  · exact .learn (.known []) (perform_of_error rfl hl) hs (List.forall_mem_nil _) rfl
      ⟨rfl, .inr (.inr ⟨e, he, rfl⟩)⟩

/-- What is read was saved. -/
theorem does_read (value : Bytes) (values : List Bytes) :
    Does d root p r (.read ((d.keyDirectory r.key).join [fileName value])) (.known values)
      fun answer h => (∃ contents, answer = .ok contents ∧ h = .known (contents :: values)) ∨
        (∃ e : FileError, answer = .error e ∧ h = .known values) := by
  intro w hs hh
  rcases hs.leads_value hk value with ⟨e, he, hl⟩ | ⟨-, hl⟩ | ⟨e, he, hl⟩ <;>
    rw [valuePath, ← fileName] at hl
  · cases e with
    | directory => exact absurd rfl (hs.nested _ _ _ he).2
    | file contents =>
      have hop : w.tree.perform (.read ((d.keyDirectory r.key).join [fileName value])) =
          (.ok contents, w.tree) := by
        simp only [FileTree.perform, hl]
      have hsaved := (hs.whole _ _ _ he (startsWith_fileName value)).2
      exact .learn (.known (contents :: values)) hop hs
        (List.forall_mem_cons.2 ⟨hsaved.append _, fun v hv => (hh v hv).append _⟩) rfl
        (.inl ⟨contents, rfl, rfl⟩)
  · exact .refused hl rfl hs hh (.inr ⟨_, rfl, rfl⟩)
  · exact .refused hl rfl hs hh (.inr ⟨_, rfl, rfl⟩)

end Steps

section Saving

variable (hk : key.OneName) {name : String} (hn : Path.Inward name)

include hk hn

theorem does_rename (value : Bytes) : Does d root p (.save key value)
    (.rename ((d.keyDirectory key).join [name]) (d.valuePath key value)) (.temp key name value)
      fun answer h => answer = .ok () ∧ h = .secured value ∨
        Faulty answer ∧ h = .temp key name value := by
  rintro w hs ⟨hname, hthere⟩
  rcases (hs.leads_file hk hn).of_entry hthere with hl | ⟨e, he, hl⟩
  · have hd := (hs.nested _ _ _ hthere).1
    rcases resolve_file hs.anchored key.inward_text (plain_fileName value).inward_name hd with
      hr | ⟨e, he, hr⟩ <;> rw [← valuePath_of_oneName d hk] at hr
    · have hop : w.tree.perform
          (.rename ((d.keyDirectory key).join [name]) (d.valuePath key value)) =
          (.ok (), (w.tree.erase (root ++ [key.text, name])).put
            (root ++ [key.text, fileName value]) (.file value)) := by
        simp only [FileTree.perform, hl, hr]
        split
        · rename_i hgoal
          exact absurd rfl (hs.nested _ _ _ hgoal).2
        · rfl
      refine .settle (.secured value) hop ?_
        ((Spares.erase_temp rfl hname).trans (.put_value value))
        ⟨w.since, _, [], rfl, .inr ⟨_, rfl⟩, .inl ⟨value, ?_⟩⟩ rfl (.inl ⟨rfl, rfl⟩)
      · -- The event of this very step is what makes the value a saved one.
        refine ((hs.append _).erase_file _ _).put_file ?_ fun key' hkey _ => ⟨rfl, ?_⟩
        · rw [entry?_erase (by simp), if_neg (by simp), hd]
        · obtain rfl := Key.text_injective hkey
          exact ⟨p, _, List.mem_append_right _ (List.mem_singleton_self _)⟩
      · exact entry?_put_self (by simp)
    · have hop : w.tree.perform
          (.rename ((d.keyDirectory key).join [name]) (d.valuePath key value)) =
          (.error e, w.tree) := by
        simp only [FileTree.perform, hl, hr]
      exact .stay hop hs ⟨hname, hthere⟩ (.inr ⟨⟨e, he, rfl⟩, rfl⟩)
  · exact .refused hl rfl hs ⟨hname, hthere⟩ (.inr ⟨⟨e, he, rfl⟩, rfl⟩)

end Saving

section Deleting

variable (hk : key.OneName)

include hk

theorem does_removeFile (value : Bytes) :
    Does d root p (.delete key value) (.removeFile (d.valuePath key value)) .nothing
      fun answer h => h = .nothing ∧
        (answer = .ok () ∨ answer = .error .notFound ∨ Faulty answer) := by
  intro w hs hh
  rcases hs.leads_value hk value with ⟨e, he, hl⟩ | ⟨-, hl⟩ | ⟨e, he, hl⟩
  · cases e with
    | directory => exact absurd rfl (hs.nested _ _ _ he).2
    | file contents =>
      have hop : w.tree.perform (.removeFile (d.valuePath key value)) =
          (.ok (), w.tree.erase (root ++ [key.text, fileName value])) := by
        simp only [FileTree.perform, hl]
      exact .settle .nothing hop ((hs.erase_file _ _).append _)
        (.erase_value ⟨p, value, rfl, rfl⟩) trivial rfl ⟨rfl, .inl rfl⟩
  · exact .refused hl rfl hs hh ⟨rfl, .inr (.inl rfl)⟩
  · exact .refused hl rfl hs hh ⟨rfl, .inr (.inr ⟨e, he, rfl⟩)⟩

/-- Only an empty directory is removed. -/
theorem does_removeDir (value : Bytes) :
    Does d root p (.delete key value) (.removeDir (d.keyDirectory key)) .nothing
      fun _ h => h = .nothing := by
  intro w hs hh
  rcases hs.leads_folder hk with ⟨e, he, hl⟩ | ⟨-, hl⟩ | ⟨e, -, hl⟩
  · obtain rfl := hs.eq_directory he
    have hdot : (d.keyDirectory key).endsInDot = false := by
      rw [keyDirectory_of_oneName d hk, Path.endsInDot_join _ key.goes_text]
    by_cases hempty : (w.tree.childNames (root ++ [key.text])).isEmpty
    · have hop : w.tree.perform (.removeDir (d.keyDirectory key)) =
          (.ok (), w.tree.erase (root ++ [key.text])) := by
        simp only [FileTree.perform, hl, hdot, hempty, if_pos, Bool.false_eq_true, if_false]
      exact .settle .nothing hop ((hs.erase_folder (List.isEmpty_iff.1 hempty)).append _)
        (.erase_folder ⟨p, value, rfl⟩) trivial rfl rfl
    · have hop : w.tree.perform (.removeDir (d.keyDirectory key)) = (.error .notEmpty, w.tree) := by
        simp only [FileTree.perform, hl, hdot, hempty, Bool.false_eq_true, if_false]
      exact .stay hop hs hh rfl
  · exact .refused hl rfl hs hh rfl
  · exact .refused hl rfl hs hh rfl

end Deleting

/-! ## Programs -/

/-- What goes with the answer to a request: a saved value is in its place and fetched values were
saved. A path may be at fault, and a save may have found its directory removed. -/
def Ends : Request → Answer → Stake → Prop
  | .save _ value, .ok _, h => h = .secured value
  | .save _ _, .error e, h => e.Textual ∨ e = .notFound ∧ h = .lost
  | .fetch _, .ok values, h => ∃ known, h = .known known ∧ values ⊆ known
  | .fetch _, .error e, _ => e.Textual
  | .delete _ _, .ok _, _ => True
  | .delete _ _, .error e, _ => e.Textual

/-- The same of a save that has nothing to answer. -/
def SaveEnds (value : Bytes) : Except FileError Unit → Stake → Prop
  | .ok _, h => h = .secured value
  | .error e, h => e.Textual ∨ e = .notFound ∧ h = .lost

variable (hk : key.OneName)

include hk

theorem safe_writeWhole (value : Bytes) : Safe d root p (.save key value) (SaveEnds value)
    (writeWhole (d.valuePath key value) value).run .nothing := by
  have hparent : (d.valuePath key value).parent = d.keyDirectory key := by
    rw [valuePath_of_oneName d hk, Path.parent_join _ key.goes_text, keyDirectory_of_oneName d hk]
  have hkey : (Request.save key value).key.OneName := hk
  rw [writeWhole, hparent]
  refine .perform_bind (does_createDirs hkey) ?_ ?_
  · rintro _ _ (⟨-, rfl⟩ | ⟨⟨_, _, ⟨⟩⟩, -⟩)
    refine .perform_bind (does_createTemp hkey) ?_ ?_
    · rintro _ _ (⟨name, hn, ⟨⟩, rfl⟩ | ⟨⟨⟩, -⟩ | ⟨⟨_, _, ⟨⟩⟩, -⟩)
      have hgiveUp {contents : Bytes} {e : FileError} (he : e.Textual) :
          Safe d root p (.save key value) (SaveEnds value)
            (do
              let _ ← FileProgram.inspect (.removeFile ((d.keyDirectory key).join [name]))
              throw e : ExceptT FileError FileProgram Unit).run
            (.temp key name contents) :=
        .inspect_bind (does_removeTemp hkey hn) fun _ _ _ => .inl he
      refine .inspect_bind (does_write hkey hn value) ?_
      rintro _ _ (⟨rfl, rfl⟩ | ⟨⟨e, he, rfl⟩, rfl⟩)
      · refine .inspect_bind (does_rename hk hn value) ?_
        rintro _ _ (⟨rfl, rfl⟩ | ⟨⟨e, he, rfl⟩, rfl⟩)
        · exact rfl
        · exact hgiveUp he
      · exact hgiveUp he
    · rintro e _ (⟨_, _, ⟨⟩, _⟩ | ⟨⟨⟩, rfl⟩ | ⟨⟨e', he, ⟨⟩⟩, -⟩)
      · exact .inr ⟨rfl, rfl⟩
      · exact .inl he
  · rintro e _ (⟨⟨⟩, -⟩ | ⟨⟨e', he, ⟨⟩⟩, -⟩)
    exact .inl he

theorem safe_save (value : Bytes) : Safe d root p (.save key value) (Ends (.save key value))
    ((Request.save key value).program d).run .nothing := by
  have hprogram : Safe d root p (.save key value) (SaveEnds value)
      (d.saveProgram key value).run .nothing := by
    have hkey : (Request.save key value).key.OneName := hk
    rw [saveProgram]
    refine .perform_bind (does_test hkey value) ?_ ?_
    · rintro _ _ (⟨⟨⟩, rfl⟩ | ⟨⟨⟩, rfl⟩)
      · exact rfl
      · exact safe_writeWhole hk value
    · rintro e _ (⟨⟨⟩, -⟩ | ⟨⟨⟩, -⟩)
  exact .bind hprogram (fun _ _ hend => hend) fun _ _ hend => hend

/-- Whatever is read is known to have been saved. -/
theorem safe_readAll {names : List String} (hnames : ∀ name ∈ names, ∃ value, name = fileName value)
    (values : List Bytes) : Safe d root p (.fetch key)
      (fun out h => ∃ known, h = .known known ∧ values ⊆ known ∧ out.1 ⊆ known)
      (readAll (d.keyDirectory key) names) (.known values) := by
  have hkey : (Request.fetch key).key.OneName := hk
  induction names generalizing values with
  | nil => exact ⟨values, rfl, List.Subset.refl _, List.nil_subset _⟩
  | cons name rest ih =>
    obtain ⟨⟨value, rfl⟩, hrest⟩ := List.forall_mem_cons.1 hnames
    rw [readAll]
    refine Does.mono (does_read hkey value values) ?_
    rintro answer h hread
    change Safe d root p _ _ (andThen (readAll (d.keyDirectory key) rest) _) h
    rcases hread with ⟨contents, rfl, rfl⟩ | ⟨e, rfl, rfl⟩
    · refine Safe.andThen (ih hrest (contents :: values)) ?_
      rintro ⟨later, unreadable⟩ _ ⟨known, rfl, hknown, hlater⟩
      obtain ⟨hcontents, hvalues⟩ := List.cons_subset.1 hknown
      exact ⟨known, rfl, hvalues, List.cons_subset.2 ⟨hcontents, hlater⟩⟩
    · refine Safe.andThen (ih hrest values) ?_
      rintro ⟨later, unreadable⟩ _ hknown
      cases e <;> exact hknown

theorem safe_fetch : Safe d root p (.fetch key) (Ends (.fetch key))
    ((Request.fetch key).program d).run .nothing := by
  have hprogram : Safe d root p (.fetch key)
      (fun answer h => Ends (.fetch key) (answer.map Prod.fst) h)
      (d.fetchProgram key).run .nothing := by
    have hkey : (Request.fetch key).key.OneName := hk
    rw [fetchProgram]
    refine .inspect_bind (does_list hkey) ?_
    rintro _ _ ⟨rfl, ⟨names, rfl, hnames⟩ | rfl | ⟨e, he, rfl⟩⟩
    · refine Safe.andThen (safe_readAll hk (fun name hname => ?_) []) ?_
      · obtain ⟨hname, hdot⟩ := List.mem_filter.1 hname
        exact hnames name hname (by simpa using hdot)
      · rintro out _ ⟨known, rfl, -, hout⟩
        exact ⟨known, rfl, hout⟩
    · exact ⟨[], rfl, List.nil_subset _⟩
    · rcases he with rfl | rfl
      · exact .inl rfl
      · exact .inr rfl
  exact .bind hprogram (fun _ _ hend => hend) fun _ _ hend => hend

theorem safe_delete (value : Bytes) : Safe d root p (.delete key value) (Ends (.delete key value))
    ((Request.delete key value).program d).run .nothing := by
  have hprogram : Safe d root p (.delete key value)
      (fun answer h => Ends (.delete key value) (answer.map fun _ => []) h)
      (d.deleteProgram key value).run .nothing := by
    rw [deleteProgram]
    refine .inspect_bind (does_removeFile hk value) ?_
    rintro _ _ ⟨rfl, rfl | rfl | ⟨e, he, rfl⟩⟩
    · exact .inspect_bind (does_removeDir hk value) fun _ _ _ => trivial
    · exact trivial
    · rcases he with rfl | rfl
      · exact .inl rfl
      · exact .inr rfl
  exact .bind hprogram (fun _ _ hend => hend) fun _ _ hend => hend

end Falsify
