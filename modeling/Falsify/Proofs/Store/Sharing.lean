import Falsify.Proofs.Store.Agreement
import Falsify.Proofs.Store.Stakes

/-!
# What processes that share a directory can count on

Any number of processes save, fetch and delete in one directory that was empty at first, and their
steps interleave in any way. What is fetched was saved, whole and under that key. What was saved
stays until a delete removes its file. Deletes may get in the way of a save, though: if the last
file of a key is deleted after the save has made the key's directory and before it makes a file in
it, the directory goes as well, and the save fails (`save_fails_beside_delete`).

* `Sharing`: what holds after every move, with a stake for each process;
* `Sharing.event`: one more event, from which `Sharing.take`, `Sharing.step` and `Sharing.answer`
  follow, and `Sharing.run` by induction;
* `processes_share`: the theorem;
* `save_fails_beside_delete`: a save that fails, and a value that is lost, by the delete of another
  one.
-/

namespace Falsify

open Directory FileTree FileProgram

/-! ## Histories -/

/-- The answer that the event gives goes with what happened before. -/
def Accounted (d : Directory) (before : List Event) : Event → Prop
  | .answered _ (.fetch key) (.ok values) => ∀ value ∈ values, Saved d before key value
  | .answered p (.save key value) (.error e) => e.Textual ∨ e = .notFound ∧
    ∃ earlier since, before = earlier ++ .took p (.save key value) :: since ∧
      (∀ r, .took p r ∉ since) ∧ Crossed d p (.save key value) since
  | .answered _ _ (.error e) => e.Textual
  | _ => True

variable {d : Directory} {root : Place} {p q : Nat} {r : Request} {t : FileTree} {s : Shared}
  {stake : Nat → Stake} {h : Stake} {e : Event} {key : Key} {value : Bytes}

/-- The last element of a list is the one in the middle, or it is behind it. -/
theorem append_cons_eq_concat {α : Type*} {l before after : List α} {x last : α}
    (heq : l ++ [last] = before ++ x :: after) : after = [] ∧ before = l ∧ x = last ∨
      ∃ after', after = after' ++ [last] ∧ l = before ++ x :: after' := by
  rcases List.eq_nil_or_concat' after with rfl | ⟨after', y, rfl⟩
  · obtain ⟨hl, hx⟩ := List.append_inj' heq rfl
    exact .inl ⟨rfl, hl.symm, (List.cons.inj hx).1.symm⟩
  · rw [← List.cons_append, ← List.append_assoc] at heq
    obtain ⟨hl, hx⟩ := List.append_inj' heq rfl
    exact .inr ⟨after', by rw [(List.cons.inj hx).1], hl⟩

/-! ## Every move -/

/-- A busy process has a stake that carries its program on; an idle one has none. -/
def Carried (d : Directory) (root : Place) (t : FileTree) (events : List Event) (p : Nat) :
    Option Task → Stake → Prop
  | none, h => h = .nothing
  | some task, h => ∃ before since, events = before ++ .took p task.request :: since ∧
    (∀ r, .took p r ∉ since) ∧ h.Holds d root p task.request ⟨t, events, since⟩ ∧
    Safe d root p task.request (Ends task.request) task.rest h

/-- What holds after every move: the tree is sound, all busy processes have their stakes, no two of
them in one temporary file, answers go with what happened before, and what was saved is kept. -/
structure Sharing (d : Directory) (root : Place) (s : Shared) (stake : Nat → Stake) : Prop where
  sound : Sound d root s.tree s.events
  carried : ∀ p, Carried d root s.tree s.events p (s.tasks p) (stake p)
  apart : ∀ p q place, (stake p).place? root = some place → (stake q).place? root = some place →
    p = q
  accounted : ∀ before e after, s.events = before ++ e :: after → Accounted d before e
  kept : ∀ before p key value values after,
    s.events = before ++ .answered p (.save key value) (.ok values) :: after →
    ∃ earlier e later, before = earlier ++ e :: later ∧ e.Secures d p (.save key value) value ∧
      (∀ r, .took p r ∉ later) ∧
      Remains d root s.tree (later ++ .answered p (.save key value) (.ok values) :: after) key value

theorem Carried.spared {events : List Event} {task? : Option Task}
    (hc : Carried d root t events q task? h) {own : Option Place} {t' : FileTree}
    (hs : Spares d root own t t' e) (hother : e.process ≠ q)
    (hown : ∀ place, h.place? root = some place → own ≠ some place) :
    Carried d root t' (events ++ [e]) q task? h := by
  cases task? with
  | none => exact hc
  | some task =>
    obtain ⟨before, since, rfl, hlast, hholds, hsafe⟩ := hc
    refine ⟨before, since ++ [e], by simp, fun r hr => ?_, hholds.spared hs hother hown, hsafe⟩
    rcases List.mem_append.1 hr with hr | hr
    · exact hlast r hr
    · rw [← List.mem_singleton.1 hr] at hother
      exact hother rfl

/-- A temporary file that belongs to a process is there. -/
theorem Carried.exists_of_place? {events : List Event} {task? : Option Task}
    (hc : Carried d root t events q task? h) {place : Place} (hq : h.place? root = some place) :
    ∃ e, t.entry? place = some e := by
  cases task? with
  | none =>
    rw [show h = .nothing from hc] at hq
    cases hq
  | some task =>
    obtain ⟨_, _, _, _, hholds, _⟩ := hc
    cases h <;> cases hq
    exact ⟨_, hholds.2⟩

namespace Sharing

theorem start (hs : Sound d root t []) : Sharing d root (Shared.start t) fun _ => .nothing where
  sound := hs
  carried _ := rfl
  apart _ _ _ := nofun
  accounted _ _ _ heq := by simp [Shared.start] at heq
  kept _ _ _ _ _ _ heq := by simp [Shared.start] at heq

/-- One event, by which one process changes the tree, its task and its stake. -/
theorem event (hi : Sharing d root s stake) {t' : FileTree} {task? : Option Task}
    (hsound : Sound d root t' (s.events ++ [e]))
    (hspares : Spares d root ((stake e.process).place? root) s.tree t' e)
    (hfresh : ∀ place, h.place? root = some place →
      (stake e.process).place? root = some place ∨ s.tree.entry? place = none)
    (hcarried : Carried d root t' (s.events ++ [e]) e.process task? h)
    (haccounted : Accounted d s.events e)
    (hkept : ∀ p key value values, e = .answered p (.save key value) (.ok values) →
      ∃ earlier e' later, s.events = earlier ++ e' :: later ∧
        e'.Secures d p (.save key value) value ∧ (∀ r, .took p r ∉ later) ∧
        Remains d root t' (later ++ [e]) key value) :
    Sharing d root ⟨t', Function.update s.tasks e.process task?, s.events ++ [e]⟩
      (Function.update stake e.process h) where
  sound := hsound
  carried q := by
    dsimp only
    by_cases hp : q = e.process
    · rw [hp, Function.update_self, Function.update_self]
      exact hcarried
    · rw [Function.update_of_ne hp, Function.update_of_ne hp]
      exact (hi.carried q).spared hspares (Ne.symm hp) fun place hplace hown =>
        hp (hi.apart _ _ place hplace hown)
  apart := by
    -- A file that is new to the process was there for no other one.
    have hnew : ∀ q place, q ≠ e.process → h.place? root = some place →
        (stake q).place? root ≠ some place := by
      intro q place hne hp hq
      rcases hfresh place hp with hp | hnone
      · exact hne (hi.apart _ _ place hq hp)
      · obtain ⟨e', he'⟩ := (hi.carried q).exists_of_place? hq
        rw [hnone] at he'
        cases he'
    intro q q' place hq hq'
    by_cases hp : q = e.process <;> by_cases hp' : q' = e.process
    · rw [hp, hp']
    · rw [hp, Function.update_self] at hq
      rw [Function.update_of_ne hp'] at hq'
      exact absurd hq' (hnew q' place hp' hq)
    · rw [Function.update_of_ne hp] at hq
      rw [hp', Function.update_self] at hq'
      exact absurd hq (hnew q place hp hq')
    · rw [Function.update_of_ne hp] at hq
      rw [Function.update_of_ne hp'] at hq'
      exact hi.apart q q' place hq hq'
  accounted before e' after heq := by
    rcases append_cons_eq_concat heq with ⟨rfl, rfl, rfl⟩ | ⟨after', rfl, hold⟩
    · exact haccounted
    · exact hi.accounted before e' after' hold
  kept before q key value values after heq := by
    rcases append_cons_eq_concat heq with ⟨rfl, rfl, rfl⟩ | ⟨after', rfl, hold⟩
    · exact hkept q key value values rfl
    · obtain ⟨earlier, e', later, hbefore, hsecures, hlast, hkept⟩ :=
        hi.kept before q key value values after' hold
      refine ⟨earlier, e', later, hbefore, hsecures, hlast, ?_⟩
      rw [← List.cons_append, ← List.append_assoc]
      exact hkept.step hspares

/-- A process takes on a request. -/
theorem take (hi : Sharing d root s stake) (p : Nat) (hk : r.key.OneName) :
    Sharing d root (s.take d p r) (Function.update stake p .nothing) := by
  refine hi.event (hi.sound.append [.took p r]) (.refl _ _ _) (fun _ => nofun) ?_ trivial
    fun _ _ _ _ => nofun
  refine ⟨s.events, [], rfl, fun _ => List.not_mem_nil, trivial, ?_⟩
  cases r with
  | save key value => exact safe_save hk value
  | fetch key => exact safe_fetch hk
  | delete key value => exact safe_delete hk value

/-- A process is done: what its program ends with is what its stake says. -/
theorem answer (hi : Sharing d root s stake) {answer : Answer}
    (hp : s.tasks p = some ⟨r, .done answer⟩) :
    Sharing d root (s.advance p r (.done answer)) (Function.update stake p .nothing) := by
  have hcarried := hi.carried p
  rw [hp] at hcarried
  obtain ⟨before, since, heq, hlast, hholds, hend⟩ := hcarried
  refine hi.event (hi.sound.append [.answered p r answer]) (.refl _ _ _) (fun _ => nofun) rfl ?_ ?_
  · rcases r with ⟨key, value⟩ | key | ⟨key, value⟩ <;> rcases answer with e | values
    · refine Or.imp_right (fun ⟨he, hstake⟩ => ⟨he, before, since, heq, hlast, ?_⟩) hend
      rw [hstake] at hholds
      exact hholds
    · exact trivial
    · exact hend
    · obtain ⟨known, hstake, hvalues⟩ := hend
      rw [hstake] at hholds
      exact fun value hv => hholds value (hvalues hv)
    · exact hend
    · exact trivial
  · rintro _ key value values ⟨⟩
    rw [show stake p = .secured value from hend] at hholds
    obtain ⟨earlier, e, later, rfl, hsecures, hkept⟩ := hholds
    refine ⟨before ++ .took p (.save key value) :: earlier, e, later, by simp [heq], hsecures,
      fun r hr => hlast r (by simp [hr]), hkept.step (.refl none _ _)⟩

/-- A process takes a step. -/
theorem step (hi : Sharing d root s stake) {β : Type} {op : FileOp β}
    {next : Except FileError β → FileProgram Answer} (hp : s.tasks p = some ⟨r, .step op next⟩) :
    ∃ h, Sharing d root (s.advance p r (.step op next)) (Function.update stake p h) := by
  have hcarried := hi.carried p
  rw [hp] at hcarried
  obtain ⟨before, since, heq, hlast, hholds, hsafe⟩ := hcarried
  -- What the program makes of its stake holds of any tree, so of the one that others have left.
  obtain ⟨h, hturns, hnext⟩ := hsafe ⟨s.tree, s.events, since⟩ hi.sound hholds
  let e : Event := .stepped p r op (s.tree.perform op).1
  refine ⟨h, hi.event (e := e) hturns.sound hturns.spares hturns.fresh ?_ trivial
    fun _ _ _ _ => nofun⟩
  refine ⟨before, since ++ [e], ?_, fun r' hr' => ?_, hturns.holds, hnext⟩
  · rw [heq, List.append_assoc, List.cons_append]
    rfl
  · rcases List.mem_append.1 hr' with hr' | hr'
    · exact hlast r' hr'
    · have he : Event.took p r' = .stepped p r op (s.tree.perform op).1 := List.mem_singleton.1 hr'
      cases he

theorem move (hi : Sharing d root s stake) {m : Move}
    (hm : ∀ r, m.request? = some r → r.key.OneName) :
    ∃ stake', Sharing d root (s.move d m) stake' := by
  cases m with
  | take p r =>
    rw [Shared.move]
    split
    · exact ⟨_, hi.take p (hm r rfl)⟩
    · exact ⟨stake, hi⟩
  | go p =>
    rw [Shared.move]
    split
    · exact ⟨stake, hi⟩
    · rename_i task hp
      rcases task with ⟨r, answer | ⟨op, next⟩⟩
      · exact ⟨_, hi.answer hp⟩
      · obtain ⟨h, hi'⟩ := hi.step hp
        exact ⟨_, hi'⟩

/-- All moves, by induction on them. -/
theorem run (hi : Sharing d root s stake) {moves : List Move}
    (hmoves : ∀ m ∈ moves, ∀ r, m.request? = some r → r.key.OneName) :
    ∃ stake', Sharing d root (s.run d moves) stake' := by
  induction moves generalizing s stake with
  | nil => exact ⟨stake, hi⟩
  | cons m rest ih =>
    obtain ⟨hm, hrest⟩ := List.forall_mem_cons.1 hmoves
    obtain ⟨stake', hi'⟩ := hi.move hm
    exact ih hi' hrest

end Sharing

/-! ## Whole runs -/

theorem sound_of_bare (ha : t.Anchored d.base root) (hb : t.Bare root) : Sound d root t [] := by
  have hnone (name : String) (names : List String) : t.entry? (root ++ name :: names) = none :=
    hb _ ⟨_, _, rfl⟩
  refine ⟨ha, fun name contents he => ?_, fun name name' e he => ?_,
    fun key name contents he => ?_⟩ <;> rw [hnone] at he <;> cases he

/-- What processes that share the store can count on. -/
structure Orderly (d : Directory) (root : Place) (s : Shared) : Prop where
  /-- What is fetched is a whole value that was saved under the key before. -/
  whole : ∀ before p key values after,
    s.events = before ++ .answered p (.fetch key) (.ok values) :: after →
    ∀ value ∈ values, Saved d before key value
  /-- A save that was a success has found the file of the value or has put it in its place. Since
  then the file is there, with a value of that file name that was saved under the key, unless a
  delete of such a value has removed it. -/
  kept : ∀ before p key value values after,
    s.events = before ++ .answered p (.save key value) (.ok values) :: after →
    ∃ earlier e later, before = earlier ++ e :: later ∧ e.Secures d p (.save key value) value ∧
      (∀ r, .took p r ∉ later) ∧
      ((∃ contents, Saved d s.events key contents ∧ fileName value = fileName contents ∧
        s.tree.entry? (root ++ [key.text, fileName value]) = some (.file contents)) ∨
      ∃ e ∈ later ++ .answered p (.save key value) (.ok values) :: after, e.Removes d key value)
  /-- If a save fails, the text of its path is at fault, or the directory that it made was removed
  by another process's delete before there was a file in it. -/
  failed : ∀ before p key value e after,
    s.events = before ++ .answered p (.save key value) (.error e) :: after →
    (e = .nameTooLong ∨ e = .badName) ∨ e = .notFound ∧
      ∃ earlier since, before = earlier ++ .took p (.save key value) :: since ∧
        (∀ r, .took p r ∉ since) ∧ Crossed d p (.save key value) since
  /-- If something else fails, the text of its path is at fault. -/
  faulty : ∀ p r e, .answered p r (.error e) ∈ s.events → (∀ key value, r ≠ .save key value) →
    e = .nameTooLong ∨ e = .badName

theorem Sharing.orderly (hi : Sharing d root s stake) : Orderly d root s where
  whole before _ key values after heq := hi.accounted before _ after heq
  kept before p key value values after heq := by
    obtain ⟨earlier, e, later, hbefore, hsecures, hlast, hkept⟩ :=
      hi.kept before p key value values after heq
    refine ⟨earlier, e, later, hbefore, hsecures, hlast, hkept.imp_left fun ⟨contents, he⟩ => ?_⟩
    obtain ⟨hname, hsaved⟩ := hi.sound.whole key _ contents he (startsWith_fileName value)
    exact ⟨contents, hsaved, hname, he⟩
  failed before _ _ _ _ after heq := hi.accounted before _ after heq
  faulty p r e he hr := by
    obtain ⟨before, after, heq⟩ := List.append_of_mem he
    have haccounted := hi.accounted before _ after heq
    cases r with
    | save key value => exact absurd rfl (hr key value)
    | fetch key => exact haccounted
    | delete key value => exact haccounted

/-- Processes share the directory of a store that was opened and found empty. However their steps
interleave and wherever some of them stop, they race for entries only, but for one thing: a save
fails if the directory of its key is removed before there is a file in it. No sub-key has a slash,
as a key that has one may lead into the directory of another one. -/
theorem processes_share {path : String} {tree : FileTree} {log : Log} {b : Backend FileTree}
    {st : Storage FileTree} (hopen : openDirectory path ⟨tree, log⟩ = (.ok b, st))
    (hroot : st.contents.resolve (pathOf path) = .ok root) (hempty : st.contents.listing root = [])
    {moves : List Move} (hkeys : ∀ m ∈ moves, ∀ r, m.request? = some r →
      ∀ sub, r.key.subKey = some sub → '/' ∉ sub.toList) :
    Orderly ⟨pathOf path⟩ root ((Shared.start st.contents).run ⟨pathOf path⟩ moves) := by
  obtain ⟨-, root', hlocate⟩ := openDirectory_eq_ok hopen
  obtain rfl : root' = root := Except.ok.inj ((of_locate hlocate).1.symm.trans hroot)
  have hbare := bare_of_listing hempty
  have hsound : Sound ⟨pathOf path⟩ root' st.contents [] :=
    sound_of_bare (anchored_of_bare hlocate hbare) hbare
  obtain ⟨stake, hi⟩ := (Sharing.start hsound).run fun m hm r hr =>
    Key.oneName_of_subKey (hkeys m hm r hr)
  exact hi.orderly

/-- The steps of one process that nobody disturbs. -/
def Move.alone (p : Nat) (r : Request) (steps : Nat) : List Move :=
  .take p r :: List.replicate steps (.go p)

theorem processes_share_racing :
    let key : Key := ⟨Vector.replicate 32 0, none⟩
    let moves := Move.alone 1 (.save key [2]) 6 ++ Move.alone 0 (.save key [1]) 2 ++
      Move.alone 1 (.delete key [2]) 3 ++ [.go 0, .go 0]
    ∃ b st, openDirectory "db" ⟨.empty, #[]⟩ = (.ok b, st) ∧
      st.contents.resolve (pathOf "db") = .ok ["db"] ∧ st.contents.listing ["db"] = [] ∧
      (∀ m ∈ moves, ∀ r, m.request? = some r →
        ∀ sub, r.key.subKey = some sub → '/' ∉ sub.toList) ∧
      Orderly ⟨pathOf "db"⟩ ["db"] ((Shared.start st.contents).run ⟨pathOf "db"⟩ moves) := by
  intro key moves
  have hopen : openDirectory "db" ⟨.empty, #[]⟩ =
      (.ok (Directory.mk ["db"]).backend, ⟨⟨[(["db"], .directory)]⟩, #[]⟩) := rfl
  have hroot : (FileTree.mk [(["db"], .directory)]).resolve (pathOf "db") = .ok ["db"] := by
    decide +kernel
  have hempty : (FileTree.mk [(["db"], .directory)]).listing ["db"] = [] := by decide +kernel
  have hkeys : ∀ m ∈ moves, ∀ r, m.request? = some r →
      ∀ sub, r.key.subKey = some sub → '/' ∉ sub.toList := by
    intro m hm r hr sub hsub
    have hnone : ∀ m ∈ moves, (m.request?.bind fun r => r.key.subKey) = none := by decide +kernel
    have := hnone m hm
    rw [hr, Option.bind_some, hsub] at this
    cases this
  exact ⟨_, _, hopen, hroot, hempty, hkeys, processes_share hopen hroot hempty hkeys⟩

/-- A save fails as another value is deleted: between two steps of the save the last file of the key
goes, and with it the directory. And a value is lost as another one is deleted: a sub-key with a
slash has led through the directory that goes. -/
theorem save_fails_beside_delete :
    let key : Key := ⟨Vector.replicate 32 0, none⟩
    let inner := key.withSubKey "x"
    let outer := key.withSubKey "x/.."
    let s := Shared.start ⟨[(["db"], .directory)]⟩
    (s.run ⟨["db"]⟩ (Move.alone 1 (.save key [2]) 6 ++ Move.alone 0 (.save key [1]) 2 ++
        Move.alone 1 (.delete key [2]) 3 ++ [.go 0, .go 0])).answers =
      [(1, .save key [2], .ok []), (1, .delete key [2], .ok []),
        (0, .save key [1], .error .notFound)] ∧
    (s.run ⟨["db"]⟩ (Move.alone 0 (.save outer [1]) 6 ++ Move.alone 1 (.save inner [2]) 6 ++
        Move.alone 1 (.delete inner [2]) 3 ++ Move.alone 0 (.fetch outer) 2)).answers =
      [(0, .save outer [1], .ok []), (1, .save inner [2], .ok []), (1, .delete inner [2], .ok []),
        (0, .fetch outer, .ok [])] := by
  intro key inner outer s
  exact ⟨by decide +kernel, by decide +kernel⟩

end Falsify
