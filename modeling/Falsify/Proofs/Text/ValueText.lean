import Std.Data.String.ToInt
import Falsify.Value

/-!
# Reading values off their texts

A value can be read off its text, and so can the place where the text ends: its first character
tells what kind of value it is, a number goes on as far as its characters do, a list and a tuple
as far as their closing bracket, and what follows an element is either a comma and a blank or the
end of the elements. A tuple of one element ends with a comma too, but with no blank behind it.

* `number_append_inj`: a number and what follows it;
* `kind_eq`: values whose texts begin alike are of one kind;
* `Readable`: a value is told apart from all others by its text, whatever follows;
* `elements_append_inj`: elements that are readable can be read one after another;
* `readable`: all values are readable;
* `text_inj`: the theorem.
-/

namespace Falsify.Value

/-! ## Numbers -/

/-- The characters of numbers. -/
def inNumber (c : Char) : Bool :=
  c == '-' || c.isDigit

/-- A text that no number goes on into. -/
def Stops (cs : List Char) : Prop :=
  ∀ c ∈ cs.head?, inNumber c = false

theorem inNumber_of_mem_repr {n : Int} {c : Char} (h : c ∈ n.repr.toList) : inNumber c = true := by
  have hdigits {k : Nat} (hk : c ∈ k.repr.toList) : inNumber c = true := by
    rw [Nat.toList_repr] at hk
    rw [inNumber, Nat.isDigit_of_mem_toDigits (by decide) (by decide) hk, Bool.or_true]
  rw [Int.repr_eq_if] at h
  split at h
  · exact hdigits h
  · rw [String.toList_append, List.mem_append] at h
    rcases h with h | h
    · rw [List.mem_singleton.1 h]
      rfl
    · exact hdigits h

theorem repr_ne_nil (n : Int) : n.repr.toList ≠ [] := by
  rw [Int.repr_eq_if]
  split
  · exact fun h => Nat.repr_ne_empty (String.toList_eq_nil_iff.1 h)
  · rw [String.toList_append]
    exact List.cons_ne_nil _ _

theorem takeWhile_inNumber {cs : List Char} (n : Int) (h : Stops cs) :
    (n.repr.toList ++ cs).takeWhile inNumber = n.repr.toList := by
  rw [List.takeWhile_append_of_pos fun _ => inNumber_of_mem_repr]
  cases cs with
  | nil => exact List.append_nil _
  | cons c rest => rw [List.takeWhile_cons_of_neg (Bool.eq_false_iff.1 (h c rfl)), List.append_nil]

/-- A number goes on as far as its characters do. -/
theorem number_append_inj {n m : Int} {s t : List Char} (hs : Stops s) (ht : Stops t)
    (h : n.repr.toList ++ s = m.repr.toList ++ t) : n = m ∧ s = t := by
  have hchars : n.repr.toList = m.repr.toList := by
    rw [← takeWhile_inNumber n hs, h, takeWhile_inNumber m ht]
  exact ⟨Int.repr_inj.1 (String.toList_inj.1 hchars), List.append_cancel_left (hchars ▸ h)⟩

/-! ## Kinds of values -/

inductive Kind where
  | number
  | truth
  | list
  | tuple

def kind : Value → Kind
  | .integer _ => .number
  | .boolean _ => .truth
  | .list _ => .list
  | .tuple _ => .tuple

/-- The kind of values whose texts begin with a character. -/
def kindOf (c : Char) : Option Kind :=
  if inNumber c then some .number
  else if c = 't' ∨ c = 'f' then some .truth
  else if c = '[' then some .list
  else if c = '(' then some .tuple
  else none

/-- The text of a tuple behind its elements. -/
def closing : List Value → List Char
  | [_] => [',', ')']
  | _ => [')']

theorem chars_integer (n : Int64) : chars (.integer n) = n.toInt.repr.toList := by
  rw [chars, Int.toString_eq_repr]

theorem chars_list (items : List Value) :
    chars (.list items) = '[' :: (commaSpaced (itemChars items) ++ [']']) := by
  rw [chars]
  rfl

theorem chars_tuple (items : List Value) :
    chars (.tuple items) = '(' :: (commaSpaced (itemChars items) ++ closing items) := by
  rcases items with _ | ⟨item, _ | ⟨item', rest⟩⟩
  all_goals simp [chars, itemChars, commaSpaced, closing]

/-- The first character of a text tells the kind of the value. -/
theorem head_chars (v : Value) : ∃ c rest, v.chars = c :: rest ∧ kindOf c = some v.kind := by
  cases v with
  | integer n =>
    rcases hchars : n.toInt.repr.toList with _ | ⟨c, rest⟩
    · exact absurd hchars (repr_ne_nil _)
    · have hc : inNumber c = true := inNumber_of_mem_repr (hchars ▸ List.mem_cons_self)
      exact ⟨c, rest, (chars_integer n).trans hchars, if_pos hc⟩
  | boolean b => cases b <;> exact ⟨_, _, rfl, rfl⟩
  | list items => exact ⟨_, _, chars_list items, rfl⟩
  | tuple items => exact ⟨_, _, chars_tuple items, rfl⟩

theorem kind_eq {v w : Value} {s t : List Char} (h : v.chars ++ s = w.chars ++ t) :
    v.kind = w.kind := by
  obtain ⟨c, rest, hv, hc⟩ := head_chars v
  obtain ⟨c', rest', hw, hc'⟩ := head_chars w
  rw [hv, hw] at h
  obtain rfl : c = c' := (List.cons.inj h).1
  exact Option.some.inj (hc.symm.trans hc')

/-! ## Elements -/

/-- A value is told apart from all others by its text, whatever follows, as long as no number goes
on into it. -/
def Readable (v : Value) : Prop :=
  ∀ w s t, Stops s → Stops t → v.chars ++ s = w.chars ++ t → v = w ∧ s = t

/-- A text in which elements do not go on: it begins with something, but neither with a value nor
with a comma and a blank. -/
structure Ends (cs : List Char) : Prop where
  head : ∃ c ∈ cs.head?, kindOf c = none
  separate : ¬ [',', ' '] <+: cs

theorem Ends.stops {cs : List Char} (h : Ends cs) : Stops cs := by
  obtain ⟨c, hc, hkind⟩ := h.head
  intro c' hc'
  obtain rfl := Option.mem_unique hc hc'
  rw [kindOf] at hkind
  split at hkind
  · cases hkind
  · exact Bool.eq_false_iff.2 ‹_›

/-- The text of the elements behind the first one. -/
def following : List Value → List Char
  | [] => []
  | v :: vs => ',' :: ' ' :: (v.chars ++ following vs)

theorem commaSpaced_cons (v : Value) (vs : List Value) :
    commaSpaced (itemChars (v :: vs)) = v.chars ++ following vs := by
  induction vs generalizing v with
  | nil => simp [itemChars, commaSpaced, following]
  | cons w ws ih =>
    rw [following, ← ih w]
    rfl

theorem Ends.ne_chars {cs : List Char} (h : Ends cs) (v : Value) (rest : List Char) :
    cs ≠ v.chars ++ rest := by
  rintro rfl
  obtain ⟨c, hc, hkind⟩ := h.head
  obtain ⟨c', rest', hv, hc'⟩ := head_chars v
  rw [hv] at hc
  cases hc
  rw [hkind] at hc'
  cases hc'

theorem following_stops {vs : List Value} {s : List Char} (hs : Ends s) :
    Stops (following vs ++ s) := by
  cases vs with
  | nil => exact hs.stops
  | cons v vs =>
    intro c hc
    cases hc
    rfl

theorem following_append_inj {vs : List Value} (hvs : ∀ v ∈ vs, Readable v) {ws : List Value}
    {s t : List Char} (hs : Ends s) (ht : Ends t) (h : following vs ++ s = following ws ++ t) :
    vs = ws ∧ s = t := by
  induction vs generalizing ws with
  | nil =>
    cases ws with
    | nil => exact ⟨rfl, h⟩
    | cons w ws =>
      -- One text goes on with a comma and a blank where the other has ended.
      exact absurd ⟨_, h.symm⟩ hs.separate
  | cons v vs ih =>
    cases ws with
    | nil => exact absurd ⟨_, h⟩ ht.separate
    | cons w ws =>
      obtain ⟨hv, hrest⟩ := List.forall_mem_cons.1 hvs
      have htail : v.chars ++ (following vs ++ s) = w.chars ++ (following ws ++ t) := by
        simpa [following] using h
      obtain ⟨rfl, hnext⟩ := hv w _ _ (following_stops hs) (following_stops ht) htail
      obtain ⟨rfl, hst⟩ := ih hrest hnext
      exact ⟨rfl, hst⟩

/-- Readable elements can be read one after another, and so can the place where they end. -/
theorem elements_append_inj {vs : List Value} (hvs : ∀ v ∈ vs, Readable v) {ws : List Value}
    {s t : List Char} (hs : Ends s) (ht : Ends t)
    (h : commaSpaced (itemChars vs) ++ s = commaSpaced (itemChars ws) ++ t) : vs = ws ∧ s = t := by
  cases vs with
  | nil =>
    cases ws with
    | nil => exact ⟨rfl, h⟩
    | cons w ws =>
      rw [commaSpaced_cons, List.append_assoc] at h
      exact absurd h (hs.ne_chars w _)
  | cons v vs =>
    cases ws with
    | nil =>
      rw [commaSpaced_cons, List.append_assoc] at h
      exact absurd h.symm (ht.ne_chars v _)
    | cons w ws =>
      obtain ⟨hv, hrest⟩ := List.forall_mem_cons.1 hvs
      rw [commaSpaced_cons, commaSpaced_cons, List.append_assoc, List.append_assoc] at h
      obtain ⟨rfl, hnext⟩ := hv w _ _ (following_stops hs) (following_stops ht) h
      obtain ⟨rfl, hst⟩ := following_append_inj hrest hs ht hnext
      exact ⟨rfl, hst⟩

/-! ## Values -/

theorem readable_integer (n : Int64) : Readable (.integer n) := by
  intro w s t hs ht h
  cases w with
  | integer m =>
    rw [chars_integer, chars_integer] at h
    obtain ⟨hn, hst⟩ := number_append_inj hs ht h
    exact ⟨congrArg integer (Int64.toInt_inj.1 hn), hst⟩
  | _ => cases kind_eq h

theorem readable_boolean (b : Bool) : Readable (.boolean b) := by
  intro w s t _ _ h
  cases w with
  | boolean b' =>
    have hb : b = b' :=
      match b, b', h with
      | false, false, _ => rfl
      | true, true, _ => rfl
      | false, true, h => absurd (List.cons.inj h).1 (by decide)
      | true, false, h => absurd (List.cons.inj h).1 (by decide)
    rw [← hb] at h ⊢
    exact ⟨rfl, List.append_cancel_left h⟩
  | _ => cases kind_eq h

theorem ends_bracket (s : List Char) : Ends (']' :: s) :=
  ⟨⟨']', rfl, rfl⟩, by simp⟩

theorem readable_list {items : List Value} (hitems : ∀ v ∈ items, Readable v) :
    Readable (.list items) := by
  intro w s t _ _ h
  cases w with
  | list items' =>
    simp only [chars_list, List.cons_append, List.append_assoc, List.nil_append] at h
    obtain ⟨rfl, hst⟩ :=
      elements_append_inj hitems (ends_bracket s) (ends_bracket t) (List.cons.inj h).2
    exact ⟨rfl, (List.cons.inj hst).2⟩
  | _ => cases kind_eq h

/-- What closes a tuple ends its elements: no blank follows the comma of a single one. -/
theorem ends_closing (items : List Value) (s : List Char) : Ends (closing items ++ s) := by
  rcases items with _ | ⟨item, _ | ⟨item', rest⟩⟩
  · exact ⟨⟨')', rfl, rfl⟩, by simp [closing]⟩
  · exact ⟨⟨',', rfl, rfl⟩, by simp [closing]⟩
  · exact ⟨⟨')', rfl, rfl⟩, by simp [closing]⟩

theorem readable_tuple {items : List Value} (hitems : ∀ v ∈ items, Readable v) :
    Readable (.tuple items) := by
  intro w s t _ _ h
  cases w with
  | tuple items' =>
    simp only [chars_tuple, List.cons_append, List.append_assoc] at h
    obtain ⟨rfl, hst⟩ := elements_append_inj hitems (ends_closing items s)
      (ends_closing items' t) (List.cons.inj h).2
    exact ⟨rfl, List.append_cancel_left hst⟩
  | _ => cases kind_eq h

mutual

/-- All values are readable, by induction on their elements. -/
theorem readable : (v : Value) → Readable v
  | .integer n => readable_integer n
  | .boolean b => readable_boolean b
  | .list items => readable_list (readable_elements items)
  | .tuple items => readable_tuple (readable_elements items)

theorem readable_elements : (items : List Value) → ∀ v ∈ items, Readable v
  | [] => nofun
  | v :: rest => List.forall_mem_cons.2 ⟨readable v, readable_elements rest⟩

end

/-- The text of a value tells it apart from all other values. -/
theorem text_inj (v w : Value) : v.text = w.text ↔ v = w := by
  refine ⟨fun h => ?_, congrArg text⟩
  have hchars : v.chars = w.chars := String.ofList_inj.1 h
  have hnone : Stops [] := nofun
  exact (readable v w [] [] hnone hnone (congrArg (· ++ []) hchars)).1

end Falsify.Value
