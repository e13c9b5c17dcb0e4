import Mathlib.Data.Bool.AllAny
import Mathlib.Data.List.TakeWhile
import Mathlib.Data.String.Basic
import Falsify.Store.Directory

/-!
# The names of a store in a directory

The directory of a key is named by the key's text, and the file of a value by half of the value's
digest. Both are names that a path follows into a directory and nowhere else (`Path.Plain`): digits
in hexadecimal, and for the key the name of a corpus behind a dot. Different keys have different
texts (`Key.text_injective`).
-/

namespace Falsify

/-! ## Digits -/

/-- A character of one byte that is no end of a text. -/
def Narrow (c : Char) : Prop :=
  c.utf8Size = 1 ∧ c ≠ '\x00'

instance (c : Char) : Decidable (Narrow c) :=
  inferInstanceAs (Decidable (_ ∧ _))

namespace Text.Hex

/-- The digits as they are written. -/
def digits : List Char :=
  ['0', '1', '2', '3', '4', '5', '6', '7', '8', '9', 'a', 'b', 'c', 'd', 'e', 'f']

theorem digit_mem {n : Nat} (h : n < 16) : digit n ∈ digits := by
  have : ∀ n < 16, digit n ∈ digits := by decide
  exact this n h

theorem mem_digits_of_mem_encodeList {bytes : Bytes} {c : Char} (h : c ∈ encodeList bytes) :
    c ∈ digits := by
  obtain ⟨b, -, hc⟩ := List.mem_flatMap.1 h
  have hb := b.toNat_lt
  rcases List.mem_pair.1 hc with rfl | rfl
  · exact digit_mem (by omega)
  · exact digit_mem (by omega)

theorem narrow_digits : ∀ c ∈ digits, Narrow c ∧ c ≠ '.' ∧ c ≠ '/' :=
  List.all_iff_forall_prop.1 (by decide)

theorem narrow_of_mem_encodeList {bytes : Bytes} {c : Char} (h : c ∈ encodeList bytes) :
    Narrow c ∧ c ≠ '.' ∧ c ≠ '/' :=
  narrow_digits c (mem_digits_of_mem_encodeList h)

theorem length_encodeList (bytes : Bytes) : (encodeList bytes).length = 2 * bytes.length := by
  induction bytes with
  | nil => rfl
  | cons b rest ih =>
    simp only [encodeList, List.flatMap_cons, List.length_append, List.length_cons,
      List.length_nil] at ih ⊢
    omega

theorem encodeList_injective : Function.Injective encodeList := by
  intro bytes bytes' h
  have hd := decode_encode bytes
  rw [h, decode_encode bytes'] at hd
  exact (Except.ok.inj hd).symm

theorem encode_injective : Function.Injective encode := fun _ _ h =>
  encodeList_injective (String.ofList_injective h)

end Text.Hex

/-! ## Names -/

namespace Path

/-- A name that leads into a directory: it neither stays nor leads out, and it is short enough. -/
structure Plain (name : String) : Prop where
  goes : stays name = false
  inward : name ≠ ".."
  short : name.utf8ByteSize ≤ FileTree.maxNameLength
  noNul : '\x00' ∉ name.toList

end Path

theorem utf8Len_of_narrow {cs : List Char} (h : ∀ c ∈ cs, Narrow c) :
    String.utf8Len cs = cs.length := by
  induction cs with
  | nil => rfl
  | cons c rest ih =>
    rw [String.utf8Len_cons, ih fun c hc => h c (List.mem_cons_of_mem _ hc),
      (h c List.mem_cons_self).1, List.length_cons]

theorem utf8ByteSize_of_narrow {name : String} (h : ∀ c ∈ name.toList, Narrow c) :
    name.utf8ByteSize = name.toList.length := by
  rw [← utf8Len_of_narrow h, ← String.utf8ByteSize_ofList, String.ofList_toList]

theorem Path.goes_of_length {name : String} (h : 1 < name.toList.length) : stays name = false := by
  rw [stays, Bool.or_eq_false_iff, decide_eq_false_iff_not, Bool.eq_false_iff, Ne,
    String.isEmpty_iff]
  constructor <;> rintro rfl <;> exact absurd h (by decide)

theorem Path.plain_of_narrow {name : String} (h : ∀ c ∈ name.toList, Narrow c)
    (h₁ : 2 < name.toList.length) (h₂ : name.toList.length ≤ FileTree.maxNameLength) :
    Path.Plain name := by
  refine ⟨goes_of_length (by omega), ?_, utf8ByteSize_of_narrow h ▸ h₂, fun hc => (h _ hc).2 rfl⟩
  rintro rfl
  exact absurd h₁ (by decide)

/-! ## Keys -/

namespace Key

variable {key : Key}

theorem toList_text (key : Key) : key.text.toList =
    Text.Hex.encodeList key.fingerprint.toList ++
      (key.subKey.map fun sub => '.' :: sub.toList).getD [] := by
  unfold text
  split <;> rename_i h <;> simp [h, Text.Hex.encode]

/-- The first dot in a key's text is the one in front of the corpus. -/
theorem splitDot_text (key : Key) : splitDot key.text.toList =
    (Text.Hex.encodeList key.fingerprint.toList, key.subKey.map String.toList) := by
  have hdigits : ∀ c ∈ Text.Hex.encodeList key.fingerprint.toList, decide (c ≠ '.') = true :=
    fun c hc => decide_eq_true (Text.Hex.narrow_of_mem_encodeList hc).2.1
  rw [toList_text, splitDot, List.dropWhile_append_of_pos hdigits,
    List.takeWhile_append_of_pos hdigits]
  rcases key.subKey with _ | sub <;> simp

theorem text_injective : Function.Injective text := by
  intro key key' h
  have hsplit := (splitDot_text key).symm.trans (h ▸ splitDot_text key')
  obtain ⟨hdigits, hsub⟩ := Prod.mk.inj hsplit
  have hprint : key.fingerprint = key'.fingerprint :=
    Vector.toList_inj.1 (Text.Hex.encodeList_injective hdigits)
  have hsub := Option.map_injective (fun _ _ => String.toList_inj.1) hsub
  obtain ⟨_, _⟩ := key
  congr

/-- The text of the key is one name. -/
def OneName (key : Key) : Prop :=
  '/' ∉ key.text.toList

theorem le_length_text (key : Key) : 64 ≤ key.text.toList.length := by
  rw [toList_text, List.length_append, Text.Hex.length_encodeList, Vector.length_toList]
  exact Nat.le_add_right _ _

theorem oneName_of_subKey (h : ∀ sub, key.subKey = some sub → '/' ∉ sub.toList) : key.OneName := by
  rw [OneName, toList_text, List.mem_append]
  rintro (hc | hc)
  · exact (Text.Hex.narrow_of_mem_encodeList hc).2.2 rfl
  · rcases hsub : key.subKey with _ | sub <;> rw [hsub] at hc
    · cases hc
    · rcases List.mem_cons.1 hc with hc | hc
      · exact absurd hc (by decide)
      · exact h sub hsub hc

theorem goes_text (key : Key) : Path.stays key.text = false :=
  Path.goes_of_length (Nat.le_trans (by decide) key.le_length_text)

/-- The keys of the two corpora of tests. -/
def Filed (key : Key) : Prop :=
  key.subKey = none ∨ key.subKey = some "covering"

theorem Filed.length_text (h : key.Filed) :
    64 ≤ key.text.toList.length ∧ key.text.toList.length ≤ 73 := by
  rw [toList_text, List.length_append, Text.Hex.length_encodeList, Vector.length_toList]
  rcases h with h | h <;> rw [h] <;> decide

theorem Filed.narrow_text (h : key.Filed) : ∀ c ∈ key.text.toList, Narrow c ∧ c ≠ '/' := by
  have hsub : ∀ c ∈ ".covering".toList, Narrow c ∧ c ≠ '/' :=
    List.all_iff_forall_prop.1 (by decide)
  intro c hc
  rw [toList_text, List.mem_append] at hc
  rcases hc with hc | hc
  · obtain ⟨hnarrow, -, hslash⟩ := Text.Hex.narrow_of_mem_encodeList hc
    exact ⟨hnarrow, hslash⟩
  · rcases h with h | h <;> rw [h] at hc
    · cases hc
    · exact hsub c hc

theorem Filed.oneName (h : key.Filed) : key.OneName :=
  key.oneName_of_subKey fun sub hsub => by
    rcases h with h | h <;> cases h.symm.trans hsub
    decide

theorem Filed.plain_text (h : key.Filed) : Path.Plain key.text := by
  obtain ⟨hlower, hupper⟩ := h.length_text
  exact Path.plain_of_narrow (fun c hc => (h.narrow_text c hc).1) (by omega)
    (Nat.le_trans hupper (by decide))

theorem Filed.size_text (h : key.Filed) : key.text.utf8ByteSize ≤ 73 := by
  rw [utf8ByteSize_of_narrow fun c hc => (h.narrow_text c hc).1]
  exact h.length_text.2

end Key

namespace Directory

theorem namesOf_of_noSlash {cs : List Char} (h : ∀ c ∈ cs, c ≠ '/') : namesOf cs = [cs] := by
  induction cs with
  | nil => rfl
  | cons c rest ih =>
    rw [namesOf, ih fun c hc => h c (List.mem_cons_of_mem _ hc)]
    simp only [if_neg (h c List.mem_cons_self)]

theorem pathOf_text {key : Key} (h : key.OneName) : pathOf key.text = [key.text] := by
  have hname := key.goes_text
  rw [Path.stays, Bool.or_eq_false_iff] at hname
  rw [pathOf, namesOf_of_noSlash (List.forall_mem_ne'.2 h)]
  simp [hname.1]

/-- The name of a value's file. -/
def fileName (value : Bytes) : String :=
  Text.Hex.encode ((Sha256.digest value).toList.take 16)

theorem toList_fileName (value : Bytes) : (fileName value).toList =
    Text.Hex.encodeList ((Sha256.digest value).toList.take 16) :=
  String.toList_ofList

theorem length_fileName (value : Bytes) : (fileName value).toList.length = 32 := by
  rw [toList_fileName, Text.Hex.length_encodeList, List.length_take, Vector.length_toList]
  rfl

theorem narrow_fileName {value : Bytes} : ∀ c ∈ (fileName value).toList, Narrow c ∧ c ≠ '.' := by
  intro c hc
  rw [toList_fileName] at hc
  obtain ⟨hnarrow, hdot, -⟩ := Text.Hex.narrow_of_mem_encodeList hc
  exact ⟨hnarrow, hdot⟩

theorem plain_fileName (value : Bytes) : Path.Plain (fileName value) := by
  have hlength := length_fileName value
  exact Path.plain_of_narrow (fun c hc => (narrow_fileName c hc).1) (by omega)
    (by rw [hlength]; decide)

theorem size_fileName (value : Bytes) : (fileName value).utf8ByteSize = 32 := by
  rw [utf8ByteSize_of_narrow fun c hc => (narrow_fileName c hc).1, length_fileName]

theorem fileName_ne_tempName (value : Bytes) (n : Nat) :
    fileName value ≠ FileTree.tempName n := by
  intro h
  have hdot : '.' ∈ (fileName value).toList := by simp [h, FileTree.tempName]
  exact (narrow_fileName _ hdot).2 rfl

/-- The file of a value is no temporary one. -/
theorem startsWith_fileName (value : Bytes) : (fileName value).startsWith "." = false := by
  rw [Bool.eq_false_iff]
  intro h
  have hdot := (String.startsWith_string_iff.1 h).subset List.mem_cons_self
  exact (narrow_fileName _ hdot).2 rfl

end Directory

end Falsify
