import Mathlib.Algebra.Group.Nat.Defs
import Mathlib.Data.List.TakeWhile

/-! # Text

    The string methods of the language, on strings of characters.

    * **Prefixes**: `startswith` and `removeprefix`.
    * **Separators**: `partition` at the first separator; its parts are the
      only way to write the text around a separator the first part lacks.
    * **Characters**: `isascii` and `replace`.
    * **Numbers**: `zfill`, the digits of a number with leading zeros, which
      are read back as the number.
-/

namespace Text

/-! ## Prefixes -/

/-- `s.startswith(prefix)`. -/
def startswith (s p : String) : Bool := p.toList.isPrefixOf s.toList

/-- `s.removeprefix(prefix)`. -/
def removeprefix (s p : String) : String :=
  if startswith s p then String.ofList (s.toList.drop p.toList.length) else s

theorem startswith_append (p t : String) : startswith (p ++ t) p = true := by
  unfold startswith
  rw [String.toList_append]
  exact List.isPrefixOf_iff_prefix.mpr (List.prefix_append _ _)

@[simp] theorem removeprefix_append (p t : String) : removeprefix (p ++ t) p = t := by
  unfold removeprefix
  rw [if_pos (startswith_append p t), String.toList_append, List.drop_left, String.ofList_toList]

/-- A text with the prefix is the prefix and the rest. -/
theorem append_removeprefix {s p : String} (h : startswith s p = true) :
    p ++ removeprefix s p = s := by
  obtain ⟨t, ht⟩ := List.isPrefixOf_iff_prefix.mp h
  have hs : s = p ++ String.ofList t := by
    apply String.toList_inj.mp
    rw [String.toList_append, String.toList_ofList, ht]
  rw [hs, removeprefix_append]

/-! ## Separators -/

/-- `s.partition(sep)`: what comes before the first separator, the separator
    if there is one, and what comes after it. -/
def partition (s : String) (sep : Char) : String × String × String :=
  (String.ofList (s.toList.takeWhile (· ≠ sep)),
    String.ofList ((s.toList.dropWhile (· ≠ sep)).take 1),
    String.ofList ((s.toList.dropWhile (· ≠ sep)).drop 1))

/-- The first part lacks the separator. -/
theorem notMem_partition (s : String) (sep : Char) : sep ∉ (partition s sep).1.toList := by
  unfold partition
  rw [String.toList_ofList]
  intro hmem
  have hne := List.mem_takeWhile_imp hmem
  simp at hne

/-- Around a separator that the first part lacks. -/
theorem partition_append {sep : Char} {t a : String} (b : String) (ht : t.toList = [sep])
    (h : sep ∉ a.toList) : partition (a ++ t ++ b) sep = (a, t, b) := by
  have hne : ∀ c ∈ a.toList, decide (c ≠ sep) = true := by
    intro c hc
    simp only [decide_eq_true_eq]
    rintro rfl
    exact h hc
  obtain rfl : t = String.ofList [sep] := by rw [← ht, String.ofList_toList]
  unfold partition
  simp only [String.toList_append, ht, List.append_assoc]
  rw [List.takeWhile_append_of_pos hne, List.dropWhile_append_of_pos hne]
  simp [String.ofList_toList]

/-- If anything comes after a separator, the parts make up the text. -/
theorem partition_join {sep : Char} {t : String} (s : String) (ht : t.toList = [sep])
    (h : (partition s sep).2.2 ≠ "") : (partition s sep).1 ++ t ++ (partition s sep).2.2 = s := by
  unfold partition at h ⊢
  apply String.toList_inj.mp
  simp only [String.toList_append, String.toList_ofList, ht]
  have hstop := List.head?_dropWhile_not (fun c => decide (c ≠ sep)) s.toList
  have hsplit := List.takeWhile_append_dropWhile (p := fun c => decide (c ≠ sep)) (l := s.toList)
  generalize s.toList.dropWhile (fun c => decide (c ≠ sep)) = rest at h hstop hsplit ⊢
  cases rest with
  | nil => exact absurd rfl h
  | cons c cs =>
    -- the scan stopped at a separator
    have hc : c = sep := by simpa using hstop
    rw [hc] at hsplit
    simpa using hsplit

/-! ## Characters -/

/-- `s.isascii()`. -/
def isascii (s : String) : Bool := s.toList.all fun c => c.toNat < 128

/-- `s.replace(old, new)` for two characters. -/
def replace (s : String) (old new : Char) : String :=
  String.ofList (s.toList.map fun c => if c = old then new else c)

/-! ## Numbers -/

/-- `f"{n:0{width}d}"`. -/
def zfill (width n : Nat) : String :=
  String.ofList (List.replicate (width - (Nat.toDigits 10 n).length) '0' ++ Nat.toDigits 10 n)

/-- The number that digits write. -/
def readNat (s : String) : Nat := Nat.ofDigitChars 10 s.toList 0

@[simp] theorem readNat_zfill (width n : Nat) : readNat (zfill width n) = n := by
  unfold readNat zfill
  rw [String.toList_ofList, Nat.ofDigitChars_append, Nat.ofDigitChars_replicate_zero, Nat.mul_zero,
    Nat.ofDigitChars_ten_toDigits]

theorem zfill_inj {width n m : Nat} (h : zfill width n = zfill width m) : n = m := by
  have hread := congrArg readNat h
  rwa [readNat_zfill, readNat_zfill] at hread

/-- Only digits are written. -/
theorem isDigit_of_mem_zfill {width n : Nat} {c : Char} (h : c ∈ (zfill width n).toList) :
    c.isDigit = true := by
  unfold zfill at h
  rw [String.toList_ofList] at h
  rcases List.mem_append.mp h with h | h
  · rw [List.eq_of_mem_replicate h]
    rfl
  · exact Nat.isDigit_of_mem_toDigits (by omega) (by omega) h

/-- A number that fits takes the whole width. -/
theorem length_zfill {width n : Nat} (hwidth : 0 < width) (h : n < 10 ^ width) :
    (zfill width n).toList.length = width := by
  have hlen := (Nat.length_toDigits_le_iff (b := 10) (by omega) hwidth).mpr h
  unfold zfill
  rw [String.toList_ofList, List.length_append, List.length_replicate]
  omega

end Text
