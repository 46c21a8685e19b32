import Mathlib.Data.List.Basic
import Mathlib.Data.List.TakeWhile

/-!
# Text

The string operations of the handlers. A string is its sequence of Unicode
scalar values, so `chars().count()` is the length of `String.toList`.
-/

namespace DevbitBackend

/-- `char::is_whitespace`: the property White_Space. -/
def isWhitespace (c : Char) : Bool :=
  (9 ≤ c.val && c.val ≤ 13) || c.val == 0x20 || c.val == 0x85 || c.val == 0xA0 ||
    c.val == 0x1680 || (0x2000 ≤ c.val && c.val ≤ 0x200A) || c.val == 0x2028 ||
    c.val == 0x2029 || c.val == 0x202F || c.val == 0x205F || c.val == 0x3000

theorem isWhitespace_visible {c : Char} (h : 32 ≤ c.toNat ∧ c.toNat < 127) (hc : c ≠ ' ') :
    isWhitespace c = false := by
  have hspace : c.toNat ≠ 32 := fun heq => hc (Char.toNat_inj.mp heq)
  have hval : c.toNat = c.val.toNat := rfl
  rw [hval] at h hspace
  simp only [isWhitespace, UInt32.le_iff_toNat_le, Bool.or_eq_false_iff, Bool.and_eq_false_iff,
    decide_eq_false_iff_not, beq_eq_false_iff_ne, ne_eq, ← UInt32.toNat_inj]
  simp
  omega

/-- Drop the leading and trailing characters that satisfy `p`. -/
def trimList {α : Type} (p : α → Bool) (cs : List α) : List α :=
  ((cs.dropWhile p).reverse.dropWhile p).reverse

section Trim

variable {α : Type} {p : α → Bool}

/-- What trimming drops satisfies `p`. -/
theorem exists_trimList (p : α → Bool) (cs : List α) :
    ∃ left right, cs = left ++ trimList p cs ++ right ∧
      (∀ c ∈ left, p c = true) ∧ ∀ c ∈ right, p c = true := by
  have hback := List.takeWhile_append_dropWhile (p := p) (l := (cs.dropWhile p).reverse)
  have hmiddle : cs.dropWhile p =
      trimList p cs ++ ((cs.dropWhile p).reverse.takeWhile p).reverse := by
    have hreverse := congrArg List.reverse hback
    rw [List.reverse_append, List.reverse_reverse] at hreverse
    exact hreverse.symm
  refine ⟨cs.takeWhile p, ((cs.dropWhile p).reverse.takeWhile p).reverse, ?_, ?_, ?_⟩
  · rw [List.append_assoc, ← hmiddle, List.takeWhile_append_dropWhile]
  · exact fun c hc => List.mem_takeWhile_imp hc
  · exact fun c hc => List.mem_takeWhile_imp (List.mem_reverse.mp hc)

/-- Dropping up to a list that starts with another character. -/
theorem dropWhile_pad {left cs : List α} (hleft : ∀ c ∈ left, p c = true)
    (hhead : ∀ c ∈ cs.head?, p c = false) : (left ++ cs).dropWhile p = cs := by
  rw [List.dropWhile_append_of_pos hleft]
  cases cs with
  | nil => rfl
  | cons c cs => exact List.dropWhile_cons_of_neg (by simp [hhead c rfl])

/-- A text that neither starts nor ends with such a character, between some of them. -/
theorem trimList_pad {left cs right : List α} (hleft : ∀ c ∈ left, p c = true)
    (hright : ∀ c ∈ right, p c = true) (hne : cs ≠ []) (hhead : ∀ c ∈ cs.head?, p c = false)
    (hlast : ∀ c ∈ cs.getLast?, p c = false) : trimList p (left ++ cs ++ right) = cs := by
  have hfront : (left ++ cs ++ right).dropWhile p = cs ++ right := by
    rw [List.append_assoc]
    refine dropWhile_pad hleft fun c hc => hhead c ?_
    rwa [List.head?_append_of_ne_nil _ hne] at hc
  have hback : (cs ++ right).reverse.dropWhile p = cs.reverse := by
    rw [List.reverse_append]
    refine dropWhile_pad (fun c hc => hright c (List.mem_reverse.mp hc)) fun c hc => hlast c ?_
    rwa [List.head?_reverse] at hc
  rw [trimList, hfront, hback, List.reverse_reverse]

theorem head_dropWhile {cs : List α} : ∀ c ∈ (cs.dropWhile p).head?, p c = false := by
  intro c hc
  have hnot := List.head?_dropWhile_not p cs
  rw [hc] at hnot
  exact hnot

/-- Trimming twice is trimming once. -/
theorem trimList_trimList (cs : List α) : trimList p (trimList p cs) = trimList p cs := by
  by_cases hne : trimList p cs = []
  · rw [hne]
    rfl
  -- it starts as `cs` without its leading characters does, and ends as that in reverse
  have hlast : ∀ c ∈ (trimList p cs).getLast?, p c = false := by
    rw [trimList, List.getLast?_reverse]
    exact head_dropWhile
  have hhead : ∀ c ∈ (trimList p cs).head?, p c = false := by
    have hsuffix := List.dropWhile_suffix (l := (cs.dropWhile p).reverse) p
    intro c hc
    have hrev : (cs.dropWhile p).reverse.dropWhile p ≠ [] := by simpa [trimList] using hne
    rw [trimList, List.head?_reverse, List.getLast?_eq_some_getLast hrev,
      hsuffix.getLast hrev, ← List.getLast?_eq_some_getLast, List.getLast?_reverse] at hc
    exact head_dropWhile c hc
  have hpad := @trimList_pad _ p [] (trimList p cs) [] nofun nofun hne hhead hlast
  rwa [List.nil_append, List.append_nil] at hpad

end Trim

/-- `str::trim`. -/
def trim (s : String) : String := String.ofList (trimList isWhitespace s.toList)

theorem trim_trim (s : String) : trim (trim s) = trim s := by
  simp only [trim, String.toList_ofList, trimList_trimList]

/-- Visible characters are not trimmed. -/
theorem trim_visible {s : String} (hne : s ≠ "")
    (h : ∀ c ∈ s.toList, 32 < c.toNat ∧ c.toNat < 127) : trim s = s := by
  have hwhite : ∀ c ∈ s.toList, isWhitespace c = false := by
    intro c hc
    obtain ⟨hlow, hhigh⟩ := h c hc
    exact isWhitespace_visible ⟨hlow.le, hhigh⟩ (by rintro rfl; exact absurd hlow (by decide))
  have hpad := @trimList_pad _ isWhitespace [] s.toList [] nofun nofun
    (fun hnil => hne (String.toList_eq_nil_iff.mp hnil))
    (fun c hc => hwhite c (List.mem_of_mem_head? hc))
    (fun c hc => hwhite c (List.mem_of_getLast? hc))
  rw [List.nil_append, List.append_nil] at hpad
  rw [trim, hpad, String.ofList_toList]

/-- `str::strip_prefix`. -/
def stripPrefix (p s : String) : Option String :=
  if p.toList.isPrefixOf s.toList then some (String.ofList (s.toList.drop p.toList.length))
  else none

theorem stripPrefix_append (p s : String) : stripPrefix p (p ++ s) = some s := by
  simp [stripPrefix]

theorem stripPrefix_eq_some {p s rest : String} (h : stripPrefix p s = some rest) :
    s = p ++ rest := by
  simp only [stripPrefix] at h
  split at h
  · rename_i hprefix
    obtain ⟨tail, htail⟩ := List.isPrefixOf_iff_prefix.mp hprefix
    rw [← htail, List.drop_left, Option.some.injEq] at h
    rw [← h, ← String.toList_inj, String.toList_append, String.toList_ofList, htail]
  · cases h

/-- `str::split`, at a character. -/
def splitOn (c : Char) (s : String) : List String :=
  (s.toList.splitOn c).map String.ofList

/-- `s.chars().count()`. -/
def charCount (s : String) : Nat := s.toList.length

/-- The number that decimal digits write. -/
def parseDigits (digits : List Char) : Option Nat :=
  if digits.isEmpty ∨ digits.any fun c => !c.isDigit then none
  else some (digits.foldl (fun n c => 10 * n + (c.toNat - 48)) 0)

/-- PostgreSQL text holds any character but NUL. -/
def storable (s : String) : Bool := s.toList.all fun c => c.val != 0

@[simp] theorem storable_append (s t : String) :
    storable (s ++ t) = (storable s && storable t) := by
  simp [storable]

end DevbitBackend
