import Mathlib.Tactic.IntervalCases
import Mathlib.Data.List.Basic

/-!
# Numeral

Numbers written in digits of a radix up to 16. A reader takes all digits at the front of
a text, so it reads back what `Nat.toDigits` has written when no digit comes after it
(`takeDigits_toDigits`).
-/

namespace Numeral

/-- The value of a digit, in any case. -/
def toDigit (radix : Nat) (c : Char) : Option Nat :=
  let value :=
    if '0' ≤ c ∧ c ≤ '9' then some (c.toNat - 48)
    else if 'a' ≤ c ∧ c ≤ 'z' then some (c.toNat - 87)
    else if 'A' ≤ c ∧ c ≤ 'Z' then some (c.toNat - 55)
    else none
  value.filter fun d => d < radix

/-- The digits at the front of a text, and what comes after them. -/
def takeDigits (radix : Nat) : List Char → List Nat × List Char
  | [] => ([], [])
  | c :: cs =>
      match toDigit radix c with
      | some d => (d :: (takeDigits radix cs).1, (takeDigits radix cs).2)
      | none => ([], c :: cs)

/-- The number with these digits, the highest one first. -/
def ofDigits (radix : Nat) (ds : List Nat) : Nat := ds.foldl (fun n d => n * radix + d) 0

/-- The lowest `size` digits of a number, the highest one first. -/
def fixedDigits (radix : Nat) : Nat → Nat → List Nat
  | 0, _ => []
  | size + 1, n => fixedDigits radix size (n / radix) ++ [n % radix]

/-- The text does not go on with a digit. -/
def Ends (radix : Nat) (cs : List Char) : Prop := ∀ c ∈ cs.head?, toDigit radix c = none

variable {radix n : Nat} {cs rest : List Char} {ds : List Nat}

theorem ofDigits_concat (ds : List Nat) (d : Nat) :
    ofDigits radix (ds ++ [d]) = ofDigits radix ds * radix + d := by
  simp [ofDigits]

theorem length_fixedDigits (radix size n : Nat) : (fixedDigits radix size n).length = size := by
  induction size generalizing n with
  | zero => rfl
  | succ size ih => simp [fixedDigits, ih]

theorem mem_fixedDigits (hradix : 0 < radix) {size d : Nat} (h : d ∈ fixedDigits radix size n) :
    d < radix := by
  induction size generalizing n with
  | zero => cases h
  | succ size ih =>
      rcases List.mem_append.mp h with h | h
      · exact ih h
      · exact List.mem_singleton.mp h ▸ Nat.mod_lt n hradix

theorem ofDigits_fixedDigits (radix size n : Nat) :
    ofDigits radix (fixedDigits radix size n) = n % radix ^ size := by
  induction size generalizing n with
  | zero => simp [fixedDigits, ofDigits, Nat.mod_one]
  | succ size ih =>
      rw [fixedDigits, ofDigits_concat, ih, Nat.pow_succ', Nat.mod_mul, Nat.mul_comm,
        Nat.add_comm]

theorem takeDigits_ends (h : Ends radix rest) : takeDigits radix rest = ([], rest) := by
  cases rest with
  | nil => rfl
  | cons c cs => simp [takeDigits, h c rfl]

/-- A text of digits, up to the character after it. -/
theorem takeDigits_append (hcs : cs.map (toDigit radix) = ds.map some) (h : Ends radix rest) :
    takeDigits radix (cs ++ rest) = (ds, rest) := by
  induction cs generalizing ds with
  | nil =>
      obtain rfl := List.map_eq_nil_iff.mp hcs.symm
      exact takeDigits_ends h
  | cons c cs ih =>
      cases ds with
      | nil => cases hcs
      | cons d ds =>
          obtain ⟨hc, htail⟩ := List.cons.inj hcs
          rw [List.cons_append, takeDigits, hc, ih htail]

/-- What is read stops at the first character that is no digit. -/
theorem takeDigits_spec (radix : Nat) (cs : List Char) :
    ∃ digits, cs = digits ++ (takeDigits radix cs).2 ∧
      digits.map (toDigit radix) = (takeDigits radix cs).1.map some := by
  induction cs with
  | nil => exact ⟨[], rfl, rfl⟩
  | cons c cs ih =>
      obtain ⟨digits, hcs, hdigits⟩ := ih
      cases hc : toDigit radix c with
      | none => exact ⟨[], by simp [takeDigits, hc], by simp [takeDigits, hc]⟩
      | some d =>
          refine ⟨c :: digits, ?_, ?_⟩
          · rw [takeDigits, hc, List.cons_append, ← hcs]
          · rw [takeDigits, hc, List.map_cons, List.map_cons, hc, hdigits]

theorem toDigit_digitChar (hradix : radix ≤ 16) (h : n < radix) :
    toDigit radix (Nat.digitChar n) = some n := by
  have hvalue : toDigit 16 (Nat.digitChar n) = some n := by
    have hn : n < 16 := h.trans_le hradix
    interval_cases n <;> decide
  unfold toDigit at hvalue ⊢
  rw [Option.filter_eq_some_iff] at hvalue ⊢
  exact ⟨hvalue.1, decide_eq_true h⟩

/-- The digits of a number. Only zero starts with a zero. -/
theorem exists_toDigits (hone : 1 < radix) (hradix : radix ≤ 16) (n : Nat) :
    ∃ ds, (Nat.toDigits radix n).map (toDigit radix) = ds.map some ∧ ofDigits radix ds = n ∧
      (0 < n → ds.head? ≠ some 0) := by
  induction n using Nat.strong_induction_on with
  | _ n ih =>
      rcases Nat.lt_or_ge n radix with hlt | hge
      · refine ⟨[n], ?_, by simp [ofDigits], ?_⟩
        · rw [Nat.toDigits_of_lt_base hlt, List.map_singleton, toDigit_digitChar hradix hlt]
          rfl
        · rintro hpos ⟨⟩
          exact absurd hpos (lt_irrefl 0)
      · have hpos : 0 < n / radix := Nat.div_pos hge (by omega)
        obtain ⟨ds, hdigits, hvalue, hhead⟩ := ih (n / radix) (Nat.div_lt_self (by omega) hone)
        have hmod : n % radix < radix := Nat.mod_lt _ (by omega)
        refine ⟨ds ++ [n % radix], ?_, ?_, ?_⟩
        · rw [Nat.toDigits_of_base_le hone hge, List.map_append, List.map_append, hdigits,
            List.map_singleton, toDigit_digitChar hradix hmod]
          rfl
        · rw [ofDigits_concat, hvalue, Nat.div_add_mod']
        · intro _ hzero
          cases ds with
          | nil => exact absurd hvalue hpos.ne
          | cons d ds => exact hhead hpos hzero

theorem length_of_map_eq (h : cs.map (toDigit radix) = ds.map some) : cs.length = ds.length := by
  simpa using congrArg List.length h

/-- **A number is read back** from its digits, in every radix, up to where they end. -/
theorem takeDigits_toDigits (hone : 1 < radix) (hradix : radix ≤ 16) (n : Nat)
    (h : Ends radix rest) :
    ∃ ds, takeDigits radix (Nat.toDigits radix n ++ rest) = (ds, rest) ∧ ofDigits radix ds = n ∧
      ds.length = (Nat.toDigits radix n).length ∧ (0 < n → ds.head? ≠ some 0) := by
  obtain ⟨ds, hdigits, hvalue, hhead⟩ := exists_toDigits hone hradix n
  exact ⟨ds, takeDigits_append hdigits h, hvalue, (length_of_map_eq hdigits).symm, hhead⟩

/-- The digits of a number are digits. -/
theorem mem_toDigits (hone : 1 < radix) (hradix : radix ≤ 16) {c : Char}
    (hc : c ∈ Nat.toDigits radix n) : ∃ d, toDigit radix c = some d := by
  obtain ⟨ds, hdigits, -, -⟩ := exists_toDigits hone hradix n
  have hmem := List.mem_map_of_mem (f := toDigit radix) hc
  rw [hdigits] at hmem
  obtain ⟨d, -, hd⟩ := List.mem_map.mp hmem
  exact ⟨d, hd.symm⟩

end Numeral
