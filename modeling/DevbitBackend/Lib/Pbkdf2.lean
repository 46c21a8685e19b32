import Mathlib.Logic.Basic

/-!
# PBKDF2

Section 5.2 of RFC 8018, over any pseudorandom function with an output of `hLen` octets.
The blocks are numbered from one, as there; the terms of a block from zero, so that
`u 0` is the `U_1` of the text.
-/

namespace Pbkdf2

abbrev Octets := List UInt8

/-- `INT (i)`: four octets, the most significant first. -/
def int (i : Nat) : Octets :=
  [UInt8.ofNat (i / 16777216), UInt8.ofNat (i / 65536), UInt8.ofNat (i / 256), UInt8.ofNat i]

section Terms

variable {hLen : Nat}

def xor (a b : Vector UInt8 hLen) : Vector UInt8 hLen := a.zipWith (· ^^^ ·) b

/-- The exclusive-or of all. -/
def xorAll (vs : List (Vector UInt8 hLen)) : Vector UInt8 hLen :=
  vs.foldl xor (Vector.replicate hLen 0)

theorem zero_xor (v : Vector UInt8 hLen) : xor (Vector.replicate hLen 0) v = v := by
  ext i hi
  simp [xor]

theorem xorAll_singleton (v : Vector UInt8 hLen) : xorAll [v] = v := zero_xor v

theorem xorAll_concat (vs : List (Vector UInt8 hLen)) (v : Vector UInt8 hLen) :
    xorAll (vs ++ [v]) = xor (xorAll vs) v := by
  rw [xorAll, List.foldl_append]
  rfl

variable (prf : (password message : Octets) → Vector UInt8 hLen) (password salt : Octets)

/-- `U_(j + 1)` of the block `i`. -/
def u (i : Nat) : Nat → Vector UInt8 hLen
  | 0 => prf password (salt ++ int i)
  | j + 1 => prf password (u i j).toList

/-- `T_i = F (P, S, c, i)`: `U_1`, ..., `U_c` under exclusive-or. -/
def t (c i : Nat) : Vector UInt8 hLen := xorAll ((List.range c).map (u prf password salt i))

theorem t_one (i : Nat) : t prf password salt 1 i = u prf password salt i 0 :=
  xorAll_singleton _

theorem t_succ (c i : Nat) :
    t prf password salt (c + 1) i = xor (t prf password salt c i) (u prf password salt i c) := by
  rw [t, List.range_succ, List.map_append]
  exact xorAll_concat _ _

end Terms

/-! ### Blocks side by side -/

section Blocks

variable {hLen : Nat} (block : Nat → Vector UInt8 hLen)

/-- The blocks `1`, ..., `l`. -/
def concat (l : Nat) : Octets := (List.range l).flatMap fun i => (block (i + 1)).toList

theorem concat_succ (l : Nat) :
    concat block (l + 1) = concat block l ++ (block (l + 1)).toList := by
  rw [concat, List.range_succ, List.flatMap_append, List.flatMap_singleton]
  rfl

theorem concat_one : concat block 1 = (block 1).toList := by
  rw [concat_succ]
  rfl

theorem length_concat (l : Nat) : (concat block l).length = l * hLen := by
  induction l with
  | zero => exact (Nat.zero_mul hLen).symm
  | succ l ih => rw [concat_succ, List.length_append, ih, Vector.length_toList, Nat.succ_mul]

/-- More blocks do not change the octets of the first ones. -/
theorem take_concat_add {l n : Nat} (h : n ≤ l * hLen) (more : Nat) :
    (concat block (l + more)).take n = (concat block l).take n := by
  induction more with
  | zero => rfl
  | succ more ih =>
      have hle : n ≤ (concat block (l + more)).length := by
        rw [length_concat]
        exact Nat.le_trans h (Nat.mul_le_mul_right hLen (Nat.le_add_right l more))
      rw [← Nat.add_assoc, concat_succ, List.take_append_of_le_length hle, ih]

theorem take_concat_whole (l more : Nat) :
    (concat block (l + more)).take (l * hLen) = concat block l := by
  rw [take_concat_add block (Nat.le_refl _), ← length_concat block l, List.take_length]

/-- Whole blocks, then a part of the next. -/
theorem take_concat_succ (l r : Nat) :
    (concat block (l + 1)).take (l * hLen + r) =
      concat block l ++ (block (l + 1)).toList.take r := by
  rw [concat_succ, ← length_concat block l, List.take_length_add_append]

end Blocks

/-! ### The derived key -/

section Key

variable {hLen : Nat} (prf : (password message : Octets) → Vector UInt8 hLen)
  (password salt : Octets) (c dkLen : Nat)

/-- `PBKDF2 (P, S, c, dkLen)`; `none` is the error "derived key too long". -/
def pbkdf2 : Option Octets :=
  if 4294967295 * hLen < dkLen then none
  else
    -- `l = CEIL (dkLen / hLen)`
    let l := (dkLen + hLen - 1) / hLen
    some ((concat (t prf password salt c) l).take dkLen)

variable {c dkLen}

/-- As many octets of the blocks as the key is long, however many blocks there are. -/
theorem pbkdf2_eq_take {l : Nat} (hlen : dkLen ≤ 4294967295 * hLen) (hl : dkLen ≤ l * hLen) :
    pbkdf2 prf password salt c dkLen = some ((concat (t prf password salt c) l).take dkLen) := by
  rw [pbkdf2, if_neg (Nat.not_lt.mpr hlen)]
  refine congrArg some ?_
  rcases Nat.eq_zero_or_pos hLen with hzero | hpos
  · have hnone : dkLen = 0 := by
      rw [hzero, Nat.mul_zero] at hl
      exact Nat.le_zero.mp hl
    rw [hnone, List.take_zero, List.take_zero]
  · have hceil : dkLen ≤ (dkLen + hLen - 1) / hLen * hLen := by
      have hdiv := Nat.lt_div_mul_add (a := dkLen + hLen - 1) hpos
      omega
    have hleast : (dkLen + hLen - 1) / hLen ≤ l := by
      rw [← Nat.lt_succ_iff, Nat.div_lt_iff_lt_mul hpos, Nat.succ_mul]
      omega
    obtain ⟨more, rfl⟩ := Nat.exists_eq_add_of_le hleast
    exact (take_concat_add _ hceil more).symm

end Key

end Pbkdf2
