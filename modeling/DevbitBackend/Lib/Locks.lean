import Mathlib.Logic.Function.Basic
import Mathlib.Data.List.Basic

/-!
# Locks

Exclusive lock tables: each key is held by at most one owner. A table is the
function from a key to its owner, so exclusiveness is built in, and an owner
gives all its keys back at once (`release`), which is how locks bound to a
transaction end.
-/

namespace Locks

variable {κ ι : Type} [DecidableEq κ] [DecidableEq ι]

/-- Who holds each key. -/
abbrev Table (κ ι : Type) := κ → Option ι

/-- Every key of `ks` is free, or held by `i` itself. -/
def Free (t : Table κ ι) (i : ι) (ks : List κ) : Prop :=
  ∀ k ∈ ks, t k = none ∨ t k = some i

instance (t : Table κ ι) (i : ι) (ks : List κ) : Decidable (Free t i ks) :=
  inferInstanceAs (Decidable (∀ k ∈ ks, t k = none ∨ t k = some i))

/-- `i` takes the keys `ks`. -/
def take (t : Table κ ι) (i : ι) (ks : List κ) : Table κ ι :=
  fun k => if k ∈ ks then some i else t k

/-- `i` gives all its keys back. -/
def release (t : Table κ ι) (i : ι) : Table κ ι :=
  fun k => if t k = some i then none else t k

omit [DecidableEq ι] in
theorem take_self_iff {t : Table κ ι} {i : ι} {ks : List κ} {k : κ} :
    take t i ks k = some i ↔ t k = some i ∨ k ∈ ks := by
  unfold take
  split <;> simp_all

omit [DecidableEq ι] in
/-- Taking free keys takes nothing from anyone else. -/
theorem take_other_iff {t : Table κ ι} {i j : ι} {ks : List κ} {k : κ} (hij : j ≠ i)
    (h : Free t i ks) : take t i ks k = some j ↔ t k = some j := by
  unfold take
  split
  · rename_i hk
    have hne : t k ≠ some j := by
      rcases h k hk with h | h <;> rw [h] <;> simp [hij.symm]
    simp [hij.symm, hne]
  · rfl

omit [DecidableEq κ] in
theorem release_self (t : Table κ ι) (i : ι) (k : κ) : release t i k ≠ some i := by
  unfold release
  split <;> simp_all

omit [DecidableEq κ] in
theorem release_other_iff {t : Table κ ι} {i j : ι} {k : κ} (hij : j ≠ i) :
    release t i k = some j ↔ t k = some j := by
  unfold release
  split
  · rename_i h
    simp [h, hij.symm]
  · rfl

end Locks
