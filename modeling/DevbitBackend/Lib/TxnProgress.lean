import Mathlib.Algebra.BigOperators.Fin
import Mathlib.Algebra.Order.BigOperators.Group.Finset
import DevbitBackend.Lib.TxnLogic

/-!
# TxnProgress

Deadlock freedom for the systems of `Txn`. Three things can make a request wait:
the pool has no free connection, an advisory lock is taken, a row lock is taken.

The rule proved here is for programs that take their advisory lock **first**,
while they hold no other lock (`Contract.Safe` checks this at `lock`), and whose
statements never wait for a row. Then the holder of any lock is past its waiting
point, so whoever waits, waits for a request that can move (`progress`). A
request that waits for a connection waits for such a request too, because a
connection is held only by a request that is inside a statement or a
transaction (`inUse_eq_busy`).
-/

namespace Txn

open Locks Transition

variable {E : Engine} {ι α : Type}

/-- The request holds a connection. -/
def Phase.busy : Phase E α → Bool
  | .conn _ _ => true
  | .tx _ _ _ _ => true
  | _ => false

/-- How many requests hold a connection. -/
def busyCount [Fintype ι] (calls : ι → Phase E α) : Nat := ∑ i, (calls i).busy.toNat

variable [DecidableEq ι]

/-- One request moves: the count changes by what it borrowed or returned. -/
theorem busyCount_update [Fintype ι] (calls : ι → Phase E α) (i : ι) (ph : Phase E α) :
    busyCount (Function.update calls i ph) + (calls i).busy.toNat =
      busyCount calls + ph.busy.toNat := by
  have hrest : ∑ j ∈ Finset.univ.erase i, (Function.update calls i ph j).busy.toNat =
      ∑ j ∈ Finset.univ.erase i, (calls j).busy.toNat :=
    Finset.sum_congr rfl fun j hj => by rw [Function.update_of_ne (Finset.ne_of_mem_erase hj)]
  unfold busyCount
  rw [← Finset.add_sum_erase _ _ (Finset.mem_univ i), hrest,
    ← Finset.add_sum_erase (a := i) Finset.univ (fun j => (calls j).busy.toNat)
      (Finset.mem_univ i), Function.update_self]
  omega

variable [DecidableEq E.Lock] {D : Discipline E} {C : ι → Contract D α} {cfg : Config ι α}
  {log₀ : List (Entry E ι)} {σ₀ : Snap E} {s s' : Sys E ι α}

/-- The connections in use are the connections held. -/
theorem inUse_eq_busy [Fintype ι] (h : Reachable (step cfg) s s')
    (hs : s.inUse = busyCount s.calls) : s'.inUse = busyCount s'.calls := by
  refine h.invariant (I := fun s => s.inUse = busyCount s.calls) ?_ hs
  intro l s s' hI hstep
  -- the acting request keeps what it held, borrows a connection, or returns one
  have count : ∀ {i : ι} {ph₀ : Phase E α} (ph : Phase E α), s.calls i = ph₀ →
      busyCount (Function.update s.calls i ph) + ph₀.busy.toNat = s.inUse + ph.busy.toNat :=
    fun {i ph₀} ph hc => by rw [← hc, hI]; exact busyCount_update s.calls i ph
  have same : ∀ {i : ι} {ph₀ ph : Phase E α}, s.calls i = ph₀ → ph.busy = ph₀.busy →
      s.inUse = busyCount (Function.update s.calls i ph) :=
    fun {i ph₀ ph} hc hb => by have := count ph hc; rw [hb] at this; omega
  have up : ∀ {i : ι} {ph₀ ph : Phase E α}, s.calls i = ph₀ → ph₀.busy = false →
      ph.busy = true → s.inUse + 1 = busyCount (Function.update s.calls i ph) :=
    fun {i ph₀ ph} hc h₀ h₁ => by
      have := count ph hc
      simp only [h₀, h₁, Bool.toNat_false, Bool.toNat_true] at this
      omega
  have down : ∀ {i : ι} {ph₀ ph : Phase E α}, s.calls i = ph₀ → ph₀.busy = true →
      ph.busy = false → s.inUse - 1 = busyCount (Function.update s.calls i ph) :=
    fun {i ph₀ ph} hc h₀ h₁ => by
      have := count ph hc
      simp only [h₀, h₁, Bool.toNat_false, Bool.toNat_true] at this
      omega
  cases move_of_step hstep with
  | arrive hc => exact same hc rfl
  | acquire hc _ => exact up hc rfl rfl
  | begin hc _ => exact up hc rfl rfl
  | clock hc => exact same hc rfl
  | note hc => exact same hc rfl
  | answer hc => exact same hc rfl
  | autoRejected hc _ => exact down hc rfl rfl
  | auto hc _ _ => exact down hc rfl rfl
  | rejected hc _ => exact down hc rfl rfl
  | exec hc _ _ => exact same hc rfl
  | lock hc _ => exact same hc rfl
  | commit hc => exact down hc rfl rfl
  | rollback hc => exact down hc rfl rfl
  | txClock hc => exact same hc rfl
  | txNote hc => exact same hc rfl
  | leave hc => exact down hc rfl rfl
  | failPool hc _ => exact same hc rfl
  | failConn hc _ => exact down hc rfl rfl
  | failTx hc _ => exact down hc rfl rfl
  | failRollback hc _ => exact down hc rfl rfl
  | tick => exact hI

/-! ### Who can move -/

/-- The row locks a request needs for its next statement are not held by anyone
else. -/
def NeverWaits (s : Sys E ι α) (i : ι) : Prop :=
  (∀ start buf notes st k, s.calls i = .tx start buf notes (.exec st k) →
    (E.eval st start s.seq (E.applyAll buf s.db)).isSome →
      Free s.lockOf i (E.locks st start s.seq (E.applyAll buf s.db))) ∧
  ∀ st k, s.calls i = .conn st k → (E.eval st s.now s.seq s.db).isSome →
    Free s.lockOf i (E.locks st s.now s.seq s.db)

/-- Request `i` can take its next step. -/
def CanMove (cfg : Config ι α) (s : Sys E ι α) (i : ι) : Prop := (step cfg (.run i) s).isSome = true

/-- With a free connection, a request outside a transaction can move. -/
theorem canMove_pool {i : ι} {p : Prog E α} (h : SysInv C cfg log₀ σ₀ s) (hc : s.calls i = .pool p)
    (hfree : s.inUse < cfg.poolSize) : CanMove cfg s i := by
  have hsafe := (h.call hc).2
  simp only [CanMove, step, runStep, hc]
  cases p with
  | query st k => simp [poolStep, hfree]
  | begin k => simp [poolStep, hfree]
  | clock k => rfl
  | emit n k => rfl
  | done a => rfl
  | lock l k => exact hsafe.elim
  | exec st k => exact hsafe.elim
  | commit k => exact hsafe.elim
  | rollback k => exact hsafe.elim

theorem canMove_conn {i : ι} {st : E.Stmt} {k : E.Result st → Prog E α}
    (hw : NeverWaits s i) (hc : s.calls i = .conn st k) : CanMove cfg s i := by
  simp only [CanMove, step, runStep, hc, connStep]
  cases he : E.eval st s.now s.seq s.db with
  | none => rfl
  | some r => simp [hw.2 st k hc (by rw [he]; rfl)]

/-- A request that already holds a lock can move: it is past its advisory lock,
and its statements never wait. -/
theorem canMove_holder {i : ι} {l : E.Lock} (h : SysInv C cfg log₀ σ₀ s) (hw : NeverWaits s i)
    (hl : s.lockOf l = some i) : CanMove cfg s i := by
  cases hc : s.calls i with
  | idle p => exact absurd (((h.call hc).2.1 l).mp hl) List.not_mem_nil
  | pool p => exact absurd (((h.call hc).1 l).mp hl) List.not_mem_nil
  | conn st k => exact absurd (((h.call hc).1 l).mp hl) List.not_mem_nil
  | done a => exact absurd (((h.call hc).1 l).mp hl) List.not_mem_nil
  | tx start buf notes p =>
      obtain ⟨-, H, hH, hsafe⟩ := h.call hc
      simp only [CanMove, step, runStep, hc]
      cases p with
      | exec st k =>
          simp only [txStep]
          cases he : E.eval st start s.seq (E.applyAll buf s.db) with
          | none => rfl
          | some r => simp [hw.1 start buf notes st k hc (by rw [he]; rfl)]
      | lock l' k =>
          obtain ⟨-, rfl, -⟩ := hsafe
          -- the advisory lock comes first, so nothing is held before it
          exact absurd ((hH l).mp hl) List.not_mem_nil
      | commit k => rfl
      | rollback k => rfl
      | clock k => rfl
      | emit n k => rfl
      | done a => rfl
      | query st k => exact hsafe.elim
      | begin k => exact hsafe.elim

/-- A request inside a transaction can move, or waits for the holder of an
advisory lock. -/
theorem canMove_or_holder {i : ι} {start : Nat} {buf : List E.Write} {notes : List E.Note}
    {p : Prog E α} (h : SysInv C cfg log₀ σ₀ s) (hw : NeverWaits s i)
    (hc : s.calls i = .tx start buf notes p) :
    CanMove cfg s i ∨ ∃ l j, s.lockOf l = some j := by
  obtain ⟨-, H, hH, hsafe⟩ := h.call hc
  simp only [CanMove, step, runStep, hc]
  cases p with
  | exec st k =>
      refine Or.inl ?_
      simp only [txStep]
      cases he : E.eval st start s.seq (E.applyAll buf s.db) with
      | none => rfl
      | some r => simp [hw.1 start buf notes st k hc (by rw [he]; rfl)]
  | lock l k =>
      cases hl : s.lockOf l with
      | none => exact Or.inl (by simp [txStep, Free, hl])
      | some j => exact Or.inr ⟨l, j, hl⟩
  | commit k => exact Or.inl rfl
  | rollback k => exact Or.inl rfl
  | clock k => exact Or.inl rfl
  | emit n k => exact Or.inl rfl
  | done a => exact Or.inl rfl
  | query st k => exact hsafe.elim
  | begin k => exact hsafe.elim

/-- **Deadlock freedom.** With at least one connection in the pool, while some
request is unfinished, some request can take its next step. -/
theorem progress [Fintype ι] (h : SysInv C cfg log₀ σ₀ s) (hcount : s.inUse = busyCount s.calls)
    (hpool : 0 < cfg.poolSize) (hw : ∀ i, NeverWaits s i)
    (hu : ∃ i, ∀ a, s.calls i ≠ .done a) : ∃ i, CanMove cfg s i := by
  by_cases hbusy : ∃ i, (s.calls i).busy = true
  · obtain ⟨i, hi⟩ := hbusy
    cases hc : s.calls i with
    | idle p => rw [hc] at hi; cases hi
    | pool p => rw [hc] at hi; cases hi
    | done a => rw [hc] at hi; cases hi
    | conn st k => exact ⟨i, canMove_conn (hw i) hc⟩
    | tx start buf notes p =>
        rcases canMove_or_holder h (hw i) hc with hm | ⟨l, j, hl⟩
        · exact ⟨i, hm⟩
        · exact ⟨j, canMove_holder h (hw j) hl⟩
  · -- nobody holds a connection, so the unfinished request can borrow one
    have hzero : s.inUse = 0 := by
      rw [hcount]
      refine Finset.sum_eq_zero fun i _ => ?_
      rw [Bool.eq_false_iff.mpr fun hi => hbusy ⟨i, hi⟩]
      rfl
    obtain ⟨i, hi⟩ := hu
    cases hc : s.calls i with
    | idle p => exact ⟨i, by simp [CanMove, step, runStep, hc]⟩
    | pool p => exact ⟨i, canMove_pool h hc (by omega)⟩
    | done a => exact absurd hc (hi a)
    | conn st k => exact absurd ⟨i, by rw [hc]; rfl⟩ hbusy
    | tx start buf notes p => exact absurd ⟨i, by rw [hc]; rfl⟩ hbusy

end Txn
