import DevbitBackend.Lib.TxnEmbed
import DevbitBackend.Lib.TxnProgress

/-!
# TxnBound

How long a request of `Txn` can take, counted in its own moves. A program is
`Within n` when no path through it, whatever its statements answer, takes more than
`n` moves. Then a request makes at most `n` moves in any run (`moves_of_run`), so a
system in which some unfinished request can always move comes to an end with every
request answered (`all_answered`).
-/

namespace Txn

open Transition

variable {E F : Engine} {ι α β : Type}

/-- No path through the program takes more than `n` moves. An autocommit statement
takes two: it borrows a connection and runs. -/
inductive Prog.Within : Nat → Prog E α → Prop
  | query {n st k} : (∀ r, (k r).Within n) → Within (n + 2) (.query st k)
  | begin {n k} : k.Within n → Within (n + 1) (.begin k)
  | lock {n l k} : k.Within n → Within (n + 1) (.lock l k)
  | exec {n st k} : (∀ r, (k r).Within n) → Within (n + 1) (.exec st k)
  | commit {n k} : k.Within n → Within (n + 1) (.commit k)
  | rollback {n k} : (∀ b, (k b).Within n) → Within (n + 1) (.rollback k)
  | clock {n k} : (∀ t, (k t).Within n) → Within (n + 1) (.clock k)
  | emit {n m k} : k.Within n → Within (n + 1) (.emit m k)
  | done {n a} : Within (n + 1) (.done a)

/-- A program takes at least the move that answers. -/
theorem Prog.Within.pos {p : Prog E α} {n : Nat} (h : p.Within n) : ∃ m, m + 1 = n := by
  cases h <;> exact ⟨_, rfl⟩

theorem Prog.Within.mono {p : Prog E α} {n m : Nat} (h : p.Within n) (hle : n ≤ m) :
    p.Within m := by
  induction h generalizing m with
  | query _ ih =>
      obtain ⟨m, rfl⟩ := Nat.exists_eq_add_of_le' (Nat.le_of_add_left_le hle)
      exact .query fun r => ih r (by omega)
  | begin _ ih =>
      obtain ⟨m, rfl⟩ := Nat.exists_eq_add_of_le' (Nat.le_of_add_left_le hle)
      exact .begin (ih (by omega))
  | lock _ ih =>
      obtain ⟨m, rfl⟩ := Nat.exists_eq_add_of_le' (Nat.le_of_add_left_le hle)
      exact .lock (ih (by omega))
  | exec _ ih =>
      obtain ⟨m, rfl⟩ := Nat.exists_eq_add_of_le' (Nat.le_of_add_left_le hle)
      exact .exec fun r => ih r (by omega)
  | commit _ ih =>
      obtain ⟨m, rfl⟩ := Nat.exists_eq_add_of_le' (Nat.le_of_add_left_le hle)
      exact .commit (ih (by omega))
  | rollback _ ih =>
      obtain ⟨m, rfl⟩ := Nat.exists_eq_add_of_le' (Nat.le_of_add_left_le hle)
      exact .rollback fun b => ih b (by omega)
  | clock _ ih =>
      obtain ⟨m, rfl⟩ := Nat.exists_eq_add_of_le' (Nat.le_of_add_left_le hle)
      exact .clock fun t => ih t (by omega)
  | emit _ ih =>
      obtain ⟨m, rfl⟩ := Nat.exists_eq_add_of_le' (Nat.le_of_add_left_le hle)
      exact .emit (ih (by omega))
  | done =>
      obtain ⟨m, rfl⟩ := Nat.exists_eq_add_of_le' (Nat.le_of_add_left_le hle)
      exact .done

/-- A component's program takes as many moves in the whole. -/
theorem Prog.Within.embed {h : Embedding E F} {f : α → β} {p : Prog E α} {n : Nat}
    (hp : p.Within n) : (p.embed h f).Within n := by
  induction hp with
  | query _ ih => exact .query fun r => ih (h.out _ r)
  | begin _ ih => exact .begin ih
  | lock _ ih => exact .lock ih
  | exec _ ih => exact .exec fun r => ih (h.out _ r)
  | commit _ ih => exact .commit ih
  | rollback _ ih => exact .rollback ih
  | clock _ ih => exact .clock ih
  | emit _ ih => exact .emit ih
  | done => exact .done

/-! ### One request on its way -/

/-- What one move of a request, or a failure in it, makes of its phase. -/
inductive Phase.Next : Phase E α → Phase E α → Prop
  | arrive {p} : Next (.idle p) (.pool p)
  | acquire {st k} : Next (.pool (.query st k)) (.conn st k)
  | begin {start k} : Next (.pool (.begin k)) (.tx start [] [] k)
  | clock {t k} : Next (.pool (.clock k)) (.pool (k t))
  | note {m k} : Next (.pool (.emit m k)) (.pool k)
  | auto {st r k} : Next (.conn st k) (.pool (k r))
  | exec {start buf buf' notes st r k} :
      Next (.tx start buf notes (.exec st k)) (.tx start buf' notes (k r))
  | lock {start buf notes l k} : Next (.tx start buf notes (.lock l k)) (.tx start buf notes k)
  | commit {start buf notes k} : Next (.tx start buf notes (.commit k)) (.pool k)
  | rollback {start buf notes b k} : Next (.tx start buf notes (.rollback k)) (.pool (k b))
  | txClock {start buf notes t k} :
      Next (.tx start buf notes (.clock k)) (.tx start buf notes (k t))
  | txNote {start buf notes notes' m k} :
      Next (.tx start buf notes (.emit m k)) (.tx start buf notes' k)
  /-- It answers, because its code does or because a statement of it fails. -/
  | answer {p a} : Next (.pool p) (.done a)
  | answerConn {st k a} : Next (.conn st k) (.done a)
  | answerTx {start buf notes p a} : Next (.tx start buf notes p) (.done a)

/-- What `Prog.Within` says of a request on its way. -/
inductive Phase.Within : Nat → Phase E α → Prop
  | idle {n p} : p.Within n → Within (n + 1) (.idle p)
  | pool {n p} : p.Within n → Within n (.pool p)
  | conn {n st k} : (∀ r, (k r).Within n) → Within (n + 1) (.conn st k)
  | tx {n start buf notes p} : p.Within n → Within n (.tx start buf notes p)
  | done {n a} : Within n (.done a)

/-- A move of a request is one of those that it had left. -/
theorem Phase.Next.within {n : Nat} {ph ph' : Phase E α} :
    ph.Next ph' → ph.Within n → ∃ m, ph'.Within m ∧ m + 1 = n
  | .arrive, .idle hp => ⟨_, .pool hp, rfl⟩
  | .acquire, .pool (.query hk) => ⟨_, .conn hk, rfl⟩
  | .begin, .pool (.begin hk) => ⟨_, .tx hk, rfl⟩
  | .clock, .pool (.clock hk) => ⟨_, .pool (hk _), rfl⟩
  | .note, .pool (.emit hk) => ⟨_, .pool hk, rfl⟩
  | .auto, .conn hk => ⟨_, .pool (hk _), rfl⟩
  | .exec, .tx (.exec hk) => ⟨_, .tx (hk _), rfl⟩
  | .lock, .tx (.lock hk) => ⟨_, .tx hk, rfl⟩
  | .commit, .tx (.commit hk) => ⟨_, .pool hk, rfl⟩
  | .rollback, .tx (.rollback hk) => ⟨_, .pool (hk _), rfl⟩
  | .txClock, .tx (.clock hk) => ⟨_, .tx (hk _), rfl⟩
  | .txNote, .tx (.emit hk) => ⟨_, .tx hk, rfl⟩
  | .answer, .pool hp | .answerTx, .tx hp => hp.pos.imp fun _ hm => ⟨.done, hm⟩
  | .answerConn, .conn _ => ⟨_, .done, rfl⟩

/-- The label is a move of request `i`, or a failure in one. -/
def Label.moves [DecidableEq ι] (i : ι) : Label ι → Bool
  | .run j | .fail j => j == i
  | .tick _ => false

variable [DecidableEq ι] [DecidableEq E.Lock] {cfg : Config ι α} {s s' : Sys E ι α} {l : Label ι}

/-- A request moves by its own labels only. -/
theorem Move.own (h : Move cfg s l s') (i : ι) :
    (l.moves i = true ∧ (s.calls i).Next (s'.calls i)) ∨
      l.moves i = false ∧ s'.calls i = s.calls i := by
  cases hl : l.moves i with
  | false =>
      refine .inr ⟨rfl, h.calls_other ?_ ?_⟩
      · rintro rfl
        simp [Label.moves] at hl
      · rintro rfl
        simp [Label.moves] at hl
  | true =>
      refine .inl ⟨rfl, ?_⟩
      have next : ∀ {t : Sys E ι α} {j : ι} {ph ph' : Phase E α}, s.calls j = ph →
          (j == i) = true → ph.Next ph' → (s.calls i).Next ((t.goto j ph').calls i) := by
        intro t j ph ph' hc hj hnext
        obtain rfl : j = i := by simpa using hj
        have hcalls : (t.goto j ph').calls j = ph' := Function.update_self ..
        rw [hcalls, hc]
        exact hnext
      cases h with
      | tick => cases hl
      | arrive hc => exact next hc hl .arrive
      | acquire hc _ => exact next hc hl .acquire
      | begin hc _ => exact next hc hl .begin
      | clock hc => exact next hc hl .clock
      | note hc => exact next hc hl .note
      | auto hc _ _ => exact next hc hl .auto
      | exec hc _ _ => exact next hc hl .exec
      | lock hc _ => exact next hc hl .lock
      | commit hc => exact next hc hl .commit
      | rollback hc => exact next hc hl .rollback
      | failRollback hc _ => exact next hc hl .rollback
      | txClock hc => exact next hc hl .txClock
      | txNote hc => exact next hc hl .txNote
      | answer hc => exact next hc hl .answer
      | failPool hc _ => exact next hc hl .answer
      | autoRejected hc _ => exact next hc hl .answerConn
      | failConn hc _ => exact next hc hl .answerConn
      | rejected hc _ => exact next hc hl .answerTx
      | leave hc => exact next hc hl .answerTx
      | failTx hc _ => exact next hc hl .answerTx

/-! ### Runs -/

/-- **A request makes no more moves than its code has**, in whatever order and with
whatever failures the requests go on. -/
theorem moves_of_run {ls : List (Label ι)} (h : Run (step cfg) s ls s') {i : ι} {n : Nat}
    (hi : (s.calls i).Within n) :
    ∃ m, (s'.calls i).Within m ∧ ls.countP (Label.moves i) + m = n := by
  induction h generalizing n with
  | nil => exact ⟨n, hi, Nat.zero_add n⟩
  | @cons s s₁ s' l ls hstep _ ih =>
      rcases (move_of_step hstep).own i with ⟨hl, hnext⟩ | ⟨hl, hsame⟩
      · obtain ⟨m, hm, rfl⟩ := hnext.within hi
        obtain ⟨m', hm', hcount⟩ := ih hm
        refine ⟨m', hm', ?_⟩
        rw [List.countP_cons_of_pos hl]
        omega
      · obtain ⟨m', hm', hcount⟩ := ih (hsame ▸ hi)
        refine ⟨m', hm', ?_⟩
        rwa [List.countP_cons_of_neg (by simp [hl])]

/-- The moves that all requests have left, after one of `j`. -/
theorem Move.left {j : ι} (h : Move cfg s (.run j) s') {left : ι → Nat}
    (hleft : ∀ i, (s.calls i).Within (left i)) :
    ∃ m, m + 1 = left j ∧ ∀ i, (s'.calls i).Within (Function.update left j m i) := by
  have hself : (Label.run j).moves j = true := beq_self_eq_true j
  obtain ⟨m, hm, hj⟩ : ∃ m, (s'.calls j).Within m ∧ m + 1 = left j := by
    rcases h.own j with ⟨-, hnext⟩ | ⟨hl, -⟩
    · exact hnext.within (hleft j)
    · rw [hself] at hl
      cases hl
  refine ⟨m, hj, fun i => ?_⟩
  by_cases hi : i = j
  · subst hi
    rwa [Function.update_self]
  · have hother : (Label.run j).moves i = false := beq_false_of_ne fun heq => hi heq.symm
    rw [Function.update_of_ne hi]
    rcases h.own i with ⟨hl, -⟩ | ⟨-, hsame⟩
    · rw [hother] at hl
      cases hl
    · rw [hsame]
      exact hleft i

/-- **A system that never gets stuck comes to an end**: from any state the requests can
go on, without a failure, until all of them have answered. -/
theorem exists_all_done [Fintype ι] {s : Sys E ι α} (left : ι → Nat)
    (hleft : ∀ i, (s.calls i).Within (left i))
    (hprogress : ∀ t, Reachable (step cfg) s t → (∃ i, ∀ a, t.calls i ≠ .done a) →
      ∃ i, CanMove cfg t i) :
    ∃ ls t, Run (step cfg) s ls t ∧ (∀ l ∈ ls, ∃ i, l = .run i) ∧
      ∀ i, ∃ a, t.calls i = .done a := by
  by_cases hdone : ∀ i, ∃ a, s.calls i = .done a
  · exact ⟨[], s, .nil s, by simp, hdone⟩
  · obtain ⟨i, hi⟩ := not_forall.mp hdone
    obtain ⟨j, hj⟩ := hprogress s (.refl s) ⟨i, fun a ha => hi ⟨a, ha⟩⟩
    obtain ⟨s₁, hstep⟩ := Option.isSome_iff_exists.mp hj
    obtain ⟨m, hm, hrest⟩ := (move_of_step hstep).left hleft
    -- the measure: the moves that all requests together have left
    have hless : ∑ k, Function.update left j m k < ∑ k, left k := by
      refine Finset.sum_lt_sum (fun k _ => ?_) ⟨j, Finset.mem_univ j, ?_⟩
      · by_cases hk : k = j
        · subst hk
          rw [Function.update_self]
          omega
        · rw [Function.update_of_ne hk]
      · rw [Function.update_self]
        omega
    obtain ⟨ls, t, hrun, hls, ht⟩ := exists_all_done (Function.update left j m) hrest
      fun t ht => hprogress t (((Reachable.refl s).tail hstep).trans ht)
    exact ⟨.run j :: ls, t, .cons hstep hrun, by simpa using hls, ht⟩
termination_by ∑ i, left i

/-- **Every request is answered.** When each has at most `n` moves at the start and the
system never gets stuck, then in every run no request takes more than `n` moves, and the
run can go on until all of them have answered. -/
theorem all_answered [Fintype ι] {s₀ : Sys E ι α} {n : Nat}
    (hstart : ∀ i, (s₀.calls i).Within n)
    (hprogress : ∀ t, Reachable (step cfg) s₀ t → (∃ i, ∀ a, t.calls i ≠ .done a) →
      ∃ i, CanMove cfg t i)
    {ls : List (Label ι)} (h : Run (step cfg) s₀ ls s) :
    (∀ i, ls.countP (Label.moves i) ≤ n) ∧
      ((∃ i, ∀ a, s.calls i ≠ .done a) → ∃ i, CanMove cfg s i) ∧
      ∃ ls' t, Run (step cfg) s ls' t ∧ (∀ l ∈ ls', ∃ i, l = .run i) ∧
        ∀ i, ∃ a, t.calls i = .done a := by
  choose left hleft hmoves using fun i => moves_of_run h (hstart i)
  refine ⟨fun i => ?_, hprogress s ⟨ls, h⟩, ?_⟩
  · have := hmoves i
    omega
  · exact exists_all_done left hleft fun t ht => hprogress t (Reachable.trans ⟨ls, h⟩ ht)

end Txn
