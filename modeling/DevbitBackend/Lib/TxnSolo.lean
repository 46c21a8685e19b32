import DevbitBackend.Lib.TxnLogic

/-!
# TxnSolo

One request running **alone**: no other request moves while it runs, so the
whole program is a function of the state it starts in, the time, and which of
its database calls fail. This is the reading under which a call is one atomic
event, and the one in which a failure is injected at a chosen call.

`Ends` states where a lone run ends, with one rule for each way a program uses a
statement, so that a proof follows the code. `solo_run` connects lone runs to the
interleavings: a lone run is a run of the system in which only that request
moves.
-/

namespace Txn

open Locks Transition

variable {E : Engine} {ι α : Type}

/-- Run a program alone at time `now`. `fails n` says whether its `n`-th database
call fails, `n` is the number of calls already made, and the open transaction
carries its private writes. -/
def Prog.solo (failed : α) (fails : Nat → Bool) (now : Nat) :
    Prog E α → (n : Nat) → Option (List E.Write) → Snap E → Snap E × α
  | .query st k, n, none, σ =>
      if fails n then (σ, failed)
      else match E.eval st now σ.seq σ.db with
        | none => (σ, failed)
        | some (r, ws) => (k r).solo failed fails now (n + 1) none ((σ.bump st).write ws)
  | .begin k, n, none, σ =>
      if fails n then (σ, failed) else k.solo failed fails now (n + 1) (some []) σ
  | .lock _ k, n, some buf, σ =>
      if fails n then (σ, failed) else k.solo failed fails now (n + 1) (some buf) σ
  | .exec st k, n, some buf, σ =>
      if fails n then (σ, failed)
      else match E.eval st now σ.seq (E.applyAll buf σ.db) with
        | none => (σ, failed)
        | some (r, ws) => (k r).solo failed fails now (n + 1) (some (buf ++ ws)) (σ.bump st)
  | .commit k, n, some buf, σ =>
      if fails n then (σ, failed) else k.solo failed fails now (n + 1) none (σ.write buf)
  | .rollback k, n, some _, σ => (k (!fails n)).solo failed fails now (n + 1) none σ
  | .clock k, n, tx, σ => (k now).solo failed fails now n tx σ
  | .emit _ k, n, tx, σ => k.solo failed fails now n tx σ
  | .done a, _, _, σ => (σ, a)
  | _, _, _, σ => (σ, failed)

/-- No database call fails. -/
def noFailure : Nat → Bool := fun _ => false

/-! ### One call of a lone run -/

section Calls

variable {failed : α} {fails : Nat → Bool} {now n : Nat} {st : E.Stmt}
  {k : E.Result st → Prog E α} {p : Prog E α} {buf ws : List E.Write} {σ : Snap E}
  {r : E.Result st}

theorem solo_query_failed (hn : fails n = true) :
    (Prog.query st k).solo failed fails now n none σ = (σ, failed) := by
  simp [Prog.solo, hn]

/-- A statement on the pool that is not rejected. -/
theorem solo_query (hn : fails n = false) (heval : E.eval st now σ.seq σ.db = some (r, ws)) :
    (Prog.query st k).solo failed fails now n none σ =
      (k r).solo failed fails now (n + 1) none ((σ.bump st).write ws) := by
  simp [Prog.solo, hn, heval]

/-- A statement on the pool that a constraint rejects. -/
theorem solo_query_rejected (heval : E.eval st now σ.seq σ.db = none) :
    (Prog.query st k).solo failed fails now n none σ = (σ, failed) := by
  simp [Prog.solo, heval]

theorem solo_begin : (Prog.begin p).solo failed fails now n none σ =
    if fails n then (σ, failed) else p.solo failed fails now (n + 1) (some []) σ := rfl

theorem solo_lock {l : E.Lock} : (Prog.lock l p).solo failed fails now n (some buf) σ =
    if fails n then (σ, failed) else p.solo failed fails now (n + 1) (some buf) σ := rfl

theorem solo_exec_failed (hn : fails n = true) :
    (Prog.exec st k).solo failed fails now n (some buf) σ = (σ, failed) := by
  simp [Prog.solo, hn]

/-- A statement in the transaction that is not rejected. -/
theorem solo_exec (hn : fails n = false)
    (heval : E.eval st now σ.seq (E.applyAll buf σ.db) = some (r, ws)) :
    (Prog.exec st k).solo failed fails now n (some buf) σ =
      (k r).solo failed fails now (n + 1) (some (buf ++ ws)) (σ.bump st) := by
  simp [Prog.solo, hn, heval]

/-- A statement in the transaction that a constraint rejects. -/
theorem solo_exec_rejected (heval : E.eval st now σ.seq (E.applyAll buf σ.db) = none) :
    (Prog.exec st k).solo failed fails now n (some buf) σ = (σ, failed) := by
  simp [Prog.solo, heval]

theorem solo_commit : (Prog.commit p).solo failed fails now n (some buf) σ =
    if fails n then (σ, failed) else p.solo failed fails now (n + 1) none (σ.write buf) := rfl

end Calls

/-! ### Where a lone run ends -/

/-- None of the first `n` database calls fails. -/
def NoneBefore (fails : Nat → Bool) (n : Nat) : Prop := ∀ m, m < n → fails m = false

/-- The `n`-th database call is the first that fails. -/
def FirstFailure (fails : Nat → Bool) (n : Nat) : Prop := fails n = true ∧ NoneBefore fails n

theorem noneBefore_zero (fails : Nat → Bool) : NoneBefore fails 0 :=
  fun m hm => absurd hm (Nat.not_lt_zero m)

theorem NoneBefore.succ {fails : Nat → Bool} {n : Nat} (h : NoneBefore fails n)
    (hn : fails n = false) : NoneBefore fails (n + 1) := by
  intro m hm
  rcases Nat.lt_succ_iff_lt_or_eq.mp hm with hlt | rfl
  · exact h m hlt
  · exact hn

theorem FirstFailure.unique {fails : Nat → Bool} {n m : Nat} (h : FirstFailure fails n)
    (h' : FirstFailure fails m) : n = m := by
  rcases Nat.lt_trichotomy n m with hlt | rfl | hlt
  · exact absurd h.1 (by simp [h'.2 n hlt])
  · rfl
  · exact absurd h'.1 (by simp [h.2 m hlt])

theorem not_firstFailure {n : Nat} {P : Prop} (h : FirstFailure noFailure n) : P :=
  absurd h.1 Bool.false_ne_true

/-- A lone run that goes on with `p` after `n` database calls, none of which
failed, ends in `Q`. -/
def Ends (Q : Snap E × α → Prop) (failed : α) (fails : Nat → Bool) (now : Nat) (p : Prog E α)
    (n : Nat) (tx : Option (List E.Write)) (σ : Snap E) : Prop :=
  NoneBefore fails n → Q (p.solo failed fails now n tx σ)

namespace Ends

variable {Q : Snap E × α → Prop} {failed : α} {fails : Nat → Bool} {now n : Nat}
  {σ : Snap E} {buf : List E.Write} {tx : Option (List E.Write)}

/-- An autocommit statement that is not rejected. -/
theorem query {st : E.Stmt} {k : E.Result st → Prog E α} {r : E.Result st} {ws : List E.Write}
    (heval : E.eval st now σ.seq σ.db = some (r, ws))
    (hfail : FirstFailure fails n → Q (σ, failed))
    (h : Ends Q failed fails now (k r) (n + 1) none ((σ.bump st).write ws)) :
    Ends Q failed fails now (.query st k) n none σ := by
  intro hn
  cases hf : fails n with
  | true =>
      rw [solo_query_failed hf]
      exact hfail ⟨hf, hn⟩
  | false =>
      rw [solo_query hf heval]
      exact h (hn.succ hf)

/-- An autocommit statement that a constraint rejects. -/
theorem query_rejected {st : E.Stmt} {k : E.Result st → Prog E α}
    (heval : E.eval st now σ.seq σ.db = none) (h : Q (σ, failed)) :
    Ends Q failed fails now (.query st k) n none σ := by
  intro hn
  rw [solo_query_rejected heval]
  exact h

/-- An autocommit read. -/
theorem query_read {st : E.Stmt} {k : E.Result st → Prog E α} (f : E.Db → E.Result st)
    (heval : ∀ now seq db, E.eval st now seq db = some (f db, [])) (hdraws : E.draws st = false)
    (hfail : FirstFailure fails n → Q (σ, failed))
    (h : Ends Q failed fails now (k (f σ.db)) (n + 1) none σ) :
    Ends Q failed fails now (.query st k) n none σ := by
  refine query (heval _ _ _) hfail ?_
  have hbump : (σ.bump st).write [] = σ := by simp [Snap.bump, Snap.write, hdraws]
  rw [hbump]
  exact h

theorem begin {k : Prog E α} (hfail : FirstFailure fails n → Q (σ, failed))
    (h : Ends Q failed fails now k (n + 1) (some []) σ) :
    Ends Q failed fails now (.begin k) n none σ := by
  intro hn
  rw [solo_begin]
  split
  · rename_i hf
    exact hfail ⟨hf, hn⟩
  · rename_i hf
    exact h (hn.succ (by simpa using hf))

theorem lock {l : E.Lock} {k : Prog E α} (hfail : FirstFailure fails n → Q (σ, failed))
    (h : Ends Q failed fails now k (n + 1) (some buf) σ) :
    Ends Q failed fails now (.lock l k) n (some buf) σ := by
  intro hn
  rw [solo_lock]
  split
  · rename_i hf
    exact hfail ⟨hf, hn⟩
  · rename_i hf
    exact h (hn.succ (by simpa using hf))

/-- A statement in the transaction that is not rejected. -/
theorem exec {st : E.Stmt} {k : E.Result st → Prog E α} {r : E.Result st} {ws : List E.Write}
    (heval : E.eval st now σ.seq (E.applyAll buf σ.db) = some (r, ws))
    (hfail : FirstFailure fails n → Q (σ, failed))
    (h : Ends Q failed fails now (k r) (n + 1) (some (buf ++ ws)) (σ.bump st)) :
    Ends Q failed fails now (.exec st k) n (some buf) σ := by
  intro hn
  cases hf : fails n with
  | true =>
      rw [solo_exec_failed hf]
      exact hfail ⟨hf, hn⟩
  | false =>
      rw [solo_exec hf heval]
      exact h (hn.succ hf)

/-- A read in a transaction that has not written yet. -/
theorem exec_read {st : E.Stmt} {k : E.Result st → Prog E α} (f : E.Db → E.Result st)
    (heval : ∀ now seq db, E.eval st now seq db = some (f db, [])) (hdraws : E.draws st = false)
    (hfail : FirstFailure fails n → Q (σ, failed))
    (h : Ends Q failed fails now (k (f σ.db)) (n + 1) (some []) σ) :
    Ends Q failed fails now (.exec st k) n (some []) σ := by
  refine exec (heval _ _ _) hfail ?_
  have hbump : σ.bump st = σ := by simp [Snap.bump, hdraws]
  rw [hbump]
  exact h

/-- A statement in the transaction that a constraint rejects. -/
theorem exec_rejected {st : E.Stmt} {k : E.Result st → Prog E α}
    (heval : E.eval st now σ.seq (E.applyAll buf σ.db) = none) (h : Q (σ, failed)) :
    Ends Q failed fails now (.exec st k) n (some buf) σ := by
  intro hn
  rw [solo_exec_rejected heval]
  exact h

theorem commit {k : Prog E α} (hfail : FirstFailure fails n → Q (σ, failed))
    (h : Ends Q failed fails now k (n + 1) none (σ.write buf)) :
    Ends Q failed fails now (.commit k) n (some buf) σ := by
  intro hn
  rw [solo_commit]
  split
  · rename_i hf
    exact hfail ⟨hf, hn⟩
  · rename_i hf
    exact h (hn.succ (by simpa using hf))

/-- An answer after a rollback, whether or not the rollback goes through. -/
theorem rollback_done {a : Bool → α} (h : ∀ done, Q (σ, a done)) :
    Ends Q failed fails now (.rollback fun done => .done (a done)) n (some buf) σ :=
  fun _ => h _

theorem emit {m : E.Note} {k : Prog E α} (h : Ends Q failed fails now k n tx σ) :
    Ends Q failed fails now (.emit m k) n tx σ := h

theorem clock {k : Nat → Prog E α} (h : Ends Q failed fails now (k now) n tx σ) :
    Ends Q failed fails now (.clock k) n tx σ :=
  fun hn => by cases tx <;> exact h hn

theorem done {a : α} (h : NoneBefore fails n → Q (σ, a)) :
    Ends Q failed fails now (.done a) n tx σ :=
  fun hn => by cases tx <;> exact h hn

end Ends

/-! ### Lone runs as runs of the system -/

variable [DecidableEq ι] [DecidableEq E.Lock] {D : Discipline E} {C : ι → Contract D α}
  {cfg : Config ι α} {log₀ : List (Entry E ι)} {σ₀ : Snap E} {s : Sys E ι α} {i : ι}

/-- Nobody but `i` holds a lock. -/
def Alone (s : Sys E ι α) (i : ι) : Prop := ∀ l j, s.lockOf l = some j → j = i

omit [DecidableEq ι] [DecidableEq E.Lock] in
theorem Alone.free (h : Alone s i) (ls : List E.Lock) : Free s.lockOf i ls := by
  intro l _
  cases hl : s.lockOf l with
  | none => exact Or.inl rfl
  | some j => exact Or.inr (by rw [h l j hl])

omit [DecidableEq E.Lock] in
theorem Alone.close (h : Alone s i) : Alone (s.close i) i := by
  intro l j hl
  by_contra hj
  exact hj (h l j ((release_other_iff hj).mp hl))

omit [DecidableEq ι] in
theorem Alone.hold (h : Alone s i) (ls : List E.Lock) : Alone (s.hold i ls) i := by
  intro l j hl
  by_contra hj
  exact hj (h l j ((take_other_iff hj (h.free ls)).mp hl))

/-- Request `i` went from `s` to an answer without anyone else moving. -/
def Finished (cfg : Config ι α) (s : Sys E ι α) (i : ι) (r : Snap E × α) : Prop :=
  ∃ s', Reachable (step cfg) s s' ∧ s'.calls = Function.update s.calls i (.done r.2) ∧
    s'.snap = r.1

theorem Finished.of_step {s₁ : Sys E ι α} {l : Label ι} {ph : Phase E α} {r : Snap E × α}
    (hstep : step cfg l s = some s₁) (hcalls : s₁.calls = Function.update s.calls i ph)
    (h : Finished cfg s₁ i r) : Finished cfg s i r := by
  obtain ⟨s', hr, hc, hs⟩ := h
  refine ⟨s', (Reachable.refl s).tail hstep |>.trans hr, ?_, hs⟩
  rw [hc, hcalls, Function.update_idem]

/-- The last step of a lone run. -/
theorem Finished.last {t : Sys E ι α} {l : Label ι} {r : Snap E × α}
    (hstep : step cfg l s = some t) (hcalls : t.calls = Function.update s.calls i (.done r.2))
    (hsnap : t.snap = r.1) : Finished cfg s i r :=
  ⟨t, (Reachable.refl s).tail hstep, hcalls, hsnap⟩

/-- Failures are injected only into a system that may fail. -/
def MayFail (cfg : Config ι α) (fails : Nat → Bool) : Prop :=
  cfg.faulty = true ∨ fails = noFailure

omit [DecidableEq ι] in
theorem MayFail.faulty {fails : Nat → Bool} {n : Nat} (hf : MayFail cfg fails)
    (hn : fails n = true) : cfg.faulty = true := by
  rcases hf with hfaulty | hnone
  · exact hfaulty
  · rw [hnone] at hn
    cases hn

/-- From a state in which nobody else holds a lock and a connection is free, the
program `p` of `i` is brought to its answer by the moves of `i`, and the answer and
the state are those of `Prog.solo`. The second part is the same from inside its
transaction, begun at the current time. -/
def Served (C : ι → Contract D α) (cfg : Config ι α) (log₀ : List (Entry E ι)) (σ₀ : Snap E)
    (fails : Nat → Bool) (i : ι) (p : Prog E α) : Prop :=
  ∀ (s : Sys E ι α) (n : Nat), SysInv C cfg log₀ σ₀ s → Alone s i →
    (s.calls i = .pool p → s.inUse < cfg.poolSize →
      Finished cfg s i (p.solo (cfg.failed i) fails s.now n none s.snap)) ∧
    (∀ buf notes, s.calls i = .tx s.now buf notes p → s.inUse - 1 < cfg.poolSize →
      Finished cfg s i (p.solo (cfg.failed i) fails s.now n (some buf) s.snap))

omit [DecidableEq E.Lock] in
theorem SysInv.safe_pool {p : Prog E α} (h : SysInv C cfg log₀ σ₀ s) (hc : s.calls i = .pool p) :
    (C i).Safe (cfg.failed i) p (.pool s.snap (committed i s.log)) :=
  (h.call hc).2

omit [DecidableEq E.Lock] in
theorem SysInv.safe_tx {start : Nat} {buf : List E.Write} {notes : List E.Note} {p : Prog E α}
    (h : SysInv C cfg log₀ σ₀ s) (hc : s.calls i = .tx start buf notes p) :
    ∃ H, (C i).Safe (cfg.failed i) p (.tx start H s.snap buf notes) := by
  obtain ⟨-, H, -, hsafe⟩ := h.call hc
  exact ⟨H, hsafe⟩

namespace Served

variable {fails : Nat → Bool} {n : Nat}

/-- A call on the pool fails, in one `fail` move. -/
theorem failPool (hf : MayFail cfg fails) (hn : fails n = true)
    (hs : failStep cfg i s = some (s.goto i (.done (cfg.failed i)))) :
    Finished cfg s i (s.snap, cfg.failed i) := by
  refine .last (t := s.goto i (.done (cfg.failed i))) (l := .fail i) ?_ rfl rfl
  simp only [step, hf.faulty hn, if_pos]
  exact hs

/-- A call in the transaction fails, in one `fail` move. -/
theorem failTx {notes : List E.Note} (hf : MayFail cfg fails) (hn : fails n = true)
    (hs : failStep cfg i s =
      some (((s.close i).record (.fault i notes)).goto i (.done (cfg.failed i)))) :
    Finished cfg s i (s.snap, cfg.failed i) := by
  refine .last (t := ((s.close i).record (.fault i notes)).goto i (.done (cfg.failed i)))
    (l := .fail i) ?_ rfl rfl
  simp only [step, hf.faulty hn, if_pos]
  exact hs

theorem query (hf : MayFail cfg fails) {st : E.Stmt} {k : E.Result st → Prog E α}
    (ih : ∀ r, Served C cfg log₀ σ₀ fails i (k r)) :
    Served C cfg log₀ σ₀ fails i (.query st k) := by
  intro s n h ha
  constructor
  · intro hc hN
    cases hn : fails n with
    | true =>
        rw [solo_query_failed hn]
        exact failPool hf hn (by simp only [failStep, hc])
    | false =>
        -- the statement borrows a connection in one step, and runs in the next
        have hacq : step cfg (.run i) s = some (s.borrow.goto i (.conn st k)) := by
          simp [step, runStep, hc, poolStep, hN]
        have h₁ := sysInv_step h hacq
        refine .of_step hacq rfl ?_
        cases he : E.eval st s.now s.snap.seq s.snap.db with
        | none =>
            rw [solo_query_rejected he]
            refine .last (l := .run i)
              (t := (s.borrow.goto i (.conn st k)).giveBack.goto i (.done (cfg.failed i)))
              ?_ rfl rfl
            simp only [step, runStep, Sys.goto, Function.update_self, connStep, Sys.borrow]
            rw [show E.eval st s.now s.seq s.db = none from he]
        | some r =>
            rw [solo_query hn he]
            have hexec : step cfg (.run i) (s.borrow.goto i (.conn st k)) =
                some ((((((s.borrow.goto i (.conn st k)).write r.2).bump st).giveBack.record
                  (.auto i s.now r.2))).goto i (.pool (k r.1))) := by
              simp only [step, runStep, Sys.goto, Function.update_self, connStep, Sys.borrow]
              rw [show E.eval st s.now s.seq s.db = some r from he]
              exact if_pos (ha.free _)
            refine .of_step hexec rfl ?_
            exact (ih r.1 _ (n + 1) (sysInv_step h₁ hexec) ha).1 (by simp [Sys.goto]) hN
  · intro buf notes hc _
    obtain ⟨H, hsafe⟩ := h.safe_tx hc
    exact hsafe.elim

theorem begin (hf : MayFail cfg fails) {k : Prog E α} (ih : Served C cfg log₀ σ₀ fails i k) :
    Served C cfg log₀ σ₀ fails i (.begin k) := by
  intro s n h ha
  constructor
  · intro hc hN
    rw [solo_begin]
    cases hn : fails n with
    | true => exact failPool hf hn (by simp only [failStep, hc])
    | false =>
        have hb : step cfg (.run i) s = some (s.borrow.goto i (.tx s.now [] [] k)) := by
          simp [step, runStep, hc, poolStep, hN]
        exact .of_step hb rfl
          ((ih _ (n + 1) (sysInv_step h hb) ha).2 [] [] (by simp [Sys.goto, Sys.borrow]) hN)
  · intro buf notes hc _
    obtain ⟨H, hsafe⟩ := h.safe_tx hc
    exact hsafe.elim

theorem lock (hf : MayFail cfg fails) {l : E.Lock} {k : Prog E α}
    (ih : Served C cfg log₀ σ₀ fails i k) : Served C cfg log₀ σ₀ fails i (.lock l k) := by
  intro s n h ha
  refine ⟨fun hc _ => (h.safe_pool hc).elim, fun buf notes hc hN => ?_⟩
  rw [solo_lock]
  cases hn : fails n with
  | true => exact failTx hf hn (by simp only [failStep, hc]; rfl)
  | false =>
      have hl : step cfg (.run i) s =
          some ((s.hold i [l]).goto i (.tx s.now buf notes k)) := by
        simp only [step, runStep, hc, txStep]
        exact if_pos (ha.free _)
      exact .of_step hl rfl ((ih _ (n + 1) (sysInv_step h hl) (ha.hold [l])).2 buf notes
        (by simp [Sys.goto, Sys.hold]) hN)

theorem exec (hf : MayFail cfg fails) {st : E.Stmt} {k : E.Result st → Prog E α}
    (ih : ∀ r, Served C cfg log₀ σ₀ fails i (k r)) :
    Served C cfg log₀ σ₀ fails i (.exec st k) := by
  intro s n h ha
  refine ⟨fun hc _ => (h.safe_pool hc).elim, fun buf notes hc hN => ?_⟩
  cases hn : fails n with
  | true =>
      rw [solo_exec_failed hn]
      exact failTx hf hn (by simp only [failStep, hc]; rfl)
  | false =>
      cases he : E.eval st s.now s.snap.seq (E.applyAll buf s.snap.db) with
      | none =>
          rw [solo_exec_rejected he]
          refine .last (l := .run i) (t := ((s.close i).record (.abort i s.now notes)).goto i
            (.done (cfg.failed i))) ?_ rfl rfl
          simp only [step, runStep, hc, txStep]
          rw [show E.eval st s.now s.seq (E.applyAll buf s.db) = none from he]
      | some r =>
          rw [solo_exec hn he]
          have hexec : step cfg (.run i) s = some (((s.hold i
              (E.locks st s.now s.seq (E.applyAll buf s.db))).bump st).goto i
                (.tx s.now (buf ++ r.2) notes (k r.1))) := by
            simp only [step, runStep, hc, txStep]
            rw [show E.eval st s.now s.seq (E.applyAll buf s.db) = some r from he]
            exact if_pos (ha.free _)
          exact .of_step hexec rfl ((ih r.1 _ (n + 1) (sysInv_step h hexec) (ha.hold _)).2
            (buf ++ r.2) notes (by simp [Sys.goto, Sys.hold, Sys.bump]) hN)

theorem commit (hf : MayFail cfg fails) {k : Prog E α} (ih : Served C cfg log₀ σ₀ fails i k) :
    Served C cfg log₀ σ₀ fails i (.commit k) := by
  intro s n h ha
  refine ⟨fun hc _ => (h.safe_pool hc).elim, fun buf notes hc hN => ?_⟩
  rw [solo_commit]
  cases hn : fails n with
  | true => exact failTx hf hn (by simp only [failStep, hc]; rfl)
  | false =>
      have hcm : step cfg (.run i) s = some ((((s.write buf).close i).record
          (.commit i s.now buf notes)).goto i (.pool k)) := by
        simp only [step, runStep, hc, txStep]
      exact .of_step hcm rfl ((ih _ (n + 1) (sysInv_step h hcm) ha.close).1
        (by simp [Sys.goto]) hN)

theorem rollback (hf : MayFail cfg fails) {k : Bool → Prog E α}
    (ih : ∀ done, Served C cfg log₀ σ₀ fails i (k done)) :
    Served C cfg log₀ σ₀ fails i (.rollback k) := by
  intro s n h ha
  refine ⟨fun hc _ => (h.safe_pool hc).elim, fun buf notes hc hN => ?_⟩
  change Finished cfg s i ((k (!fails n)).solo (cfg.failed i) fails s.now (n + 1) none s.snap)
  cases hn : fails n with
  | true =>
      have hr : step cfg (.fail i) s = some (((s.close i).record (.fault i notes)).goto i
          (.pool (k false))) := by
        simp [step, hf.faulty hn, failStep, hc]
      exact .of_step hr rfl ((ih false _ (n + 1) (sysInv_step h hr) ha.close).1
        (by simp [Sys.goto]) hN)
  | false =>
      have hr : step cfg (.run i) s = some (((s.close i).record (.abort i s.now notes)).goto i
          (.pool (k true))) := by
        simp only [step, runStep, hc, txStep]
      exact .of_step hr rfl ((ih true _ (n + 1) (sysInv_step h hr) ha.close).1
        (by simp [Sys.goto]) hN)

theorem clock {k : Nat → Prog E α} (ih : ∀ now, Served C cfg log₀ σ₀ fails i (k now)) :
    Served C cfg log₀ σ₀ fails i (.clock k) := by
  intro s n h ha
  constructor
  · intro hc hN
    have hk : step cfg (.run i) s = some (s.goto i (.pool (k s.now))) := by
      simp only [step, runStep, hc, poolStep]
    exact .of_step hk rfl ((ih s.now _ n (sysInv_step h hk) ha).1 (by simp [Sys.goto]) hN)
  · intro buf notes hc hN
    have hk : step cfg (.run i) s = some (s.goto i (.tx s.now buf notes (k s.now))) := by
      simp only [step, runStep, hc, txStep]
    exact .of_step hk rfl
      ((ih s.now _ n (sysInv_step h hk) ha).2 buf notes (by simp [Sys.goto]) hN)

theorem emit {m : E.Note} {k : Prog E α} (ih : Served C cfg log₀ σ₀ fails i k) :
    Served C cfg log₀ σ₀ fails i (.emit m k) := by
  intro s n h ha
  constructor
  · intro hc hN
    have hk : step cfg (.run i) s = some ((s.record (.note i m)).goto i (.pool k)) := by
      simp only [step, runStep, hc, poolStep]
    exact .of_step hk rfl ((ih _ n (sysInv_step h hk) ha).1 (by simp [Sys.goto]) hN)
  · intro buf notes hc hN
    have hk : step cfg (.run i) s = some (s.goto i (.tx s.now buf (notes ++ [m]) k)) := by
      simp only [step, runStep, hc, txStep]
    exact .of_step hk rfl
      ((ih _ n (sysInv_step h hk) ha).2 buf (notes ++ [m]) (by simp [Sys.goto]) hN)

theorem done (a : α) : Served C cfg log₀ σ₀ fails i (.done a) := by
  intro s n h ha
  constructor
  · intro hc hN
    refine .last (l := .run i) (t := s.goto i (.done a)) ?_ rfl rfl
    simp only [step, runStep, hc, poolStep]
  · intro buf notes hc hN
    refine .last (l := .run i)
      (t := ((s.close i).record (.abort i s.now notes)).goto i (.done a)) ?_ rfl rfl
    simp only [step, runStep, hc, txStep]

end Served

/-- **A lone run is a run of the system.** -/
theorem solo_run {fails : Nat → Bool} (hf : MayFail cfg fails) (p : Prog E α) :
    Served C cfg log₀ σ₀ fails i p := by
  induction p with
  | query st k ih => exact .query hf ih
  | begin k ih => exact .begin hf ih
  | lock l k ih => exact .lock hf ih
  | exec st k ih => exact .exec hf ih
  | commit k ih => exact .commit hf ih
  | rollback k ih => exact .rollback hf ih
  | clock k ih => exact .clock ih
  | emit m k ih => exact .emit ih
  | done a => exact .done a

/-- A request that has not arrived runs alone to its answer. -/
theorem solo_run_idle {fails : Nat → Bool} (hf : MayFail cfg fails) {p : Prog E α}
    (h : SysInv C cfg log₀ σ₀ s) (ha : Alone s i) (hc : s.calls i = .idle p)
    (hN : s.inUse < cfg.poolSize) :
    Finished cfg s i (p.solo (cfg.failed i) fails s.now 0 none s.snap) := by
  have harrive : step cfg (.run i) s = some (s.goto i (.pool p)) := by
    simp only [step, runStep, hc]
  exact .of_step harrive rfl
    ((solo_run hf p _ 0 (sysInv_step h harrive) ha).1 (by simp [Sys.goto]) hN)

end Txn
