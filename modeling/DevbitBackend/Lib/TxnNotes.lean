import DevbitBackend.Lib.TxnSolo

/-!
# TxnNotes

What a lone run says besides its answer. `Prog.told` are the notes that a request emits
in the run that `Prog.solo` evaluates, in their order, and `Tells` states both at once,
with one rule for each way a program uses a statement.
-/

namespace Txn

variable {E : Engine} {α : Type}

/-- What a program emits when it runs alone: the notes of the run of `Prog.solo`. -/
def Prog.told (fails : Nat → Bool) (now : Nat) :
    Prog E α → (n : Nat) → Option (List E.Write) → Snap E → List E.Note
  | .query st k, n, none, σ =>
      if fails n then []
      else match E.eval st now σ.seq σ.db with
        | none => []
        | some (r, ws) => (k r).told fails now (n + 1) none ((σ.bump st).write ws)
  | .begin k, n, none, σ => if fails n then [] else k.told fails now (n + 1) (some []) σ
  | .lock _ k, n, some buf, σ => if fails n then [] else k.told fails now (n + 1) (some buf) σ
  | .exec st k, n, some buf, σ =>
      if fails n then []
      else match E.eval st now σ.seq (E.applyAll buf σ.db) with
        | none => []
        | some (r, ws) => (k r).told fails now (n + 1) (some (buf ++ ws)) (σ.bump st)
  | .commit k, n, some buf, σ =>
      if fails n then [] else k.told fails now (n + 1) none (σ.write buf)
  | .rollback k, n, some _, σ => (k (!fails n)).told fails now (n + 1) none σ
  | .clock k, n, tx, σ => (k now).told fails now n tx σ
  | .emit m k, n, tx, σ => m :: k.told fails now n tx σ
  | _, _, _, _ => []

/-- A lone run that goes on with `p` after `n` database calls, none of which failed, ends
and has then told what `Q` says. -/
def Tells (Q : Snap E × α → List E.Note → Prop) (failed : α) (fails : Nat → Bool) (now : Nat)
    (p : Prog E α) (n : Nat) (tx : Option (List E.Write)) (σ : Snap E) : Prop :=
  NoneBefore fails n → Q (p.solo failed fails now n tx σ) (p.told fails now n tx σ)

namespace Tells

variable {Q : Snap E × α → List E.Note → Prop} {failed : α} {fails : Nat → Bool} {now n : Nat}
  {σ : Snap E} {buf : List E.Write} {tx : Option (List E.Write)}

/-- An autocommit statement that is not rejected. -/
theorem query {st : E.Stmt} {k : E.Result st → Prog E α} {r : E.Result st} {ws : List E.Write}
    (heval : E.eval st now σ.seq σ.db = some (r, ws))
    (hfail : FirstFailure fails n → Q (σ, failed) [])
    (h : Tells Q failed fails now (k r) (n + 1) none ((σ.bump st).write ws)) :
    Tells Q failed fails now (.query st k) n none σ := by
  intro hn
  cases hf : fails n with
  | true =>
      rw [solo_query_failed hf]
      simpa only [Prog.told, hf, if_true] using hfail ⟨hf, hn⟩
  | false =>
      rw [solo_query hf heval]
      simpa [Prog.told, hf, heval] using h (hn.succ hf)

/-- An autocommit read. -/
theorem query_read {st : E.Stmt} {k : E.Result st → Prog E α} (f : E.Db → E.Result st)
    (heval : ∀ now seq db, E.eval st now seq db = some (f db, [])) (hdraws : E.draws st = false)
    (hfail : FirstFailure fails n → Q (σ, failed) [])
    (h : Tells Q failed fails now (k (f σ.db)) (n + 1) none σ) :
    Tells Q failed fails now (.query st k) n none σ := by
  refine query (heval _ _ _) hfail ?_
  have hbump : (σ.bump st).write [] = σ := by simp [Snap.bump, Snap.write, hdraws]
  rw [hbump]
  exact h

theorem begin {k : Prog E α} (hfail : FirstFailure fails n → Q (σ, failed) [])
    (h : Tells Q failed fails now k (n + 1) (some []) σ) :
    Tells Q failed fails now (.begin k) n none σ := by
  intro hn
  cases hf : fails n with
  | true => simpa [Prog.solo, Prog.told, hf] using hfail ⟨hf, hn⟩
  | false => simpa [Prog.solo, Prog.told, hf] using h (hn.succ hf)

theorem lock {l : E.Lock} {k : Prog E α} (hfail : FirstFailure fails n → Q (σ, failed) [])
    (h : Tells Q failed fails now k (n + 1) (some buf) σ) :
    Tells Q failed fails now (.lock l k) n (some buf) σ := by
  intro hn
  cases hf : fails n with
  | true => simpa [Prog.solo, Prog.told, hf] using hfail ⟨hf, hn⟩
  | false => simpa [Prog.solo, Prog.told, hf] using h (hn.succ hf)

/-- A statement in the transaction that is not rejected. -/
theorem exec {st : E.Stmt} {k : E.Result st → Prog E α} {r : E.Result st} {ws : List E.Write}
    (heval : E.eval st now σ.seq (E.applyAll buf σ.db) = some (r, ws))
    (hfail : FirstFailure fails n → Q (σ, failed) [])
    (h : Tells Q failed fails now (k r) (n + 1) (some (buf ++ ws)) (σ.bump st)) :
    Tells Q failed fails now (.exec st k) n (some buf) σ := by
  intro hn
  cases hf : fails n with
  | true =>
      rw [solo_exec_failed hf]
      simpa only [Prog.told, hf, if_true] using hfail ⟨hf, hn⟩
  | false =>
      rw [solo_exec hf heval]
      simpa [Prog.told, hf, heval] using h (hn.succ hf)

/-- A read in a transaction that has not written yet. -/
theorem exec_read {st : E.Stmt} {k : E.Result st → Prog E α} (f : E.Db → E.Result st)
    (heval : ∀ now seq db, E.eval st now seq db = some (f db, [])) (hdraws : E.draws st = false)
    (hfail : FirstFailure fails n → Q (σ, failed) [])
    (h : Tells Q failed fails now (k (f σ.db)) (n + 1) (some []) σ) :
    Tells Q failed fails now (.exec st k) n (some []) σ := by
  refine exec (heval _ _ _) hfail ?_
  have hbump : σ.bump st = σ := by simp [Snap.bump, hdraws]
  rw [hbump]
  exact h

/-- A statement in the transaction that a constraint rejects. -/
theorem exec_rejected {st : E.Stmt} {k : E.Result st → Prog E α}
    (heval : E.eval st now σ.seq (E.applyAll buf σ.db) = none) (h : Q (σ, failed) []) :
    Tells Q failed fails now (.exec st k) n (some buf) σ := by
  intro _
  rw [solo_exec_rejected heval]
  simpa [Prog.told, heval] using h

theorem commit {k : Prog E α} (hfail : FirstFailure fails n → Q (σ, failed) [])
    (h : Tells Q failed fails now k (n + 1) none (σ.write buf)) :
    Tells Q failed fails now (.commit k) n (some buf) σ := by
  intro hn
  cases hf : fails n with
  | true => simpa [Prog.solo, Prog.told, hf] using hfail ⟨hf, hn⟩
  | false => simpa [Prog.solo, Prog.told, hf] using h (hn.succ hf)

/-- A note is told before what follows it. -/
theorem emit {m : E.Note} {k : Prog E α}
    (h : Tells (fun out told => Q out (m :: told)) failed fails now k n tx σ) :
    Tells Q failed fails now (.emit m k) n tx σ := by
  intro hn
  cases tx <;> exact h hn

theorem done {a : α} (h : NoneBefore fails n → Q (σ, a) []) :
    Tells Q failed fails now (.done a) n tx σ :=
  fun hn => by cases tx <;> exact h hn

end Tells

end Txn
