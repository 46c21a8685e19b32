import Mathlib.Logic.Function.Basic
import Mathlib.Data.List.Basic
import DevbitBackend.Lib.Transition
import DevbitBackend.Lib.Locks

/-!
# Txn

Request handlers over a relational database at the isolation level **READ
COMMITTED**, in two parts:

* `Prog` is the code of one request as the database sees it: statements on the
  pool, at most one transaction at a time, and the continuation that inspects
  each result. Leaving a transaction open at `done` is an early return, which
  drops it and rolls it back.
* `Sys` runs any number of such programs against one database. Every label of
  `step` is one atomic move of one request: it borrows a connection, runs one
  statement, commits, rolls back, or meets an injected failure.

Visibility is what READ COMMITTED promises: a statement is evaluated against
what is committed when it runs together with its own transaction's writes
(`applyAll buf db`), and the writes of a transaction reach the committed state
together, at its commit.

Advisory locks and row locks share one table. A statement that locks rows runs
only when all of them are free, so a wait and the re-read after it are one move:
waiting first and re-evaluating when the lock is granted shows a request nothing
that running the statement at that later moment would not. Locks are given back
when the transaction ends.
-/

namespace Txn

open Locks

/-- A database engine: its committed states, its row-level writes and its
statements. `eval` is one statement at time `now`, where `seq` is the next value
of the sequence behind generated ids: it answers a result and the writes it
makes, or `none` when a constraint rejects it. `locks` are the rows the statement
locks until its transaction ends, and `draws` says whether it consumes a sequence
value. -/
structure Engine where
  Db : Type
  Write : Type
  Stmt : Type
  Result : Stmt → Type
  Lock : Type
  Note : Type
  apply : Write → Db → Db
  eval : (st : Stmt) → (now seq : Nat) → Db → Option (Result st × List Write)
  locks : Stmt → (now seq : Nat) → Db → List Lock
  draws : Stmt → Bool

/-- Apply writes in order. -/
def Engine.applyAll (E : Engine) (ws : List E.Write) (db : E.Db) : E.Db :=
  ws.foldl (fun d w => E.apply w d) db

@[simp] theorem Engine.applyAll_nil (E : Engine) (db : E.Db) : E.applyAll [] db = db := rfl

@[simp] theorem Engine.applyAll_cons (E : Engine) (w : E.Write) (ws : List E.Write) (db : E.Db) :
    E.applyAll (w :: ws) db = E.applyAll ws (E.apply w db) := rfl

theorem Engine.applyAll_append (E : Engine) (ws ws' : List E.Write) (db : E.Db) :
    E.applyAll (ws ++ ws') db = E.applyAll ws' (E.applyAll ws db) := by
  simp [Engine.applyAll]

/-- The statement writes nothing. The database may reject it. -/
def Engine.Silent (E : Engine) (st : E.Stmt) : Prop :=
  ∀ now seq db r ws, E.eval st now seq db = some (r, ws) → ws = []

/-- A read whose bound values are checked first. -/
theorem Engine.Silent.of_guard {E : Engine} {st : E.Stmt} {p : Prop} [Decidable p]
    (f : E.Db → E.Result st)
    (heval : ∀ now seq db, E.eval st now seq db = if p then some (f db, []) else none) :
    E.Silent st := by
  intro now seq db r ws he
  rw [heval] at he
  split at he
  · cases he
    rfl
  · cases he

/-- The code of one request. -/
inductive Prog (E : Engine) (α : Type)
  /-- An autocommit statement on the pool. -/
  | query (st : E.Stmt) (k : E.Result st → Prog E α)
  /-- `BEGIN`: the transaction keeps its connection until it ends. -/
  | begin (k : Prog E α)
  /-- Take an advisory lock bound to the open transaction. -/
  | lock (l : E.Lock) (k : Prog E α)
  /-- A statement in the open transaction. -/
  | exec (st : E.Stmt) (k : E.Result st → Prog E α)
  | commit (k : Prog E α)
  /-- An explicit `ROLLBACK`; the continuation learns whether it went through. -/
  | rollback (k : Bool → Prog E α)
  /-- Read the application's clock. -/
  | clock (k : Nat → Prog E α)
  /-- Something the request does besides talking to the database. -/
  | emit (n : E.Note) (k : Prog E α)
  /-- Answer the request. -/
  | done (a : α)

/-- Where one request stands. -/
inductive Phase (E : Engine) (α : Type)
  /-- It has not arrived yet. -/
  | idle (p : Prog E α)
  /-- It holds no connection. -/
  | pool (p : Prog E α)
  /-- It holds a connection for one autocommit statement. -/
  | conn (st : E.Stmt) (k : E.Result st → Prog E α)
  /-- It is in a transaction begun at `start`, with the writes `buf` still
  private. -/
  | tx (start : Nat) (buf : List E.Write) (notes : List E.Note) (p : Prog E α)
  /-- It has answered. -/
  | done (a : α)

/-- It has answered. -/
def Phase.isDone {E : Engine} {α : Type} : Phase E α → Bool
  | .done _ => true
  | _ => false

theorem Phase.isDone_iff {E : Engine} {α : Type} {ph : Phase E α} :
    ph.isDone = true ↔ ∃ a, ph = .done a := by
  cases ph <;> simp [isDone]

/-- History of a run. Only the proofs read it: no move depends on it. -/
inductive Entry (E : Engine) (ι : Type)
  | commit (i : ι) (start : Nat) (ws : List E.Write) (notes : List E.Note)
  | auto (i : ι) (at_ : Nat) (ws : List E.Write)
  | abort (i : ι) (start : Nat) (notes : List E.Note)
  | fault (i : ι) (notes : List E.Note)
  | note (i : ι) (n : E.Note)

/-- The entry records a committed transaction of `i`. -/
def Entry.commitOf {E : Engine} {ι : Type} [DecidableEq ι] (i : ι) : Entry E ι → Bool
  | .commit j _ _ _ => i == j
  | _ => false

/-- What was noted in the transaction that an entry ends. -/
def Entry.notes {E : Engine} {ι : Type} : Entry E ι → List E.Note
  | .commit _ _ _ notes | .abort _ _ notes | .fault _ notes => notes
  | _ => []

/-- The request an entry is about. -/
def Entry.call {E : Engine} {ι : Type} : Entry E ι → ι
  | .commit i _ _ _ => i
  | .auto i _ _ => i
  | .abort i _ _ => i
  | .fault i _ => i
  | .note i _ => i

/-- The parameters of a deployment: the connections of the pool, whether
database calls may fail, and the answer of each request when a database call of it
fails. -/
structure Config (ι α : Type) where
  poolSize : Nat
  faulty : Bool
  failed : ι → α

/-- The whole system: the committed database, the sequence, the clock, the
connections in use, the lock table, the requests and the history. -/
structure Sys (E : Engine) (ι α : Type) where
  db : E.Db
  seq : Nat
  now : Nat
  inUse : Nat
  lockOf : Table E.Lock ι
  calls : ι → Phase E α
  log : List (Entry E ι)

/-- One move: request `i` goes on, the next database call of `i` fails, or time
passes. -/
inductive Label (ι : Type)
  | run (i : ι)
  | fail (i : ι)
  | tick (d : Nat)
  deriving DecidableEq

variable {E : Engine} {ι α : Type} [DecidableEq ι] [DecidableEq E.Lock]

/-- No request has arrived, nothing is locked or borrowed. -/
def Sys.start (db : E.Db) (seq now : Nat) (progs : ι → Prog E α) : Sys E ι α where
  db := db
  seq := seq
  now := now
  inUse := 0
  lockOf := fun _ => none
  calls := fun i => .idle (progs i)
  log := []

namespace Sys

/-- Request `i` moves to `ph`. -/
def goto (s : Sys E ι α) (i : ι) (ph : Phase E α) : Sys E ι α :=
  { s with calls := Function.update s.calls i ph }

/-- Borrow a connection. -/
def borrow (s : Sys E ι α) : Sys E ι α := { s with inUse := s.inUse + 1 }

/-- Return a connection. -/
def giveBack (s : Sys E ι α) : Sys E ι α := { s with inUse := s.inUse - 1 }

/-- The transaction of `i` ends: its locks and its connection are given back. -/
def close (s : Sys E ι α) (i : ι) : Sys E ι α :=
  { s with lockOf := release s.lockOf i, inUse := s.inUse - 1 }

/-- Record a history entry. -/
def record (s : Sys E ι α) (e : Entry E ι) : Sys E ι α := { s with log := s.log ++ [e] }

/-- The writes become visible. -/
def write (s : Sys E ι α) (ws : List E.Write) : Sys E ι α := { s with db := E.applyAll ws s.db }

/-- The statement consumes its sequence value, if it draws one. -/
def bump (s : Sys E ι α) (st : E.Stmt) : Sys E ι α :=
  { s with seq := if E.draws st then s.seq + 1 else s.seq }

/-- `i` locks rows. -/
def hold (s : Sys E ι α) (i : ι) (ls : List E.Lock) : Sys E ι α :=
  { s with lockOf := take s.lockOf i ls }

end Sys

/-- A move of a request that holds no connection. Locking, executing and ending
a transaction are not possible here. -/
def poolStep (cfg : Config ι α) (i : ι) (s : Sys E ι α) : Prog E α → Option (Sys E ι α)
  | .query st k => if s.inUse < cfg.poolSize then some (s.borrow.goto i (.conn st k)) else none
  | .begin k =>
      if s.inUse < cfg.poolSize then some (s.borrow.goto i (.tx s.now [] [] k)) else none
  | .clock k => some (s.goto i (.pool (k s.now)))
  | .emit n k => some ((s.record (.note i n)).goto i (.pool k))
  | .done a => some (s.goto i (.done a))
  | .lock _ _ | .exec _ _ | .commit _ | .rollback _ => none

/-- An autocommit statement runs, becomes visible and returns its connection. A
rejected one answers `failed`. -/
def connStep (cfg : Config ι α) (i : ι) (s : Sys E ι α) (st : E.Stmt)
    (k : E.Result st → Prog E α) : Option (Sys E ι α) :=
  match E.eval st s.now s.seq s.db with
  | none => some (s.giveBack.goto i (.done (cfg.failed i)))
  | some (r, ws) =>
      if Free s.lockOf i (E.locks st s.now s.seq s.db) then
        some ((((s.write ws).bump st).giveBack.record (.auto i s.now ws)).goto i (.pool (k r)))
      else none

/-- A move inside a transaction begun at `start`. The current time of the
statements is the start of the transaction. Asking the pool for a second
connection, or for a second transaction, is not possible here. -/
def txStep (cfg : Config ι α) (i : ι) (s : Sys E ι α) (start : Nat) (buf : List E.Write)
    (notes : List E.Note) : Prog E α → Option (Sys E ι α)
  | .exec st k =>
      let view := E.applyAll buf s.db
      match E.eval st start s.seq view with
      | none => some (((s.close i).record (.abort i start notes)).goto i (.done (cfg.failed i)))
      | some (r, ws) =>
          let ls := E.locks st start s.seq view
          if Free s.lockOf i ls then
            some (((s.hold i ls).bump st).goto i (.tx start (buf ++ ws) notes (k r)))
          else none
  | .lock l k =>
      if Free s.lockOf i [l] then some ((s.hold i [l]).goto i (.tx start buf notes k)) else none
  | .commit k =>
      some ((((s.write buf).close i).record (.commit i start buf notes)).goto i (.pool k))
  | .rollback k => some (((s.close i).record (.abort i start notes)).goto i (.pool (k true)))
  | .clock k => some (s.goto i (.tx start buf notes (k s.now)))
  | .emit n k => some (s.goto i (.tx start buf (notes ++ [n]) k))
  | .done a => some (((s.close i).record (.abort i start notes)).goto i (.done a))
  | .query _ _ | .begin _ => none

/-- The next move of request `i`. -/
def runStep (cfg : Config ι α) (i : ι) (s : Sys E ι α) : Option (Sys E ι α) :=
  match s.calls i with
  | .idle p => some (s.goto i (.pool p))
  | .pool p => poolStep cfg i s p
  | .conn st k => connStep cfg i s st k
  | .tx start buf notes p => txStep cfg i s start buf notes p
  | .done _ => none

/-- The next database call of request `i` fails. Outside a transaction the
request answers `failed`; inside one, the transaction is rolled back first. -/
def failStep (cfg : Config ι α) (i : ι) (s : Sys E ι α) : Option (Sys E ι α) :=
  match s.calls i with
  | .pool (.query _ _) | .pool (.begin _) => some (s.goto i (.done (cfg.failed i)))
  | .conn _ _ => some (s.giveBack.goto i (.done (cfg.failed i)))
  | .tx _ _ notes (.exec _ _) | .tx _ _ notes (.lock _ _) | .tx _ _ notes (.commit _) =>
      some (((s.close i).record (.fault i notes)).goto i (.done (cfg.failed i)))
  | .tx _ _ notes (.rollback k) =>
      some (((s.close i).record (.fault i notes)).goto i (.pool (k false)))
  | _ => none

/-- One move of the system. -/
def step (cfg : Config ι α) : Label ι → Sys E ι α → Option (Sys E ι α)
  | .run i, s => runStep cfg i s
  | .fail i, s => if cfg.faulty then failStep cfg i s else none
  | .tick d, s => some { s with now := s.now + d }

/-! ### What a move can be

`Move` lists the moves once, guards included. Everything proved about `step` is
proved by cases on it. -/

/-- The moves of the system, one constructor for each. -/
inductive Move (cfg : Config ι α) (s : Sys E ι α) : Label ι → Sys E ι α → Prop
  | arrive {i p} : s.calls i = .idle p → Move cfg s (.run i) (s.goto i (.pool p))
  | acquire {i st k} : s.calls i = .pool (.query st k) → s.inUse < cfg.poolSize →
      Move cfg s (.run i) (s.borrow.goto i (.conn st k))
  | begin {i k} : s.calls i = .pool (.begin k) → s.inUse < cfg.poolSize →
      Move cfg s (.run i) (s.borrow.goto i (.tx s.now [] [] k))
  | clock {i k} : s.calls i = .pool (.clock k) → Move cfg s (.run i) (s.goto i (.pool (k s.now)))
  | note {i n k} : s.calls i = .pool (.emit n k) →
      Move cfg s (.run i) ((s.record (.note i n)).goto i (.pool k))
  | answer {i a} : s.calls i = .pool (.done a) → Move cfg s (.run i) (s.goto i (.done a))
  | autoRejected {i st k} : s.calls i = .conn st k → E.eval st s.now s.seq s.db = none →
      Move cfg s (.run i) (s.giveBack.goto i (.done (cfg.failed i)))
  | auto {i st k r ws} : s.calls i = .conn st k → E.eval st s.now s.seq s.db = some (r, ws) →
      Free s.lockOf i (E.locks st s.now s.seq s.db) →
      Move cfg s (.run i)
        ((((s.write ws).bump st).giveBack.record (.auto i s.now ws)).goto i (.pool (k r)))
  | rejected {i start buf notes st k} : s.calls i = .tx start buf notes (.exec st k) →
      E.eval st start s.seq (E.applyAll buf s.db) = none →
      Move cfg s (.run i)
        (((s.close i).record (.abort i start notes)).goto i (.done (cfg.failed i)))
  | exec {i start buf notes st k r ws} : s.calls i = .tx start buf notes (.exec st k) →
      E.eval st start s.seq (E.applyAll buf s.db) = some (r, ws) →
      Free s.lockOf i (E.locks st start s.seq (E.applyAll buf s.db)) →
      Move cfg s (.run i)
        (((s.hold i (E.locks st start s.seq (E.applyAll buf s.db))).bump st).goto i
          (.tx start (buf ++ ws) notes (k r)))
  | lock {i start buf notes l k} : s.calls i = .tx start buf notes (.lock l k) →
      Free s.lockOf i [l] → Move cfg s (.run i) ((s.hold i [l]).goto i (.tx start buf notes k))
  | commit {i start buf notes k} : s.calls i = .tx start buf notes (.commit k) →
      Move cfg s (.run i)
        ((((s.write buf).close i).record (.commit i start buf notes)).goto i (.pool k))
  | rollback {i start buf notes k} : s.calls i = .tx start buf notes (.rollback k) →
      Move cfg s (.run i)
        (((s.close i).record (.abort i start notes)).goto i (.pool (k true)))
  | txClock {i start buf notes k} : s.calls i = .tx start buf notes (.clock k) →
      Move cfg s (.run i) (s.goto i (.tx start buf notes (k s.now)))
  | txNote {i start buf notes n k} : s.calls i = .tx start buf notes (.emit n k) →
      Move cfg s (.run i) (s.goto i (.tx start buf (notes ++ [n]) k))
  | leave {i start buf notes a} : s.calls i = .tx start buf notes (.done a) →
      Move cfg s (.run i) (((s.close i).record (.abort i start notes)).goto i (.done a))
  | failPool {i p} : s.calls i = .pool p → cfg.faulty = true →
      Move cfg s (.fail i) (s.goto i (.done (cfg.failed i)))
  | failConn {i st k} : s.calls i = .conn st k → cfg.faulty = true →
      Move cfg s (.fail i) (s.giveBack.goto i (.done (cfg.failed i)))
  | failTx {i start buf notes p} : s.calls i = .tx start buf notes p → cfg.faulty = true →
      Move cfg s (.fail i) (((s.close i).record (.fault i notes)).goto i (.done (cfg.failed i)))
  | failRollback {i start buf notes k} : s.calls i = .tx start buf notes (.rollback k) →
      cfg.faulty = true →
      Move cfg s (.fail i) (((s.close i).record (.fault i notes)).goto i (.pool (k false)))
  | tick {d} : Move cfg s (.tick d) { s with now := s.now + d }

theorem move_of_runStep {cfg : Config ι α} {s s' : Sys E ι α} {i : ι}
    (h : runStep cfg i s = some s') : Move cfg s (.run i) s' := by
  unfold runStep at h
  cases hc : s.calls i with
  | idle p =>
      simp only [hc] at h
      cases h
      exact .arrive hc
  | pool p =>
      simp only [hc] at h
      cases p with
      | query st k =>
          obtain ⟨hN, rfl⟩ : s.inUse < cfg.poolSize ∧ s.borrow.goto i (.conn st k) = s' := by
            simpa [poolStep] using h
          exact .acquire hc hN
      | begin k =>
          obtain ⟨hN, rfl⟩ : s.inUse < cfg.poolSize ∧ s.borrow.goto i (.tx s.now [] [] k) = s' := by
            simpa [poolStep] using h
          exact .begin hc hN
      | clock k => cases h; exact .clock hc
      | emit n k => cases h; exact .note hc
      | done a => cases h; exact .answer hc
      | lock l k => cases h
      | exec st k => cases h
      | commit k => cases h
      | rollback k => cases h
  | conn st k =>
      simp only [hc, connStep] at h
      cases he : E.eval st s.now s.seq s.db with
      | none =>
          rw [he] at h
          cases h
          exact .autoRejected hc he
      | some r =>
          rw [he] at h
          dsimp only at h
          split at h
          · rename_i hfree
            cases h
            exact .auto hc he hfree
          · cases h
  | tx start buf notes p =>
      simp only [hc] at h
      cases p with
      | exec st k =>
          simp only [txStep] at h
          cases he : E.eval st start s.seq (E.applyAll buf s.db) with
          | none =>
              rw [he] at h
              cases h
              exact .rejected hc he
          | some r =>
              rw [he] at h
              dsimp only at h
              split at h
              · rename_i hfree
                cases h
                exact .exec hc he hfree
              · cases h
      | lock l k =>
          simp only [txStep] at h
          split at h
          · rename_i hfree
            cases h
            exact .lock hc hfree
          · cases h
      | commit k => cases h; exact .commit hc
      | rollback k => cases h; exact .rollback hc
      | clock k => cases h; exact .txClock hc
      | emit n k => cases h; exact .txNote hc
      | done a => cases h; exact .leave hc
      | query st k => cases h
      | begin k => cases h
  | done a => simp [hc] at h

theorem move_of_failStep {cfg : Config ι α} {s s' : Sys E ι α} {i : ι} (hf : cfg.faulty = true)
    (h : failStep cfg i s = some s') : Move cfg s (.fail i) s' := by
  unfold failStep at h
  split at h
  · rename_i st k hc; cases h; exact .failPool hc hf
  · rename_i k hc; cases h; exact .failPool hc hf
  · rename_i st k hc; cases h; exact .failConn hc hf
  · rename_i hc; cases h; exact .failTx hc hf
  · rename_i hc; cases h; exact .failTx hc hf
  · rename_i hc; cases h; exact .failTx hc hf
  · rename_i hc; cases h; exact .failRollback hc hf
  · cases h

/-- Every step is one of the moves. -/
theorem move_of_step {cfg : Config ι α} {s s' : Sys E ι α} {l : Label ι}
    (h : step cfg l s = some s') : Move cfg s l s' := by
  cases l with
  | run i => exact move_of_runStep h
  | fail i =>
      simp only [step] at h
      split at h
      · rename_i hf
        exact move_of_failStep hf h
      · cases h
  | tick d => cases h; exact .tick

end Txn
