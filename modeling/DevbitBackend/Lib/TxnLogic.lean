import DevbitBackend.Lib.Txn

/-!
# TxnLogic

A rely–guarantee logic for the transaction programs of `Txn`.

A `Discipline` says what the transactions of a system may rely on: an invariant
`Inv` of the committed state, the changes `Base` that anyone may make at any
time, and for every lock the part `Keeps` of the state that nobody but its
holder changes. A `Contract` is what one request promises in return: what holds
at every point of its open transaction (`inTx`), what its commit does to the
state it finds (`commit`), and how it may answer (`reply`).

`Contract.Safe` checks one program against its contract by walking through its
code, letting the other requests change the state between any two statements as
far as the locks held allow (`Rely`). The main result is `sysInv_step`: when
every request is safe, every interleaving keeps the invariant, and its committed
state is the outcome of the recorded transactions run one after another
(`Trace`). Properties of all interleavings are then inductions over `Trace`,
with each transaction one atomic event.
-/

namespace Txn

open Locks Transition

variable {E : Engine}

/-- What the requests share: the committed state and the sequence. -/
structure Snap (E : Engine) where
  seq : Nat
  db : E.Db

namespace Snap

/-- The writes become visible. -/
def write (σ : Snap E) (ws : List E.Write) : Snap E := { σ with db := E.applyAll ws σ.db }

/-- The statement consumes its sequence value, if it draws one. -/
def bump (σ : Snap E) (st : E.Stmt) : Snap E :=
  { σ with seq := if E.draws st then σ.seq + 1 else σ.seq }

theorem seq_le_bump (σ : Snap E) (st : E.Stmt) : σ.seq ≤ (σ.bump st).seq := by
  simp only [bump]
  split <;> omega

end Snap

/-- What the transactions of a system may rely on. -/
structure Discipline (E : Engine) where
  Inv : Snap E → Prop
  Base : Snap E → Snap E → Prop
  Keeps : E.Lock → Snap E → Snap E → Prop
  base_refl : ∀ σ, Base σ σ
  base_trans : ∀ {σ₁ σ₂ σ₃}, Base σ₁ σ₂ → Base σ₂ σ₃ → Base σ₁ σ₃
  keeps_refl : ∀ l σ, Keeps l σ σ
  keeps_trans : ∀ {l σ₁ σ₂ σ₃}, Keeps l σ₁ σ₂ → Keeps l σ₂ σ₃ → Keeps l σ₁ σ₃
  inv_bump : ∀ {σ st}, Inv σ → Inv (σ.bump st)
  base_bump : ∀ σ st, Base σ (σ.bump st)
  keeps_bump : ∀ l σ st, Keeps l σ (σ.bump st)

/-- What others may do to the state while the locks `H` are held. -/
def Discipline.Rely (D : Discipline E) (H : List E.Lock) (σ σ' : Snap E) : Prop :=
  D.Base σ σ' ∧ ∀ l ∈ H, D.Keeps l σ σ'

namespace Discipline

variable {D : Discipline E}

theorem rely_refl (H : List E.Lock) (σ : Snap E) : D.Rely H σ σ :=
  ⟨D.base_refl σ, fun l _ => D.keeps_refl l σ⟩

theorem Rely.trans {H : List E.Lock} {σ₁ σ₂ σ₃ : Snap E} (h : D.Rely H σ₁ σ₂)
    (h' : D.Rely H σ₂ σ₃) : D.Rely H σ₁ σ₃ :=
  ⟨D.base_trans h.1 h'.1, fun l hl => D.keeps_trans (h.2 l hl) (h'.2 l hl)⟩

theorem Rely.bump {H : List E.Lock} {σ σ' : Snap E} (h : D.Rely H σ σ') (st : E.Stmt) :
    D.Rely H σ (σ'.bump st) :=
  h.trans ⟨D.base_bump σ' st, fun l _ => D.keeps_bump l σ' st⟩

end Discipline

/-- What one request promises. The fields after `reply` are the laws that make
the promise useful to the others: what it commits keeps the invariant and touches
only what its locks protect. -/
structure Contract (D : Discipline E) (α : Type) where
  /-- What is known of the state from the start of the request on. -/
  known : Snap E → Prop
  inTx : (start : Nat) → (H : List E.Lock) → Snap E → (buf : List E.Write) →
    (notes : List E.Note) → Prop
  commit : (start : Nat) → (H : List E.Lock) → Snap E → (ws : List E.Write) →
    (notes : List E.Note) → Prop
  abort : (start : Nat) → (H : List E.Lock) → Snap E → (notes : List E.Note) → Prop
  auto : (at_ : Nat) → (H : List E.Lock) → Snap E → (ws : List E.Write) → Prop
  /-- The answers it may give, after a commit or without one. -/
  reply : (committed : Bool) → α → Prop
  known_stable : ∀ {σ σ'}, known σ → D.Base σ σ' → known σ'
  inTx_stable : ∀ {start H σ σ' buf notes}, inTx start H σ buf notes → D.Rely H σ σ' →
    D.Inv σ' → inTx start H σ' buf notes
  commit_inv : ∀ {start H σ ws notes}, commit start H σ ws notes → D.Inv σ → D.Inv (σ.write ws)
  commit_base : ∀ {start H σ ws notes}, commit start H σ ws notes → D.Inv σ →
    D.Base σ (σ.write ws)
  commit_keeps : ∀ {start H σ ws notes l}, commit start H σ ws notes → D.Inv σ → l ∉ H →
    D.Keeps l σ (σ.write ws)
  auto_inv : ∀ {at_ H σ ws}, auto at_ H σ ws → D.Inv σ → D.Inv (σ.write ws)
  auto_base : ∀ {at_ H σ ws}, auto at_ H σ ws → D.Inv σ → D.Base σ (σ.write ws)
  auto_keeps : ∀ {at_ H σ ws l}, auto at_ H σ ws → D.Inv σ → l ∉ H → D.Keeps l σ (σ.write ws)

/-- Where a program is checked: outside a transaction, with the state it has
last seen and whether it has committed, or inside one, with the locks it
holds. -/
inductive Mode (E : Engine)
  | pool (σ : Snap E) (committed : Bool)
  | tx (start : Nat) (H : List E.Lock) (σ : Snap E) (buf : List E.Write) (notes : List E.Note)

variable {D : Discipline E} {α : Type}

/-- The program keeps the contract from here on, whatever the others do between
its statements. `failed` is the answer to a rejected statement. -/
def Contract.Safe (C : Contract D α) (failed : α) : Prog E α → Mode E → Prop
  | .query st k, .pool σ c => ∀ σ' now, D.Base σ σ' → D.Inv σ' → C.known σ' →
      match E.eval st now σ'.seq σ'.db with
      | none => C.reply c failed
      | some (r, ws) =>
          C.auto now (E.locks st now σ'.seq σ'.db) (σ'.bump st) ws ∧
            C.Safe failed (k r) (.pool ((σ'.bump st).write ws) c)
  | .begin k, .pool σ c => c = false ∧ ∀ σ' now, D.Base σ σ' → D.Inv σ' → C.known σ' →
      C.Safe failed k (.tx now [] σ' [] [])
  | .clock k, .pool σ c => ∀ t, C.Safe failed (k t) (.pool σ c)
  | .emit _ k, .pool σ c => C.Safe failed k (.pool σ c)
  | .done a, .pool _ c => C.reply c a
  | .exec st k, .tx start H σ buf notes => C.inTx start H σ buf notes ∧
      ∀ σ', D.Rely H σ σ' → D.Inv σ' → C.known σ' →
        match E.eval st start σ'.seq (E.applyAll buf σ'.db) with
        | none => C.abort start H σ' notes ∧ C.reply false failed
        | some (r, ws) =>
            C.Safe failed (k r)
              (.tx start (H ++ E.locks st start σ'.seq (E.applyAll buf σ'.db)) (σ'.bump st)
                (buf ++ ws) notes)
  | .lock l k, .tx start H σ buf notes => C.inTx start H σ buf notes ∧ H = [] ∧
      ∀ σ', D.Rely H σ σ' → D.Inv σ' → C.known σ' → C.Safe failed k (.tx start [l] σ' buf notes)
  | .commit k, .tx start H σ buf notes => C.inTx start H σ buf notes ∧
      ∀ σ', D.Rely H σ σ' → D.Inv σ' → C.known σ' →
        C.commit start H σ' buf notes ∧ C.Safe failed k (.pool (σ'.write buf) true)
  | .rollback k, .tx start H σ buf notes => C.inTx start H σ buf notes ∧
      ∀ σ', D.Rely H σ σ' → D.Inv σ' → C.known σ' →
        C.abort start H σ' notes ∧ ∀ b, C.Safe failed (k b) (.pool σ' false)
  | .clock k, .tx start H σ buf notes => C.inTx start H σ buf notes ∧
      ∀ t, C.Safe failed (k t) (.tx start H σ buf notes)
  | .emit n k, .tx start H σ buf notes => C.inTx start H σ buf notes ∧
      C.Safe failed k (.tx start H σ buf (notes ++ [n]))
  | .done a, .tx start H σ buf notes => C.inTx start H σ buf notes ∧ C.reply false a ∧
      ∀ σ', D.Rely H σ σ' → D.Inv σ' → C.known σ' → C.abort start H σ' notes
  | _, _ => False

namespace Contract

variable {C : Contract D α} {failed : α} {p : Prog E α}

/-- Inside a transaction the local assertion of the contract holds. -/
theorem Safe.inTx {start : Nat} {H : List E.Lock} {σ : Snap E} {buf : List E.Write}
    {notes : List E.Note} (h : C.Safe failed p (.tx start H σ buf notes)) :
    C.inTx start H σ buf notes := by
  cases p with
  | query st k => exact h.elim
  | begin k => exact h.elim
  | _ => exact h.1

/-- Outside a transaction a safe program stays safe under any change that
everyone may make. -/
theorem Safe.pool_stable {σ σ' : Snap E} {c : Bool} (h : C.Safe failed p (.pool σ c))
    (hb : D.Base σ σ') : C.Safe failed p (.pool σ' c) := by
  induction p with
  | query st k _ => exact fun σ'' now hb' => h σ'' now (D.base_trans hb hb')
  | begin k _ => exact ⟨h.1, fun σ'' now hb' => h.2 σ'' now (D.base_trans hb hb')⟩
  | clock k ih => exact fun t => ih t (h t)
  | emit n k ih => exact ih h
  | done a => exact h
  | lock l k _ => exact h
  | exec st k _ => exact h
  | commit k _ => exact h
  | rollback k _ => exact h

/-- Inside a transaction a safe program stays safe under what its locks let the
others do. -/
theorem Safe.tx_stable {start : Nat} {H : List E.Lock} {σ σ' : Snap E} {buf : List E.Write}
    {notes : List E.Note} (h : C.Safe failed p (.tx start H σ buf notes)) (hr : D.Rely H σ σ')
    (hi : D.Inv σ') : C.Safe failed p (.tx start H σ' buf notes) := by
  induction p generalizing notes with
  | query st k _ => exact h
  | begin k _ => exact h
  | clock k ih => exact ⟨C.inTx_stable h.1 hr hi, fun t => ih t (h.2 t)⟩
  | emit n k ih => exact ⟨C.inTx_stable h.1 hr hi, ih h.2⟩
  | done a => exact ⟨C.inTx_stable h.1 hr hi, h.2.1, fun σ'' hr' => h.2.2 σ'' (hr.trans hr')⟩
  | lock l k _ =>
      exact ⟨C.inTx_stable h.1 hr hi, h.2.1, fun σ'' hr' => h.2.2 σ'' (hr.trans hr')⟩
  | exec st k _ => exact ⟨C.inTx_stable h.1 hr hi, fun σ'' hr' => h.2 σ'' (hr.trans hr')⟩
  | commit k _ => exact ⟨C.inTx_stable h.1 hr hi, fun σ'' hr' => h.2 σ'' (hr.trans hr')⟩
  | rollback k _ => exact ⟨C.inTx_stable h.1 hr hi, fun σ'' hr' => h.2 σ'' (hr.trans hr')⟩

/-! ### Rules for statements

One rule for each way a program uses a statement, so that a proof follows the
code: a read, a statement that is never rejected, and an answer. -/

/-- An autocommit read. -/
theorem Safe.query_read {st : E.Stmt} {k : E.Result st → Prog E α} {σ : Snap E} {c : Bool}
    (f : E.Db → E.Result st) (heval : ∀ now seq db, E.eval st now seq db = some (f db, []))
    (hdraws : E.draws st = false) (hlocks : ∀ now seq db, E.locks st now seq db = [])
    (hauto : ∀ now σ, C.auto now [] σ [])
    (h : ∀ σ', D.Base σ σ' → D.Inv σ' → C.known σ' →
      C.Safe failed (k (f σ'.db)) (.pool σ' c)) :
    C.Safe failed (.query st k) (.pool σ c) := by
  intro σ' now hb hi hk
  have hbump : σ'.bump st = σ' := by simp [Snap.bump, hdraws]
  rw [heval, hlocks]
  refine ⟨hauto _ _, ?_⟩
  rw [hbump]
  exact h σ' hb hi hk

/-- A read in a transaction that has not written yet. -/
theorem Safe.exec_read {st : E.Stmt} {k : E.Result st → Prog E α} {start : Nat}
    {H : List E.Lock} {σ : Snap E} {notes : List E.Note}
    (f : E.Db → E.Result st) (heval : ∀ now seq db, E.eval st now seq db = some (f db, []))
    (hdraws : E.draws st = false) (hlocks : ∀ now seq db, E.locks st now seq db = [])
    (hin : C.inTx start H σ [] notes)
    (h : ∀ σ', D.Rely H σ σ' → D.Inv σ' → C.known σ' →
      C.Safe failed (k (f σ'.db)) (.tx start H σ' [] notes)) :
    C.Safe failed (.exec st k) (.tx start H σ [] notes) := by
  refine ⟨hin, fun σ' hr hi hk => ?_⟩
  have hbump : σ'.bump st = σ' := by simp [Snap.bump, hdraws]
  rw [Engine.applyAll_nil, heval]
  simp only [hlocks, List.append_nil, hbump]
  exact h σ' hr hi hk

/-- A statement in a transaction: a constraint rejects it, or it has a result,
some writes and some row locks. -/
theorem Safe.exec_result {st : E.Stmt} {k : E.Result st → Prog E α} {start : Nat}
    {H : List E.Lock} {σ : Snap E} {buf : List E.Write} {notes : List E.Note}
    (hin : C.inTx start H σ buf notes)
    (h : ∀ σ', D.Rely H σ σ' → D.Inv σ' → C.known σ' →
      (E.eval st start σ'.seq (E.applyAll buf σ'.db) = none ∧ C.abort start H σ' notes ∧
        C.reply false failed) ∨
      ∃ r ws ls, E.eval st start σ'.seq (E.applyAll buf σ'.db) = some (r, ws) ∧
        E.locks st start σ'.seq (E.applyAll buf σ'.db) = ls ∧
        C.Safe failed (k r) (.tx start (H ++ ls) (σ'.bump st) (buf ++ ws) notes)) :
    C.Safe failed (.exec st k) (.tx start H σ buf notes) := by
  refine ⟨hin, fun σ' hr hi hk => ?_⟩
  rcases h σ' hr hi hk with ⟨he, hs⟩ | ⟨r, ws, ls, he, rfl, hs⟩
  · rw [he]
    exact hs
  · rw [he]
    exact hs

/-- A statement that no constraint rejects. -/
theorem Safe.exec_some {st : E.Stmt} {k : E.Result st → Prog E α} {start : Nat}
    {H : List E.Lock} {σ : Snap E} {buf : List E.Write} {notes : List E.Note}
    (hin : C.inTx start H σ buf notes)
    (h : ∀ σ', D.Rely H σ σ' → D.Inv σ' → C.known σ' →
      ∃ r ws ls, E.eval st start σ'.seq (E.applyAll buf σ'.db) = some (r, ws) ∧
        E.locks st start σ'.seq (E.applyAll buf σ'.db) = ls ∧
        C.Safe failed (k r) (.tx start (H ++ ls) (σ'.bump st) (buf ++ ws) notes)) :
    C.Safe failed (.exec st k) (.tx start H σ buf notes) :=
  .exec_result hin fun σ' hr hi hk => .inr (h σ' hr hi hk)

end Contract

/-! ### The system invariant -/

variable {ι : Type} [DecidableEq ι] [DecidableEq E.Lock]

/-- The shared part of a system state. -/
def Sys.snap (s : Sys E ι α) : Snap E := ⟨s.seq, s.db⟩

/-- Request `i` has committed a transaction. -/
def committed (i : ι) (log : List (Entry E ι)) : Bool := log.any (Entry.commitOf i)

/-- Exactly the locks `H` are held by `i`. -/
def Holds (s : Sys E ι α) (i : ι) (H : List E.Lock) : Prop := ∀ l, s.lockOf l = some i ↔ l ∈ H

/-- Request `i`, in phase `ph`, keeps its contract `C` in the state `s`. -/
def CallOk (C : Contract D α) (cfg : Config ι α) (s : Sys E ι α) (i : ι) : Phase E α → Prop
  | .idle p =>
      committed i s.log = false ∧ Holds s i [] ∧ C.Safe (cfg.failed i) p (.pool s.snap false)
  | .pool p => Holds s i [] ∧ C.Safe (cfg.failed i) p (.pool s.snap (committed i s.log))
  | .conn st k =>
      Holds s i [] ∧ C.Safe (cfg.failed i) (.query st k) (.pool s.snap (committed i s.log))
  | .tx start buf notes p => committed i s.log = false ∧
      ∃ H, Holds s i H ∧ C.Safe (cfg.failed i) p (.tx start H s.snap buf notes)
  | .done a => Holds s i [] ∧
      (C.reply (committed i s.log) a ∨ cfg.faulty = true ∧ a = cfg.failed i)

/-- The committed state is the outcome of the events recorded after `log₀`, run
one after another from `σ₀`; each of them kept the contract of its request in the
state it met. -/
inductive Trace (C : ι → Contract D α) (faulty : Bool) (log₀ : List (Entry E ι)) (σ₀ : Snap E) :
    List (Entry E ι) → Snap E → Prop
  | start : Trace C faulty log₀ σ₀ log₀ σ₀
  | bump {log σ st} : Trace C faulty log₀ σ₀ log σ → Trace C faulty log₀ σ₀ log (σ.bump st)
  | commit {log σ i start H ws notes} : Trace C faulty log₀ σ₀ log σ → D.Inv σ → (C i).known σ →
      (C i).commit start H σ ws notes →
      Trace C faulty log₀ σ₀ (log ++ [.commit i start ws notes]) (σ.write ws)
  | auto {log σ i at_ H ws} : Trace C faulty log₀ σ₀ log σ → D.Inv σ → (C i).known σ →
      (C i).auto at_ H σ ws → Trace C faulty log₀ σ₀ (log ++ [.auto i at_ ws]) (σ.write ws)
  | abort {log σ i start H notes} : Trace C faulty log₀ σ₀ log σ → D.Inv σ → (C i).known σ →
      (C i).abort start H σ notes → Trace C faulty log₀ σ₀ (log ++ [.abort i start notes]) σ
  | fault {log σ i notes} : Trace C faulty log₀ σ₀ log σ → faulty = true →
      Trace C faulty log₀ σ₀ (log ++ [.fault i notes]) σ
  | note {log σ i n} : Trace C faulty log₀ σ₀ log σ → Trace C faulty log₀ σ₀ (log ++ [.note i n]) σ

/-- What holds in every reachable state of a system of safe requests. -/
structure SysInv (C : ι → Contract D α) (cfg : Config ι α) (log₀ : List (Entry E ι)) (σ₀ : Snap E)
    (s : Sys E ι α) : Prop where
  inv : D.Inv s.snap
  known : ∀ i, (C i).known s.snap
  calls : ∀ i, CallOk (C i) cfg s i (s.calls i)
  trace : Trace C cfg.faulty log₀ σ₀ s.log s.snap

/-! ### Preservation -/

variable {C : ι → Contract D α} {cfg : Config ι α} {log₀ : List (Entry E ι)} {σ₀ : Snap E}
  {s s' : Sys E ι α} {i : ι}

omit [DecidableEq E.Lock] in
theorem committed_append (j : ι) (log : List (Entry E ι)) (e : Entry E ι) :
    committed j (log ++ [e]) = (committed j log || e.commitOf j) := by
  simp [committed]

omit [DecidableEq E.Lock] in
theorem committed_append_other {j : ι} {log : List (Entry E ι)} {e : Entry E ι}
    (h : e.commitOf j = false) : committed j (log ++ [e]) = committed j log := by
  rw [committed_append, h, Bool.or_false]

omit [DecidableEq ι] [DecidableEq E.Lock] in
/-- Two owners never hold the same lock. -/
theorem Holds.disjoint {j : ι} {H H' : List E.Lock} (h : Holds s i H) (h' : Holds s j H')
    (hij : j ≠ i) {l : E.Lock} (hl : l ∈ H') : l ∉ H := by
  intro hl'
  have hi := (h l).mpr hl'
  have hj := (h' l).mpr hl
  rw [hi] at hj
  exact hij (Option.some.inj hj).symm

omit [DecidableEq E.Lock] in
/-- The requests that do not move keep their contracts: their locks and their
history are unchanged, and the state changed as their locks allow. -/
theorem CallOk.frame {j : ι} {ph : Phase E α} (h : CallOk (C j) cfg s j ph)
    (hlog : committed j s'.log = committed j s.log)
    (hlocks : ∀ l, s'.lockOf l = some j ↔ s.lockOf l = some j)
    (hrely : ∀ H, Holds s j H → D.Rely H s.snap s'.snap) (hinv : D.Inv s'.snap) :
    CallOk (C j) cfg s' j ph := by
  have hholds : ∀ {H}, Holds s j H → Holds s' j H := fun hH l => (hlocks l).trans (hH l)
  cases ph with
  | idle p => exact ⟨hlog.trans h.1, hholds h.2.1, h.2.2.pool_stable (hrely [] h.2.1).1⟩
  | pool p =>
      refine ⟨hholds h.1, ?_⟩
      rw [hlog]
      exact h.2.pool_stable (hrely [] h.1).1
  | conn st k =>
      refine ⟨hholds h.1, ?_⟩
      rw [hlog]
      exact h.2.pool_stable (hrely [] h.1).1
  | tx start buf notes p =>
      obtain ⟨hc, H, hH, hsafe⟩ := h
      exact ⟨hlog.trans hc, H, hholds hH, hsafe.tx_stable (hrely H hH) hinv⟩
  | done a =>
      refine ⟨hholds h.1, ?_⟩
      rw [hlog]
      exact h.2

omit [DecidableEq E.Lock] in
/-- One move of request `i`: what has to be shown of the state it leads to. -/
theorem SysInv.move {ph : Phase E α} (h : SysInv C cfg log₀ σ₀ s)
    (hcalls : s'.calls = Function.update s.calls i ph)
    (hlog : ∀ j, j ≠ i → committed j s'.log = committed j s.log)
    (hlocks : ∀ j, j ≠ i → ∀ l, s'.lockOf l = some j ↔ s.lockOf l = some j)
    (hbase : D.Base s.snap s'.snap)
    (hrely : ∀ j, j ≠ i → ∀ H, Holds s j H → D.Rely H s.snap s'.snap)
    (hinv : D.Inv s'.snap) (hcall : CallOk (C i) cfg s' i ph)
    (htrace : Trace C cfg.faulty log₀ σ₀ s'.log s'.snap) : SysInv C cfg log₀ σ₀ s' where
  inv := hinv
  known j := (C j).known_stable (h.known j) hbase
  calls j := by
    rw [hcalls]
    by_cases hj : j = i
    · subst hj
      rw [Function.update_self]
      exact hcall
    · rw [Function.update_of_ne hj]
      exact (h.calls j).frame (hlog j hj) (hlocks j hj) (hrely j hj) hinv
  trace := htrace

omit [DecidableEq E.Lock] in
/-- A move that only advances request `i`. -/
theorem SysInv.advance {ph : Phase E α} (h : SysInv C cfg log₀ σ₀ s)
    (hcalls : s'.calls = Function.update s.calls i ph) (hsnap : s'.snap = s.snap)
    (hlocks : s'.lockOf = s.lockOf) (hlog : s'.log = s.log)
    (hcall : CallOk (C i) cfg s' i ph) : SysInv C cfg log₀ σ₀ s' := by
  refine h.move hcalls (fun j _ => by rw [hlog]) (fun j _ l => by rw [hlocks]) ?_ ?_ ?_ hcall ?_
  · rw [hsnap]; exact D.base_refl _
  · intro j _ H _
    rw [hsnap]
    exact D.rely_refl H _
  · rw [hsnap]; exact h.inv
  · rw [hlog, hsnap]; exact h.trace

omit [DecidableEq E.Lock] in
/-- A transaction of request `i` that ends without committing. -/
theorem SysInv.close {ph : Phase E α} {e : Entry E ι} (h : SysInv C cfg log₀ σ₀ s)
    (he : ∀ j, e.commitOf j = false) (hcall : CallOk (C i) cfg ((s.close i).record e) i ph)
    (htrace : Trace C cfg.faulty log₀ σ₀ (s.log ++ [e]) s.snap) :
    SysInv C cfg log₀ σ₀ (((s.close i).record e).goto i ph) := by
  refine h.move rfl (fun j _ => committed_append_other (he j))
    (fun j hj l => release_other_iff hj) (D.base_refl _) (fun j _ H _ => D.rely_refl H _) h.inv
    ?_ htrace
  cases ph <;> exact hcall

omit [DecidableEq E.Lock] in
theorem holds_nil_of_close (e : Entry E ι) : Holds ((s.close i).record e) i [] := by
  intro l
  simp only [List.not_mem_nil, iff_false]
  exact release_self s.lockOf i l

omit [DecidableEq E.Lock] in
theorem not_committed_close {e : Entry E ι} (he : e.commitOf i = false)
    (hc : committed i s.log = false) : committed i ((s.close i).record e).log = false :=
  (committed_append_other he).trans hc

omit [DecidableEq E.Lock] in
/-- What request `i` is known to satisfy, at its phase. -/
theorem SysInv.call {ph : Phase E α} (h : SysInv C cfg log₀ σ₀ s) (hc : s.calls i = ph) :
    CallOk (C i) cfg s i ph :=
  hc ▸ h.calls i

omit [DecidableEq E.Lock] in
/-- What request `i` commits by an autocommit statement is what its contract allows. -/
theorem SysInv.autos {st : E.Stmt} {k : E.Result st → Prog E α} {r : E.Result st}
    {ws : List E.Write} (h : SysInv C cfg log₀ σ₀ s) (hc : s.calls i = .conn st k)
    (he : E.eval st s.now s.seq s.db = some (r, ws)) :
    (C i).auto s.now (E.locks st s.now s.seq s.db) (s.snap.bump st) ws ∧
      (C i).Safe (cfg.failed i) (k r)
        (.pool ((s.snap.bump st).write ws) (committed i s.log)) := by
  have hsafe := (h.call hc).2 s.snap s.now (D.base_refl _) h.inv (h.known i)
  rw [show E.eval st s.now s.snap.seq s.snap.db = some (r, ws) from he] at hsafe
  exact hsafe

omit [DecidableEq E.Lock] in
/-- An autocommit statement of request `i`. -/
theorem SysInv.auto {st : E.Stmt} {k : E.Result st → Prog E α} {r : E.Result st}
    {ws : List E.Write} (h : SysInv C cfg log₀ σ₀ s) (hc : s.calls i = .conn st k)
    (he : E.eval st s.now s.seq s.db = some (r, ws))
    (hfree : Free s.lockOf i (E.locks st s.now s.seq s.db)) :
    SysInv C cfg log₀ σ₀
      ((((s.write ws).bump st).giveBack.record (.auto i s.now ws)).goto i (.pool (k r))) := by
  obtain ⟨hauto, hk⟩ := h.autos hc he
  have hinv : D.Inv (s.snap.bump st) := D.inv_bump h.inv
  have hlog : ∀ j, committed j (s.log ++ [.auto i s.now ws]) = committed j s.log :=
    fun j => committed_append_other rfl
  have hbase : D.Base s.snap ((s.snap.bump st).write ws) :=
    D.base_trans (D.base_bump _ _) ((C i).auto_base hauto hinv)
  refine h.move rfl (fun j _ => hlog j) (fun j _ l => Iff.rfl) hbase ?_
    ((C i).auto_inv hauto hinv) ⟨(h.call hc).1, ?_⟩
    (.auto (.bump h.trace) hinv ((C i).known_stable (h.known i) (D.base_bump _ _)) hauto)
  · intro j hj H hH
    refine ⟨hbase, fun l hl => D.keeps_trans (D.keeps_bump l _ st) ?_⟩
    refine (C i).auto_keeps hauto hinv fun hl' => ?_
    -- a lock the statement needs is not held by `j`
    have hlj := (hH l).mpr hl
    rcases hfree l hl' with h' | h' <;> rw [h'] at hlj
    · exact absurd hlj (by simp)
    · exact hj (Option.some.inj hlj).symm
  · change (C i).Safe (cfg.failed i) (k r) (.pool _ (committed i (s.log ++ [_])))
    rw [hlog i]
    exact hk

/-- A statement in the transaction of request `i`. -/
theorem SysInv.exec {start : Nat} {buf ws : List E.Write} {notes : List E.Note} {st : E.Stmt}
    {k : E.Result st → Prog E α} {r : E.Result st} (h : SysInv C cfg log₀ σ₀ s)
    (hc : s.calls i = .tx start buf notes (.exec st k))
    (he : E.eval st start s.seq (E.applyAll buf s.db) = some (r, ws))
    (hfree : Free s.lockOf i (E.locks st start s.seq (E.applyAll buf s.db))) :
    SysInv C cfg log₀ σ₀
      (((s.hold i (E.locks st start s.seq (E.applyAll buf s.db))).bump st).goto i
        (.tx start (buf ++ ws) notes (k r))) := by
  obtain ⟨hc', H, hH, hsafe⟩ := h.call hc
  have hs := hsafe.2 s.snap (D.rely_refl H _) h.inv (h.known i)
  rw [show E.eval st start s.snap.seq (E.applyAll buf s.snap.db) = some (r, ws) from he] at hs
  refine h.move rfl (fun j _ => rfl) (fun j hj l => take_other_iff hj hfree)
    (D.base_bump _ st) (fun j _ H' _ => (D.rely_refl H' _).bump st) (D.inv_bump h.inv)
    ⟨hc', _, fun l => ?_, hs⟩ (.bump h.trace)
  rw [List.mem_append, ← hH l]
  exact take_self_iff

omit [DecidableEq E.Lock] in
/-- The transaction of request `i` commits. -/
theorem SysInv.commit {start : Nat} {buf : List E.Write} {notes : List E.Note} {k : Prog E α}
    (h : SysInv C cfg log₀ σ₀ s) (hc : s.calls i = .tx start buf notes (.commit k)) :
    SysInv C cfg log₀ σ₀
      ((((s.write buf).close i).record (.commit i start buf notes)).goto i (.pool k)) := by
  obtain ⟨hc', H, hH, hsafe⟩ := h.call hc
  obtain ⟨hcommit, hk⟩ := hsafe.2 s.snap (D.rely_refl H _) h.inv (h.known i)
  have hbase := (C i).commit_base hcommit h.inv
  refine h.move rfl (fun j hj => committed_append_other ?_)
    (fun j hj l => release_other_iff hj) hbase ?_ ((C i).commit_inv hcommit h.inv)
    ⟨fun l => ?_, ?_⟩ (.commit h.trace h.inv (h.known i) hcommit)
  · simp [Entry.commitOf, hj]
  · exact fun j hj H' hH' => ⟨hbase, fun l hl =>
      (C i).commit_keeps hcommit h.inv (hH.disjoint hH' hj hl)⟩
  · simp only [List.not_mem_nil, iff_false]
    exact release_self s.lockOf i l
  · change (C i).Safe (cfg.failed i) k (.pool _ (committed i (s.log ++ [_])))
    rw [committed_append, show Entry.commitOf i (.commit i start buf notes) = true by
      simp [Entry.commitOf], Bool.or_true]
    exact hk

/-- **Every move keeps the system invariant.** What the request that moves does is allowed
by its contract, and the others rely on no more than that. -/
theorem sysInv_step {l : Label ι} (h : SysInv C cfg log₀ σ₀ s) (hstep : step cfg l s = some s') :
    SysInv C cfg log₀ σ₀ s' := by
  cases move_of_step hstep with
  | @arrive i p hc =>
      obtain ⟨hc', hH, hsafe⟩ := h.call hc
      refine h.advance rfl rfl rfl rfl ⟨hH, ?_⟩
      change (C i).Safe (cfg.failed i) p (.pool s.snap (committed i s.log))
      rwa [hc']
  | acquire hc _ => exact h.advance rfl rfl rfl rfl (h.call hc)
  | @begin i k hc _ =>
      obtain ⟨hH, hc', hsafe⟩ := h.call hc
      exact h.advance rfl rfl rfl rfl
        ⟨hc', [], hH, hsafe _ _ (D.base_refl _) h.inv (h.known i)⟩
  | clock hc => exact h.advance rfl rfl rfl rfl ⟨(h.call hc).1, (h.call hc).2 s.now⟩
  | @note i n k hc =>
      have hlog : ∀ j, committed j (s.log ++ [.note i n]) = committed j s.log :=
        fun j => committed_append_other rfl
      refine h.move rfl (fun j _ => hlog j) (fun j _ l => Iff.rfl) (D.base_refl _)
        (fun j _ H _ => D.rely_refl H _) h.inv ⟨(h.call hc).1, ?_⟩ (.note h.trace)
      have hsafe : (C i).Safe (cfg.failed i) k (.pool s.snap (committed i s.log)) := (h.call hc).2
      rwa [← hlog i] at hsafe
  | answer hc => exact h.advance rfl rfl rfl rfl ⟨(h.call hc).1, .inl (h.call hc).2⟩
  | @autoRejected i st k hc he =>
      have hsafe := (h.call hc).2 s.snap s.now (D.base_refl _) h.inv (h.known i)
      rw [show E.eval st s.now s.snap.seq s.snap.db = none from he] at hsafe
      exact h.advance rfl rfl rfl rfl ⟨(h.call hc).1, .inl hsafe⟩
  | auto hc he hfree => exact h.auto hc he hfree
  | @rejected i start buf notes st k hc he =>
      obtain ⟨hc', H, hH, hsafe⟩ := h.call hc
      have hs := hsafe.2 s.snap (D.rely_refl H _) h.inv (h.known i)
      rw [show E.eval st start s.snap.seq (E.applyAll buf s.snap.db) = none from he] at hs
      refine h.close (fun _ => rfl) ⟨holds_nil_of_close _, .inl ?_⟩
        (.abort h.trace h.inv (h.known i) hs.1)
      rw [not_committed_close rfl hc']
      exact hs.2
  | exec hc he hfree => exact h.exec hc he hfree
  | @lock i start buf notes l k hc hfree =>
      obtain ⟨hc', H, hH, hsafe⟩ := h.call hc
      obtain ⟨-, rfl, hk⟩ := hsafe
      refine h.move rfl (fun j _ => rfl) (fun j hj l' => take_other_iff hj hfree)
        (D.base_refl _) (fun j _ H' _ => D.rely_refl H' _) h.inv
        ⟨hc', [l], fun l' => ?_, hk _ (D.rely_refl _ _) h.inv (h.known i)⟩ h.trace
      refine take_self_iff.trans ?_
      rw [hH l']
      simp
  | commit hc => exact h.commit hc
  | @rollback i start buf notes k hc =>
      obtain ⟨hc', H, hH, hsafe⟩ := h.call hc
      obtain ⟨habort, hk⟩ := hsafe.2 s.snap (D.rely_refl H _) h.inv (h.known i)
      refine h.close (fun _ => rfl) ⟨holds_nil_of_close _, ?_⟩
        (.abort h.trace h.inv (h.known i) habort)
      rw [not_committed_close rfl hc']
      exact hk true
  | @txClock i start buf notes k hc =>
      obtain ⟨hc', H, hH, hsafe⟩ := h.call hc
      exact h.advance rfl rfl rfl rfl ⟨hc', H, hH, hsafe.2 s.now⟩
  | @txNote i start buf notes n k hc =>
      obtain ⟨hc', H, hH, hsafe⟩ := h.call hc
      exact h.advance rfl rfl rfl rfl ⟨hc', H, hH, hsafe.2⟩
  | @leave i start buf notes a hc =>
      obtain ⟨hc', H, hH, hsafe⟩ := h.call hc
      refine h.close (fun _ => rfl) ⟨holds_nil_of_close _, .inl ?_⟩
        (.abort h.trace h.inv (h.known i) (hsafe.2.2 _ (D.rely_refl H _) h.inv (h.known i)))
      rw [not_committed_close rfl hc']
      exact hsafe.2.1
  | failPool hc hf =>
      exact h.advance rfl rfl rfl rfl ⟨(h.call hc).1, .inr ⟨hf, rfl⟩⟩
  | failConn hc hf =>
      exact h.advance rfl rfl rfl rfl ⟨(h.call hc).1, .inr ⟨hf, rfl⟩⟩
  | failTx hc hf =>
      exact h.close (fun _ => rfl)
        ⟨holds_nil_of_close _, .inr ⟨hf, rfl⟩⟩ (.fault h.trace hf)
  | @failRollback i start buf notes k hc hf =>
      obtain ⟨hc', H, hH, hsafe⟩ := h.call hc
      obtain ⟨-, hk⟩ := hsafe.2 s.snap (D.rely_refl H _) h.inv (h.known i)
      refine h.close (fun _ => rfl) ⟨holds_nil_of_close _, ?_⟩ (.fault h.trace hf)
      rw [not_committed_close rfl hc']
      exact hk false
  | tick => exact ⟨h.inv, h.known, h.calls, h.trace⟩

omit [DecidableEq E.Lock] in
/-- A system of safe programs starts in its invariant. -/
theorem sysInv_start {db : E.Db} {seq now : Nat} {progs : ι → Prog E α}
    (hinv : D.Inv ⟨seq, db⟩) (hknown : ∀ i, (C i).known ⟨seq, db⟩)
    (hsafe : ∀ i, (C i).Safe (cfg.failed i) (progs i) (.pool ⟨seq, db⟩ false)) :
    SysInv C cfg [] ⟨seq, db⟩ (Sys.start db seq now progs) where
  inv := hinv
  known := hknown
  calls i := ⟨rfl, fun l => by simp [Sys.start], hsafe i⟩
  trace := .start

omit [DecidableEq E.Lock] in
/-- A request that has not arrived may be given another contract, which then
holds of everything that happens from here on. -/
theorem SysInv.rebase {p : Prog E α} (h : SysInv C cfg log₀ σ₀ s) (hc : s.calls i = .idle p)
    {c : Contract D α} (hknown : c.known s.snap)
    (hsafe : c.Safe (cfg.failed i) p (.pool s.snap false)) :
    SysInv (Function.update C i c) cfg s.log s.snap s where
  inv := h.inv
  known j := by
    by_cases hj : j = i
    · subst hj
      rwa [Function.update_self]
    · rw [Function.update_of_ne hj]
      exact h.known j
  calls j := by
    by_cases hj : j = i
    · subst hj
      have hok := h.calls j
      rw [hc] at hok ⊢
      rw [Function.update_self]
      exact ⟨hok.1, hok.2.1, hsafe⟩
    · rw [Function.update_of_ne hj]
      exact h.calls j
  trace := .start

theorem sysInv_reachable (h : Reachable (step cfg) s s') (hs : SysInv C cfg log₀ σ₀ s) :
    SysInv C cfg log₀ σ₀ s' :=
  h.invariant (I := SysInv C cfg log₀ σ₀) (fun _ _ _ hI hstep => sysInv_step hI hstep) hs

/-! ### What one move does to the tables -/

/-- What one move does to the committed state, and by whom: nothing, one
transaction at its commit, or one autocommit statement. -/
inductive Effect (C : ι → Contract D α) (s s' : Sys E ι α) : Label ι → Prop
  | silent {l} : s'.db = s.db → (∀ j, committed j s'.log = committed j s.log) → Effect C s s' l
  | commit {i start H buf notes k} : s.calls i = .tx start buf notes (.commit k) →
      (C i).commit start H s.snap buf notes → s'.snap = s.snap.write buf →
      s'.log = s.log ++ [.commit i start buf notes] → Effect C s s' (.run i)
  | auto {i st H k r ws} : s.calls i = .conn st k →
      E.eval st s.now s.seq s.db = some (r, ws) → (C i).auto s.now H (s.snap.bump st) ws →
      s'.snap = (s.snap.bump st).write ws → s'.log = s.log ++ [.auto i s.now ws] →
      Effect C s s' (.run i)

omit [DecidableEq E.Lock] in
/-- A request that is about to commit may. -/
theorem SysInv.commits (h : SysInv C cfg log₀ σ₀ s) {i : ι} {start : Nat} {buf : List E.Write}
    {notes : List E.Note} {k : Prog E α} (hc : s.calls i = .tx start buf notes (.commit k)) :
    ∃ H, (C i).commit start H s.snap buf notes := by
  obtain ⟨-, H, -, hsafe⟩ := h.call hc
  exact ⟨H, (hsafe.2 s.snap (D.rely_refl H _) h.inv (h.known i)).1⟩

/-- **Every move of a system of safe requests is silent, or commits what the
contract of its request allows.** -/
theorem SysInv.effect {l : Label ι} (h : SysInv C cfg log₀ σ₀ s) (hstep : step cfg l s = some s') :
    Effect C s s' l := by
  cases move_of_step hstep with
  | @auto i st k r ws hc he hfree =>
      exact .auto hc he (h.autos hc he).1 rfl rfl
  | @commit i start buf notes k hc =>
      obtain ⟨H, hcommit⟩ := h.commits hc
      exact .commit hc hcommit rfl rfl
  | note _ => exact .silent rfl fun j => committed_append_other rfl
  | rejected _ _ => exact .silent rfl fun j => committed_append_other rfl
  | rollback _ => exact .silent rfl fun j => committed_append_other rfl
  | leave _ => exact .silent rfl fun j => committed_append_other rfl
  | failTx _ _ => exact .silent rfl fun j => committed_append_other rfl
  | failRollback _ _ => exact .silent rfl fun j => committed_append_other rfl
  | _ => exact .silent rfl fun j => rfl

/-- The requests that do not move stay where they are. -/
theorem Move.calls_other {l : Label ι} {j : ι} (h : Move cfg s l s') (hrun : l ≠ .run j)
    (hfail : l ≠ .fail j) : s'.calls j = s.calls j := by
  cases h with
  | tick => rfl
  | _ => exact Function.update_of_ne (by rintro rfl; contradiction) _ _

/-- The history only grows, and records a commit only when a request commits. -/
theorem Move.log {l : Label ι} (h : Move cfg s l s') :
    (∃ i start buf notes k, s.calls i = .tx start buf notes (.commit k) ∧
      s'.snap = s.snap.write buf ∧ s'.log = s.log ++ [.commit i start buf notes]) ∨
    ∃ es, s'.log = s.log ++ es ∧ ∀ e ∈ es, ∀ j, e.commitOf j = false := by
  have none : s'.log = s.log → ∃ es, s'.log = s.log ++ es ∧ ∀ e ∈ es, ∀ j, e.commitOf j = false :=
    fun hlog => ⟨[], by simpa using hlog, by simp⟩
  have one : ∀ {e : Entry E ι}, s'.log = s.log ++ [e] → (∀ j, e.commitOf j = false) →
      ∃ es, s'.log = s.log ++ es ∧ ∀ e ∈ es, ∀ j, e.commitOf j = false :=
    fun hlog he => ⟨_, hlog, by simpa using he⟩
  cases h with
  | commit hc => exact .inl ⟨_, _, _, _, _, hc, rfl, rfl⟩
  | auto _ _ _ => exact .inr (one rfl fun _ => rfl)
  | note _ => exact .inr (one rfl fun _ => rfl)
  | rejected _ _ => exact .inr (one rfl fun _ => rfl)
  | rollback _ => exact .inr (one rfl fun _ => rfl)
  | leave _ => exact .inr (one rfl fun _ => rfl)
  | failTx _ _ => exact .inr (one rfl fun _ => rfl)
  | failRollback _ _ => exact .inr (one rfl fun _ => rfl)
  | _ => exact .inr (none rfl)

/-- Every move changes the committed state as everyone may. -/
theorem SysInv.base {l : Label ι} (h : SysInv C cfg log₀ σ₀ s) (hstep : step cfg l s = some s') :
    D.Base s.snap s'.snap := by
  have hinv : ∀ st, D.Inv (s.snap.bump st) := fun st => D.inv_bump h.inv
  cases move_of_step hstep with
  | @auto i st k r ws hc he hfree =>
      exact D.base_trans (D.base_bump _ st) ((C i).auto_base (h.autos hc he).1 (hinv st))
  | @commit i start buf notes k hc =>
      obtain ⟨H, hcommit⟩ := h.commits hc
      exact (C i).commit_base hcommit h.inv
  | @exec i start buf notes st k r ws hc he hfree => exact D.base_bump _ st
  | _ => exact D.base_refl _

/-- The committed state at the end of a run is what everyone may make of that at
its start. -/
theorem SysInv.base_of_reachable (h : SysInv C cfg log₀ σ₀ s)
    (hr : Reachable (step cfg) s s') : D.Base s.snap s'.snap := by
  obtain ⟨ls, hrun⟩ := hr
  exact hrun.rel (I := SysInv C cfg log₀ σ₀) (R := fun s s' => D.Base s.snap s'.snap)
    (fun _ _ _ hI hstep => sysInv_step hI hstep) (fun _ => D.base_refl _)
    (fun _ _ _ h₁ h₂ => D.base_trans h₁ h₂) (fun _ _ _ hI hstep => hI.base hstep) h

end Txn
