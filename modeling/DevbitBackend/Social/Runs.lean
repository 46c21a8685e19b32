import DevbitBackend.Lib.TxnProgress
import DevbitBackend.Social.Contracts

/-!
# Social.Runs

The social handlers running together: any number of calls, any interleaving of
their statements, commits, rollbacks and failures, starting from empty social
tables. Every reachable state satisfies the system invariant of `TxnLogic`, and
with it

* the invariants of every pair (`reachable_pairOk`), and
* freedom from deadlock with a pool of any size (`reachable_progress`).
-/

namespace DevbitBackend.Social

open Txn Transition Locks

/-- Tables with users and messages only. -/
def freshDb (users : List UserRow) (messages : List MessageRow) : Db where
  users := users
  requests := []
  friendships := []
  blocks := []
  preferences := []
  messages := messages

theorem freshDb_consistent (users : List UserRow) (messages : List MessageRow) (seq : Nat) :
    Consistent ⟨seq, freshDb users messages⟩ where
  schema := by constructor <;> simp [freshDb]
  ids := by simp [freshDb]
  pairs a b := pairOk_of_nil rfl

section Runs

variable {ι : Type} [DecidableEq ι] {env : Env} {users : List UserRow}
  {messages : List MessageRow} {seq now poolSize : Nat} {faulty : Bool} {calls : ι → Call}
  {s : Server ι}

/-- The system invariant of the server. -/
abbrev ServerInv (poolSize : Nat) (faulty : Bool) (calls : ι → Call) (σ₀ : State) (s : Server ι) :
    Prop :=
  SysInv (fun i => contract (calls i) none) (config poolSize faulty calls) [] σ₀ s

/-- **The system invariant holds in every state reached from consistent tables.** -/
theorem serverInv_of_consistent {db : Db} (hdb : Consistent ⟨seq, db⟩)
    (h : Reachable (serve poolSize faulty calls) (server env db seq now calls) s) :
    ServerInv poolSize faulty calls ⟨seq, db⟩ s := by
  refine sysInv_reachable h (sysInv_start hdb ?_ fun i => ?_)
  · intro i r hr
    cases hr
  · exact (calls i).safe env none fun r hr => by cases hr

theorem serverInv_reachable
    (h : Reachable (serve poolSize faulty calls) (server env (freshDb users messages) seq now calls)
      s) : ServerInv poolSize faulty calls ⟨seq, freshDb users messages⟩ s :=
  serverInv_of_consistent (freshDb_consistent users messages seq) h

/-- **Consistency of relationships.** In every committed state of every run, at
most one request of a pair is pending, and none is between friends or across a
block. -/
theorem reachable_pairOk
    (h : Reachable (serve poolSize faulty calls) (server env (freshDb users messages) seq now calls)
      s) (a b : UserId) :
    (Db.pendingBetween s.db a b).length ≤ 1 ∧
      (Db.areFriends s.db a b = true → Db.pendingBetween s.db a b = []) ∧
      (Db.blockExists s.db a b = true → Db.pendingBetween s.db a b = []) :=
  have hp := (serverInv_reachable h).inv.pairs a b
  ⟨hp.onePending, hp.friends, hp.blocked⟩

end Runs

/-! A run: 1 asks 2 to be friends, and 2 accepts. -/

def demoEnv : Env where
  isAdminUser _ := false
  toUppercase := id

def demoUsers : List UserRow := [⟨1, "Ada", none⟩, ⟨2, "Bob", none⟩]

def demoCalls : Bool → Call
  | false => .createRequest (some 1) (some 2) none
  | true => .acceptRequest (some 2) 1

/-- The moves of `false` to its commit, then those of `true` to its commit. -/
def demoRun : List (Label Bool) :=
  List.replicate 13 (.run false) ++ List.replicate 11 (.run true)

theorem demo_friends : ∃ s, Reachable (serve 1 false demoCalls)
    (server demoEnv (freshDb demoUsers []) 0 0 demoCalls) s ∧
      (Db.areFriends s.db 1 2, Db.pendingBetween s.db 1 2) = (true, []) :=
  exists_reachable_of_replay demoRun
    (fun s : Server Bool => (Db.areFriends s.db 1 2, Db.pendingBetween s.db 1 2)) (by decide)

theorem reachable_pairOk_demo : ∃ s : Server Bool, Db.areFriends s.db 1 2 = true ∧
    (Db.pendingBetween s.db 1 2).length ≤ 1 ∧
      (Db.areFriends s.db 1 2 = true → Db.pendingBetween s.db 1 2 = []) ∧
      (Db.blockExists s.db 1 2 = true → Db.pendingBetween s.db 1 2 = []) := by
  obtain ⟨s, hs, hf⟩ := demo_friends
  exact ⟨s, (Prod.mk.inj hf).1, reachable_pairOk hs 1 2⟩

/-! ### Waiting -/

/-- A statement locks rows it sees, or the row it is about to insert. -/
theorem rowLocks_cases {st : Stmt} {now seq : Nat} {db : Db} {l : Lock}
    (h : l ∈ rowLocks st now seq db) :
    ∃ id, l = .request id ∧ ((∃ r ∈ db.requests, r.id = id) ∨ id = nextval seq) := by
  cases st with
  | insertRequest s r m =>
      simp only [rowLocks] at h
      split at h
      · exact absurd h List.not_mem_nil
      · exact ⟨_, List.mem_singleton.mp h, .inr rfl⟩
  | requestForUpdate id =>
      obtain ⟨r, hr, rfl⟩ := List.mem_map.mp h
      exact ⟨r.id, rfl, .inl ⟨r, List.mem_of_mem_filter hr, rfl⟩⟩
  | setStatus id st =>
      obtain ⟨r, hr, rfl⟩ := List.mem_map.mp h
      exact ⟨r.id, rfl, .inl ⟨r, List.mem_of_mem_filter hr, rfl⟩⟩
  | cancelOthers id a b =>
      obtain ⟨r, hr, rfl⟩ := List.mem_map.mp h
      exact ⟨r.id, rfl, .inl ⟨r, (Db.mem_pendingBetween.mp (List.mem_of_mem_filter hr)).1, rfl⟩⟩
  | cancelPending a b =>
      obtain ⟨r, hr, rfl⟩ := List.mem_map.mp h
      exact ⟨r.id, rfl, .inl ⟨r, (Db.mem_pendingBetween.mp hr).1, rfl⟩⟩
  | _ => exact absurd h List.not_mem_nil

/-- The rows a transaction sees are committed, or it has inserted them. -/
theorem mem_requests_applyAll {ws : List Write} {db : Db} {r : RequestRow}
    (h : r ∈ Db.requests (engine.applyAll ws db)) :
    (∃ r₀ ∈ db.requests, r₀.id = r.id) ∨
      ∃ row, Write.insertRequest row ∈ ws ∧ row.id = r.id := by
  induction ws generalizing db with
  | nil => exact .inl ⟨r, h, rfl⟩
  | cons w ws ih =>
      rcases ih h with ⟨r₁, hr₁, hid⟩ | ⟨row, hrow, hid⟩
      · cases w with
        | insertRequest row =>
            rcases List.mem_append.mp hr₁ with hr | hr
            · exact .inl ⟨r₁, hr, hid⟩
            · obtain rfl : r₁ = row := by simpa using hr
              exact .inr ⟨r₁, List.mem_cons_self, hid⟩
        | setStatus ids st t =>
            obtain ⟨r₀, hr₀, rfl⟩ := List.mem_map.mp hr₁
            refine .inl ⟨r₀, hr₀, ?_⟩
            split at hid <;> exact hid
        | _ => exact .inl ⟨r₁, hr₁, hid⟩
      · exact .inr ⟨row, List.mem_cons_of_mem _ hrow, hid⟩

section Waiting

variable {ι : Type} [DecidableEq ι] {env : Env} {users : List UserRow}
  {messages : List MessageRow} {seq now poolSize : Nat} {faulty : Bool} {calls : ι → Call}
  {s : Server ι}

/-- **No call ever waits for a row.** Whoever holds the row lock of a request
holds its pair lock, and so does whoever asks for it. -/
theorem neverWaits (h : ServerInv poolSize faulty calls ⟨seq, freshDb users messages⟩ s) (i : ι) :
    NeverWaits s i := by
  constructor
  · intro start buf notes st k hc hsome l hl
    obtain ⟨-, H, hH, hsafe⟩ := h.call hc
    obtain ⟨hin, hnext⟩ := hsafe
    have hlocks : LocksOk H s.snap buf := hin
    -- the locks after the statement are again row locks under pair locks
    obtain ⟨res, heval⟩ := Option.isSome_iff_exists.mp hsome
    have hafter := hnext s.snap (discipline.rely_refl H _) h.inv (h.known i)
    rw [show engine.eval st start s.snap.seq (engine.applyAll buf s.snap.db) = some res from heval]
      at hafter
    have hlocks' : LocksOk (H ++ rowLocks st start s.seq (engine.applyAll buf s.db))
        (s.snap.bump st) (buf ++ res.2) := hafter.inTx
    obtain ⟨id, rfl, hid⟩ := rowLocks_cases hl
    by_contra hcon
    obtain ⟨hfree, hmine⟩ := not_or.mp hcon
    obtain ⟨j, hj⟩ := Option.ne_none_iff_exists'.mp hfree
    have hji : j ≠ i := fun heq => hmine (heq ▸ hj)
    -- the holder `j` of the row lock
    obtain ⟨Hj, hHj, hlocksj⟩ : ∃ Hj, Holds s j Hj ∧ ∃ buf', LocksOk Hj s.snap buf' := by
      have hok := h.calls j
      cases hcj : s.calls j with
      | idle p => rw [hcj] at hok; exact absurd ((hok.2.1 _).mp hj) List.not_mem_nil
      | pool p => rw [hcj] at hok; exact absurd ((hok.1 _).mp hj) List.not_mem_nil
      | conn st k => rw [hcj] at hok; exact absurd ((hok.1 _).mp hj) List.not_mem_nil
      | done a => rw [hcj] at hok; exact absurd ((hok.1 _).mp hj) List.not_mem_nil
      | tx start' buf' notes' p =>
          rw [hcj] at hok
          obtain ⟨-, Hj, hHj, hsafej⟩ := hok
          exact ⟨Hj, hHj, buf', hsafej.inTx⟩
    obtain ⟨buf', hlocksj⟩ := hlocksj
    have hidj : Lock.request id ∈ Hj := (hHj _).mp hj
    -- a row that both name has one pair, and both would hold its lock
    have hrow : ¬ ∃ r ∈ Db.requests s.db, r.id = id := by
      rintro ⟨r, hr, hrid⟩
      have hkeyj := hlocksj.paired id hidj r hr hrid
      have hkey : pairKey r.sender r.recipient ∈ H := by
        rcases List.mem_append.mp (hlocks'.paired id (List.mem_append_right _ hl) r hr hrid) with
          hin | hin
        · exact hin
        · obtain ⟨id', hid', -⟩ := rowLocks_cases hin
          exact absurd hid' (by simp [pairKey])
      exact hH.disjoint hHj hji hkeyj hkey
    rcases hid with ⟨r, hr, hrid⟩ | rfl
    · rcases mem_requests_applyAll hr with ⟨r₀, hr₀, hid₀⟩ | ⟨row, hins, hid₀⟩
      · exact hrow ⟨r₀, hr₀, hid₀.trans hrid⟩
      · refine hmine ((hH _).mpr ?_)
        rw [← hrid, ← hid₀]
        exact hlocks.inserted row hins
    · -- a new id has not been given to anyone else
      exact absurd (hlocksj.drawn _ hidj) (Int.not_le.mpr (Int.lt_succ _))
  · -- the statements on the pool lock no row
    intro st k hc hsome l hl
    obtain ⟨⟨r, ws⟩, heval⟩ := Option.isSome_iff_exists.mp hsome
    obtain ⟨hauto, -⟩ := h.autos hc heval
    have hnone : rowLocks st s.now s.seq s.db = [] := hauto.1
    rw [show engine.locks st s.now s.seq s.db = [] from hnone] at hl
    exact absurd hl List.not_mem_nil

/-- **No deadlock.** With any number of connections, while some call is
unfinished some call can take its next step; and a call that holds a pair lock
can always take its own, with every row lock it asks for free or its own. -/
theorem reachable_progress [Fintype ι]
    (h : Reachable (serve poolSize faulty calls) (server env (freshDb users messages) seq now calls)
      s) (hpool : 1 ≤ poolSize) :
    ((∃ i, ∀ a, s.calls i ≠ .done a) → ∃ i, (serve poolSize faulty calls (.run i) s).isSome) ∧
      ∀ i a b, s.lockOf (pairKey a b) = some i →
        (serve poolSize faulty calls (.run i) s).isSome ∧
        ∀ start buf notes st k, s.calls i = .tx start buf notes (.exec st k) →
          (eval st start s.seq (engine.applyAll buf s.db)).isSome →
          ∀ l ∈ rowLocks st start s.seq (engine.applyAll buf s.db),
            s.lockOf l = none ∨ s.lockOf l = some i := by
  have hinv := serverInv_reachable h
  have hwaits := neverWaits hinv
  have hcount : s.inUse = busyCount s.calls := by
    refine inUse_eq_busy h ?_
    exact (Finset.sum_eq_zero fun i _ => rfl).symm
  refine ⟨fun hu => progress hinv hcount hpool hwaits hu, fun i a b hkey => ⟨?_, ?_⟩⟩
  · exact canMove_holder hinv (hwaits i) hkey
  · intro start buf notes st k hc hsome
    exact (hwaits i).1 start buf notes st k hc hsome

end Waiting

/-- The request of 1 holds the lock of the pair, while the other call has not arrived. -/
theorem reachable_progress_demo : ∃ s : Server Bool,
    Reachable (serve 1 false demoCalls) (server demoEnv (freshDb demoUsers []) 0 0 demoCalls) s ∧
      (∀ a, s.calls true ≠ .done a) ∧ s.lockOf (pairKey 1 2) = some false ∧
        (∃ i, (serve 1 false demoCalls (.run i) s).isSome) ∧
          (serve 1 false demoCalls (.run false) s).isSome := by
  have hrun : (replay (serve 1 false demoCalls)
      (server demoEnv (freshDb demoUsers []) 0 0 demoCalls) (List.replicate 6 (.run false))).map
        (fun s => (s.lockOf (pairKey 1 2), (s.calls true).isDone)) = some (some false, false) := by
    decide
  obtain ⟨s, hs, hobs⟩ := exists_reachable_of_replay _ _ hrun
  obtain ⟨hlock, hopen⟩ := Prod.mk.inj hobs
  have hunfinished : ∀ a, s.calls true ≠ .done a := by
    intro a ha
    rw [Phase.isDone_iff.mpr ⟨a, ha⟩] at hopen
    cases hopen
  obtain ⟨hmove, hholder⟩ := reachable_progress hs le_rfl
  exact ⟨s, hs, hunfinished, hlock, hmove ⟨true, hunfinished⟩, (hholder false 1 2 hlock).1⟩

end DevbitBackend.Social
