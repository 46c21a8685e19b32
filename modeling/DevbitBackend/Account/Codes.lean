import DevbitBackend.Account.Contracts

/-!
# Account.Codes

Verification codes over whole runs: any number of `create_user` and
`send_verification_code` calls, any interleaving of their statements.

A stored code is named by its issue, the number of codes stored before it. The
history of a run counts the wrong codes compared with each issue, and `Counted`
ties the count to the column `attempts` of the row that still holds the issue.
-/

namespace DevbitBackend.Account

open Txn Transition

/-- Tables with users and no stored code. -/
def freshDb (users : List UserRow) : Db := ⟨users, [], 0⟩

/-! ### What a run has compared and registered -/

/-- How many of the comparisons were with the issue `n`, and the codes
different. -/
def wrongs (n : Nat) (cs : List Comparison) : Nat :=
  cs.countP fun c => c.row.issue == n && c.row.code != c.submitted

section History

variable {env : Env} {ι : Type}

/-- The comparisons of the transactions that have ended. -/
def comparisons (log : List (Entry (engine env) ι)) : List Comparison := log.flatMap Entry.notes

/-- The comparisons of the open transaction of `i`. -/
def inFlight (s : Server env ι) (i : ι) : List Comparison :=
  match s.calls i with
  | .tx _ _ notes _ => notes
  | _ => []

def Write.insertsUser : Write → Bool
  | .insertUser _ => true
  | _ => false

/-- The entry is the commit that inserts a user for the issue `n`. -/
def registersFor (n : Nat) : Entry (engine env) ι → Bool
  | .commit _ _ ws notes => ws.any Write.insertsUser && notes.any (·.row.issue == n)
  | _ => false

/-- How many users were inserted for the issue `n`. -/
def registrations (n : Nat) (log : List (Entry (engine env) ι)) : Nat :=
  log.countP (registersFor n)

variable {n : Nat} {log : List (Entry (engine env) ι)} {e : Entry (engine env) ι}

theorem comparisons_append : comparisons (log ++ [e]) = comparisons log ++ e.notes := by
  simp [comparisons]

theorem wrongs_append (cs cs' : List Comparison) :
    wrongs n (cs ++ cs') = wrongs n cs + wrongs n cs' :=
  List.countP_append

theorem wrongs_right {cmp : Comparison} (h : cmp.row.code = cmp.submitted) :
    wrongs n [cmp] = 0 := by
  simp [wrongs, h]

theorem registrations_append :
    registrations n (log ++ [e]) = registrations n log + if registersFor n e then 1 else 0 := by
  simp [registrations, List.countP_append, List.countP_cons]

/-- **The counts of a run and its tables.** -/
structure Counted (env : Env) (log : List (Entry (engine env) ι)) (db : Db) : Prop where
  /-- A stored row counts the wrong codes compared with it. -/
  attempts : ∀ m r, db.codeOf env m = some r → wrongs r.issue (comparisons log) = r.attempts
  allowed : ∀ m r, db.codeOf env m = some r → r.attempts ≤ maxVerificationAttempts
  unused : ∀ m r, db.codeOf env m = some r → registrations r.issue log = 0
  issued : ∀ m r, db.codeOf env m = some r → r.issue < db.stored
  distinct : ∀ m m' r r', db.codeOf env m = some r → db.codeOf env m' = some r' →
    r.issue = r'.issue → m = m'
  bounded : ∀ n, wrongs n (comparisons log) ≤ maxVerificationAttempts
  once : ∀ n, registrations n log ≤ 1
  future : ∀ n, db.stored ≤ n → wrongs n (comparisons log) = 0 ∧ registrations n log = 0

namespace Counted

variable {db db' : Db} {m : String}

/-- One more entry. Each row is a row of before that counts the entry's wrong
codes, or the new row of the mailbox `m`; and an entry compares or registers for
a stored issue, within the limits. -/
theorem append (h : Counted env log db) (m : String)
    (hrows : ∀ m' r', db'.codeOf env m' = some r' →
      (∃ r, db.codeOf env m' = some r ∧ r'.issue = r.issue ∧
        r'.attempts = r.attempts + wrongs r.issue e.notes ∧ registersFor r.issue e = false) ∨
      (m' = m ∧ r'.issue = db.stored ∧ db.stored < db'.stored ∧ r'.attempts = 0))
    (hstored : db.stored ≤ db'.stored)
    (hwrong : ∀ n, wrongs n e.notes ≠ 0 → n < db.stored ∧
      wrongs n (comparisons log) + wrongs n e.notes ≤ maxVerificationAttempts)
    (hreg : ∀ n, registersFor n e = true → n < db.stored ∧ registrations n log = 0) :
    Counted env (log ++ [e]) db' := by
  have hw : ∀ n, wrongs n (comparisons (log ++ [e])) =
      wrongs n (comparisons log) + wrongs n e.notes := by
    intro n
    rw [comparisons_append, wrongs_append]
  have hr : ∀ n, registersFor n e = false → registrations n (log ++ [e]) = registrations n log :=
    fun n hn => by simp [registrations_append, hn]
  -- the limit of an issue is reached by its own wrong codes only
  have hlimit : ∀ n, wrongs n (comparisons (log ++ [e])) ≤ maxVerificationAttempts := by
    intro n
    rw [hw]
    by_cases hn : wrongs n e.notes = 0
    · rw [hn, Nat.add_zero]
      exact h.bounded n
    · exact (hwrong n hn).2
  -- an issue that is not stored yet has neither
  have hfuture : ∀ n, db.stored ≤ n →
      wrongs n (comparisons (log ++ [e])) = 0 ∧ registrations n (log ++ [e]) = 0 := by
    intro n hn
    have hnotes : wrongs n e.notes = 0 := by
      by_contra hcon
      exact absurd (hwrong n hcon).1 (Nat.not_lt.mpr hn)
    have hnot : registersFor n e = false := by
      by_contra hcon
      exact absurd (hreg n (by simpa using hcon)).1 (Nat.not_lt.mpr hn)
    rw [hw, hnotes, hr n hnot]
    exact h.future n hn
  have hattempts : ∀ m' r', db'.codeOf env m' = some r' →
      wrongs r'.issue (comparisons (log ++ [e])) = r'.attempts := by
    intro m' r' hm
    rcases hrows m' r' hm with ⟨r, hr₀, hissue, hatt, -⟩ | ⟨-, hissue, -, hatt⟩
    · rw [hw, hissue, hatt, h.attempts m' r hr₀]
    · rw [hissue, hatt]
      exact (hfuture db.stored (Nat.le_refl _)).1
  constructor
  · exact hattempts
  · intro m' r' hm
    rw [← hattempts m' r' hm]
    exact hlimit r'.issue
  · intro m' r' hm
    rcases hrows m' r' hm with ⟨r, hr₀, hissue, -, hnot⟩ | ⟨-, hissue, -, -⟩
    · rw [hissue, hr _ hnot]
      exact h.unused m' r hr₀
    · rw [hissue]
      exact (hfuture db.stored (Nat.le_refl _)).2
  · intro m' r' hm
    rcases hrows m' r' hm with ⟨r, hr₀, hissue, -, -⟩ | ⟨-, hissue, hlt, -⟩
    · rw [hissue]
      exact Nat.lt_of_lt_of_le (h.issued m' r hr₀) hstored
    · rw [hissue]
      exact hlt
  -- two rows of one issue would be an old one and the new one, whose issue is fresh
  · intro m₁ m₂ r₁ r₂ h₁ h₂ heq
    rcases hrows m₁ r₁ h₁ with ⟨r₁', hr₁, hi₁, -⟩ | ⟨hm₁, hi₁, -⟩ <;>
      rcases hrows m₂ r₂ h₂ with ⟨r₂', hr₂, hi₂, -⟩ | ⟨hm₂, hi₂, -⟩ <;> rw [hi₁, hi₂] at heq
    · exact h.distinct m₁ m₂ r₁' r₂' hr₁ hr₂ heq
    · exact absurd heq (Nat.ne_of_lt (h.issued m₁ r₁' hr₁))
    · exact absurd heq.symm (Nat.ne_of_lt (h.issued m₂ r₂' hr₂))
    · rw [hm₁, hm₂]
  · exact hlimit
  · intro n
    cases hn : registersFor n e with
    | false =>
        rw [hr n hn]
        exact h.once n
    | true => simp [registrations_append, hn, (hreg n hn).2]
  · intro n hn
    exact hfuture n (Nat.le_trans hstored hn)

/-- An entry without a wrong comparison and without a registration, after which
every mailbox has the row it had or none. -/
theorem frame (h : Counted env log db) (hcmp : ∀ n, wrongs n e.notes = 0)
    (hreg : ∀ n, registersFor n e = false) (hstored : db'.stored = db.stored)
    (hcode : ∀ m r, db'.codeOf env m = some r → db.codeOf env m = some r) :
    Counted env (log ++ [e]) db' :=
  h.append "" (fun m r hm => .inl ⟨r, hcode m r hm, rfl, by rw [hcmp, Nat.add_zero], hreg _⟩)
    (Nat.le_of_eq hstored.symm) (fun n hn => absurd (hcmp n) hn)
    (fun n hn => by rw [hreg] at hn; cases hn)

/-- The row of a mailbox is deleted, or was not there. -/
theorem codeOf_of_delete {m' : String} {r : CodeRow}
    (h : (Write.apply env (.deleteCode m) db).codeOf env m' = some r) :
    m' ≠ m ∧ db.codeOf env m' = some r := by
  have hm : m' ≠ m := by
    rintro rfl
    rw [codeOf_deleteCode] at h
    cases h
  rw [codeOf_deleteCode_other hm] at h
  exact ⟨hm, h⟩

/-- A user is inserted, and the code deleted. -/
theorem register (h : Counted env log db) {i : ι} {start : Nat} {cmp : Comparison} {user : UserRow}
    (hrow : db.codeOf env m = some cmp.row) (heq : cmp.row.code = cmp.submitted) :
    Counted env (log ++ [.commit i start [.insertUser user, .deleteCode m] [cmp]])
      (Write.apply env (.deleteCode m) (Write.apply env (.insertUser user) db)) := by
  have hnotes : ∀ n, wrongs n [cmp] = 0 := fun _ => wrongs_right heq
  refine h.append m (fun m' r hr => .inl ?_) (Nat.le_refl _) (fun n hn => absurd (hnotes n) hn)
    (fun n hn => ?_)
  · obtain ⟨hm, hr⟩ := codeOf_of_delete hr
    have hissue : cmp.row.issue ≠ r.issue :=
      fun hissue => hm (h.distinct m' m r cmp.row hr hrow hissue.symm)
    refine ⟨r, hr, rfl, ?_, ?_⟩
    · exact (congrArg (r.attempts + ·) (hnotes r.issue)).symm
    · simp [registersFor, hissue]
  · obtain rfl : cmp.row.issue = n := by simpa [registersFor, Write.insertsUser] using hn
    exact ⟨h.issued m cmp.row hrow, h.unused m cmp.row hrow⟩

/-- A code is stored under a new issue. -/
theorem store (h : Counted env log db) {i : ι} {start expiresAt : Nat} {email code : String} :
    Counted env (log ++ [.commit i start [.storeCode email code expiresAt start] []])
      (Write.apply env (.storeCode email code expiresAt start) db) := by
  refine h.append (env.lower email) (fun m' r hr => ?_) (Nat.le_succ _)
    (fun n hn => absurd rfl hn) (fun n hn => by cases hn)
  by_cases hm : m' = env.lower email
  · subst hm
    obtain ⟨email', hnew⟩ := codeOf_storeCode env db email code expiresAt start
    obtain rfl := Option.some.inj (hr.symm.trans hnew)
    exact .inr ⟨rfl, rfl, Nat.lt_succ_self _, rfl⟩
  · rw [codeOf_storeCode_other _ _ _ _ hm] at hr
    exact .inl ⟨r, hr, rfl, rfl, rfl⟩

end Counted

end History

/-! ### Runs -/

section Runs

variable {env : Env} {ι : Type} [DecidableEq ι] {users : List UserRow} {seq now poolSize : Nat}
  {calls : ι → Call} {s s' : Server env ι} {log : List (Entry (engine env) ι)} {σ : State env}

/-- The system invariant of the server. -/
abbrev ServerInv (poolSize : Nat) (calls : ι → Call) (σ₀ : State env) (s : Server env ι) : Prop :=
  SysInv (fun i => contract env (calls i)) (config poolSize false) [] σ₀ s

theorem serverInv_reachable
    (h : Reachable (serve env poolSize false) (server env (freshDb users) seq now calls) s) :
    ServerInv poolSize calls ⟨seq, freshDb users⟩ s :=
  sysInv_reachable h (sysInv_start trivial (fun _ => trivial) fun i => (calls i).safe _)

variable {σ₀ : State env}

section FlatMap

variable {n : Nat} {f : ι → List Comparison} {is : List ι}

omit [DecidableEq ι]

end FlatMap

/-- A call changes the tables only at its commit. -/
theorem unchanged_of_step {l : Label ι} {j : ι} (hinv : ServerInv poolSize calls σ₀ s)
    (hstep : serve env poolSize false l s = some s') (hl : l = .run j ∨ l = .fail j)
    (hc : committed j s'.log = false) : s'.db = s.db := by
  cases hinv.effect hstep with
  | silent hdb _ => exact hdb
  | auto _ _ hauto _ _ => exact hauto.elim
  | @commit i start H ws notes k _ _ _ hlog =>
      obtain rfl : i = j := by simpa using hl
      rw [hlog, committed_append] at hc
      simp [Entry.commitOf] at hc

end Runs

/-! A run: a code is sent, a wrong code is submitted, then the right one. -/

def demoEnv : Env where
  parseMailbox value := some value
  toLowercase := id
  isAlphabetic := Char.isAlpha
  hashPassword _ _ := "hash"
  lower := id
  hashtext _ := 0
  smtpUsername := none
  developmentCodeIsAllowed := true
  sendMail _ _ := .ok ()

inductive Visitor
  | send
  | guess
  | register
  deriving DecidableEq

def visitorCalls : Visitor → Call
  | .send => .sendVerificationCode "ada@example.com" 23456
  | .guess => .createUser ⟨"Ada", "ada@example.com", "000000", "password1"⟩ 0
  | .register => .createUser ⟨"Ada", "ada@example.com", "123456", "password1"⟩ 0

end DevbitBackend.Account
