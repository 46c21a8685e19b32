import DevbitBackend.Lib.TxnBound
import DevbitBackend.Lib.TxnOrder
import DevbitBackend.Account.Passwords

/-!
# Account.Progress

The calls of `auth_routes` never block each other for good. `create_user` waits for the
row of its mailbox with no lock held and for its entry in the index of the users with
that row held; `send_verification_code` waits for the row while it holds the advisory
lock of the mailbox. All of them climb one order (`rank`), so some call can always go
on, and each answers after a bounded number of its own moves.
-/

namespace DevbitBackend.Login

open Txn Transition
open Account (CodeRow CreateUserRequest StatusCode)

variable {env : Env}

/-! ### The lock order -/

/-- The advisory lock of a mailbox, then its row, then the entry of the user. -/
def registrationRank : Account.Lock → Nat
  | .send _ => 0
  | .code _ => 1
  | .userEmail _ => 2

/-- `UPDATE users SET password` runs outside transactions. -/
def rank : Lock → Nat
  | .registration l => registrationRank l
  | .user _ => 0

/-- A check that fails answers at once. -/
theorem ordered_orFail {β : Type} {r : Except StatusCode β} {k : β → Account.Code env.toEnv}
    (h : ∀ b, (k b).Ordered registrationRank none) :
    (Account.orFail r k).Ordered registrationRank none := by
  cases r with
  | error status => exact .done
  | ok b => exact h b

/-- An `UPDATE` or a `DELETE` of a mailbox locks its row. -/
theorem rowLocks_mailbox {email : String} {st : Account.Stmt}
    (hst : st = .deleteCode email ∨ st = .addAttempt email) (now seq : Nat) (db : Account.Db) :
    Account.rowLocks env.toEnv st now seq db ⊆ [Account.Lock.code (env.lower email)] := by
  rcases hst with rfl | rfl
  all_goals
    simp only [Account.rowLocks]
    split <;> simp

/-- With the row of the mailbox locked, the user comes next. -/
theorem ordered_registerUser (name email passwordHash : String) :
    (Account.registerUser env.toEnv name email passwordHash).Ordered registrationRank
      (some [Account.Lock.code (env.lower email)]) := by
  refine .exec (fun _ _ _ _ _ _ => ?_) fun now seq db r ws _ => ?_
  · intro l hl
    obtain rfl := List.mem_singleton.mp hl
    refine .inr fun l' hl' => ?_
    obtain rfl := List.mem_singleton.mp hl'
    exact Nat.lt_succ_self 1
  · cases r with
    | none => exact .rollback fun _ => .done
    | some id =>
        refine .exec_held (fun now seq db l hl => ?_) fun _ _ _ _ _ _ => .commit .done
        exact List.mem_append_left _ (rowLocks_mailbox (.inl rfl) now seq db hl)

theorem ordered_redeemCode (name email code passwordHash : String) :
    (Account.redeemCode env.toEnv name email code passwordHash).Ordered registrationRank none := by
  refine .begin (.exec (fun _ _ _ _ _ _ _ _ => .inr (by simp)) fun now seq db row ws he => ?_)
  obtain ⟨rfl, -⟩ : Account.Db.liveCode env.toEnv email now db = row ∧ [] = ws := by
    simpa [Account.eval] using he
  cases hlive : Account.Db.liveCode env.toEnv email now db with
  | none => exact .done
  | some row =>
      -- the row was found, so it is locked now
      have hlocks : (Account.engine env.toEnv).locks (.codeForUpdate email) now seq db =
          [Account.Lock.code (env.lower email)] := by
        simp [Account.rowLocks, hlive]
      rw [hlocks, List.nil_append]
      have held : ∀ {st : Account.Stmt} {k : st.Result → Account.Code env.toEnv},
          st = .deleteCode email ∨ st = .addAttempt email →
          (∀ H r, (k r).Ordered registrationRank (some H)) →
          (Account.exec st k).Ordered registrationRank
            (some [Account.Lock.code (env.lower email)]) :=
        fun hst hk => .exec_held (rowLocks_mailbox hst) fun _ _ _ r _ _ => hk _ r
      dsimp only
      split
      · exact held (.inl rfl) fun _ _ => .commit .done
      · refine .emit ?_
        split
        · exact held (.inr rfl) fun _ _ => .commit .done
        · exact ordered_registerUser name email passwordHash

theorem ordered_createUser (payload : CreateUserRequest) (salt : Nat) :
    (Account.createUser env.toEnv payload salt).Ordered registrationRank none :=
  ordered_orFail fun email => ordered_orFail fun name => ordered_orFail fun _ =>
    ordered_orFail fun code => ordered_redeemCode name email code _

/-- With the advisory lock held, the row of the mailbox comes next. -/
theorem ordered_storeCode (key : Int) (email code : String) :
    (Account.storeCode env.toEnv email code).Ordered registrationRank
      (some [Account.Lock.send key]) := by
  refine .exec (fun _ _ _ _ _ _ => ?_) fun _ _ _ _ _ _ => .commit .done
  intro l hl
  obtain rfl := List.mem_singleton.mp hl
  refine .inr fun l' hl' => ?_
  obtain rfl := List.mem_singleton.mp hl'
  exact Nat.lt_succ_self 0

theorem ordered_sendVerificationCode (value : String) (draw : Fin 900000) :
    (Account.sendVerificationCode env.toEnv value draw).Ordered registrationRank none := by
  refine ordered_orFail fun email => ?_
  split
  · exact .done
  refine .begin (.lock (fun _ _ => .inr (by simp)) ?_)
  refine .exec_held (fun _ _ _ => List.nil_subset _) fun now seq db lastSent _ _ => ?_
  have hlocks : (Account.engine env.toEnv).locks (.lastSent email) now seq db = [] := rfl
  rw [hlocks, List.append_nil]
  cases lastSent with
  | none => exact ordered_storeCode _ email _
  | some lastSent =>
      refine .clock fun t => ?_
      dsimp only
      split
      · exact .rollback fun _ => .done
      · exact ordered_storeCode _ email _

/-- A login runs outside transactions. -/
theorem ordered_loginCheck (payload : LoginRequest) (salt : Nat) :
    (loginCheck env payload salt).Ordered rank none := by
  unfold loginCheck
  split
  · exact .done
  split
  · exact .done
  refine .query fun row => ?_
  cases row with
  | none => exact .done
  | some row =>
      dsimp only
      unfold checkPassword
      split
      · exact .done
      split
      · exact .query fun _ => .clock fun _ => .done
      · exact .clock fun _ => .done

/-- **Every call asks for its locks in order.** -/
theorem Call.ordered (c : Call) : (c.code env).Ordered rank none := by
  cases c with
  | loginCheck payload salt => exact ordered_loginCheck payload salt
  | registration c =>
      have hc : (c.code env.toEnv).Ordered registrationRank none := by
        cases c with
        | createUser payload salt => exact ordered_createUser payload salt
        | sendVerificationCode email draw => exact ordered_sendVerificationCode email draw
      have hrank : ∀ l, rank ((registrationPart env).lock l) = registrationRank l := fun _ => rfl
      exact hc.embed hrank

/-! ### How many moves a call takes -/

theorem within_orFail {β : Type} {r : Except StatusCode β} {k : β → Account.Code env.toEnv}
    {n : Nat} (h : ∀ b, (k b).Within (n + 1)) : (Account.orFail r k).Within (n + 1) := by
  cases r with
  | error status => exact .done
  | ok b => exact h b

theorem within_createUser (payload : CreateUserRequest) (salt : Nat) :
    (Account.createUser env.toEnv payload salt).Within 7 := by
  refine within_orFail fun email => within_orFail fun name => within_orFail fun _ =>
    within_orFail fun code => .begin (.exec fun row => ?_)
  cases row with
  | none => exact .done
  | some row =>
      dsimp only
      split
      · exact .exec fun _ => .commit .done
      refine .emit ?_
      split
      · exact .exec fun _ => .commit .done
      refine .exec fun inserted => ?_
      cases inserted with
      | none => exact .rollback fun _ => .done
      | some id => exact .exec fun _ => .commit .done

theorem within_sendVerificationCode (value : String) (draw : Fin 900000) :
    (Account.sendVerificationCode env.toEnv value draw).Within 7 := by
  refine within_orFail fun email => ?_
  split
  · exact .done
  refine .begin (.lock (.exec fun lastSent => ?_))
  cases lastSent with
  | none => exact .exec fun _ => .commit .done
  | some lastSent =>
      refine .clock fun now => ?_
      dsimp only
      split
      · exact .rollback fun _ => .done
      · exact .exec fun _ => .commit .done

theorem within_loginCheck (payload : LoginRequest) (salt : Nat) :
    (loginCheck env payload salt).Within 7 := by
  unfold loginCheck
  split
  · exact .done
  split
  · exact .done
  refine .query fun row => ?_
  cases row with
  | none => exact .done
  | some row =>
      dsimp only
      unfold checkPassword
      split
      · exact .done
      split
      · exact .query fun _ => .clock fun _ => .done
      · exact .clock fun _ => .done

theorem Call.within (c : Call) : (c.code env).Within 7 := by
  cases c with
  | loginCheck payload salt => exact within_loginCheck payload salt
  | registration c =>
      cases c with
      | createUser payload salt => exact (within_createUser payload salt).embed
      | sendVerificationCode email draw => exact (within_sendVerificationCode email draw).embed

/-! ### The server -/

/-- The moves of a call: it arrives, and its code. -/
def maxMoves : Nat := 8

section Server

variable {ι : Type} [DecidableEq ι] {db : Db} {seq now poolSize : Nat} {faulty : Bool}
  {calls : ι → Call} {ls : List (Label ι)} {s : Server env ι}

/-- **The calls of `auth_routes` are all answered.** However they are interleaved, and
whatever fails: no call takes more than `maxMoves` moves, some unfinished call can
always take its next one, and so every run can go on until each call has answered. -/
theorem registrations_answered [Fintype ι]
    (h : Run (serve env poolSize faulty calls) (server env db seq now calls) ls s)
    (hpool : 1 ≤ poolSize) :
    (∀ i, ls.countP (Label.moves i) ≤ maxMoves) ∧
      ((∃ i, ∀ a, s.calls i ≠ .done a) →
        ∃ i, (serve env poolSize faulty calls (.run i) s).isSome) ∧
      ∃ ls' t, Run (serve env poolSize faulty calls) s ls' t ∧ (∀ l ∈ ls', ∃ i, l = .run i) ∧
        ∀ i, ∃ a, t.calls i = .done a := by
  refine all_answered (fun i => .idle (calls i).within) (fun t ht hu => ?_) h
  have hinv : OrderInv rank t := ht.invariant (fun _ _ _ hI hstep => orderInv_step hI hstep)
    (orderInv_start fun i => (calls i).ordered)
  have hcount : t.inUse = busyCount t.calls :=
    inUse_eq_busy ht (Finset.sum_eq_zero fun i _ => rfl).symm
  exact progress_of_order hinv hcount hpool hu

end Server

/-- Two calls for one mailbox. -/
def twoSends (second : Bool) : Call :=
  .registration (.sendVerificationCode "ann@x" ⟨second.toNat, by cases second <;> decide⟩)

/-- While the first call holds the mailbox, the second has to wait, and the first can
go on. -/
theorem registrations_answered_twoSends :
    ∃ s, replay (serve shortEnv 2 false twoSends) (server shortEnv plainDb 1 0 twoSends)
        [.run false, .run false, .run false, .run true, .run true] = some s ∧
      serve shortEnv 2 false twoSends (.run true) s = none ∧
      ∃ i, (serve shortEnv 2 false twoSends (.run i) s).isSome := by
  have hreplay : ((replay (serve shortEnv 2 false twoSends)
      (server shortEnv plainDb 1 0 twoSends)
      [.run false, .run false, .run false, .run true, .run true]).map fun s =>
        ((serve shortEnv 2 false twoSends (.run true) s).isNone,
          (s.calls true).isDone)) = some (true, false) := by
    decide
  obtain ⟨s, hs, hflags⟩ := Option.map_eq_some_iff.mp hreplay
  obtain ⟨hwait, hdone⟩ := Prod.mk.inj hflags
  refine ⟨s, hs, Option.isNone_iff_eq_none.mp hwait, ?_⟩
  refine (registrations_answered (run_of_replay hs) (by decide)).2.1 ⟨true, fun a ha => ?_⟩
  rw [ha] at hdone
  cases hdone

end DevbitBackend.Login
