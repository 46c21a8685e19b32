import DevbitBackend.Lib.TxnSolo
import DevbitBackend.Account.Codes
import Mathlib.Data.List.Chain

/-!
# Account.Cooldown

The **cooldown of a mailbox** over whole runs of atomic calls, at any times on one
clock. The time of the last code is kept in its row of `verify_code` only, and
`create_user` deletes this row, so two codes of a mailbox are a minute apart as
long as no row younger than a minute is deleted.
-/

namespace DevbitBackend.Account

open Txn Transition

variable {env : Env}

/-- The state and the answer after a call that runs alone at time `now`. -/
def Call.outcome (env : Env) (c : Call) (now : Nat) (σ : State env) : State env × Response :=
  (c.code env).solo failed noFailure now 0 none σ

/-- When the last code of a mailbox was sent, as its row has it. -/
def Db.sentAt (env : Env) (mailbox : String) (db : Db) : Option Nat :=
  (db.codeOf env mailbox).map (·.createdAt)

/-! ### What a call does when it runs alone -/

section Outcome

variable {now n : Nat} {σ : State env} {email : String}

/-- The call stores a code for `email` at time `now`. -/
def Call.sends (env : Env) (c : Call) (now : Nat) (db : Db) (email : String) : Prop :=
  ∃ value draw, c = .sendVerificationCode value draw ∧ normalizeEmail env value = .ok email ∧
    ∀ sent, db.sentAt env (env.lower email) = some sent →
      (verificationResendSeconds : Int) ≤ elapsedSeconds now sent

/-- The call deletes the row of the mailbox at time `now`: the arguments are in
order, the row has not expired, and it is exhausted or it is redeemed. -/
def Call.deletes (env : Env) (c : Call) (now : Nat) (db : Db) (mailbox : String)
    (row : CodeRow) : Prop :=
  ∃ payload salt email name code, c = .createUser payload salt ∧
    normalizeEmail env payload.email = .ok email ∧ validateName payload.name = .ok name ∧
    validateNewPassword env payload.password = .ok () ∧
    validateVerificationCode payload.code = .ok code ∧ env.lower email = mailbox ∧
    db.liveCode env email now = some row ∧
    (maxVerificationAttempts ≤ row.attempts ∨ row.code = code ∧ storable name = true ∧
      charCount (env.hashPassword salt payload.password) ≤ 255 ∧
      db.users.any (·.email == email) = false)

/-- Some way to deliver a code is configured. -/
def Env.canSend (env : Env) : Bool :=
  (env.smtpUsername.filter (trim · != "")).isSome || env.developmentCodeIsAllowed

/-- The transaction of a sending call up to the time of the last code. -/
theorem solo_lastSent (k : Option Nat → Code env) :
    (Prog.begin <| .lock (.send (env.hashtext email)) <| exec (.lastSent email) k : Code env).solo
      failed noFailure now 0 none σ =
        (k (Db.sentAt env (env.lower email) σ.db)).solo failed noFailure now 3 (some []) σ := rfl

/-- The transaction of a registration call up to the row of the code. -/
theorem solo_codeForUpdate (k : Option CodeRow → Code env) :
    (Prog.begin <| exec (.codeForUpdate email) k : Code env).solo failed noFailure now 0 none σ =
      (k (Db.liveCode env email now σ.db)).solo failed noFailure now 2 (some []) σ := rfl

theorem solo_storeCode (code : String) :
    (storeCode env email code).solo failed noFailure now n (some []) σ =
      (σ.write [.storeCode email code (now + verificationCodeExpiresSeconds * second) now],
        deliver env email code) := rfl

/-- A sending call changes nothing, or it stores a code and the cooldown is
over. -/
theorem outcome_send (value : String) (draw : Fin 900000) (now : Nat) (σ : State env) :
    ((Call.sendVerificationCode value draw).outcome env now σ).1 = σ ∨
      ∃ email expiresAt, (Call.sendVerificationCode value draw).sends env now σ.db email ∧
        ((Call.sendVerificationCode value draw).outcome env now σ).1 =
          σ.write [.storeCode email (drawnCode draw) expiresAt now] := by
  change ((sendVerificationCode env value draw).solo failed noFailure now 0 none σ).1 = σ ∨
    ∃ email expiresAt, _ ∧
      ((sendVerificationCode env value draw).solo failed noFailure now 0 none σ).1 = _
  unfold sendVerificationCode
  cases hemail : normalizeEmail env value with
  | error status => exact .inl rfl
  | ok email =>
  simp only [orFail]
  split
  · exact .inl rfl
  rw [solo_lastSent]
  have hsends : (∀ sent, Db.sentAt env (env.lower email) σ.db = some sent →
      (verificationResendSeconds : Int) ≤ elapsedSeconds now sent) →
        (Call.sendVerificationCode value draw).sends env now σ.db email :=
    fun h => ⟨value, draw, rfl, hemail, h⟩
  cases hsent : Db.sentAt env (env.lower email) σ.db with
  | none =>
      dsimp only
      rw [solo_storeCode]
      refine .inr ⟨email, _, hsends fun sent h => ?_, rfl⟩
      rw [hsent] at h
      cases h
  | some sent =>
      simp only [Prog.solo]
      split
      · exact .inl rfl
      · rename_i hover
        rw [solo_storeCode]
        refine .inr ⟨email, _, hsends fun sent' h => ?_, rfl⟩
        obtain rfl := Option.some.inj (hsent.symm.trans h)
        exact Int.not_lt.mp hover

theorem sentAt_addAttempt (m m' : String) (db : Db) :
    (Write.apply env (.addAttempt m) db).sentAt env m' = db.sentAt env m' := by
  rw [Db.sentAt, codeOf_addAttempt, Option.map_map, Db.sentAt]
  congr 1
  funext r
  simp only [Function.comp_apply]
  split <;> rfl

/-- What a registration call leaves of the times: those of before, but for a row
that it deletes. -/
structure Spares (env : Env) (c : Call) (now : Nat) (db db' : Db) : Prop where
  stored : db'.stored = db.stored
  sentAt : ∀ m, db'.sentAt env m = db.sentAt env m ∨
    db'.sentAt env m = none ∧ ∃ row, db.codeOf env m = some row ∧ c.deletes env now db m row

theorem Spares.refl (c : Call) (now : Nat) (db : Db) : Spares env c now db db :=
  ⟨rfl, fun _ => .inl rfl⟩

theorem Spares.delete {c : Call} {db db' : Db} {m : String} {row : CodeRow}
    (hrow : db.codeOf env m = some row) (hdel : c.deletes env now db m row)
    (hcodes : db'.codes = db.codes) (hstored : db'.stored = db.stored) :
    Spares env c now db (Write.apply env (.deleteCode m) db') where
  stored := hstored
  sentAt m' := by
    by_cases hm : m' = m
    · subst hm
      exact .inr ⟨by rw [Db.sentAt, codeOf_deleteCode]; rfl, row, hrow, hdel⟩
    · refine .inl ?_
      rw [Db.sentAt, codeOf_deleteCode_other hm, Db.codeOf, hcodes]
      rfl

/-- With equal codes the row is deleted when the user can be inserted. -/
theorem spares_registerUser {c : Call} {name passwordHash : String}
    (h : storable name = true → charCount passwordHash ≤ 255 →
      σ.db.users.any (·.email == email) = false → Spares env c now σ.db
        (Write.apply env (.deleteCode (env.lower email))
          (Write.apply env (.insertUser ⟨nextval σ.seq, name, email, passwordHash, false⟩)
            σ.db))) :
    Spares env c now σ.db
      ((registerUser env name email passwordHash).solo failed noFailure now n (some [])
        σ).1.db := by
  unfold registerUser exec
  by_cases hunfit : 255 < charCount passwordHash ∨ !storable name
  · rw [solo_exec_rejected (if_pos hunfit)]
    exact .refl _ _ _
  cases htaken : σ.db.users.any (·.email == email) with
  | true =>
      rw [solo_exec rfl ((if_neg hunfit).trans (if_pos htaken))]
      exact .refl _ _ _
  | false =>
      rw [solo_exec rfl ((if_neg hunfit).trans (if_neg (Bool.eq_false_iff.mp htaken)))]
      have hname : storable name = true := by
        cases hname : storable name with
        | true => rfl
        | false => exact absurd (.inr (by simp [hname])) hunfit
      exact h hname (Nat.le_of_not_lt fun hlong => hunfit (.inl hlong)) htaken

/-- A registration call deletes at most the row that `deletes` names. -/
theorem outcome_createUser (payload : CreateUserRequest) (salt : Nat) :
    Spares env (.createUser payload salt) now σ.db
      ((Call.createUser payload salt).outcome env now σ).1.db := by
  change Spares env _ now σ.db
    ((createUser env payload salt).solo failed noFailure now 0 none σ).1.db
  unfold createUser
  cases hemail : normalizeEmail env payload.email with
  | error status => exact .refl _ _ _
  | ok email =>
  cases hname : validateName payload.name with
  | error status => exact .refl _ _ _
  | ok name =>
  cases hpassword : validateNewPassword env payload.password with
  | error status => exact .refl _ _ _
  | ok _ =>
  cases hcode : validateVerificationCode payload.code with
  | error status => exact .refl _ _ _
  | ok code =>
  simp only [orFail, redeemCode]
  rw [solo_codeForUpdate]
  cases hlive : Db.liveCode env email now σ.db with
  | none => exact .refl _ _ _
  | some row =>
      obtain ⟨hrow, -⟩ := Option.filter_eq_some_iff.mp hlive
      have hdel : (maxVerificationAttempts ≤ row.attempts ∨ row.code = code ∧
          storable name = true ∧ charCount (env.hashPassword salt payload.password) ≤ 255 ∧
          σ.db.users.any (·.email == email) = false) →
            (Call.createUser payload salt).deletes env now σ.db (env.lower email) row :=
        fun h => ⟨payload, salt, email, name, code, rfl, hemail, hname, hpassword, hcode, rfl,
          hlive, h⟩
      dsimp only
      split
      · rename_i hout
        exact .delete hrow (hdel (.inl hout)) rfl rfl
      · simp only [Prog.solo]
        split
        · exact ⟨rfl, fun m => .inl (sentAt_addAttempt _ m σ.db)⟩
        · rename_i heq
          exact spares_registerUser fun hstor hpw htaken => .delete hrow
            (hdel (.inr ⟨not_not.mp heq, hstor, hpw, htaken⟩)) rfl rfl

/-- A registration call that gets to the end deletes the row of its mailbox. -/
theorem sentAt_registerUser {name passwordHash : String} (hname : storable name = true)
    (hhash : charCount passwordHash ≤ 255) (hfree : σ.db.users.any (·.email == email) = false) :
    ((registerUser env name email passwordHash).solo failed noFailure now n (some [])
      σ).1.db.sentAt env (env.lower email) = none := by
  have hfit : ¬ (255 < charCount passwordHash ∨ !storable name) := by
    rintro (hlong | hbad)
    · exact Nat.not_lt.mpr hhash hlong
    · simp [hname] at hbad
  unfold registerUser exec
  rw [solo_exec rfl ((if_neg hfit).trans (if_neg (Bool.eq_false_iff.mp hfree)))]
  change Db.sentAt env (env.lower email) (Write.apply env (.deleteCode (env.lower email)) _) = none
  rw [Db.sentAt, codeOf_deleteCode]
  rfl

/-- **The row that `deletes` names is gone after the call.** -/
theorem outcome_deletes {c : Call} {mailbox : String} {row : CodeRow}
    (h : c.deletes env now σ.db mailbox row) :
    (c.outcome env now σ).1.db.sentAt env mailbox = none := by
  obtain ⟨payload, salt, email, name, code, rfl, hemail, hname, hpassword, hcode, rfl, hlive,
    hgone⟩ := h
  change ((createUser env payload salt).solo failed noFailure now 0 none σ).1.db.sentAt env _ = none
  unfold createUser
  rw [hemail, hname, hpassword, hcode]
  simp only [orFail, redeemCode]
  rw [solo_codeForUpdate, hlive]
  dsimp only
  split
  · change Db.sentAt env (env.lower email) (Write.apply env (.deleteCode (env.lower email)) _) =
      none
    rw [Db.sentAt, codeOf_deleteCode]
    rfl
  · rename_i hleft
    obtain ⟨heq, hstor, hhash, hfree⟩ := hgone.resolve_left hleft
    simp only [Prog.solo]
    rw [if_neg (not_not.mpr heq)]
    exact sentAt_registerUser hstor hhash hfree

/-- A mailbox without a row gets a code at once. -/
theorem outcome_send_none {value : String} {draw : Fin 900000}
    (hemail : normalizeEmail env value = .ok email) (hsend : env.canSend = true)
    (hnone : σ.db.sentAt env (env.lower email) = none) :
    ((Call.sendVerificationCode value draw).outcome env now σ).1 =
      σ.write [.storeCode email (drawnCode draw)
        (now + verificationCodeExpiresSeconds * second) now] := by
  change ((sendVerificationCode env value draw).solo failed noFailure now 0 none σ).1 = _
  unfold sendVerificationCode
  have hconfigured : ¬ ((env.smtpUsername.filter (trim · != "")).isNone &&
      !env.developmentCodeIsAllowed) = true := by
    intro hoff
    obtain ⟨hsmtp, hdev⟩ := Bool.and_eq_true_iff.mp hoff
    rw [Env.canSend, Option.isNone_iff_eq_none.mp hsmtp, (Bool.not_eq_true' _).mp hdev] at hsend
    cases hsend
  rw [hemail]
  simp only [orFail]
  rw [if_neg hconfigured, solo_lastSent, hnone]
  rfl

end Outcome

/-! ### Runs -/

/-- Registration over time: the state of the server, and when codes were stored for which
mailbox. -/
structure Timeline (env : Env) where
  now : Nat
  state : State env
  /-- History: the mailbox and the time of each code stored, in order. -/
  stores : List (String × Nat)

inductive Moment
  /-- Time passes. -/
  | tick (d : Nat)
  | call (c : Call)

/-- The code that a call has stored, if the tables have one more. -/
def Call.storedAt (env : Env) (c : Call) (now : Nat) (db db' : Db) : List (String × Nat) :=
  match c with
  | .createUser _ _ => []
  | .sendVerificationCode value _ =>
      match normalizeEmail env value with
      | .error _ => []
      | .ok email => if db.stored < db'.stored then [(env.lower email, now)] else []

/-- One moment of a run of atomic calls. -/
def pass (env : Env) : Moment → Timeline env → Option (Timeline env)
  | .tick d, s => some { s with now := s.now + d }
  | .call c, s =>
      let after := (c.outcome env s.now s.state).1
      some { s with
             state := after
             stores := s.stores ++ c.storedAt env s.now s.state.db after.db }

/-- The times at which codes of the mailbox were stored. -/
def timesOf (m : String) (stores : List (String × Nat)) : List Nat :=
  (stores.filter (·.1 == m)).map (·.2)

/-- Successive times are at least the cooldown apart. -/
def Spaced (times : List Nat) : Prop :=
  times.IsChain fun t t' => t + verificationResendSeconds * second ≤ t'

/-- No call deletes a row that is younger than the cooldown. -/
def NoEarlyDelete (l : Moment) (s : Timeline env) : Prop :=
  ∀ c m row, l = .call c → c.deletes env s.now s.state.db m row →
    row.createdAt + verificationResendSeconds * second ≤ s.now

/-- The times of a mailbox are spaced, and the last one is in its row, or is the
cooldown ago. -/
structure Cooled (m : String) (s : Timeline env) : Prop where
  spaced : Spaced (timesOf m s.stores)
  last : ∀ t ∈ (timesOf m s.stores).getLast?, t ≤ s.now ∧
    (s.state.db.sentAt env m = some t ∨
      s.state.db.sentAt env m = none ∧ t + verificationResendSeconds * second ≤ s.now)

theorem elapsed_iff {now sent : Nat} (h : sent ≤ now) :
    (verificationResendSeconds : Int) ≤ elapsedSeconds now sent ↔
      sent + verificationResendSeconds * second ≤ now := by
  unfold elapsedSeconds verificationResendSeconds second
  rw [Int.tdiv_eq_ediv_of_nonneg (by omega)]
  omega

theorem timesOf_append (m : String) (stores stores' : List (String × Nat)) :
    timesOf m (stores ++ stores') = timesOf m stores ++ timesOf m stores' := by
  simp [timesOf]

theorem sentAt_storeCode (email code : String) (expiresAt at_ : Nat) (db : Db) :
    (Write.apply env (.storeCode email code expiresAt at_) db).sentAt env (env.lower email) =
      some at_ := by
  obtain ⟨email', h⟩ := codeOf_storeCode env db email code expiresAt at_
  rw [Db.sentAt, h]
  rfl

theorem sentAt_storeCode_other (email code : String) (expiresAt at_ : Nat) (db : Db) {m : String}
    (hm : m ≠ env.lower email) :
    (Write.apply env (.storeCode email code expiresAt at_) db).sentAt env m = db.sentAt env m := by
  rw [Db.sentAt, codeOf_storeCode_other _ _ _ _ hm, Db.sentAt]

theorem storedAt_self (c : Call) (now : Nat) (db : Db) : c.storedAt env now db db = [] := by
  cases c with
  | createUser payload salt => rfl
  | sendVerificationCode value draw =>
      simp only [Call.storedAt]
      split
      · rfl
      · exact if_neg (Nat.lt_irrefl _)

/-- A code that a call stores is recorded. -/
theorem storedAt_store {c : Call} {now : Nat} {db : Db} {email : String}
    (h : c.sends env now db email) (code : String) (expiresAt : Nat) :
    c.storedAt env now db (Write.apply env (.storeCode email code expiresAt now) db) =
      [(env.lower email, now)] := by
  obtain ⟨value, draw, rfl, hemail, -⟩ := h
  simp only [Call.storedAt, hemail]
  exact if_pos (Nat.lt_succ_self _)

namespace Cooled

variable {m : String} {s : Timeline env}

/-- A later moment with the same codes. -/
theorem later {s' : Timeline env} (h : Cooled m s) (hnow : s.now ≤ s'.now)
    (hstores : timesOf m s'.stores = timesOf m s.stores)
    (hsent : s'.state.db.sentAt env m = s.state.db.sentAt env m) : Cooled m s' where
  spaced := hstores ▸ h.spaced
  last t ht := by
    rw [hstores] at ht
    obtain ⟨hle, hlast⟩ := h.last t ht
    refine ⟨Nat.le_trans hle hnow, ?_⟩
    rw [hsent]
    rcases hlast with hrow | ⟨hnone, hover⟩
    · exact .inl hrow
    · exact .inr ⟨hnone, Nat.le_trans hover hnow⟩

/-- A registration call that deletes no young row. -/
theorem createUser {s' : Timeline env} {c : Call} (h : Cooled m s) (hnow : s'.now = s.now)
    (hstores : s'.stores = s.stores) (hspares : Spares env c s.now s.state.db s'.state.db)
    (hlate : ∀ row, c.deletes env s.now s.state.db m row →
      row.createdAt + verificationResendSeconds * second ≤ s.now) : Cooled m s' := by
  rcases hspares.sentAt m with hsame | ⟨hnone, row, hrow, hdel⟩
  · exact h.later (Nat.le_of_eq hnow.symm) (by rw [hstores]) hsame
  · refine ⟨hstores ▸ h.spaced, fun t ht => ?_⟩
    rw [hstores] at ht
    obtain ⟨hle, hlast⟩ := h.last t ht
    have hsent : s.state.db.sentAt env m = some row.createdAt := by rw [Db.sentAt, hrow]; rfl
    rw [hnow]
    refine ⟨hle, .inr ⟨hnone, ?_⟩⟩
    rcases hlast with hlast | ⟨hlast, -⟩
    · rw [Option.some.inj (hlast.symm.trans hsent)]
      exact hlate row hdel
    · rw [hlast] at hsent
      cases hsent

/-- A code is stored, and the cooldown of its mailbox was over. -/
theorem store {s' : Timeline env} {c : Call} {email code : String} {expiresAt : Nat}
    (h : Cooled (env.lower email) s) (hsends : c.sends env s.now s.state.db email)
    (hnow : s'.now = s.now)
    (hstores : timesOf (env.lower email) s'.stores = timesOf (env.lower email) s.stores ++ [s.now])
    (hdb : s'.state.db = Write.apply env (.storeCode email code expiresAt s.now) s.state.db) :
    Cooled (env.lower email) s' where
  spaced := by
    rw [hstores]
    refine List.isChain_append.mpr ⟨h.spaced, List.isChain_singleton _, fun t ht t' ht' => ?_⟩
    obtain rfl : s.now = t' := by simpa using ht'
    obtain ⟨hle, hlast⟩ := h.last t ht
    rcases hlast with hrow | ⟨-, hover⟩
    · obtain ⟨-, -, -, -, hcool⟩ := hsends
      exact (elapsed_iff hle).mp (hcool t hrow)
    · exact hover
  last t ht := by
    rw [hstores, List.getLast?_concat] at ht
    obtain rfl : s.now = t := by simpa using ht
    refine ⟨Nat.le_of_eq hnow.symm, .inl ?_⟩
    rw [hdb]
    exact sentAt_storeCode email code expiresAt s.now s.state.db

end Cooled

/-- **Every moment keeps the cooldown of every mailbox**, an early deletion
apart. -/
theorem cooled_step {l : Moment} {s s' : Timeline env} (h : ∀ m, Cooled m s)
    (hlate : NoEarlyDelete l s) (hstep : pass env l s = some s') (m : String) : Cooled m s' := by
  cases l with
  | tick d =>
      obtain rfl := Option.some.inj hstep
      exact (h m).later (Nat.le_add_right _ _) rfl rfl
  | call c =>
      obtain rfl := Option.some.inj hstep
      cases c with
      | createUser payload salt =>
          exact (h m).createUser rfl (List.append_nil _) (outcome_createUser payload salt)
            fun row hdel => hlate _ m row rfl hdel
      | sendVerificationCode value draw =>
          rcases outcome_send value draw s.now s.state with hsame | hstored
          · refine (h m).later (Nat.le_refl _) ?_ ?_
            · dsimp only
              rw [hsame, storedAt_self, List.append_nil]
            · dsimp only
              rw [hsame]
          · obtain ⟨email, expiresAt, hsends, hafter⟩ := hstored
            have hlog := storedAt_store hsends (drawnCode draw) expiresAt
            by_cases hm : m = env.lower email
            · subst hm
              refine (h _).store hsends rfl ?_ (congrArg Snap.db hafter)
              dsimp only
              rw [hafter, timesOf_append]
              exact congrArg _ ((congrArg _ hlog).trans (by simp [timesOf]))
            · refine (h m).later (Nat.le_refl _) ?_ ?_
              · dsimp only
                rw [hafter, timesOf_append]
                refine (congrArg (timesOf m s.stores ++ ·) ((congrArg _ hlog).trans ?_)).trans
                  (List.append_nil _)
                simp [timesOf, Ne.symm hm]
              · dsimp only
                rw [hafter]
                exact sentAt_storeCode_other email _ _ _ _ hm

/-- A run begins with any tables and any time. -/
def Timeline.start (env : Env) (now : Nat) (σ : State env) : Timeline env := ⟨now, σ, []⟩

theorem cooled_of_reachable {now : Nat} {σ : State env} {s : Timeline env}
    (h : ReachableBy NoEarlyDelete (pass env) (.start env now σ) s) (m : String) : Cooled m s :=
  h.invariant (I := fun s => ∀ m, Cooled m s)
    (fun _ _ _ hI hlate hstep => cooled_step hI hlate hstep)
    (fun _ => ⟨List.isChain_nil, fun _ ht => by cases ht⟩) m

/-- **The cooldown of a mailbox.** In every run of atomic calls in which no call
deletes a row younger than a minute, successive codes of a mailbox are stored at
least a minute apart. -/
theorem codes_spaced {now : Nat} {σ : State env} {s : Timeline env}
    (h : ReachableBy NoEarlyDelete (pass env) (.start env now σ) s) (m : String) :
    Spaced (timesOf m s.stores) :=
  (cooled_of_reachable h m).spaced

/-- A call that deletes a row stores no code. -/
theorem pass_deletes {s s' : Timeline env} {c : Call} {m : String} {row : CodeRow}
    (h : c.deletes env s.now s.state.db m row) (hstep : pass env (.call c) s = some s') :
    s'.now = s.now ∧ s'.stores = s.stores ∧ s'.state.db.sentAt env m = none := by
  have hnone := outcome_deletes h
  obtain ⟨payload, salt, -, -, -, rfl, -⟩ := h
  obtain rfl := Option.some.inj hstep
  exact ⟨rfl, List.append_nil _, hnone⟩

/-- A code for a mailbox without a row is stored. -/
theorem pass_send_none {s s' : Timeline env} {email value : String} {draw : Fin 900000}
    (hemail : normalizeEmail env value = .ok email) (hcan : env.canSend = true)
    (hnone : s.state.db.sentAt env (env.lower email) = none)
    (hstep : pass env (.call (.sendVerificationCode value draw)) s = some s') :
    s'.stores = s.stores ++ [(env.lower email, s.now)] := by
  have hsends : (Call.sendVerificationCode value draw).sends env s.now s.state.db email :=
    ⟨value, draw, rfl, hemail, fun sent h => by rw [hnone] at h; cases h⟩
  obtain rfl := Option.some.inj hstep
  dsimp only
  rw [outcome_send_none hemail hcan hnone]
  exact congrArg (s.stores ++ ·) (storedAt_store hsends (drawnCode draw) _)

/-- **What `NoEarlyDelete` leaves out breaks the cooldown.** A call deletes the row
of a code stored in this run; a code that is asked for before the minute of this row
is over is stored all the same. -/
theorem early_deletion_resends {now d : Nat} {σ : State env} {s s₁ s₂ s₃ : Timeline env}
    {c : Call} {email value : String} {draw : Fin 900000} {row : CodeRow}
    (h : ReachableBy NoEarlyDelete (pass env) (.start env now σ) s)
    (hstored : timesOf (env.lower email) s.stores ≠ [])
    (hdel : c.deletes env s.now s.state.db (env.lower email) row)
    (hdeleted : pass env (.call c) s = some s₁) (hpassed : pass env (.tick d) s₁ = some s₂)
    (hearly : s₂.now < row.createdAt + verificationResendSeconds * second)
    (hemail : normalizeEmail env value = .ok email) (hcan : env.canSend = true)
    (hsent : pass env (.call (.sendVerificationCode value draw)) s₂ = some s₃) :
    ¬ Spaced (timesOf (env.lower email) s₃.stores) := by
  obtain ⟨-, hstores₁, hnone⟩ := pass_deletes hdel hdeleted
  obtain rfl := Option.some.inj hpassed
  have hstores₃ := pass_send_none (s := { s₁ with now := s₁.now + d }) hemail hcan hnone hsent
  -- the last code of the mailbox is the one whose row is deleted
  obtain ⟨t, ht⟩ := Option.ne_none_iff_exists'.mp (List.getLast?_eq_none_iff.not.mpr hstored)
  have hlast : row.createdAt = t := by
    obtain ⟨-, -, email', -, -, -, -, -, -, -, hmailbox, hlive, -⟩ := hdel
    obtain ⟨hrow, -⟩ := Option.filter_eq_some_iff.mp hlive
    rw [hmailbox] at hrow
    have hsentAt : s.state.db.sentAt env (env.lower email) = some row.createdAt := by
      rw [Db.sentAt, hrow]
      rfl
    obtain ⟨-, hsame | ⟨hgone, -⟩⟩ := (cooled_of_reachable h _).last t ht
    · exact Option.some.inj (hsentAt.symm.trans hsame)
    · rw [hgone] at hsentAt
      cases hsentAt
  intro hspaced
  rw [hstores₃, hstores₁, timesOf_append] at hspaced
  obtain ⟨-, -, hapart⟩ := List.isChain_append.mp hspaced
  have hover := hapart t ht (s₁.now + d) (by simp [timesOf])
  rw [← hlast] at hover
  exact Nat.not_lt.mpr hover hearly

/-! ### Ada registers and asks for another code -/

/-- A code is sent, Ada registers `waited` seconds later, and asks for a code five
seconds after that. -/
def askAgain (waited : Nat) : List Moment :=
  [.call (visitorCalls .send), .tick (waited * second), .call (visitorCalls .register),
    .tick (5 * second), .call (visitorCalls .send)]

def emptyTables : State demoEnv := ⟨0, freshDb []⟩

/-- No row is young when a registration is tried. -/
def checkOld (l : Moment) (s : Timeline demoEnv) : Bool :=
  match l with
  | .call (.createUser _ _) =>
      s.state.db.codes.all fun r => r.createdAt + verificationResendSeconds * second ≤ s.now
  | _ => true

theorem noEarlyDelete_of_check (l : Moment) (s : Timeline demoEnv) (h : checkOld l s = true) :
    NoEarlyDelete l s := by
  rintro c m row rfl ⟨payload, salt, email, name, code, rfl, -, -, -, -, -, hlive, -⟩
  have hmem : row ∈ Db.codes s.state.db :=
    List.mem_of_find?_eq_some (Option.filter_eq_some_iff.mp hlive).1
  exact of_decide_eq_true (List.all_eq_true.mp h row hmem)

/-- After a minute Ada gets a second code. -/
theorem codes_spaced_patient : ∃ s : Timeline demoEnv,
    timesOf "ada@example.com" s.stores = [0, 66 * second] ∧
      Spaced (timesOf "ada@example.com" s.stores) := by
  have hrun : ((replay (fun l s => if checkOld l s then pass demoEnv l s else none)
      (.start demoEnv 0 emptyTables) (askAgain 61)).map fun s =>
        timesOf "ada@example.com" s.stores) = some [0, 66 * second] := by decide
  obtain ⟨s, hs, htimes⟩ := Option.map_eq_some_iff.mp hrun
  exact ⟨s, htimes, codes_spaced (.of_replay noEarlyDelete_of_check hs .refl) "ada@example.com"⟩

theorem resent_reachable : ∃ s, Reachable (pass demoEnv) (.start demoEnv 0 emptyTables) s ∧
    timesOf "ada@example.com" s.stores = [0, 15 * second] :=
  exists_reachable_of_replay (askAgain 10)
    (fun s : Timeline demoEnv => timesOf "ada@example.com" s.stores) (by decide)

/-- Ada registers ten seconds after her code and gets another one five seconds
later. -/
theorem codes_not_spaced : ¬ ∀ (s : Timeline demoEnv) (m : String),
    Reachable (pass demoEnv) (.start demoEnv 0 emptyTables) s → Spaced (timesOf m s.stores) := by
  intro hclaim
  obtain ⟨s, hs, htimes⟩ := resent_reachable
  have hspaced := hclaim s "ada@example.com" hs
  rw [htimes] at hspaced
  revert hspaced
  unfold Spaced
  decide

end DevbitBackend.Account
