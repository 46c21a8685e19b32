import DevbitBackend.Lib.TxnLogic
import DevbitBackend.Account.Handlers

/-!
# Account.Contracts

What the registration calls promise each other. The row lock of a mailbox freezes
its row of `verify_code` (`Kept`); a call that compares a code does so with the
row it has locked (`Compared`), and what it commits is one of four things
(`Commits`). `Call.safe` checks both handlers against that.
-/

namespace DevbitBackend.Account

open Txn

/-- The shared state of registration: the tables and the last id drawn. -/
abbrev State (env : Env) := Snap (engine env)

/-- What the holder of a lock keeps. -/
def Kept (env : Env) : Lock → Db → Db → Prop
  | .code m, db, db' => db'.codeOf env m = db.codeOf env m
  | _, _, _ => True

/-- **What the registration transactions may rely on.** -/
def discipline (env : Env) : Discipline (engine env) where
  Inv _ := True
  Base _ _ := True
  Keeps l σ σ' := Kept env l σ.db σ'.db
  base_refl _ := trivial
  base_trans _ _ := trivial
  keeps_refl l σ := by cases l <;> first | rfl | trivial
  keeps_trans {l _ _ _} h h' := by cases l <;> first | exact Eq.trans h' h | trivial
  inv_bump _ := trivial
  base_bump _ _ := trivial
  keeps_bump l σ st := by cases l <;> first | rfl | trivial

/-- The call registers `email` with the code `code`. -/
def Call.redeems (env : Env) (c : Call) (email code : String) : Prop :=
  ∃ payload salt, c = .createUser payload salt ∧ normalizeEmail env payload.email = .ok email ∧
    validateVerificationCode payload.code = .ok code

/-- The call compares its code with the row of its mailbox, which it has locked. -/
structure Compared (env : Env) (c : Call) (σ : State env) (H : List Lock) (start : Nat)
    (email : String) (cmp : Comparison) : Prop where
  redeems : c.redeems env email cmp.submitted
  row : Db.codeOf env (env.lower email) σ.db = some cmp.row
  locked : .code (env.lower email) ∈ H
  live : start < cmp.row.expiresAt
  allowed : cmp.row.attempts < maxVerificationAttempts

/-- What the transaction of a call begun at `start` and holding `H` makes visible
in the state `σ`, and what it has compared. -/
inductive Commits (env : Env) (σ : State env) (H : List Lock) (start : Nat) :
    Call → List Write → List Comparison → Prop
  /-- Too many wrong codes: the stored one is dropped. -/
  | exhausted {c email} : .code (env.lower email) ∈ H →
      Commits env σ H start c [.deleteCode (env.lower email)] []
  | mismatched {c email cmp} : Compared env c σ H start email cmp →
      cmp.row.code ≠ cmp.submitted →
      Commits env σ H start c [.addAttempt (env.lower email)] [cmp]
  | registered {c email cmp user} : Compared env c σ H start email cmp →
      cmp.row.code = cmp.submitted → user.email = email →
      Commits env σ H start c [.insertUser user, .deleteCode (env.lower email)] [cmp]
  | stored {c email code expiresAt} : .code (env.lower email) ∈ H →
      Commits env σ H start c [.storeCode email code expiresAt start] []

section Laws

variable {env : Env} {c : Call} {σ σ' : State env} {H : List Lock} {start : Nat}
  {ws : List Write} {notes : List Comparison} {email : String} {cmp : Comparison}

theorem Compared.stable (h : Compared env c σ H start email cmp)
    (hr : (discipline env).Rely H σ σ') : Compared env c σ' H start email cmp :=
  { h with row := (hr.2 _ h.locked).trans h.row }

/-- A transaction changes no mailbox but the one it has locked. -/
theorem Commits.keeps (h : Commits env σ H start c ws notes) {l : Lock} (hl : l ∉ H) :
    Kept env l σ.db (σ.write ws).db := by
  cases l with
  | code m =>
      have hne : ∀ {m'}, Lock.code m' ∈ H → m ≠ m' := fun hm' heq => hl (heq ▸ hm')
      cases h with
      | exhausted hm => exact codeOf_deleteCode_other (hne hm)
      | mismatched hcmp _ =>
          have hother := hne hcmp.locked
          refine (codeOf_addAttempt _ m).trans ?_
          simp [hother]
      | registered hcmp _ _ => exact codeOf_deleteCode_other (hne hcmp.locked)
      | stored hm => exact codeOf_storeCode_other _ _ _ _ (hne hm)
  | _ => trivial

end Laws

variable {env : Env} {c : Call}

/-- The promise of a registration call. -/
def contract (env : Env) (c : Call) : Contract (discipline env) Response where
  known _ := True
  inTx start H σ _ notes := notes = [] ∨ ∃ email cmp, notes = [cmp] ∧
    Compared env c σ H start email cmp
  commit start H σ ws notes := Commits env σ H start c ws notes
  abort start H σ notes := notes = [] ∨ ∃ email cmp, notes = [cmp] ∧
    Compared env c σ H start email cmp ∧ cmp.row.code = cmp.submitted
  auto _ _ _ _ := False
  reply committed a := committed = true → a ≠ .error 409
  known_stable _ _ := trivial
  inTx_stable h hr _ := by
    rcases h with h | ⟨email, cmp, hnotes, hcmp⟩
    · exact .inl h
    · exact .inr ⟨email, cmp, hnotes, hcmp.stable hr⟩
  commit_inv _ _ := trivial
  commit_base _ _ := trivial
  commit_keeps h _ hl := h.keeps hl
  auto_inv h := h.elim
  auto_base h := h.elim
  auto_keeps h := h.elim

/-! ### The handlers keep their contracts -/

theorem safe_error {σ : State env} (status : StatusCode) :
    (contract env c).Safe failed (.done (.error status)) (.pool σ false) :=
  fun h => by cases h

/-- The codes were equal: the user is inserted and the code deleted, or nothing
is. -/
theorem safe_registerUser {name email passwordHash : String} {start : Nat} {H : List Lock}
    {σ : State env} {cmp : Comparison} (hcmp : Compared env c σ H start email cmp)
    (heq : cmp.row.code = cmp.submitted) :
    (contract env c).Safe failed (registerUser env name email passwordHash)
      (.tx start H σ [] [cmp]) := by
  have hin : ∀ {σ' : State env} {H' : List Lock}, Compared env c σ' H' start email cmp →
      (contract env c).inTx start H' σ' [] [cmp] := fun h => .inr ⟨email, cmp, rfl, h⟩
  refine .exec_result (hin hcmp) fun σ₁ hr₁ _ _ => ?_
  have hcmp₁ := hcmp.stable hr₁
  have habort : (contract env c).abort start H σ₁ [cmp] := .inr ⟨email, cmp, rfl, hcmp₁, heq⟩
  -- the hash or the name does not fit: the statement fails and the transaction is rolled
  -- back
  by_cases hunfit : 255 < charCount passwordHash ∨ !storable name
  · exact .inl ⟨if_pos hunfit, habort, fun h => by cases h⟩
  refine .inr ?_
  have hcmp₂ : Compared env c (σ₁.bump (.insertUser name email passwordHash))
      (H ++ [.userEmail email]) start email cmp :=
    { hcmp₁ with locked := List.mem_append_left _ hcmp₁.locked }
  -- a unique violation is answered with 409 after a rollback
  by_cases htaken : σ₁.db.users.any (·.email == email) = true
  · refine ⟨none, [], _, (if_neg hunfit).trans (if_pos htaken), rfl, hin hcmp₂, ?_⟩
    intro σ₂ hr₂ _ _
    exact ⟨.inr ⟨email, cmp, rfl, hcmp₂.stable hr₂, heq⟩, fun _ => safe_error 409⟩
  · refine ⟨_, _, _, (if_neg hunfit).trans (if_neg htaken), rfl, ?_⟩
    refine .exec_some (hin hcmp₂) fun σ₂ hr₂ _ _ => ⟨_, _, _, rfl, rfl, ?_⟩
    have hcmp₃ := hcmp₂.stable hr₂
    refine ⟨.inr ⟨email, cmp, rfl, { hcmp₃ with locked := List.mem_append_left _ hcmp₃.locked }⟩,
      fun σ₃ hr₃ _ _ => ⟨?_, fun _ h => by cases h⟩⟩
    refine Commits.registered (Compared.stable ?_ hr₃) heq rfl
    exact { hcmp₃ with locked := List.mem_append_left _ hcmp₃.locked }

/-- The codes were different: the row counts one more attempt. -/
theorem safe_addAttempt {email : String} {start : Nat} {H : List Lock} {σ : State env}
    {cmp : Comparison} (hcmp : Compared env c σ H start email cmp)
    (hne : cmp.row.code ≠ cmp.submitted) :
    (contract env c).Safe failed
      (exec (.addAttempt email) fun _ => .commit <| .done (.error 401))
      (.tx start H σ [] [cmp]) := by
  refine .exec_some (.inr ⟨email, cmp, rfl, hcmp⟩) fun σ₁ hr₁ _ _ => ⟨_, _, _, rfl, rfl, ?_⟩
  have hcmp₁ := hcmp.stable hr₁
  have hcmp₂ : Compared env c σ₁ (H ++ rowLocks env (.addAttempt email) start σ₁.seq σ₁.db)
      start email cmp := { hcmp₁ with locked := List.mem_append_left _ hcmp₁.locked }
  exact ⟨.inr ⟨email, cmp, rfl, hcmp₂⟩, fun σ₂ hr₂ _ _ =>
    ⟨.mismatched (hcmp₂.stable hr₂) hne, fun _ h => by cases h⟩⟩

theorem safe_redeemCode {name email code passwordHash : String} {σ : State env}
    (hc : c.redeems env email code) :
    (contract env c).Safe failed (redeemCode env name email code passwordHash)
      (.pool σ false) := by
  refine ⟨rfl, fun σ₁ start _ _ _ => ?_⟩
  refine .exec_some (.inl rfl) fun σ₂ _ _ _ => ?_
  have heval : (engine env).eval (.codeForUpdate email) start σ₂.seq σ₂.db =
      some (Db.liveCode env email start σ₂.db, []) := rfl
  have hlocks : (engine env).locks (.codeForUpdate email) start σ₂.seq σ₂.db =
      if (Db.liveCode env email start σ₂.db).isSome then [.code (env.lower email)] else [] := rfl
  cases hlive : Db.liveCode env email start σ₂.db with
  | none =>
      rw [hlive] at heval hlocks
      exact ⟨_, _, _, heval, hlocks, .inl rfl, fun h => (by cases h), fun _ _ _ _ => .inl rfl⟩
  | some row =>
      rw [hlive] at heval hlocks
      refine ⟨_, _, _, heval, hlocks, ?_⟩
      obtain ⟨hrow, hexp⟩ := Option.filter_eq_some_iff.mp hlive
      have hlocked : Lock.code (env.lower email) ∈ [Lock.code (env.lower email)] :=
        List.mem_singleton_self _
      by_cases hout : maxVerificationAttempts ≤ row.attempts
      · -- exhausted: the row is deleted without a comparison
        simp only [if_pos hout]
        refine .exec_some (.inl rfl) fun σ₃ _ _ _ => ⟨_, _, _, rfl, rfl, .inl rfl, ?_⟩
        exact fun σ₄ _ _ _ =>
          ⟨.exhausted (List.mem_append_left _ hlocked), fun _ h => by cases h⟩
      · have hcmp : Compared env c σ₂ [.code (env.lower email)] start email ⟨row, code⟩ :=
          ⟨hc, hrow, hlocked, of_decide_eq_true hexp, Nat.lt_of_not_le hout⟩
        simp only [if_neg hout]
        refine ⟨.inl rfl, ?_⟩
        by_cases heq : row.code = code
        · rw [if_neg (not_not.mpr heq)]
          exact safe_registerUser hcmp heq
        · rw [if_pos heq]
          exact safe_addAttempt hcmp heq

/-- A check that fails answers before any database call. -/
theorem safe_createUser {payload : CreateUserRequest} {salt : Nat} {σ : State env} :
    (contract env (.createUser payload salt)).Safe failed (createUser env payload salt)
      (.pool σ false) := by
  unfold createUser
  cases hemail : normalizeEmail env payload.email with
  | error status => exact safe_error status
  | ok email =>
  cases validateName payload.name with
  | error status => exact safe_error status
  | ok name =>
  cases validateNewPassword env payload.password with
  | error status => exact safe_error status
  | ok _ =>
  cases hcode : validateVerificationCode payload.code with
  | error status => exact safe_error status
  | ok code => exact safe_redeemCode ⟨payload, salt, rfl, hemail, hcode⟩

/-- The answer to a stored code is never 409. -/
theorem deliver_ne_conflict (email code : String) : deliver env email code ≠ .error 409 := by
  unfold deliver
  cases env.smtpUsername.filter (trim · != "") with
  | none => simp
  | some _ =>
      cases env.sendMail email code with
      | error e => cases e <;> simp [MailError.status]
      | ok _ => simp

theorem safe_storeCode {email code : String} {start : Nat} {H : List Lock} {σ : State env} :
    (contract env c).Safe failed (storeCode env email code) (.tx start H σ [] []) := by
  refine .exec_some (.inl rfl) fun σ₁ _ _ _ => ⟨_, _, _, rfl, rfl, .inl rfl, ?_⟩
  exact fun σ₂ _ _ _ => ⟨.stored (List.mem_append_right _ (List.mem_singleton_self _)),
    fun _ => deliver_ne_conflict email code⟩

theorem safe_sendVerificationCode {value : String} {draw : Fin 900000} {σ : State env} :
    (contract env c).Safe failed (sendVerificationCode env value draw) (.pool σ false) := by
  unfold sendVerificationCode
  cases normalizeEmail env value with
  | error status => exact safe_error status
  | ok email =>
  simp only [orFail]
  split
  · exact safe_error 503
  refine ⟨rfl, fun σ₁ start _ _ _ => ⟨.inl rfl, rfl, fun σ₂ _ _ _ => ?_⟩⟩
  refine .exec_read (fun db => (db.codeOf env (env.lower email)).map (·.createdAt))
    (fun _ _ _ => rfl) rfl (fun _ _ _ => rfl) (.inl rfl) fun σ₃ _ _ _ => ?_
  cases (Db.codeOf env (env.lower email) σ₃.db).map (·.createdAt) with
  | none => exact safe_storeCode
  | some lastSent =>
      refine ⟨.inl rfl, fun now => ?_⟩
      dsimp only
      split
      · exact ⟨.inl rfl, fun _ _ _ _ => ⟨.inl rfl, fun _ h => by cases h⟩⟩
      · exact safe_storeCode

/-- **Every call keeps its contract**, from whatever committed state it arrives in. -/
theorem Call.safe (c : Call) (σ : State env) :
    (contract env c).Safe failed (c.code env) (.pool σ false) := by
  cases c with
  | createUser payload salt => exact safe_createUser
  | sendVerificationCode email draw => exact safe_sendVerificationCode

end DevbitBackend.Account
