import DevbitBackend.Account.Handlers
import DevbitBackend.Lib.TxnSolo

/-!
# Account.Registrations

What a registration call that runs alone does to `users`, whatever fails on the way: nothing,
or one new row. `Inserts` says when there is one, in terms of the request and of the state
that the call finds.
-/

namespace DevbitBackend.Account

open Txn

variable {env : Env} {c : Call} {now n : Nat} {fails : Nat → Bool} {σ : Snap (engine env)}
  {payload : CreateUserRequest} {salt : Nat} {email name code : String}

/-- The checks of `create_user`, and the values they leave. -/
structure CreateUserRequest.Checked (env : Env) (payload : CreateUserRequest)
    (email name code : String) : Prop where
  email : normalizeEmail env payload.email = .ok email
  name : validateName payload.name = .ok name
  password : validateNewPassword env payload.password = .ok ()
  code : validateVerificationCode payload.code = .ok code

/-- The code is the stored one, the address is not stored in this spelling, and the five
database calls of `create_user` succeed. -/
structure Redeemed (env : Env) (now : Nat) (fails : Nat → Bool) (db : Db)
    (email name code passwordHash : String) : Prop where
  row : ∃ row, db.liveCode env email now = some row ∧ row.attempts < maxVerificationAttempts ∧
    row.code = code
  fits : ¬ (255 < charCount passwordHash ∨ !storable name)
  untaken : db.users.any (·.email == email) = false
  served : NoneBefore fails 5

/-- The call inserts a user with this address. -/
def Call.Inserts (env : Env) (c : Call) (now : Nat) (fails : Nat → Bool) (db : Db)
    (email : String) : Prop :=
  ∃ payload salt name code, c = .createUser payload salt ∧ payload.Checked env email name code ∧
    Redeemed env now fails db email name code (env.hashPassword salt payload.password)

/-- What a registration call does to the users. -/
inductive Registers (env : Env) (c : Call) (now : Nat) (fails : Nat → Bool)
    (σ σ' : Snap (engine env)) : Prop
  | nothing : Db.users σ'.db = Db.users σ.db → σ.seq ≤ σ'.seq →
      (∀ email, ¬ c.Inserts env now fails σ.db email) → Registers env c now fails σ σ'
  | user {u : UserRow} : c.Inserts env now fails σ.db u.email →
      Db.users σ'.db = Db.users σ.db ++ [u] → u.id = nextval σ.seq → σ'.seq = σ.seq + 1 →
      Registers env c now fails σ σ'

/-- A call that inserts has passed the checks with the values that they leave. -/
theorem Call.Inserts.redeemed (hchecked : payload.Checked env email name code) {email' : String}
    (h : (Call.createUser payload salt).Inserts env now fails σ.db email') :
    Redeemed env now fails σ.db email name code (env.hashPassword salt payload.password) := by
  obtain ⟨_, _, name', code', hc, hchecked', hredeemed⟩ := h
  cases hc
  obtain rfl := Except.ok.inj (hchecked.email.symm.trans hchecked'.email)
  obtain rfl := Except.ok.inj (hchecked.name.symm.trans hchecked'.name)
  obtain rfl := Except.ok.inj (hchecked.code.symm.trans hchecked'.code)
  exact hredeemed

/-- A call inserts one address at most: the payload and the tables determine it. -/
theorem Call.Inserts.unique {db : Db} {email email' : String} (h : c.Inserts env now fails db email)
    (h' : c.Inserts env now fails db email') : email = email' := by
  obtain ⟨_, _, _, _, rfl, hchecked, -⟩ := h
  obtain ⟨_, _, _, _, hc, hchecked', -⟩ := h'
  cases hc
  exact Except.ok.inj (hchecked.email.symm.trans hchecked'.email)

/-- A call that cannot redeem its code leaves the users alone. -/
theorem Registers.refused {σ' : Snap (engine env)} (hchecked : payload.Checked env email name code)
    (husers : Db.users σ'.db = Db.users σ.db) (hseq : σ.seq ≤ σ'.seq)
    (hrefused : ¬ Redeemed env now fails σ.db email name code
      (env.hashPassword salt payload.password)) :
    Registers env (.createUser payload salt) now fails σ σ' :=
  .nothing husers hseq fun _ h => hrefused (h.redeemed hchecked)

/-- Once the codes are equal, the user is inserted unless a constraint of `users` or a
failure is in the way. -/
theorem ends_registerUser (hchecked : payload.Checked env email name code)
    (hrow : ∃ row, Db.liveCode env email now σ.db = some row ∧
      row.attempts < maxVerificationAttempts ∧ row.code = code)
    (hquit : ∀ {m} {σ' : Snap (engine env)}, FirstFailure fails m → m < 5 →
      Db.users σ'.db = Db.users σ.db → σ.seq ≤ σ'.seq →
      Registers env (.createUser payload salt) now fails σ σ') :
    Ends (fun r => Registers env (.createUser payload salt) now fails σ r.1) failed fails now
      (registerUser env name email (env.hashPassword salt payload.password)) 2 (some []) σ := by
  unfold registerUser
  by_cases hunfit : 255 < charCount (env.hashPassword salt payload.password) ∨ !storable name
  · exact .exec_rejected (if_pos hunfit)
      (.refused hchecked rfl (Nat.le_refl _) fun h => h.fits hunfit)
  cases htaken : Db.users σ.db |>.any (·.email == email) with
  | true =>
      have heval : eval env (.insertUser name email (env.hashPassword salt payload.password)) now
          σ.seq σ.db = some (none, []) := (if_neg hunfit).trans (if_pos htaken)
      refine .exec heval (hquit · (by decide) rfl (Nat.le_refl _)) ?_
      refine .rollback_done fun _ => .refused hchecked rfl (Nat.le_succ _) fun h => ?_
      exact Bool.false_ne_true (h.untaken.symm.trans htaken)
  | false =>
      refine .exec ((if_neg hunfit).trans (if_neg (Bool.eq_false_iff.mp htaken)))
        (hquit · (by decide) rfl (Nat.le_refl _)) ?_
      refine .exec (r := ()) rfl (hquit · (by decide) rfl (Nat.le_succ _)) ?_
      refine .commit (hquit · (by decide) rfl (Nat.le_succ _)) (.done fun hn => ?_)
      exact .user ⟨payload, salt, name, code, rfl, hchecked, hrow, hunfit, htaken, hn⟩ rfl rfl rfl

/-- The transaction of `create_user` inserts the user exactly when the checks say so and
no database call of it fails. -/
theorem ends_redeemCode (hchecked : payload.Checked env email name code) :
    Ends (fun r => Registers env (.createUser payload salt) now fails σ r.1) failed fails now
      (redeemCode env name email code (env.hashPassword salt payload.password)) 0 none σ := by
  -- a database call that fails leaves the users as they are
  have hquit : ∀ {m} {σ' : Snap (engine env)}, FirstFailure fails m → m < 5 →
      Db.users σ'.db = Db.users σ.db → σ.seq ≤ σ'.seq →
      Registers env (.createUser payload salt) now fails σ σ' := by
    intro m σ' hm hlt husers hseq
    refine .refused hchecked husers hseq fun h => ?_
    exact absurd hm.1 (by rw [h.served m hlt]; exact Bool.false_ne_true)
  unfold redeemCode
  refine .begin (hquit · (by decide) rfl (Nat.le_refl _)) ?_
  have hread : eval env (.codeForUpdate email) now σ.seq σ.db =
      some (Db.liveCode env email now σ.db, []) := rfl
  refine .exec hread (hquit · (by decide) rfl (Nat.le_refl _)) ?_
  cases hlive : Db.liveCode env email now σ.db with
  | none =>
      refine .done fun _ => .refused hchecked rfl (Nat.le_refl _) fun h => ?_
      obtain ⟨row, hrow, -⟩ := h.row
      cases hlive.symm.trans hrow
  | some row =>
      dsimp only
      -- all attempts are used up: the code is deleted, and no user inserted
      by_cases hout : maxVerificationAttempts ≤ row.attempts
      · rw [if_pos hout]
        refine .exec (r := ()) rfl (hquit · (by decide) rfl (Nat.le_refl _)) ?_
        refine .commit (hquit · (by decide) rfl (Nat.le_refl _)) (.done fun _ => ?_)
        refine .refused hchecked rfl (Nat.le_refl _) fun h => ?_
        obtain ⟨row', hrow', hlt, -⟩ := h.row
        obtain rfl := Option.some.inj (hlive.symm.trans hrow')
        exact Nat.not_lt.mpr hout hlt
      rw [if_neg hout]
      refine .emit ?_
      -- a wrong code is counted
      by_cases hcode : row.code ≠ code
      · rw [if_pos hcode]
        refine .exec (r := ()) rfl (hquit · (by decide) rfl (Nat.le_refl _)) ?_
        refine .commit (hquit · (by decide) rfl (Nat.le_refl _)) (.done fun _ => ?_)
        refine .refused hchecked rfl (Nat.le_refl _) fun h => ?_
        obtain ⟨row', hrow', -, heq⟩ := h.row
        obtain rfl := Option.some.inj (hlive.symm.trans hrow')
        exact hcode heq
      · rw [if_neg hcode]
        exact ends_registerUser hchecked
          ⟨row, hlive, Nat.lt_of_not_le hout, not_not.mp hcode⟩ hquit

/-- A check that fails ends the call before the first database call. -/
theorem ends_createUser :
    Ends (fun r => Registers env (.createUser payload salt) now fails σ r.1) failed fails now
      (createUser env payload salt) 0 none σ := by
  have hrefused : (∀ email name code, ¬ payload.Checked env email name code) →
      Registers env (.createUser payload salt) now fails σ σ := fun hunchecked =>
    .nothing rfl (Nat.le_refl _) fun _ ⟨_, _, _, _, hc, hchecked, _⟩ => by
      cases hc
      exact hunchecked _ _ _ hchecked
  unfold createUser
  -- the checks run in this order, and the first that fails ends the call
  cases hemail : normalizeEmail env payload.email with
  | error status =>
      refine .done fun _ => hrefused fun _ _ _ h => ?_
      cases hemail.symm.trans h.email
  | ok email =>
  cases hname : validateName payload.name with
  | error status =>
      refine .done fun _ => hrefused fun _ _ _ h => ?_
      cases hname.symm.trans h.name
  | ok name =>
  cases hpassword : validateNewPassword env payload.password with
  | error status =>
      refine .done fun _ => hrefused fun _ _ _ h => ?_
      cases hpassword.symm.trans h.password
  | ok _ =>
  cases hcode : validateVerificationCode payload.code with
  | error status =>
      refine .done fun _ => hrefused fun _ _ _ h => ?_
      cases hcode.symm.trans h.code
  | ok code => exact ends_redeemCode ⟨hemail, hname, hpassword, hcode⟩

/-- A call that sends a code leaves the users alone. -/
theorem registers_send {value : String} {draw : Fin 900000} {σ' : Snap (engine env)}
    (husers : Db.users σ'.db = Db.users σ.db) (hseq : σ.seq ≤ σ'.seq) :
    Registers env (.sendVerificationCode value draw) now fails σ σ' :=
  .nothing husers hseq fun _ ⟨_, _, _, _, hc, _⟩ => by cases hc

theorem ends_sendVerificationCode {value : String} {draw : Fin 900000} :
    Ends (fun r => Registers env (.sendVerificationCode value draw) now fails σ r.1) failed fails
      now (sendVerificationCode env value draw) 0 none σ := by
  have hquit : Registers env (.sendVerificationCode value draw) now fails σ σ :=
    registers_send rfl (Nat.le_refl _)
  -- whether or not the row is stored, no user is inserted
  have hstore : ∀ email, Ends (fun r => Registers env (.sendVerificationCode value draw) now fails
      σ r.1) failed fails now (storeCode env email (drawnCode draw)) 3 (some []) σ := fun email =>
    .exec (r := ()) rfl (fun _ => hquit) <| .commit (fun _ => registers_send rfl (Nat.le_refl _)) <|
      .done fun _ => registers_send rfl (Nat.le_refl _)
  unfold sendVerificationCode
  cases normalizeEmail env value with
  | error status => exact .done fun _ => hquit
  | ok email =>
  simp only [orFail]
  split
  · exact .done fun _ => hquit
  refine .begin (fun _ => hquit) (.lock (fun _ => hquit) ?_)
  have hread : eval env (.lastSent email) now σ.seq σ.db =
      some ((Db.codeOf env (env.lower email) σ.db).map (·.createdAt), []) := rfl
  refine .exec hread (fun _ => hquit) ?_
  cases (Db.codeOf env (env.lower email) σ.db).map (·.createdAt) with
  | none => exact hstore email
  | some lastSent =>
      refine .clock ?_
      dsimp only
      split
      · exact .rollback_done fun _ => hquit
      · exact hstore email

/-- **What a registration call that runs alone does to the users**, whatever fails. -/
theorem Call.registers (env : Env) (c : Call) (now : Nat) (fails : Nat → Bool)
    (σ : Snap (engine env)) :
    Registers env c now fails σ ((c.code env).solo failed fails now 0 none σ).1 := by
  cases c with
  | createUser payload salt => exact ends_createUser (noneBefore_zero fails)
  | sendVerificationCode value draw => exact ends_sendVerificationCode (noneBefore_zero fails)

end DevbitBackend.Account
