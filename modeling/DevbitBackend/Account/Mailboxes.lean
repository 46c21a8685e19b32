import DevbitBackend.Account.Passwords
import DevbitBackend.Account.Registrations

/-!
# Account.Mailboxes

One account for a mailbox, over sequences of the calls of `auth_routes`. The lookup of
`login_check` folds the case of an address and `create_user` writes lower-case addresses, but
the column `users.email` is unique as it is spelled. An address that an older release has
stored in another spelling can be registered again, and nothing else goes wrong.
-/

namespace DevbitBackend.Login

open Txn Transition
open Account (UserRow Registers)

variable {env : Env}

/-! ### Tables -/

/-- No two users have the same `LOWER(email)`. -/
def OneEach (env : Env) (db : Db) : Prop :=
  db.registration.users.Pairwise fun u v => env.lower u.email ≠ env.lower v.email

/-- The primary key of `users` and its sequence. -/
structure IdsOk (σ : State env) : Prop where
  nodup : ((Db.registration σ.db).users.map (·.id)).Nodup
  drawn : ∀ u ∈ (Db.registration σ.db).users, u.id ≤ σ.seq

/-- The accounts that are found are found later, and match what they matched. -/
def Remembers (env : Env) (P : String → Prop) (db db' : Db) : Prop :=
  ∀ email row, db.account env email = some row → ∃ password,
    db'.account env email = some { row with password := password } ∧
      ∀ p, P p → Auth.verifyPassword env.crypto p row.password = true →
        Auth.verifyPassword env.crypto p password = true

section Tables

variable {P : String → Prop} {db db' db'' : Db} {u : UserRow} {email : String}

theorem Remembers.refl (env : Env) (P : String → Prop) (db : Db) : Remembers env P db db :=
  fun _ row hrow => ⟨row.password, hrow, fun _ _ h => h⟩

theorem Remembers.trans (h : Remembers env P db db') (h' : Remembers env P db' db'') :
    Remembers env P db db'' := by
  intro email row hrow
  obtain ⟨password, hrow', hverify⟩ := h email row hrow
  obtain ⟨password', hrow'', hverify'⟩ := h' email _ hrow'
  exact ⟨password', hrow'', fun p hp hmatch => hverify' p hp (hverify p hp hmatch)⟩

/-- The lookup finds one account at most. -/
theorem OneEach.length_accounts (h : OneEach env db) (email : String) :
    (db.accounts env email).length ≤ 1 := by
  have hpairwise : (db.accounts env email).Pairwise
      fun u v => env.lower u.email ≠ env.lower v.email := h.filter _
  have hfound : ∀ u ∈ db.accounts env email, env.lower u.email = env.lower email :=
    fun u hu => by simpa using (List.mem_filter.mp hu).2
  match hrows : db.accounts env email with
  | [] => exact Nat.zero_le 1
  | [_] => exact Nat.le_refl 1
  | u :: v :: rest =>
      rw [hrows] at hpairwise hfound
      refine absurd ?_ (List.rel_of_pairwise_cons hpairwise List.mem_cons_self)
      rw [hfound u List.mem_cons_self, hfound v (List.mem_cons_of_mem u List.mem_cons_self)]

/-- With a new row the mailboxes stay apart unless it is of one that is there. -/
theorem oneEach_append (h : OneEach env db)
    (husers : db'.registration.users = db.registration.users ++ [u]) :
    OneEach env db' ↔
      ¬ ∃ v ∈ db.registration.users, env.lower v.email = env.lower u.email := by
  unfold OneEach at h ⊢
  rw [husers, List.pairwise_append, and_iff_right h, and_iff_right (List.pairwise_singleton _ _)]
  simp only [List.mem_singleton, forall_eq, not_exists, not_and, ne_eq]

theorem account_eq (husers : db'.registration.users = db.registration.users)
    (havatar : db'.avatarUrl = db.avatarUrl) : db'.account env email = db.account env email := by
  unfold Db.account Db.accounts Db.loginRow
  rw [husers, havatar]

theorem remembers_append (husers : db'.registration.users = db.registration.users ++ [u])
    (havatar : db'.avatarUrl = db.avatarUrl) : Remembers env P db db' := by
  intro email row hrow
  refine ⟨row.password, ?_, fun _ _ h => h⟩
  unfold Db.account Db.accounts Db.loginRow at hrow ⊢
  rw [husers, havatar, List.filter_append]
  cases hfound : db.registration.users.filter fun u => env.lower u.email == env.lower email with
  | nil =>
      rw [hfound] at hrow
      cases hrow
  | cons v rest =>
      rw [hfound] at hrow
      exact hrow

/-! ### The upgrade of a password -/

@[simp] theorem withPassword_email (password : String) (id : Int) (u : UserRow) :
    (withPassword password id u).email = u.email := by
  unfold withPassword
  split
  · rfl
  · rfl

@[simp] theorem withPassword_id (password : String) (id : Int) (u : UserRow) :
    (withPassword password id u).id = u.id := by
  unfold withPassword
  split
  · rfl
  · rfl

theorem oneEach_setPassword (password : String) (id : Int) :
    OneEach env (Write.apply env (.setPassword password id) db) ↔ OneEach env db := by
  unfold OneEach
  simp only [Write.apply, List.pairwise_map, withPassword_email]

/-- The rows of an address, after the upgrade. -/
theorem accounts_setPassword (password : String) (id : Int) :
    Db.accounts env email (Write.apply env (.setPassword password id) db) =
      (db.accounts env email).map (withPassword password id) := by
  simp only [Db.accounts, Write.apply, List.filter_map]
  congr 2
  funext u
  simp

/-- An account whose password matches is given another hash of it. -/
theorem remembers_setPassword (hP : Auth.Alike env.crypto P) (hcrypto : env.crypto.Lawful)
    (hids : (db.registration.users.map (·.id)).Nodup) {row : LoginRow} {q : String} (hq : P q)
    (hrow : db.account env email = some row)
    (hverify : Auth.verifyPassword env.crypto q row.password = true) (salt : Nat) :
    Remembers env P db
      (Write.apply env (.setPassword (env.hashPassword salt q) row.id) db) := by
  obtain ⟨u, hu, rfl⟩ := Option.map_eq_some_iff.mp hrow
  have hmem : u ∈ db.registration.users := (List.mem_filter.mp (List.mem_of_head? hu)).1
  intro email' row' hrow'
  obtain ⟨u', hu', rfl⟩ := Option.map_eq_some_iff.mp hrow'
  have hmem' : u' ∈ db.registration.users := (List.mem_filter.mp (List.mem_of_head? hu')).1
  refine ⟨(withPassword (env.hashPassword salt q) u.id u').password, ?_, fun p hp hmatch => ?_⟩
  · unfold Db.account
    rw [accounts_setPassword, List.head?_map, hu']
    simp only [Option.map_some, Db.loginRow, withPassword]
    split
    · rfl
    · rfl
  · unfold withPassword
    split
    · rename_i hid
      -- the ids are keys, so this is the account that has logged in
      obtain rfl : u' = u := List.inj_on_of_nodup_map hids hmem' hmem hid
      dsimp only
      rw [env.hashPassword_eq]
      exact hP.verify_upgraded hcrypto hq hp hverify hmatch _
    · exact hmatch

end Tables

/-! ### One call of a sequence -/

/-- A call that runs alone at `now`; `fails` says which of its database calls fail. -/
structure Visit where
  call : Call
  now : Nat
  fails : Nat → Bool

/-- The state after the call. -/
def Visit.after (env : Env) (v : Visit) (σ : State env) : State env :=
  ((v.call.code env).solo v.call.failed v.fails v.now 0 none σ).1

/-- The call registers an address that is stored, in another spelling. -/
def Visit.Respells (env : Env) (v : Visit) (σ : State env) : Prop :=
  ∃ c email, v.call = .registration c ∧
    c.Inserts env.toEnv v.now v.fails (Db.registration σ.db) email ∧
    ∃ u ∈ (Db.registration σ.db).users, env.lower u.email = env.lower email

/-- What a call does to the tables: it inserts one user, or replaces one stored password,
or leaves the users as they are. -/
inductive Visit.Effect (env : Env) (v : Visit) (σ σ' : State env) : Prop
  | registration {c} : v.call = .registration c →
      Registers env.toEnv c v.now v.fails ((registrationPart env).snap σ)
        ((registrationPart env).snap σ') →
      Db.avatarUrl σ'.db = Db.avatarUrl σ.db → Effect env v σ σ'
  | nothing {payload salt} : v.call = .loginCheck payload salt → σ' = σ → Effect env v σ σ'
  | upgraded {payload salt email row} : v.call = .loginCheck payload salt →
      Db.account env email σ.db = some row →
      Auth.verifyPassword env.crypto payload.password row.password = true →
      σ' = σ.write [.setPassword (env.hashPassword salt payload.password) row.id] →
      Effect env v σ σ'

theorem Visit.effect (hcrypto : env.crypto.Lawful) (v : Visit) (σ : State env) :
    v.Effect env σ (v.after env σ) := by
  obtain ⟨call, now, fails⟩ := v
  cases call with
  | registration c =>
      have hafter : Visit.after env ⟨.registration c, now, fails⟩ σ =
          (registrationPart env).replace σ ((c.code env.toEnv).solo Account.failed fails now 0 none
            ((registrationPart env).snap σ)).1 :=
        congrArg Prod.fst (solo_embed (c.code env.toEnv) 0 σ)
      rw [hafter]
      exact .registration rfl (c.registers env.toEnv now fails _) rfl
  | loginCheck payload salt =>
      -- arguments that are refused never get to the database
      by_cases hadmits : ∃ email, payload.Admits env email
      · obtain ⟨email, hadmits⟩ := hadmits
        have hends : Ends (fun r => Visit.Effect env ⟨.loginCheck payload salt, now, fails⟩ σ r.1)
            failed fails now (loginCheck env payload salt) 0 none σ := by
          refine ends_loginCheck hcrypto hadmits (fun _ _ => .nothing rfl rfl)
            (fun _ => .nothing rfl rfl) (fun _ _ _ => .nothing rfl rfl)
            fun row hrow hverify ws hws => ?_
          rcases hws with rfl | rfl
          · exact .nothing rfl rfl
          · exact .upgraded rfl hrow hverify rfl
        exact hends (noneBefore_zero _)
      · obtain ⟨status, hrefused⟩ := loginCheck_of_not_admits hadmits
        refine .nothing rfl ?_
        simp only [Visit.after, Call.code, hrefused, Prog.solo]

section Effect

variable {v : Visit} {σ σ' : State env} {P : String → Prop}

theorem IdsOk.after (h : IdsOk σ) (heffect : v.Effect env σ σ') : IdsOk σ' := by
  cases heffect with
  | registration _ hregisters _ =>
      cases hregisters with
      | nothing husers hseq _ =>
          have husers : (Db.registration σ'.db).users = (Db.registration σ.db).users := husers
          exact ⟨husers ▸ h.nodup, fun u hu => Int.le_trans (h.drawn u (husers ▸ hu))
            (Int.ofNat_le.mpr hseq)⟩
      | @user u _ husers hid hseq =>
          have husers : (Db.registration σ'.db).users = (Db.registration σ.db).users ++ [u] :=
            husers
          have hseq : σ'.seq = σ.seq + 1 := hseq
          have hid : u.id = (σ.seq : Int) + 1 := hid
          constructor
          -- the new id is above all that were drawn
          · rw [husers, List.map_append, List.nodup_append]
            refine ⟨h.nodup, List.nodup_singleton _, fun id hmem id' hid' heq => ?_⟩
            obtain ⟨w, hw, rfl⟩ := List.mem_map.mp hmem
            have hdrawn := h.drawn w hw
            rw [List.map_singleton, List.mem_singleton] at hid'
            omega
          · rw [husers]
            intro w hw
            rcases List.mem_append.mp hw with hold | hnew
            · have hdrawn := h.drawn w hold
              omega
            · rw [List.mem_singleton.mp hnew]
              omega
  | nothing _ hsame => rwa [hsame]
  | upgraded _ _ _ hwrite =>
      rw [hwrite]
      constructor
      · change (((Db.registration σ.db).users.map (withPassword _ _)).map (·.id)).Nodup
        simpa [Function.comp_def] using h.nodup
      · intro w hw
        obtain ⟨w', hw', rfl⟩ := List.mem_map.mp hw
        rw [withPassword_id]
        exact h.drawn w' hw'

/-- **Only a call that registers an address again, in another spelling, breaks it.** -/
theorem OneEach.after_iff (h : OneEach env σ.db) (heffect : v.Effect env σ σ') :
    OneEach env σ'.db ↔ ¬ v.Respells env σ := by
  have hlogin : ∀ {payload salt}, v.call = .loginCheck payload salt → ¬ v.Respells env σ :=
    fun hcall ⟨_, _, hc, _⟩ => by cases hcall.symm.trans hc
  cases heffect with
  | @registration c hcall hregisters _ =>
      have hcalls : ∀ {c'}, v.call = .registration c' → c' = c := fun hc => by
        cases hcall.symm.trans hc
        rfl
      cases hregisters with
      | nothing husers _ hnone =>
          have husers : (Db.registration σ'.db).users = (Db.registration σ.db).users := husers
          refine iff_of_true ?_ fun ⟨c', email, hc, hinserts, _⟩ => ?_
          · rw [OneEach, husers]
            exact h
          · rw [hcalls hc] at hinserts
            exact hnone email hinserts
      | @user u hinserts husers _ _ =>
          -- a new user breaks it exactly when its address is stored in another spelling
          refine (oneEach_append h husers).trans (not_congr ⟨fun hstored => ?_, ?_⟩)
          · exact ⟨c, u.email, hcall, hinserts, hstored⟩
          · rintro ⟨c', email, hc, hinserts', hstored⟩
            rw [hcalls hc] at hinserts'
            rwa [hinserts.unique hinserts']
  | nothing hcall hsame =>
      rw [hsame]
      exact iff_of_true h (hlogin hcall)
  | upgraded hcall _ _ hwrite =>
      rw [hwrite]
      exact iff_of_true ((oneEach_setPassword _ _).mpr h) (hlogin hcall)

/-- Nobody is locked out: after the call each account still lets its password in. -/
theorem Remembers.after (hP : Auth.Alike env.crypto P) (hcrypto : env.crypto.Lawful)
    (hids : IdsOk σ) (hpassword : ∀ payload salt, v.call = .loginCheck payload salt →
      P payload.password) (heffect : v.Effect env σ σ') : Remembers env P σ.db σ'.db := by
  cases heffect with
  | registration _ hregisters havatar =>
      cases hregisters with
      | nothing husers _ _ =>
          intro email row hrow
          exact ⟨row.password, (account_eq husers havatar).trans hrow, fun _ _ h => h⟩
      | user _ husers _ _ => exact remembers_append husers havatar
  | nothing _ hsame =>
      rw [hsame]
      exact .refl env P σ.db
  | upgraded hcall hrow hverify hwrite =>
      rw [hwrite]
      exact remembers_setPassword hP hcrypto hids.nodup (hpassword _ _ hcall) hrow hverify _

end Effect

/-! ### Sequences -/

/-- The state after the calls of a sequence. -/
def visited (env : Env) (visits : List Visit) (σ : State env) : State env :=
  runAll (Visit.after env) visits σ

theorem visited_singleton (v : Visit) (σ : State env) : visited env [v] σ = v.after env σ := rfl

section Sequences

variable {P : String → Prop} {σ : State env} {visits : List Visit}

/-- The passwords of the logins. -/
def PasswordsOf (P : String → Prop) (visits : List Visit) : Prop :=
  ∀ v ∈ visits, ∀ payload salt, v.call = .loginCheck payload salt → P payload.password

theorem idsOk_visited (hcrypto : env.crypto.Lawful) (hids : IdsOk σ) :
    IdsOk (visited env visits σ) :=
  runAll_invariant (J := IdsOk) (fun v _ σ h => h.after (v.effect hcrypto σ)) hids

theorem remembers_visited (hP : Auth.Alike env.crypto P) (hcrypto : env.crypto.Lawful)
    (hids : IdsOk σ) (hpasswords : PasswordsOf P visits) :
    Remembers env P σ.db (visited env visits σ).db := by
  refine (runAll_invariant (J := fun σ' => IdsOk σ' ∧ Remembers env P σ.db σ'.db)
    (fun v hv σ' h => ?_) ⟨hids, .refl env P σ.db⟩).2
  have heffect := v.effect hcrypto σ'
  exact ⟨h.1.after heffect, h.2.trans (.after hP hcrypto h.1 (hpasswords v hv) heffect)⟩

/-- Who logs in is found and has the right password. -/
theorem exists_of_loggedIn (hcrypto : env.crypto.Lawful) {now salt : Nat} {request : LoginRequest}
    {setCookie token : String} {user : Account.User}
    (h : answer env σ now request salt = .loggedIn setCookie token user) :
    ∃ email row, request.Admits env email ∧ Db.account env email σ.db = some row ∧
      Auth.verifyPassword env.crypto request.password row.password = true ∧
      issued env now row = .loggedIn setCookie token user := by
  by_cases hadmits : ∃ email, request.Admits env email
  · obtain ⟨email, hadmits⟩ := hadmits
    rw [answer_of_admits hcrypto hadmits] at h
    cases hrow : Db.account env email σ.db with
    | none =>
        rw [hrow] at h
        cases h
    | some row =>
        rw [hrow, verdict] at h
        split at h
        · rename_i hverify
          exact ⟨email, row, hadmits, hrow, hverify, h⟩
        · cases h
  · obtain ⟨status, hrefused⟩ := loginCheck_of_not_admits hadmits
    rw [answer, hrefused] at h
    cases h

/-- Who could log in before still can. -/
theorem Remembers.loggedIn {σ' : State env} (h : Remembers env P σ.db σ'.db)
    (hcrypto : env.crypto.Lawful) {now salt : Nat} (salt' : Nat) {request : LoginRequest}
    (hpassword : P request.password) {setCookie token : String} {user : Account.User}
    (hanswer : answer env σ now request salt = .loggedIn setCookie token user) :
    answer env σ' now request salt' = .loggedIn setCookie token user := by
  obtain ⟨email, row, hadmits, hrow, hverify, hissued⟩ := exists_of_loggedIn hcrypto hanswer
  obtain ⟨password, hrow', hmatch⟩ := h email row hrow
  rw [answer_of_admits hcrypto hadmits, hrow', verdict]
  dsimp only
  rw [if_pos (hmatch request.password hpassword hverify)]
  exact hissued

end Sequences

/-- **One account for a mailbox.** From tables in which no two users have the same
`LOWER(email)`, a sequence of calls stays in such tables, with lookups that find one account
at most and logins that go on succeeding, exactly when no call of it registers an address
that is stored in another spelling. -/
theorem one_account_iff (env : Env) (hcrypto : env.crypto.Lawful) {P : String → Prop}
    (hP : Auth.Alike env.crypto P) {σ : State env} (hone : OneEach env σ.db) (hids : IdsOk σ)
    (visits : List Visit) (hpasswords : PasswordsOf P visits) :
    (∀ earlier since later, visits = earlier ++ since ++ later →
      OneEach env (visited env (earlier ++ since) σ).db ∧
      (∀ email, (Db.accounts env email (visited env (earlier ++ since) σ).db).length ≤ 1) ∧
      ∀ (request : LoginRequest) (now salt salt' : Nat) setCookie token user, P request.password →
        answer env (visited env earlier σ) now request salt = .loggedIn setCookie token user →
        answer env (visited env (earlier ++ since) σ) now request salt' =
          .loggedIn setCookie token user) ↔
    ∀ before v after, visits = before ++ v :: after → ¬ v.Respells env (visited env before σ) := by
  have hprefix : (∀ before after, visits = before ++ after →
      OneEach env (visited env before σ).db) ↔
      ∀ before v after, visits = before ++ v :: after →
        ¬ v.Respells env (visited env before σ) :=
    forall_prefix_iff (J := IdsOk) (I := fun σ => OneEach env σ.db)
      (fun v _ σ h => h.after (v.effect hcrypto σ))
      (fun v _ σ _ h => h.after_iff (v.effect hcrypto σ)) hids hone
  -- the lookups and the logins follow from tables with one account for a mailbox
  refine Iff.trans ?_ hprefix
  constructor
  · intro h before after hvisits
    have hbefore := (h before [] after (by rwa [List.append_nil])).1
    rwa [List.append_nil] at hbefore
  · intro h earlier since later hvisits
    have hone' : OneEach env (visited env (earlier ++ since) σ).db := h _ later hvisits
    refine ⟨hone', hone'.length_accounts, ?_⟩
    intro request now salt salt' setCookie token user hpassword hanswer
    have hsince : PasswordsOf P since := fun v hv =>
      hpasswords v (hvisits ▸ List.mem_append_left _ (List.mem_append_right _ hv))
    rw [visited, runAll_append]
    exact (remembers_visited hP hcrypto (idsOk_visited hcrypto hids) hsince).loggedIn hcrypto
      salt' hpassword hanswer

/-! ### An address of an older release -/

theorem alike_shortEnv (P : String → Prop) : Auth.Alike shortEnv.crypto P := by
  intro p q _ _ salt iterations hsame salt' iterations'
  rw [pbkdf2_shortEnv, pbkdf2_shortEnv] at hsame ⊢
  exact hsame

/-- Ann is stored in mixed case, and two codes have been sent. -/
def mixedCase : State shortEnv where
  seq := 1
  db := {
    registration := {
      users := [⟨1, "ann", "Ann@x", "Tulip-2024", false⟩]
      codes := [⟨"bob@x", "123456", 600, 0, 0, 0⟩, ⟨"ann@x", "654321", 600, 0, 0, 1⟩]
      stored := 2 }
    avatarUrl := fun _ => none }

def registration (name email code : String) : Visit where
  call := .registration (.createUser ⟨name, email, code, "Tulip-2024"⟩ 5)
  now := 1
  fails := noFailure

def annVisit : Visit where
  call := .loginCheck (annLogin "Tulip-2024") 5
  now := 2
  fails := noFailure

theorem oneEach_mixedCase : OneEach shortEnv mixedCase.db := List.pairwise_singleton _ _

theorem idsOk_mixedCase : IdsOk mixedCase :=
  ⟨List.nodup_singleton _, fun u hu => by
    rw [List.mem_singleton.mp hu]
    exact Int.le_refl 1⟩

/-- Bob registers, and Ann logs in with the address in lower case, again and again. -/
theorem one_account_kept :
    OneEach shortEnv
      (visited shortEnv [registration "bob" "bob@x" "123456", annVisit] mixedCase).db ∧
    answer shortEnv (visited shortEnv [registration "bob" "bob@x" "123456", annVisit] mixedCase) 7
      (annLogin "Tulip-2024") 9 = issued shortEnv 7 ⟨"Tulip-2024", 1, "ann", "Ann@x", none⟩ := by
  have hnone : ∀ before v after, [registration "bob" "bob@x" "123456", annVisit] =
      before ++ v :: after → ¬ v.Respells shortEnv (visited shortEnv before mixedCase) := by
    rintro (_ | ⟨v₁, _ | ⟨v₂, before⟩⟩) v after hvisits ⟨c, email, hcall, hinserts, u, hu, hlower⟩
    · obtain ⟨rfl, -⟩ := List.cons.inj hvisits
      obtain ⟨payload, salt, name, code, rfl, hchecked, -⟩ := hinserts
      cases hcall
      have hemail : Account.normalizeEmail shortEnv.toEnv "bob@x" = .ok "bob@x" := by decide
      obtain rfl := Except.ok.inj (hemail.symm.trans hchecked.email)
      rw [List.mem_singleton.mp hu] at hlower
      exact absurd hlower (by decide)
    · obtain ⟨-, htail⟩ := List.cons.inj hvisits
      obtain ⟨rfl, -⟩ := List.cons.inj htail
      cases hcall
    · obtain ⟨-, htail⟩ := List.cons.inj hvisits
      obtain ⟨-, hnil⟩ := List.cons.inj htail
      cases before <;> cases hnil
  have hkept := (one_account_iff shortEnv shortEnv_lawful (alike_shortEnv fun _ => True)
    oneEach_mixedCase idsOk_mixedCase [registration "bob" "bob@x" "123456", annVisit]
    (fun _ _ _ _ _ => trivial)).mpr hnone [] _ [] (List.append_nil _).symm
  have hstart : answer shortEnv mixedCase 7 (annLogin "Tulip-2024") 9 =
      issued shortEnv 7 ⟨"Tulip-2024", 1, "ann", "Ann@x", none⟩ := by
    rw [answer_of_admits shortEnv_lawful (annLogin_admits _ (by decide))]
    decide
  exact ⟨hkept.1, hkept.2.2 _ 7 9 9 _ _ _ trivial hstart⟩

theorem inserts_ann : (Account.Call.createUser ⟨"ann", "ann@x", "654321", "Tulip-2024"⟩ 5).Inserts
    shortEnv.toEnv 1 noFailure (Db.registration mixedCase.db) "ann@x" := by
  refine ⟨_, 5, "ann", "654321", rfl, ⟨by decide, by decide, by decide, by decide⟩,
    ⟨⟨⟨"ann@x", "654321", 600, 0, 0, 1⟩, by decide, by decide, rfl⟩, ?_, by decide,
      fun _ _ => rfl⟩⟩
  refine not_or.mpr ⟨?_, by decide⟩
  rw [shortEnv.hashPassword_eq]
  exact Nat.not_lt.mpr (Auth.hashPassword_fits shortEnv_lawful _ _)

/-- Her new row, after the calls that are known by what they do. -/
theorem users_ann {v : Visit} {σ' : State shortEnv} (heffect : v.Effect shortEnv mixedCase σ')
    (hv : v = registration "ann" "ann@x" "654321") :
    ∃ u : UserRow, u.email = "ann@x" ∧
      (Db.registration σ'.db).users = (Db.registration mixedCase.db).users ++ [u] := by
  subst hv
  cases heffect with
  | registration hcall hregisters _ =>
      cases hcall
      cases hregisters with
      | nothing _ _ hnone => exact absurd inserts_ann (hnone "ann@x")
      | @user u hinserts husers _ _ => exact ⟨u, hinserts.unique inserts_ann, husers⟩
  | nothing hcall _ => cases hcall
  | upgraded hcall _ _ _ => cases hcall

/-- Two users have her mailbox then. -/
theorem twice_of_users {db : Db} {u : UserRow} (hemail : u.email = "ann@x")
    (husers : db.registration.users = (Db.registration mixedCase.db).users ++ [u]) :
    ¬ OneEach shortEnv db ∧ (Db.accounts shortEnv "ann@x" db).length = 2 := by
  constructor
  · rw [oneEach_append oneEach_mixedCase husers, not_not, hemail]
    exact ⟨_, List.mem_singleton_self _, by decide⟩
  · unfold Db.accounts
    rw [husers, List.filter_append, List.length_append]
    have hold : ((Db.registration mixedCase.db).users.filter fun u =>
        shortEnv.lower u.email == shortEnv.lower "ann@x").length = 1 := by decide
    have hnew : ([u].filter fun u => shortEnv.lower u.email == shortEnv.lower "ann@x").length =
        1 := by
      rw [List.filter_singleton, hemail]
      rfl
    rw [hold, hnew]

/-- **The column is unique as it is spelled**: `ann@x` is registered next to `Ann@x`. -/
theorem registered_twice : OneEach shortEnv mixedCase.db ∧ IdsOk mixedCase ∧
    ¬ OneEach shortEnv (visited shortEnv [registration "ann" "ann@x" "654321"] mixedCase).db ∧
    (Db.accounts shortEnv "ann@x"
      (visited shortEnv [registration "ann" "ann@x" "654321"] mixedCase).db).length = 2 := by
  refine ⟨oneEach_mixedCase, idsOk_mixedCase, ?_⟩
  rw [visited_singleton]
  obtain ⟨u, hemail, husers⟩ :=
    users_ann ((registration "ann" "ann@x" "654321").effect shortEnv_lawful mixedCase) rfl
  exact twice_of_users hemail husers

end DevbitBackend.Login
