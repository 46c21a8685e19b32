import DevbitBackend.Account.Login
import DevbitBackend.Lib.TxnSolo

/-!
# Account.Passwords

The passwords of the accounts over whole runs of logins. Any number of calls read a stored
password, check it and replace it, in any order, so a call may write over what another has
written since. What is stored is always the initial text or the hash of a password that the
initial text matches (`Upgrades`), so every check has the outcome it had at the start.
-/

namespace DevbitBackend.Login

open Txn Transition
open Account (UserRow)

variable {env : Env}

abbrev State (env : Env) := Snap (engine env)

/-- The answer of a login that runs alone at time `now`. -/
def answer (env : Env) (σ : State env) (now : Nat) (payload : LoginRequest) (salt : Nat) :
    Response :=
  ((loginCheck env payload salt).solo failed noFailure now 0 none σ).2

/-- The checks that come before the lookup. -/
structure LoginRequest.Admits (env : Env) (payload : LoginRequest) (email : String) : Prop where
  password : ¬ (payload.password = "" ∨ Account.maxPasswordBytes < payload.password.utf8ByteSize)
  email : Account.normalizeEmail env.toEnv payload.email = .ok email

/-! ### One login alone -/

section Alone

variable {σ : State env} {payload : LoginRequest} {email : String} {now salt n : Nat}
  {fails : Nat → Bool} {Q : State env × Response → Prop}

/-- The hash of a password can be stored. -/
theorem eval_setPassword (hcrypto : env.crypto.Lawful) (salt : Nat) (password : String) (id : Int)
    (now seq : Nat) (db : Db) :
    eval env (.setPassword (env.hashPassword salt password) id) now seq db =
      some ((), [.setPassword (env.hashPassword salt password) id]) := by
  refine if_neg (not_or.mpr ⟨?_, ?_⟩)
  · rw [env.hashPassword_eq]
    exact Nat.not_lt.mpr (Auth.hashPassword_fits hcrypto _ _)
  · rw [env.hashPassword_eq, Auth.storable_hashPassword hcrypto]
    exact Bool.false_ne_true

/-- Where a login ends: at a failure, with 401, or with a token and perhaps a new hash. -/
theorem ends_loginCheck (hcrypto : env.crypto.Lawful) (h : payload.Admits env email)
    (hfail : ∀ n, FirstFailure fails n → Q (σ, failed))
    (hnone : Db.account env email σ.db = none → Q (σ, .error 401))
    (hwrong : ∀ row, Db.account env email σ.db = some row →
      Auth.verifyPassword env.crypto payload.password row.password = false → Q (σ, .error 401))
    (hright : ∀ row, Db.account env email σ.db = some row →
      Auth.verifyPassword env.crypto payload.password row.password = true →
      ∀ ws, ws = [] ∨ ws = [.setPassword (env.hashPassword salt payload.password) row.id] →
        Q (σ.write ws, issued env now row)) :
    Ends Q failed fails now (loginCheck env payload salt) 0 none σ := by
  unfold loginCheck
  rw [if_neg h.password, h.email]
  refine .query_read (Db.account env email) (fun _ _ _ => rfl) rfl (hfail 0) ?_
  cases hrow : Db.account env email σ.db with
  | none => exact .done fun _ => hnone hrow
  | some row =>
      dsimp only
      unfold checkPassword
      cases hverify : Auth.verifyPassword env.crypto payload.password row.password with
      | false => exact .done fun _ => hwrong row hrow hverify
      | true =>
          cases Auth.passwordNeedsUpgrade row.password with
          | false => exact .clock (.done fun _ => hright row hrow hverify [] (.inl rfl))
          | true =>
              refine .query (eval_setPassword hcrypto salt payload.password row.id now σ.seq σ.db)
                (hfail 1) ?_
              exact .clock (.done fun _ => hright row hrow hverify _ (.inr rfl))

/-- What `login_check` answers at `now` when it finds this account. -/
def verdict (env : Env) (now : Nat) (password : String) : Option LoginRow → Response
  | none => .error 401
  | some row =>
      if Auth.verifyPassword env.crypto password row.password then issued env now row
      else .error 401

/-- **The answer of a login alone**, whose database calls go through: a token if the
password verifies, and 401 otherwise. -/
theorem answer_of_admits (hcrypto : env.crypto.Lawful) (h : payload.Admits env email) :
    answer env σ now payload salt =
      verdict env now payload.password (Db.account env email σ.db) := by
  have hends : Ends (fun r => r.2 = verdict env now payload.password (Db.account env email σ.db))
      failed noFailure now (loginCheck env payload salt) 0 none σ := by
    refine ends_loginCheck hcrypto h (fun n hn => not_firstFailure hn) (fun hrow => ?_)
      (fun row hrow hverify => ?_) (fun row hrow hverify ws _ => ?_)
    · rw [hrow]
      rfl
    · rw [hrow]
      exact (if_neg (by rw [hverify]; exact Bool.false_ne_true)).symm
    · rw [hrow]
      exact (if_pos hverify).symm
  exact hends (noneBefore_zero _)

/-- A request that fails a check is refused before the lookup. -/
theorem loginCheck_of_not_admits (h : ¬ ∃ email, payload.Admits env email) :
    ∃ status, ∀ salt, loginCheck env payload salt = .done (.error status) := by
  by_cases hpassword : payload.password = "" ∨
      Account.maxPasswordBytes < payload.password.utf8ByteSize
  · exact ⟨400, fun salt => if_pos hpassword⟩
  cases hemail : Account.normalizeEmail env.toEnv payload.email with
  | error status =>
      refine ⟨status, fun salt => ?_⟩
      rw [loginCheck, if_neg hpassword, hemail]
  | ok email => exact absurd ⟨email, hpassword, hemail⟩ h

end Alone

/-! ### What logins leave behind -/

/-- The row is the initial one, or the initial one with the hash of a password that matched. -/
structure Upgraded (env : Env) (P : String → Prop) (u₀ u : UserRow) : Prop where
  row : u = { u₀ with password := u.password }
  password : u.password = u₀.password ∨
    ∃ p salt, P p ∧ Auth.verifyPassword env.crypto p u₀.password = true ∧
      u.password = env.hashPassword salt p

/-- All the rows are. -/
structure Upgrades (env : Env) (P : String → Prop) (db₀ db : Db) : Prop where
  users : List.Forall₂ (Upgraded env P) db₀.registration.users db.registration.users
  avatarUrl : db.avatarUrl = db₀.avatarUrl

section Upgrades

variable {P : String → Prop} {db₀ db : Db} {u₀ u : UserRow}

theorem Upgraded.refl (env : Env) (P : String → Prop) (u : UserRow) : Upgraded env P u u :=
  ⟨rfl, .inl rfl⟩

theorem Upgrades.refl (env : Env) (P : String → Prop) (db : Db) : Upgrades env P db db :=
  ⟨List.forall₂_same.mpr fun u _ => .refl env P u, rfl⟩

/-- No check has another outcome after the upgrade, for any password of `P`. -/
theorem Upgraded.verify (h : Upgraded env P u₀ u) (hP : Auth.Apart env.crypto P)
    (hcrypto : env.crypto.Lawful) {q : String} (hq : P q) :
    Auth.verifyPassword env.crypto q u.password = Auth.verifyPassword env.crypto q u₀.password := by
  rcases h.password with hsame | ⟨p, salt, hp, hverify, hhash⟩
  · rw [hsame]
  · rw [hhash, env.hashPassword_eq, Bool.eq_iff_iff]
    exact hP.verify_upgraded hcrypto hp hq hverify _

/-- An account is given the hash of a password that its initial text matches. -/
theorem Upgraded.withPassword (h : Upgraded env P u₀ u) {p : String} (hp : P p) (salt : Nat)
    (id : Int) (hverify : u₀.id = id → Auth.verifyPassword env.crypto p u₀.password = true) :
    Upgraded env P u₀ (withPassword (env.hashPassword salt p) id u) := by
  have hid : u.id = u₀.id := by rw [h.row]
  unfold Login.withPassword
  split
  · rename_i heq
    refine ⟨?_, .inr ⟨p, salt, hp, hverify (hid.symm.trans heq), rfl⟩⟩
    rw [h.row]
  · exact h

theorem Upgrades.setPassword (h : Upgrades env P db₀ db) {p : String} (hp : P p) (salt : Nat)
    (id : Int) (hverify : ∀ u₀ ∈ db₀.registration.users, u₀.id = id →
      Auth.verifyPassword env.crypto p u₀.password = true) :
    Upgrades env P db₀
      (Write.apply env (.setPassword (env.hashPassword salt p) id) db) where
  users := by
    refine List.forall₂_map_right_iff.mpr ?_
    refine ((List.forall₂_and_left _ _).mpr ⟨hverify, h.users⟩).imp fun u₀ u hu => ?_
    exact hu.2.withPassword hp salt id hu.1
  avatarUrl := h.avatarUrl

/-- The same account is found, with what it had and a password that matches the same. -/
theorem Upgrades.account (h : Upgrades env P db₀ db) (email : String) :
    Db.account env email db₀ = none ∧ Db.account env email db = none ∨
      ∃ u₀ u, Upgraded env P u₀ u ∧ u₀ ∈ db₀.registration.users ∧
        Db.account env email db₀ = some (Db.loginRow u₀ db₀) ∧
        Db.account env email db = some (Db.loginRow u db) := by
  have hmem : ∀ u₀ ∈ Db.accounts env email db₀, u₀ ∈ db₀.registration.users :=
    fun u₀ hu₀ => (List.mem_filter.mp hu₀).1
  have hrows : List.Forall₂ (Upgraded env P) (Db.accounts env email db₀)
      (Db.accounts env email db) := by
    refine List.rel_filter (fun u₀ u hu => ?_) h.users
    have hemail : u.email = u₀.email := by rw [hu.row]
    simp only [hemail]
  unfold Db.account
  cases hfound : Db.accounts env email db₀ with
  | nil =>
      rw [hfound, List.forall₂_nil_left_iff] at hrows
      rw [hrows]
      exact .inl ⟨rfl, rfl⟩
  | cons u₀ rest₀ =>
      rw [hfound, List.forall₂_cons_left_iff] at hrows
      obtain ⟨u, rest, hu, -, hrest⟩ := hrows
      rw [hrest]
      exact .inr ⟨u₀, u, hu, hmem u₀ (hfound ▸ List.mem_cons_self), rfl, rfl⟩

theorem issued_upgraded (h : Upgraded env P u₀ u) (havatar : db.avatarUrl = db₀.avatarUrl)
    (now : Nat) : issued env now (Db.loginRow u db) = issued env now (Db.loginRow u₀ db₀) := by
  rw [h.row]
  simp only [issued, Db.loginRow, havatar]

theorem Upgrades.verdict (h : Upgrades env P db₀ db) (hP : Auth.Apart env.crypto P)
    (hcrypto : env.crypto.Lawful) {password : String} (hpassword : P password) (now : Nat)
    (email : String) :
    verdict env now password (Db.account env email db) =
      verdict env now password (Db.account env email db₀) := by
  rcases h.account email with ⟨hnone₀, hnone⟩ | ⟨u₀, u, hu, -, hrow₀, hrow⟩
  · rw [hnone₀, hnone]
  · rw [hrow₀, hrow]
    simp only [Login.verdict]
    rw [issued_upgraded hu h.avatarUrl,
      show (Db.loginRow u db).password = u.password from rfl, hu.verify hP hcrypto hpassword]
    rfl

end Upgrades

/-! ### Logins keep it -/

/-- **What the logins may rely on.** -/
def upgrading (env : Env) (P : String → Prop) (db₀ : Db) : Discipline (engine env) where
  Inv σ := Upgrades env P db₀ σ.db
  Base _ _ := True
  Keeps _ _ _ := True
  base_refl _ := trivial
  base_trans _ _ := trivial
  keeps_refl _ _ := trivial
  keeps_trans _ _ := trivial
  inv_bump h := h
  base_bump _ _ := trivial
  keeps_bump _ _ _ := trivial

/-- The write is the upgrade of an account by a password that matched at the start. -/
def Upgrade (env : Env) (P : String → Prop) (db₀ : Db) (ws : List Write) : Prop :=
  ws = [] ∨ ∃ p salt id, P p ∧ ws = [.setPassword (env.hashPassword salt p) id] ∧
    ∀ u₀ ∈ db₀.registration.users, u₀.id = id →
      Auth.verifyPassword env.crypto p u₀.password = true

section Logins

variable {P : String → Prop} {σ₀ : State env}

theorem Upgrade.keeps {db₀ : Db} {σ : State env} {ws : List Write} (h : Upgrade env P db₀ ws)
    (hinv : Upgrades env P db₀ σ.db) : Upgrades env P db₀ (σ.write ws).db := by
  rcases h with rfl | ⟨p, salt, id, hp, rfl, hverify⟩
  · exact hinv
  · exact hinv.setPassword hp salt id hverify

/-- The promise of a login: it upgrades at most, and is answered as at the start. -/
def loginContract (env : Env) (P : String → Prop) (σ₀ : State env) (payload : LoginRequest)
    (salt : Nat) : Contract (upgrading env P σ₀.db) Response where
  known _ := True
  inTx _ _ _ _ _ := False
  commit _ _ _ _ _ := False
  abort _ _ _ _ := False
  auto _ _ _ ws := Upgrade env P σ₀.db ws
  reply _ a := ∃ now, a = answer env σ₀ now payload salt
  known_stable _ _ := trivial
  inTx_stable h _ _ := h
  commit_inv h _ := h.elim
  commit_base h _ := h.elim
  commit_keeps h _ _ := h.elim
  auto_inv h hinv := h.keeps hinv
  auto_base _ _ := trivial
  auto_keeps _ _ _ := trivial

theorem safe_checkPassword (hP : Auth.Apart env.crypto P) (hcrypto : env.crypto.Lawful)
    (hids : (σ₀.db.registration.users.map (·.id)).Nodup) {payload : LoginRequest} {email : String}
    (hadmits : payload.Admits env email) (hpassword : P payload.password) (salt : Nat)
    {σ : State env} {u₀ u : UserRow} (hu : Upgraded env P u₀ u)
    (hmem : u₀ ∈ σ₀.db.registration.users) (havatar : σ.db.avatarUrl = σ₀.db.avatarUrl)
    (hrow₀ : Db.account env email σ₀.db = some (Db.loginRow u₀ σ₀.db)) :
    (loginContract env P σ₀ payload salt).Safe failed
      (checkPassword env (Db.loginRow u σ.db) payload.password salt) (.pool σ false) := by
  have hanswer : ∀ now, answer env σ₀ now payload salt =
      if Auth.verifyPassword env.crypto payload.password u₀.password then
        issued env now (Db.loginRow u₀ σ₀.db) else .error 401 := fun now => by
    rw [answer_of_admits hcrypto hadmits, hrow₀]
    rfl
  have hissue : Auth.verifyPassword env.crypto payload.password u₀.password = true →
      ∀ σ', (loginContract env P σ₀ payload salt).Safe failed
        (issue env (Db.loginRow u σ.db)) (.pool σ' false) := by
    intro hverify σ' now
    refine ⟨now, ?_⟩
    rw [hanswer, if_pos hverify, issued_upgraded hu havatar]
  unfold checkPassword
  rw [show Auth.verifyPassword env.crypto payload.password (Db.loginRow u σ.db).password =
    Auth.verifyPassword env.crypto payload.password u₀.password from
      hu.verify hP hcrypto hpassword]
  cases hverify : Auth.verifyPassword env.crypto payload.password u₀.password with
  | false =>
      refine ⟨0, ?_⟩
      rw [hanswer, hverify]
      rfl
  | true =>
      cases Auth.passwordNeedsUpgrade (Db.loginRow u σ.db).password with
      | false => exact hissue hverify σ
      | true =>
          intro σ' now _ _ _
          rw [show (engine env).eval (.setPassword (env.hashPassword salt payload.password)
            (Db.loginRow u σ.db).id) now σ'.seq σ'.db = _ from
              eval_setPassword hcrypto salt payload.password u.id now σ'.seq σ'.db]
          refine ⟨.inr ⟨_, salt, _, hpassword, rfl, fun u' hu' hid => ?_⟩, hissue hverify _⟩
          -- the row with this id is the one that has been checked
          have hsame : u'.id = u₀.id := hid.trans (by rw [hu.row])
          rw [List.inj_on_of_nodup_map hids hu' hmem hsame]
          exact hverify

/-- **Every login keeps its contract**: the password that it stores verified against the
row that it replaces. -/
theorem safe_loginCheck (hP : Auth.Apart env.crypto P) (hcrypto : env.crypto.Lawful)
    (hids : (σ₀.db.registration.users.map (·.id)).Nodup) {payload : LoginRequest}
    (hpassword : P payload.password) (salt : Nat) (σ : State env) :
    (loginContract env P σ₀ payload salt).Safe failed (loginCheck env payload salt)
      (.pool σ false) := by
  by_cases hadmits : ∃ email, payload.Admits env email
  · obtain ⟨email, hadmits⟩ := hadmits
    unfold loginCheck
    rw [if_neg hadmits.password, hadmits.email]
    refine .query_read (Db.account env email) (fun _ _ _ => rfl) rfl (fun _ _ _ => rfl)
      (fun _ _ => .inl rfl) fun σ' _ hinv _ => ?_
    rcases hinv.account email with ⟨hnone₀, hnone⟩ | ⟨u₀, u, hu, hmem, hrow₀, hrow⟩
    · rw [hnone]
      refine ⟨0, ?_⟩
      rw [answer_of_admits hcrypto hadmits, hnone₀]
      rfl
    · rw [hrow]
      exact safe_checkPassword hP hcrypto hids hadmits hpassword salt hu hmem hinv.avatarUrl hrow₀
  · obtain ⟨status, hrefused⟩ := loginCheck_of_not_admits hadmits
    rw [hrefused]
    refine ⟨0, ?_⟩
    rw [answer, hrefused]
    rfl

/-- Every state reached has the initial rows, upgraded at most. -/
theorem sysInv_logins {ι : Type} [DecidableEq ι] (hP : Auth.Apart env.crypto P)
    (hcrypto : env.crypto.Lawful) {db : Db} {seq now poolSize : Nat} {faulty : Bool}
    (hids : (db.registration.users.map (·.id)).Nodup) {payload : ι → LoginRequest}
    {salt : ι → Nat} (hpasswords : ∀ i, P (payload i).password) {s : Server env ι}
    (hreach : Reachable (serve env poolSize faulty fun i => .loginCheck (payload i) (salt i))
      (server env db seq now fun i => .loginCheck (payload i) (salt i)) s) :
    SysInv (fun i => loginContract env P ⟨seq, db⟩ (payload i) (salt i))
      (config poolSize faulty fun i => .loginCheck (payload i) (salt i)) [] ⟨seq, db⟩ s :=
  sysInv_reachable hreach (sysInv_start (.refl env P db) (fun _ => trivial) fun i =>
    safe_loginCheck hP hcrypto hids (hpasswords i) (salt i) ⟨seq, db⟩)

end Logins

/-- **The life of a password.** What `hash_password` writes is matched by the passwords with
the same PBKDF2 value and is not rewritten. A text with its prefix is read as a hash only.
And whatever any number of logins do with passwords that PBKDF2 tells apart, a login with
one of them is answered, in every state reached, as the initial text of the account says. -/
theorem password_life_cycle (env : Env) (hcrypto : env.crypto.Lawful) :
    (∀ password other salt,
      Auth.verifyPassword env.crypto other (Auth.hashPassword env.crypto salt password) = true ↔
        Auth.pbkdf2HmacSha256 env.crypto (Auth.asBytes other) salt.toList
            Auth.passwordHashIterations Auth.passwordHashBytes =
          Auth.pbkdf2HmacSha256 env.crypto (Auth.asBytes password) salt.toList
            Auth.passwordHashIterations Auth.passwordHashBytes) ∧
    (∀ password salt,
      Auth.verifyPassword env.crypto password (Auth.hashPassword env.crypto salt password) = true ∧
        Auth.passwordNeedsUpgrade (Auth.hashPassword env.crypto salt password) = false) ∧
    (∀ password storedHash, Auth.Prefixed storedHash →
      (Auth.verifyPassword env.crypto password storedHash = true ↔
        ∃ iterations salt digest, Auth.Hashed env.crypto storedHash iterations salt digest ∧
          Auth.pbkdf2HmacSha256 env.crypto (Auth.asBytes password) salt iterations
            Auth.passwordHashBytes = digest)) ∧
    ∀ (P : String → Prop), Auth.Apart env.crypto P →
    ∀ {ι : Type} [DecidableEq ι] (db : Db) (seq now poolSize : Nat) (faulty : Bool)
      (payload : ι → LoginRequest) (salt : ι → Nat),
    (db.registration.users.map (·.id)).Nodup → (∀ i, P (payload i).password) →
    ∀ s : Server env ι,
    Reachable (serve env poolSize faulty fun i => .loginCheck (payload i) (salt i))
      (server env db seq now fun i => .loginCheck (payload i) (salt i)) s →
    ∀ email row, Db.account env email db = some row →
    (∀ request : LoginRequest, request.Admits env email → P request.password → ∀ now' salt',
      answer env s.snap now' request salt' =
        if Auth.verifyPassword env.crypto request.password row.password then issued env now' row
        else .error 401) ∧
    ∀ i, (payload i).Admits env email → ∀ a, s.calls i = .done a →
      (∃ now', a = if Auth.verifyPassword env.crypto (payload i).password row.password then
          issued env now' row else .error 401) ∨ faulty = true ∧ a = failed := by
  refine ⟨fun password other salt => Auth.verifyPassword_hashPassword hcrypto salt password other,
    fun password salt => ⟨(Auth.verifyPassword_hashPassword hcrypto salt password password).mpr rfl,
      Auth.passwordNeedsUpgrade_hashPassword hcrypto salt password⟩,
    fun password storedHash hprefix => Auth.verifyPassword_prefixed hprefix, ?_⟩
  intro P hP ι _ db seq now poolSize faulty payload salt hids hpasswords s hreach email row hrow
  -- every state reached gives the verdicts that the initial texts give
  have hinv := sysInv_logins hP hcrypto hids hpasswords hreach
  constructor
  · intro request hadmits hpassword now' salt'
    rw [answer_of_admits hcrypto hadmits,
      show verdict env now' request.password (Db.account env email s.snap.db) = _ from
        hinv.inv.verdict hP hcrypto hpassword now' email, hrow]
    rfl
  · intro i hadmits a hdone
    rcases (hinv.call hdone).2 with ⟨now', ha⟩ | hfailed
    · refine .inl ⟨now', ha.trans ?_⟩
      rw [answer_of_admits hcrypto hadmits, hrow]
      rfl
    · exact .inr hfailed

/-! ### One account -/

/-- A MAC that keeps the first bytes of the key, and tells a block number from a digest. -/
def shortMac (key message : Auth.Bytes) : Vector UInt8 32 :=
  if message.getLast? = some 1 then .ofFn fun i => if i.val = 31 then 0 else key.getD i.val 0
  else .replicate 32 0

/-- `str::to_lowercase` and `LOWER` on ASCII. -/
def lowercase (s : String) : String := String.ofList (s.toList.map Char.toLower)

def shortEnv : Env where
  parseMailbox value := some value
  toLowercase := lowercase
  isAlphabetic := Char.isAlpha
  hashPassword salt password :=
    Auth.hashPassword ⟨Base64.urlSafeNoPad, shortMac⟩ (saltOf salt) password
  lower := lowercase
  hashtext _ := 0
  smtpUsername := none
  developmentCodeIsAllowed := true
  sendMail _ _ := .ok ()
  crypto := ⟨Base64.urlSafeNoPad, shortMac⟩
  hashPassword_eq _ _ := rfl
  generateToken _ _ email := some email
  isAdminUser _ := false

theorem shortEnv_lawful : shortEnv.crypto.Lawful := Base64.urlSafeNoPad_lawful

/-- Once a MAC is zero the rounds change nothing. -/
theorem pbkdf2Loop_zero {mac : Auth.Bytes → Vector UInt8 32} {u : Vector UInt8 32}
    (hu : mac u.toList = .replicate 32 0)
    (hzero : mac (Vector.replicate 32 0).toList = .replicate 32 0) (rounds : Nat)
    (result : Vector UInt8 32) : Auth.pbkdf2Loop mac rounds u result = result := by
  induction rounds generalizing u with
  | zero => rfl
  | succ rounds ih =>
      have hxor : result.zipWith (· ^^^ ·) (.replicate 32 0) = result := by
        ext i hi
        simp
      simp only [Auth.pbkdf2Loop, hu, hxor]
      exact ih hzero

/-- PBKDF2 with this MAC keeps the first bytes of the password. -/
theorem pbkdf2_shortEnv (password salt : Auth.Bytes) (iterations : Nat) :
    Auth.pbkdf2HmacSha256 shortEnv.crypto password salt iterations Auth.passwordHashBytes =
      (Vector.ofFn (n := 32) fun i => if i.val = 31 then 0 else password.getD i.val 0).toList := by
  have hchunks : (Auth.chunkLengths Auth.passwordHashBytes).zipIdx = [(32, 0)] := by decide
  have hnumber : Auth.toBeBytes (UInt32.ofNat 0 + 1) = [0, 0, 0, 1] := by decide
  have hfirst : shortMac password (salt ++ [0, 0, 0, 1]) =
      .ofFn fun i => if i.val = 31 then 0 else password.getD i.val 0 := by
    rw [shortMac, if_pos (by simp)]
  have hdigest : ∀ v : Vector UInt8 32, v[31] = 0 → shortMac password v.toList =
      .replicate 32 0 := by
    intro v hv
    refine if_neg fun hlast => ?_
    rw [List.getLast?_eq_getElem?, v.length_toList] at hlast
    simp [hv] at hlast
  have hblock : Auth.pbkdf2Block (shortMac password) salt iterations 0 =
      .ofFn fun i => if i.val = 31 then 0 else password.getD i.val 0 := by
    simp only [Auth.pbkdf2Block, hnumber, hfirst]
    exact pbkdf2Loop_zero (hdigest _ (by simp)) (hdigest _ (by simp)) _ _
  rw [Auth.pbkdf2HmacSha256, hchunks]
  simp only [List.flatMap_cons, List.flatMap_nil, List.append_nil]
  rw [show Auth.pbkdf2Block (shortEnv.crypto.hmacSha256 password) salt iterations 0 = _ from hblock]
  exact List.take_of_length_le (Nat.le_of_eq Vector.length_toList)

/-- Passwords with different first bytes. -/
theorem apart_shortEnv {P : String → Prop}
    (hP : ∀ p q, P p → P q → (Auth.asBytes p).getD 0 0 = (Auth.asBytes q).getD 0 0 → p = q) :
    Auth.Apart shortEnv.crypto P := by
  intro p q hp hq salt iterations hsame
  rw [pbkdf2_shortEnv, pbkdf2_shortEnv, Vector.toList_inj] at hsame
  have hfirst := congrArg (fun v : Vector UInt8 32 => v[0]) hsame
  simp only [Vector.getElem_ofFn] at hfirst
  exact hP p q hp hq (by simpa using hfirst)

/-- An account of an older release. -/
def plainDb : Db where
  registration := ⟨[⟨1, "ann", "ann@x", "Tulip-2024", false⟩], [], 0⟩
  avatarUrl _ := none

def annLogin (password : String) : LoginRequest := ⟨"ann@x", password⟩

theorem annLogin_admits (password : String)
    (h : ¬ (password = "" ∨ Account.maxPasswordBytes < password.utf8ByteSize)) :
    (annLogin password).Admits shortEnv "ann@x" := by
  have hemail : Account.normalizeEmail shortEnv.toEnv "ann@x" = .ok "ann@x" := by decide
  exact ⟨h, hemail⟩

/-- After a login that has upgraded the account, the password still matches, and another
one still does not. -/
theorem password_life_cycle_upgraded :
    ∃ s, Reachable (serve shortEnv 1 false fun _ : Unit => .loginCheck (annLogin "Tulip-2024") 5)
      (server shortEnv plainDb 1 0 fun _ : Unit => .loginCheck (annLogin "Tulip-2024") 5) s ∧
      (∃ a, s.calls () = .done a) ∧
      answer shortEnv s.snap 7 (annLogin "Tulip-2024") 6 =
        issued shortEnv 7 ⟨"Tulip-2024", 1, "ann", "ann@x", none⟩ ∧
      answer shortEnv s.snap 7 (annLogin "Crocus-2024") 6 = .error 401 := by
  let P : String → Prop := fun p => p = "Tulip-2024" ∨ p = "Crocus-2024"
  have hP : Auth.Apart shortEnv.crypto P := by
    refine apart_shortEnv ?_
    rintro p q (rfl | rfl) (rfl | rfl)
    · exact fun _ => rfl
    · exact fun h => absurd h (by decide)
    · exact fun h => absurd h (by decide)
    · exact fun _ => rfl
  have hids : (plainDb.registration.users.map (·.id)).Nodup := by decide
  -- the login runs alone from the start
  have hstart : SysInv
      (fun _ : Unit => loginContract shortEnv P ⟨1, plainDb⟩ (annLogin "Tulip-2024") 5)
      (config 1 false fun _ : Unit => .loginCheck (annLogin "Tulip-2024") 5) [] ⟨1, plainDb⟩
      (server shortEnv plainDb 1 0 fun _ : Unit => .loginCheck (annLogin "Tulip-2024") 5) :=
    sysInv_logins hP shortEnv_lawful hids (fun _ => .inl rfl) (.refl _)
  have hcalm : MayFail
      (config 1 false fun _ : Unit => .loginCheck (annLogin "Tulip-2024") 5) noFailure := .inr rfl
  obtain ⟨s, hreach, hcalls, -⟩ := solo_run_idle (i := ()) hcalm hstart
    (fun _ _ hlock => by cases hlock) rfl Nat.zero_lt_one
  have h := ((password_life_cycle shortEnv shortEnv_lawful).2.2.2 P hP plainDb 1 0 1 false
    (fun _ : Unit => annLogin "Tulip-2024") (fun _ => 5) hids (fun _ => .inl rfl) s hreach "ann@x"
    ⟨"Tulip-2024", 1, "ann", "ann@x", none⟩ (by decide)).1
  refine ⟨s, hreach, ⟨_, (congrFun hcalls ()).trans (Function.update_self ..)⟩, ?_, ?_⟩
  · rw [h _ (annLogin_admits _ (by decide)) (.inl rfl)]
    exact if_pos (by decide)
  · rw [h _ (annLogin_admits _ (by decide)) (.inr rfl)]
    exact if_neg (by decide)

end DevbitBackend.Login
