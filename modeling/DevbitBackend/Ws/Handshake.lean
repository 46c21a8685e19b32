import DevbitBackend.Ws.Session

/-!
# Ws.Handshake

A connection attempt from `ws_handler` on, with the table of users beside it. An
identity in the upgrade headers is looked up before the upgrade; a first auth message
is not, so **a deleted account gets a live socket exactly that way**.
-/

namespace DevbitBackend.Ws

open Social (UserId)
open Auth (AuthIdentity)
open Transition

/-- How far an attempt has come. -/
inductive Phase
  /-- The request is with `ws_handler`. -/
  | handler
  /-- Answered with the upgrade; `on_upgrade` has not run. -/
  | upgrading (initialIdentity : Option AuthIdentity)
  | refused (status : Nat)
  | socket (socket : Socket)
  deriving DecidableEq, Repr

structure Attempt where
  /-- The ids in the table `users`. -/
  users : List UserId
  /-- History: the users that a query of this attempt has found. -/
  found : List UserId
  phase : Phase
  deriving DecidableEq, Repr

/-- `ws_handler`; `fails` says whether its query fails. -/
def wsHandler (env : Env) (headers : Auth.HeaderMap) (now : Clock) (fails : Bool)
    (a : Attempt) : Attempt :=
  match Auth.identityFromHeaders env.jwt now.timestamp headers with
  | none => { a with phase := .upgrading none }
  | some identity =>
      if fails then { a with phase := .refused 500 }
      else if identity.userId ∈ a.users then
        { a with phase := .upgrading (some identity), found := a.found ++ [identity.userId] }
      else { a with phase := .refused 401 }

inductive Move
  /-- Others change the table. -/
  | table (users : List UserId)
  | handle (now : Clock) (fails : Bool)
  /-- `on_upgrade` runs `handle_socket`. -/
  | upgrade (now : Clock)
  | event (e : Clock × SocketEvent)

namespace Attempt

def start (users : List UserId) : Attempt := ⟨users, [], .handler⟩

def step (env : Env) (headers : Auth.HeaderMap) : Move → Attempt → Option Attempt
  | .table users, a => some { a with users := users }
  | .handle now fails, a =>
      match a.phase with
      | .handler => some (wsHandler env headers now fails a)
      | _ => none
  | .upgrade now, a =>
      match a.phase with
      | .upgrading initialIdentity =>
          some { a with phase := .socket (.start now initialIdentity) }
      | _ => none
  | .event e, a =>
      match a.phase with
      | .socket s => (s.step env e).map fun s' => { a with phase := .socket s' }
      | _ => none

/-- The users that the socket of the attempt was registered for. -/
def registered (a : Attempt) : List UserId :=
  match a.phase with
  | .socket s => s.registered
  | _ => []

end Attempt

/-- When `ws_handler` read the headers. -/
def handledAt (moves : List Move) : Option Clock :=
  moves.findSome? fun m =>
    match m with
    | .handle now _ => some now
    | _ => none

/-- What the socket handled. -/
def socketEvents (moves : List Move) : List (Clock × SocketEvent) :=
  moves.filterMap fun m =>
    match m with
    | .event e => some e
    | _ => none

/-- The headers carry no valid token, and the first text frame is a valid auth
message. -/
def FirstMessageAuth (env : Env) (headers : Auth.HeaderMap) (moves : List Move) : Prop :=
  (∃ now, handledAt moves = some now ∧
    Auth.identityFromHeaders env.jwt now.timestamp headers = none) ∧
  ∃ t identity, Socket.firstText (socketEvents moves) = some t ∧
    authOf env t.1 t.2 = some identity

theorem handledAt_append (moves moves' : List Move) :
    handledAt (moves ++ moves') = (handledAt moves).or (handledAt moves') :=
  List.findSome?_append

theorem socketEvents_append (moves moves' : List Move) :
    socketEvents (moves ++ moves') = socketEvents moves ++ socketEvents moves' :=
  List.filterMap_append

/-- A handler that is through has read the headers, and found the identity in them, if
there was one. -/
structure Handled (env : Env) (headers : Auth.HeaderMap) (moves : List Move)
    (initial : Option AuthIdentity) (found : List UserId) : Prop where
  headers : ∃ now, handledAt moves = some now ∧
    Auth.identityFromHeaders env.jwt now.timestamp headers = initial
  found : found = (initial.map (·.userId)).toList

/-- What an attempt has come to after `moves`. -/
def Attempted (env : Env) (headers : Auth.HeaderMap) (moves : List Move) (a : Attempt) : Prop :=
  match a.phase with
  | .handler => handledAt moves = none ∧ socketEvents moves = [] ∧ a.found = []
  | .upgrading initial => Handled env headers moves initial a.found ∧ socketEvents moves = []
  | .refused _ => socketEvents moves = []
  | .socket s => ∃ initial now, Handled env headers moves initial a.found ∧
      Run (Socket.step env) (.start now initial) (socketEvents moves) s

section Runs

variable {env : Env} {headers : Auth.HeaderMap} {moves : List Move} {a a' : Attempt}

/-- Moves after the handler's own. -/
theorem Handled.later {initial : Option AuthIdentity} {found : List UserId}
    (h : Handled env headers moves initial found) (moves' : List Move) :
    Handled env headers (moves ++ moves') initial found := by
  obtain ⟨⟨now, hnow, hinitial⟩, hfound⟩ := h
  refine ⟨⟨now, ?_, hinitial⟩, hfound⟩
  rw [handledAt_append, hnow, Option.some_or]

theorem attempted_table (h : Attempted env headers moves a) (users : List UserId) :
    Attempted env headers (moves ++ [.table users]) { a with users := users } := by
  obtain ⟨users', found, phase⟩ := a
  have hevents : socketEvents (moves ++ [.table users]) = socketEvents moves := by
    rw [socketEvents_append]
    exact List.append_nil _
  unfold Attempted at h ⊢
  cases phase with
  | handler =>
      refine ⟨?_, hevents.trans h.2.1, h.2.2⟩
      rw [handledAt_append, h.1]
      rfl
  | upgrading initial => exact ⟨h.1.later _, hevents.trans h.2⟩
  | refused status => exact hevents.trans h
  | socket s =>
      obtain ⟨initial, now, hhandled, hrun⟩ := h
      exact ⟨initial, now, hhandled.later _, hevents ▸ hrun⟩

theorem attempted_handle (h : Attempted env headers moves a) (hphase : a.phase = .handler)
    (now : Clock) (fails : Bool) :
    Attempted env headers (moves ++ [.handle now fails]) (wsHandler env headers now fails a) := by
  obtain ⟨users, found, phase⟩ := a
  obtain rfl : phase = .handler := hphase
  obtain ⟨hnone, hevents, rfl⟩ := h
  have hhandled : handledAt (moves ++ [.handle now fails]) = some now := by
    rw [handledAt_append, hnone]
    rfl
  have hevents' : socketEvents (moves ++ [.handle now fails]) = [] := by
    rw [socketEvents_append, hevents]
    rfl
  unfold wsHandler
  cases hid : Auth.identityFromHeaders env.jwt now.timestamp headers with
  | none => exact ⟨⟨⟨now, hhandled, hid⟩, rfl⟩, hevents'⟩
  | some identity =>
      dsimp only
      split
      · exact hevents'
      · split
        · exact ⟨⟨⟨now, hhandled, hid⟩, rfl⟩, hevents'⟩
        · exact hevents'

theorem attempted_step {m : Move} (h : Attempted env headers moves a)
    (hstep : a.step env headers m = some a') : Attempted env headers (moves ++ [m]) a' := by
  cases m with
  | table users =>
      obtain rfl := Option.some.inj hstep
      exact attempted_table h users
  | handle now fails =>
      cases hphase : a.phase with
      | handler =>
          simp only [Attempt.step, hphase, Option.some.injEq] at hstep
          subst hstep
          exact attempted_handle h hphase now fails
      | _ => simp [Attempt.step, hphase] at hstep
  | upgrade now =>
      cases hphase : a.phase with
      | upgrading initial =>
          simp only [Attempt.step, hphase, Option.some.injEq] at hstep
          subst hstep
          simp only [Attempted, hphase] at h
          refine ⟨initial, now, h.1.later _, ?_⟩
          rw [socketEvents_append, h.2]
          -- the socket starts here, and no event of it has come yet
          exact .nil _
      | _ => simp [Attempt.step, hphase] at hstep
  | event e =>
      cases hphase : a.phase with
      | socket s =>
          simp only [Attempt.step, hphase, Option.map_eq_some_iff] at hstep
          obtain ⟨s', hs', rfl⟩ := hstep
          simp only [Attempted, hphase] at h
          obtain ⟨initial, now, hhandled, hrun⟩ := h
          refine ⟨initial, now, hhandled.later _, ?_⟩
          rw [socketEvents_append]
          exact hrun.append (.cons hs' (.nil s'))
      | _ => simp [Attempt.step, hphase] at hstep

theorem attempted_of_run {users : List UserId}
    (h : Run (Attempt.step env headers) (.start users) moves a) :
    Attempted env headers moves a := by
  have hstart : Attempted env headers [] (.start users) := ⟨rfl, rfl, rfl⟩
  exact h.invariant_labels (fun _ _ _ _ hI hstep => attempted_step hI hstep) hstart

/-- No text frame has been handled. -/
theorem not_firstMessageAuth (h : socketEvents moves = []) :
    ¬ FirstMessageAuth env headers moves := by
  rintro ⟨-, t, identity, hfirst, -⟩
  rw [h] at hfirst
  cases hfirst

/-- **Only existing accounts get a live socket**, except through the first message: in
every attempt, whatever happens to the table, the socket was registered for a user that
the attempt has found there, exactly when it is not the case that the headers carry no
valid token and the first text frame is a valid auth message. -/
theorem registered_found_iff {users : List UserId}
    (h : Run (Attempt.step env headers) (.start users) moves a) :
    (∀ userId ∈ a.registered, userId ∈ a.found) ↔ ¬ FirstMessageAuth env headers moves := by
  have hattempted := attempted_of_run h
  unfold Attempted at hattempted
  unfold Attempt.registered
  cases hphase : a.phase with
  | handler =>
      simp only [hphase] at hattempted
      simp [not_firstMessageAuth hattempted.2.1]
  | upgrading initial =>
      simp only [hphase] at hattempted
      simp [not_firstMessageAuth hattempted.2]
  | refused status =>
      simp only [hphase] at hattempted
      simp [not_firstMessageAuth hattempted]
  | socket s =>
      simp only [hphase] at hattempted ⊢
      obtain ⟨initial, now, ⟨⟨at_, hat, hinitial⟩, hfound⟩, hrun⟩ := hattempted
      have hreached := (Socket.reached_of_run hrun).1
      have hregistered : s.registered = ((initial.or ((Socket.firstText (socketEvents moves)).bind
          fun t => authOf env t.1 t.2)).map (·.userId)).toList := by
        rw [hreached.registered, hreached.userId]
      rw [hregistered, hfound]
      cases initial with
      | some identity =>
          -- the headers carry the identity, and the handler has found its user
          refine ⟨fun _ hfirst => ?_, fun _ userId huser => huser⟩
          obtain ⟨⟨now', hnow', hnone⟩, -⟩ := hfirst
          rw [hat] at hnow'
          obtain rfl := Option.some.inj hnow'
          rw [hinitial] at hnone
          cases hnone
      | none =>
          -- nobody was looked up, so nobody may be registered
          constructor
          · rintro hall ⟨-, t, identity, hfirst, hauth⟩
            have hmem := hall identity.userId (by simp [hfirst, hauth])
            cases hmem
          · intro hnot userId huser
            refine absurd ⟨⟨at_, hat, hinitial⟩, ?_⟩ hnot
            simp only [Option.none_or, Option.mem_toList, Option.map_eq_some_iff,
              Option.bind_eq_some_iff] at huser
            obtain ⟨identity, ⟨t, hfirst, hauth⟩, -⟩ := huser
            exact ⟨t, identity, hfirst, hauth⟩

end Runs

/-! ### A deleted account -/

/-- No headers, an empty table, and the first message is that of user 7. -/
def deletedAccount : List Move :=
  [.handle ⟨0, 0⟩ false, .upgrade ⟨1, 0⟩, .event (⟨2, 0⟩, .incoming (.text authText))]

/-- 7 gets a live socket although the table of users is empty all the time. -/
theorem registered_not_found : ¬ ∀ (users : List UserId) (moves : List Move) (a : Attempt),
    Run (Attempt.step demoEnv []) (.start users) moves a →
      ∀ userId ∈ a.registered, userId ∈ a.found := by
  intro hclaim
  have hrun : (replay (Attempt.step demoEnv []) (.start []) deletedAccount).map
      (fun a => (a.registered, a.found)) = some ([7], []) := by decide
  obtain ⟨a, ha, hend⟩ := Option.map_eq_some_iff.mp hrun
  obtain ⟨hregistered, hfound⟩ := Prod.mk.inj hend
  have hmem := hclaim [] deletedAccount a (run_of_replay ha) 7 (by rw [hregistered]; decide)
  rw [hfound] at hmem
  cases hmem

/-- The headers carry 7's token, and the table has the user. -/
def cookieHeaders : Auth.HeaderMap :=
  [("cookie", "auth_token=token-7".toList.map fun c => c.toNat.toUInt8)]

def knownAccount : List Move := [.handle ⟨0, 0⟩ false, .table [], .upgrade ⟨1, 0⟩]

theorem registered_found_iff_cookie : ∃ a : Attempt,
    Run (Attempt.step demoEnv cookieHeaders) (.start [7]) knownAccount a ∧
      a.registered = [7] ∧ ∀ userId ∈ a.registered, userId ∈ a.found := by
  have hrun : (replay (Attempt.step demoEnv cookieHeaders) (.start [7]) knownAccount).map
      (fun a => a.registered) = some [7] := by decide
  obtain ⟨a, ha, hend⟩ := Option.map_eq_some_iff.mp hrun
  refine ⟨a, run_of_replay ha, hend, (registered_found_iff (run_of_replay ha)).mpr ?_⟩
  rintro ⟨-, t, identity, hfirst, -⟩
  cases hfirst

end DevbitBackend.Ws
