import DevbitBackend.Auth.Identity
import DevbitBackend.Lib.Transition
import DevbitBackend.Ws.Registry

/-!
# Ws.Session

One WebSocket connection (`ws_handler` and `handle_socket`) as a state machine. The
loop of `handle_socket` is a step on the variables it keeps; each event is one branch
of its `select!`, and what a step does to the outside is a list of effects.

`serde_json` and `jsonwebtoken` are parameters: which texts are messages of the
client, and which tokens carry an identity at which time.
-/

namespace DevbitBackend.Ws

open Social (UserId)
open Auth (AuthIdentity Jwt)
open Transition

/-- `std::time::Instant` and `tokio::time::Instant`, in nanoseconds. -/
abbrev Instant := Nat

def seconds (n : Nat) : Nat := n * 1000000000

/-- `AUTH_TIMEOUT`. -/
def authTimeout : Nat := seconds 10

/-- `HEARTBEAT_TIMEOUT`. -/
def heartbeatTimeout : Nat := seconds 90

/-- The two clocks of the server. -/
structure Clock where
  instant : Instant
  timestamp : Auth.Timestamp
  deriving DecidableEq, Repr

inductive ClientMessage
  | auth (token : String)
  | ping
  | subscribe (channel : String)
  | unsubscribe (channel : String)
  deriving DecidableEq, Repr

structure Env where
  jwt : Jwt
  /-- `serde_json::from_str::<ClientMessage>(text).ok()`. -/
  clientMessage : String → Option ClientMessage

/-- `parse_application_message`: before authentication only an auth message is accepted, and
after it every other message. -/
def parseApplicationMessage (env : Env) (text : String) (authenticated : Bool) :
    Except String ClientMessage :=
  match env.clientMessage text with
  | none =>
      if authenticated then .error "Invalid message"
      else .error "Authentication must be the first message"
  | some message =>
      match message, authenticated with
      | .auth _, true => .error "Already authenticated"
      | .auth _, false => .ok message
      | _, false => .error "Authentication must be the first message"
      | _, true => .ok message

/-- `compatible_redundant_identity`: the identity of an auth message that repeats the one
of the headers. -/
def compatibleRedundantIdentity (env : Env) (now : Clock) (text : String)
    (userId : Option UserId) : Option AuthIdentity :=
  match env.clientMessage text with
  | some (.auth token) =>
      (Auth.identityFromToken env.jwt now.timestamp token).filter fun identity =>
        some identity.userId == userId
  | _ => none

/-- What `websocket_receiver.next()` gives. -/
inductive Incoming
  | text (text : String)
  | binary
  | ping (data : List UInt8)
  | pong
  | close
  | error
  /-- The stream has ended. -/
  | eof
  deriving DecidableEq, Repr

/-- The branches of the `select!`. -/
inductive SocketEvent
  | authDeadline
  | tokenExpiry
  /-- `disconnect_receiver.changed()`. -/
  | disconnect
  | incoming (message : Incoming)
  | heartbeat
  deriving DecidableEq, Repr

inductive Effect
  /-- `ws_state.register(..)` in `register_authenticated_connection`. -/
  | register (userId : UserId)
  /-- `enqueue` on the socket's own queue. -/
  | enqueue (message : Message)
  /-- `unregister_authenticated_connection`. -/
  | unregister (userId : UserId)
  deriving DecidableEq, Repr

/-- The variables of the loop in `handle_socket`. -/
structure Session where
  userId : Option UserId
  authenticated : Bool
  acceptsCompatibleAuthMessage : Bool
  lastHeartbeat : Instant
  authDeadline : Instant
  tokenExpiry : Instant
  deriving DecidableEq, Repr

/-- How a branch of the loop ends. -/
inductive Flow
  | next
  | break
  deriving DecidableEq, Repr

/-- The part of `register_authenticated_connection` on the socket's own queue. -/
def registerEffects (userId : UserId) : List Effect :=
  [.register userId, .enqueue (.server (.authOk userId))]

def authError (reason : String) : List Effect := [.enqueue (.server (.authError reason))]

/-- `Instant::now() + remaining_token_lifetime(identity)`. -/
def expiryOf (now : Clock) (identity : AuthIdentity) : Instant :=
  now.instant + seconds (Auth.remainingTokenLifetime now.timestamp identity)

namespace Session

/-- The variables before the loop. -/
def start (now : Clock) (initialIdentity : Option AuthIdentity) : Session where
  userId := initialIdentity.map (·.userId)
  authenticated := initialIdentity.isSome
  acceptsCompatibleAuthMessage := initialIdentity.isSome
  lastHeartbeat := now.instant
  authDeadline := now.instant + authTimeout
  tokenExpiry := (initialIdentity.map (expiryOf now)).getD (now.instant + authTimeout)

/-- The guards of the `select!`, and the timers behind them. -/
def enabled (now : Clock) (s : Session) : SocketEvent → Bool
  | .authDeadline => !s.authenticated && s.authDeadline ≤ now.instant
  | .tokenExpiry => s.authenticated && s.tokenExpiry ≤ now.instant
  | _ => true

/-- A text that is not a compatible redundant auth message. -/
def applicationMessage (env : Env) (now : Clock) (text : String) (s : Session) :
    Flow × Session × List Effect :=
  match parseApplicationMessage env text s.authenticated with
  | .ok (.auth token) =>
      match Auth.identityFromToken env.jwt now.timestamp token with
      | some identity =>
          (.next,
            { s with
              userId := some identity.userId
              authenticated := true
              tokenExpiry := expiryOf now identity },
            registerEffects identity.userId)
      | none => (.break, s, authError "Invalid token")
  | .ok .ping =>
      (.next, { s with lastHeartbeat := now.instant }, [.enqueue (.server .pong)])
  | .ok (.subscribe channel) => (.next, s, [.enqueue (.server (.subscribed channel))])
  | .ok (.unsubscribe _) => (.next, s, [])
  | .error reason => (.break, s, authError reason)

/-- A text frame: the redundant auth message of an old client is let through once,
everything else is an application message. -/
def textMessage (env : Env) (now : Clock) (text : String) (s : Session) :
    Flow × Session × List Effect :=
  if s.acceptsCompatibleAuthMessage then
    let s := { s with acceptsCompatibleAuthMessage := false }
    match compatibleRedundantIdentity env now text s.userId with
    | some identity => (.next, { s with tokenExpiry := expiryOf now identity }, [])
    | none => s.applicationMessage env now text
  else s.applicationMessage env now text

/-- One round of the loop: which branch of the `select!` is taken, whether the loop goes
on, and what it enqueues. -/
def handle (env : Env) (now : Clock) (event : SocketEvent) (s : Session) :
    Flow × Session × List Effect :=
  match event with
  | .authDeadline => (.break, s, authError "Authentication timed out")
  | .tokenExpiry => (.break, s, authError "Token expired")
  | .disconnect => (.break, s, [])
  | .incoming (.text text) => s.textMessage env now text
  | .incoming .close | .incoming .eof => (.break, s, [])
  | .incoming (.ping data) =>
      (.next, { s with lastHeartbeat := now.instant }, [.enqueue (.pong data)])
  | .incoming .pong => (.next, { s with lastHeartbeat := now.instant }, [])
  | .incoming .binary =>
      if s.authenticated then (.next, s, [])
      else (.break, s, authError "Authentication must be the first message")
  | .incoming .error => (.break, s, [])
  | .heartbeat =>
      if heartbeatTimeout < now.instant - s.lastHeartbeat then (.break, s, [])
      else (.next, s, [.enqueue .ping])

end Session

/-- A socket: the loop variables, whether the loop has ended, and all effects. -/
structure Socket where
  session : Session
  ended : Bool
  effects : List Effect
  deriving DecidableEq, Repr

namespace Socket

/-- `handle_socket` up to the loop. -/
def start (now : Clock) (initialIdentity : Option AuthIdentity) : Socket where
  session := .start now initialIdentity
  ended := false
  effects := (initialIdentity.map fun identity => registerEffects identity.userId).getD []

/-- `handle_socket` after the loop: the socket is unregistered if it was registered. -/
def finish (s : Socket) : Socket where
  session := s.session
  ended := true
  effects := s.effects ++ (s.session.userId.map Effect.unregister).toList

/-- An event is handled. -/
def step (env : Env) (e : Clock × SocketEvent) (s : Socket) : Option Socket :=
  if s.ended || !s.session.enabled e.1 e.2 then none
  else
    let (flow, session, effects) := s.session.handle env e.1 e.2
    let s : Socket := ⟨session, false, s.effects ++ effects⟩
    some (match flow with
      | .next => s
      | .break => s.finish)

end Socket

/-! ### What one round does -/

/-- The identity of a valid auth message. -/
def authOf (env : Env) (now : Clock) (text : String) : Option AuthIdentity :=
  match env.clientMessage text with
  | some (.auth token) => Auth.identityFromToken env.jwt now.timestamp token
  | _ => none

/-- The event is a text frame. -/
def SocketEvent.text? : SocketEvent → Option String
  | .incoming (.text text) => some text
  | _ => none

theorem SocketEvent.text?_eq_some {event : SocketEvent} {text : String} :
    event.text? = some text ↔ event = .incoming (.text text) := by
  cases event with
  | incoming message => cases message <;> simp [SocketEvent.text?]
  | _ => simp [SocketEvent.text?]

namespace Effect

def registers : Effect → Option UserId
  | .register userId => some userId
  | _ => none

def unregisters : Effect → Option UserId
  | .unregister userId => some userId
  | _ => none

/-- A reply that only an authenticated client gets. -/
def isReply : Effect → Bool
  | .enqueue (.server .pong) | .enqueue (.server (.authOk _))
  | .enqueue (.server (.subscribed _)) => true
  | _ => false

end Effect

/-- What a round does that registers nobody. -/
structure Quiet (s s' : Session) (effects : List Effect) : Prop where
  userId : s'.userId = s.userId
  authenticated : s'.authenticated = s.authenticated
  registers : effects.filterMap Effect.registers = []
  unregisters : effects.filterMap Effect.unregisters = []
  replies : ∀ e ∈ effects, e.isReply = true → s.authenticated = true

/-- Effects on nobody else's part of the socket. -/
theorem Quiet.of_plain {s s' : Session} {effects : List Effect} (huser : s'.userId = s.userId)
    (hauth : s'.authenticated = s.authenticated)
    (h : effects.all fun e => e.registers.isNone && e.unregisters.isNone && !e.isReply) :
    Quiet s s' effects := by
  have hplain : ∀ e ∈ effects, e.registers = none ∧ e.unregisters = none ∧ e.isReply = false := by
    simpa [and_assoc] using h
  refine ⟨huser, hauth, ?_, ?_, fun e he hreply => ?_⟩
  · exact List.filterMap_eq_nil_iff.mpr fun e he => (hplain e he).1
  · exact List.filterMap_eq_nil_iff.mpr fun e he => (hplain e he).2.1
  · rw [(hplain e he).2.2] at hreply
    cases hreply

namespace Session

variable {env : Env} {now : Clock} {s : Session}

/-- A redundant auth message repeats the identity of the session. -/
theorem compatible_iff (text : String) (userId : Option UserId) :
    compatibleRedundantIdentity env now text userId =
      (authOf env now text).filter fun identity => some identity.userId == userId := by
  unfold compatibleRedundantIdentity authOf
  cases env.clientMessage text with
  | none => rfl
  | some message => cases message <;> rfl

/-- Before authentication a text is a valid auth message, or the end. -/
theorem applicationMessage_unauthenticated (env : Env) (now : Clock) (text : String)
    (hs : s.authenticated = false) :
    (∃ identity, authOf env now text = some identity ∧
      s.applicationMessage env now text = (.next, { s with
        userId := some identity.userId
        authenticated := true
        tokenExpiry := expiryOf now identity }, registerEffects identity.userId)) ∨
    (authOf env now text = none ∧
      ∃ reason, s.applicationMessage env now text = (.break, s, authError reason)) := by
  unfold applicationMessage parseApplicationMessage authOf
  rw [hs]
  cases env.clientMessage text with
  | none => exact .inr ⟨rfl, _, rfl⟩
  | some message =>
      cases message with
      | auth token =>
          dsimp only
          cases hid : Auth.identityFromToken env.jwt now.timestamp token with
          | none => exact .inr ⟨rfl, _, rfl⟩
          | some identity => exact .inl ⟨identity, rfl, rfl⟩
      | _ => exact .inr ⟨rfl, _, rfl⟩

/-- After authentication a text changes no identity, and an auth message is the end. -/
theorem applicationMessage_authenticated (env : Env) (now : Clock) (text : String)
    (hs : s.authenticated = true) :
    let round := s.applicationMessage env now text
    Quiet s round.2.1 round.2.2 ∧
      round.2.1.acceptsCompatibleAuthMessage = s.acceptsCompatibleAuthMessage ∧
      ((∃ token, env.clientMessage text = some (.auth token)) → round.1 = .break) := by
  obtain ⟨userId, authenticated, accepts, lastHeartbeat, authDeadline, tokenExpiry⟩ := s
  obtain rfl : authenticated = true := hs
  unfold applicationMessage parseApplicationMessage
  cases hm : env.clientMessage text with
  | none =>
      refine ⟨⟨rfl, rfl, rfl, rfl, fun _ _ _ => rfl⟩, rfl, ?_⟩
      rintro ⟨token, htoken⟩
      cases htoken
  | some message =>
      cases message with
      | auth token => exact ⟨⟨rfl, rfl, rfl, rfl, fun _ _ _ => rfl⟩, rfl, fun _ => rfl⟩
      | _ =>
          refine ⟨⟨rfl, rfl, rfl, rfl, fun _ _ _ => rfl⟩, rfl, ?_⟩
          rintro ⟨token, htoken⟩
          cases htoken

/-- A text frame has been handled. -/
def heard (s : Session) : Session := { s with acceptsCompatibleAuthMessage := false }

/-- The identity of a redundant auth message that the session still accepts. -/
def redundant (env : Env) (now : Clock) (text : String) (s : Session) : Option AuthIdentity :=
  if s.acceptsCompatibleAuthMessage then
    (authOf env now text).filter fun identity => some identity.userId == s.userId
  else none

theorem textMessage_eq (text : String) :
    s.textMessage env now text =
      match s.redundant env now text with
      | some identity => (.next, { s.heard with tokenExpiry := expiryOf now identity }, [])
      | none => s.heard.applicationMessage env now text := by
  obtain ⟨userId, authenticated, accepts, lastHeartbeat, authDeadline, tokenExpiry⟩ := s
  unfold textMessage redundant heard
  cases accepts with
  | true =>
      dsimp only
      rw [if_pos rfl, if_pos rfl, compatible_iff]
  | false => rfl

theorem textMessage_unauthenticated (text : String) (huser : s.userId = none) :
    s.textMessage env now text = s.heard.applicationMessage env now text := by
  have hnone : s.redundant env now text = none := by
    unfold redundant
    rw [huser]
    split
    · rw [Option.filter_eq_none_iff]
      intro identity _
      simp
    · rfl
  rw [textMessage_eq, hnone]

/-- **One round before authentication** registers the sender of a valid auth message,
and ends the session at any other text and at a binary frame. -/
theorem handle_unauthenticated (env : Env) (now : Clock) (event : SocketEvent)
    (hs : s.authenticated = false) (huser : s.userId = none) :
    let round := s.handle env now event
    (∃ text identity, event = .incoming (.text text) ∧ authOf env now text = some identity ∧
      round = (.next, { s.heard with
        userId := some identity.userId
        authenticated := true
        tokenExpiry := expiryOf now identity }, registerEffects identity.userId)) ∨
    (Quiet s round.2.1 round.2.2 ∧
      ((∃ text, event = .incoming (.text text)) ∨ event = .incoming .binary →
        round.1 = .break) ∧
      (∀ text, event = .incoming (.text text) → authOf env now text = none) ∧
      round.2.1.acceptsCompatibleAuthMessage =
        (s.acceptsCompatibleAuthMessage && event.text?.isNone)) := by
  cases event with
  | incoming message =>
      cases message with
      | text text =>
          simp only [handle]
          rw [textMessage_unauthenticated text huser]
          have hheard : s.heard.authenticated = false := hs
          -- a text is a valid auth message, or the loop ends
          rcases applicationMessage_unauthenticated env now text hheard with
            ⟨identity, hauth, hround⟩ | ⟨hauth, reason, hround⟩
          · exact .inl ⟨text, identity, rfl, hauth, hround⟩
          · rw [hround]
            refine .inr ⟨.of_plain rfl rfl rfl, fun _ => rfl, ?_, ?_⟩
            · rintro text' ⟨⟩
              exact hauth
            · simp [heard, SocketEvent.text?]
      | binary =>
          refine .inr ?_
          simp only [handle, hs]
          exact ⟨.of_plain rfl rfl rfl, fun _ => rfl, by simp, by simp [SocketEvent.text?]⟩
      | _ =>
          refine .inr ⟨.of_plain rfl rfl rfl, by simp, by simp, by simp [handle, SocketEvent.text?]⟩
  | heartbeat =>
      refine .inr ?_
      simp only [handle]
      -- a client that has not answered for too long is dropped, else pinged
      split
      · exact ⟨.of_plain rfl rfl rfl, by simp, by simp, by simp [SocketEvent.text?]⟩
      · exact ⟨.of_plain rfl rfl rfl, by simp, by simp, by simp [SocketEvent.text?]⟩
  | _ => exact .inr ⟨.of_plain rfl rfl rfl, by simp, by simp, by simp [handle, SocketEvent.text?]⟩

theorem textMessage_authenticated (env : Env) (now : Clock) (text : String)
    (hs : s.authenticated = true) :
    let round := s.textMessage env now text
    Quiet s round.2.1 round.2.2 ∧ round.2.1.acceptsCompatibleAuthMessage = false ∧
      ((∃ token, env.clientMessage text = some (.auth token)) →
        (round.1 = .next ↔ (s.redundant env now text).isSome = true)) := by
  rw [textMessage_eq]
  cases s.redundant env now text with
  | some identity => exact ⟨.of_plain rfl rfl rfl, rfl, fun _ => by simp⟩
  | none =>
      have hheard : s.heard.authenticated = true := hs
      obtain ⟨hquiet, haccepts, hauth⟩ :=
        applicationMessage_authenticated env now text hheard
      refine ⟨⟨hquiet.userId, hquiet.authenticated, hquiet.registers, hquiet.unregisters,
        hquiet.replies⟩, haccepts, fun htoken => ?_⟩
      simp [hauth htoken]

/-- **One round after authentication** registers nobody, and ends the session at an
auth message unless it is a redundant one that the session still accepts. -/
theorem handle_authenticated (env : Env) (now : Clock) (event : SocketEvent)
    (hs : s.authenticated = true) :
    let round := s.handle env now event
    Quiet s round.2.1 round.2.2 ∧
      round.2.1.acceptsCompatibleAuthMessage =
        (s.acceptsCompatibleAuthMessage && event.text?.isNone) ∧
      ∀ text, event = .incoming (.text text) →
        (∃ token, env.clientMessage text = some (.auth token)) →
          (round.1 = .next ↔ (s.redundant env now text).isSome = true) := by
  cases event with
  | incoming message =>
      cases message with
      | text text =>
          obtain ⟨hquiet, haccepts, hauth⟩ := textMessage_authenticated env now text hs
          refine ⟨hquiet, ?_, ?_⟩
          · simpa [handle, SocketEvent.text?] using haccepts
          · rintro text' ⟨⟩
            exact hauth
      | binary =>
          simp only [handle, hs]
          exact ⟨.of_plain rfl rfl rfl, by simp [SocketEvent.text?], by simp⟩
      | _ => exact ⟨.of_plain rfl rfl rfl, by simp [handle, SocketEvent.text?], by simp⟩
  | heartbeat =>
      simp only [handle]
      split
      · exact ⟨.of_plain rfl rfl rfl, by simp [SocketEvent.text?], by simp⟩
      · exact ⟨.of_plain rfl rfl rfl, by simp [SocketEvent.text?], by simp⟩
  | _ => exact ⟨.of_plain rfl rfl rfl, by simp [handle, SocketEvent.text?], by simp⟩

end Session

/-! ### The whole session -/

namespace Socket

/-- The users the socket was registered for. -/
def registered (s : Socket) : List UserId := s.effects.filterMap Effect.registers

def unregistered (s : Socket) : List UserId := s.effects.filterMap Effect.unregisters

/-- The first text frame among the events. -/
def firstText (es : List (Clock × SocketEvent)) : Option (Clock × String) :=
  es.findSome? fun e => e.2.text?.map fun text => (e.1, text)

/-- Every reply comes after a registration. -/
def RepliesLate (effects : List Effect) : Prop :=
  ∀ before e after, effects = before ++ e :: after → e.isReply = true →
    before.filterMap Effect.registers ≠ []

/-- What holds of a socket that has handled its first text frame, if there was one. -/
structure Reached (env : Env) (initial : Option AuthIdentity) (first : Option (Clock × String))
    (s : Socket) : Prop where
  userId : s.session.userId =
    (initial.or (first.bind fun t => authOf env t.1 t.2)).map (·.userId)
  authenticated : s.session.authenticated = s.session.userId.isSome
  accepts : s.session.acceptsCompatibleAuthMessage = (initial.isSome && first.isNone)
  registered : s.registered = s.session.userId.toList
  unregistered : s.unregistered = if s.ended then s.registered else []
  replies : RepliesLate s.effects

/-- `auth_ok` comes after the registration. -/
theorem registerEffects_late {userId : UserId} {before after : List Effect} {e : Effect}
    (h : registerEffects userId = before ++ e :: after) (hreply : e.isReply = true) :
    before.filterMap Effect.registers ≠ [] := by
  cases before with
  | nil =>
      obtain ⟨rfl, -⟩ := List.cons.inj h
      cases hreply
  | cons e' before =>
      obtain ⟨rfl, -⟩ := List.cons.inj h
      simp [Effect.registers]

theorem repliesLate_nil : RepliesLate [] := by
  intro before e after heq
  simp at heq

/-- More effects, where a registration comes before the replies. -/
theorem RepliesLate.append {effects more : List Effect} (h : RepliesLate effects)
    (hmore : ∀ before e after, more = before ++ e :: after → e.isReply = true →
      effects.filterMap Effect.registers ≠ [] ∨ before.filterMap Effect.registers ≠ []) :
    RepliesLate (effects ++ more) := by
  intro before e after heq hreply
  rcases List.append_eq_append_iff.mp heq with ⟨mid, hbefore, hmid⟩ | ⟨mid, heffects, hmid⟩
  · rw [hbefore, List.filterMap_append]
    rcases hmore mid e after hmid hreply with hold | hnew
    · exact fun hnil => hold (List.append_eq_nil_iff.mp hnil).1
    · exact fun hnil => hnew (List.append_eq_nil_iff.mp hnil).2
  · cases mid with
    | nil =>
        rw [List.append_nil] at heffects
        subst heffects
        rcases hmore [] e after hmid.symm hreply with hold | hnew
        · exact hold
        · exact absurd rfl hnew
    | cons e' rest =>
        obtain ⟨rfl, -⟩ := List.cons.inj hmid
        exact h before e rest heffects hreply

section Steps

variable {env : Env} {initial : Option AuthIdentity} {first : Option (Clock × String)}
  {s s' : Socket} {e : Clock × SocketEvent}

/-- The socket after a round, before it is known whether the loop goes on. -/
def round (env : Env) (e : Clock × SocketEvent) (s : Socket) : Socket :=
  ⟨(s.session.handle env e.1 e.2).2.1, false, s.effects ++ (s.session.handle env e.1 e.2).2.2⟩

/-- A step is one round, and what comes after the loop when the round ends it. -/
theorem step_cases (h : s.step env e = some s') :
    s.ended = false ∧
      (((s.session.handle env e.1 e.2).1 = .next ∧ s' = s.round env e) ∨
        ((s.session.handle env e.1 e.2).1 = .break ∧ s' = (s.round env e).finish)) := by
  simp only [step, Option.ite_none_left_eq_some, Option.some.injEq] at h
  obtain ⟨hguard, rfl⟩ := h
  refine ⟨?_, ?_⟩
  · rw [Bool.or_eq_true, not_or] at hguard
    simpa using hguard.1
  · cases hflow : (s.session.handle env e.1 e.2).1 with
    | next => exact .inl ⟨rfl, rfl⟩
    | «break» => exact .inr ⟨rfl, rfl⟩

theorem registered_finish (s : Socket) : s.finish.registered = s.registered := by
  unfold registered finish
  cases s.session.userId <;> simp [Effect.registers]

namespace Reached

theorem start (now : Clock) (initial : Option AuthIdentity) :
    Reached env initial none (.start now initial) := by
  cases initial with
  | none => exact ⟨rfl, rfl, rfl, rfl, rfl, repliesLate_nil⟩
  | some identity =>
      refine ⟨rfl, rfl, rfl, rfl, rfl, ?_⟩
      exact repliesLate_nil.append fun before e after heq hreply =>
        .inr (registerEffects_late heq hreply)

/-- After the loop the socket is unregistered, if it was registered. -/
theorem finish (h : Reached env initial first s) (hended : s.ended = false) :
    Reached env initial first s.finish where
  userId := h.userId
  authenticated := h.authenticated
  accepts := h.accepts
  registered := by
    rw [registered_finish]
    exact h.registered
  unregistered := by
    -- until now it was not unregistered
    have hnone := h.unregistered
    rw [hended, if_neg Bool.false_ne_true] at hnone
    rw [registered_finish, h.registered]
    unfold Socket.unregistered at hnone ⊢
    unfold Socket.finish
    rw [List.filterMap_append, hnone]
    cases s.session.userId <;> rfl
  replies := by
    refine h.replies.append fun before e after heq hreply => ?_
    -- what is enqueued after the loop is the unregistration, no reply
    have hmem : e ∈ (s.session.userId.map Effect.unregister).toList := by
      rw [heq]
      simp
    cases hu : s.session.userId with
    | none => simp [hu] at hmem
    | some u =>
        rw [hu] at hmem
        obtain rfl := List.mem_singleton.mp hmem
        cases hreply

/-- The first text frame after the event `e`. -/
abbrev firstAfter (first : Option (Clock × String)) (e : Clock × SocketEvent) :
    Option (Clock × String) :=
  first.or (e.2.text?.map fun text => (e.1, text))

/-- A round that registers nobody keeps the user id and whether the socket is
authenticated. -/
theorem quiet (h : Reached env initial first s) (hended : s.ended = false)
    (hq : Quiet s.session (s.round env e).session (s.session.handle env e.1 e.2).2.2)
    (haccepts : (s.round env e).session.acceptsCompatibleAuthMessage =
      (s.session.acceptsCompatibleAuthMessage && e.2.text?.isNone))
    (huser : s.session.userId =
      (initial.or ((firstAfter first e).bind fun t => authOf env t.1 t.2)).map (·.userId)) :
    Reached env initial (firstAfter first e) (s.round env e) where
  userId := hq.userId.trans huser
  authenticated := by rw [hq.authenticated, hq.userId, h.authenticated]
  accepts := by
    rw [haccepts, h.accepts, Bool.and_assoc]
    unfold firstAfter
    cases first <;> cases e.2.text? <;> rfl
  registered := by
    have hreg : (s.round env e).registered = s.registered := by
      unfold Socket.registered Socket.round
      rw [List.filterMap_append, hq.registers, List.append_nil]
    rw [hreg, hq.userId, h.registered]
  unregistered := by
    have hnone := h.unregistered
    rw [hended, if_neg Bool.false_ne_true] at hnone
    change _ = if false then _ else _
    rw [if_neg Bool.false_ne_true, ← hnone]
    unfold Socket.unregistered Socket.round
    rw [List.filterMap_append, hq.unregisters, List.append_nil]
  replies := by
    refine h.replies.append fun before e' after heq hreply => .inl ?_
    have hmem : e' ∈ (s.session.handle env e.1 e.2).2.2 := by
      rw [heq]
      simp
    -- a reply is only sent to an authenticated socket, which was registered
    have hauth := hq.replies e' hmem hreply
    rw [h.authenticated] at hauth
    change s.registered ≠ []
    rw [h.registered]
    intro hnil
    rw [Option.toList_eq_nil_iff] at hnil
    rw [hnil] at hauth
    cases hauth

theorem initial_none (h : Reached env initial none s) (huser : s.session.userId = none) :
    initial = none := by
  have hu := h.userId
  rw [huser] at hu
  cases initial with
  | none => rfl
  | some identity => cases hu

/-- The first text frame authenticates the socket. -/
theorem authenticates {text : String} {identity : AuthIdentity}
    (h : Reached env initial none s) (hended : s.ended = false) (huser : s.session.userId = none)
    (he : e.2 = .incoming (.text text)) (hauth : authOf env e.1 text = some identity)
    (hround : s.session.handle env e.1 e.2 = (.next, { s.session.heard with
      userId := some identity.userId
      authenticated := true
      tokenExpiry := expiryOf e.1 identity }, registerEffects identity.userId)) :
    Reached env initial (firstAfter none e) (s.round env e) := by
  obtain rfl := h.initial_none huser
  -- not registered yet, so this is its only registration
  have hregistered : s.registered = [] := by rw [h.registered, huser, Option.toList_none]
  have hunregistered : s.unregistered = [] := by
    rw [h.unregistered, hended, if_neg Bool.false_ne_true]
  have hfirst : firstAfter none e = some (e.1, text) := by
    rw [firstAfter, he]
    rfl
  unfold Socket.round
  rw [hround, hfirst]
  refine ⟨?_, rfl, rfl, ?_, ?_, ?_⟩
  · simp [hauth]
  · unfold Socket.registered at hregistered ⊢
    rw [List.filterMap_append, hregistered]
    rfl
  · unfold Socket.unregistered at hunregistered ⊢
    rw [List.filterMap_append, hunregistered]
    rfl
  · exact h.replies.append fun before e' after heq hreply =>
      .inr (registerEffects_late heq hreply)

/-- **One round**, whether or not the socket was authenticated before it. -/
theorem round (h : Reached env initial first s) (hended : s.ended = false)
    (hfresh : s.session.authenticated = false → first = none) :
    Reached env initial (firstAfter first e) (s.round env e) ∧
      ((s.round env e).session.authenticated = false → first = none ∧
        (e.2.text? = none ∨ (s.session.handle env e.1 e.2).1 = .break)) := by
  cases hs : s.session.authenticated with
  | true =>
      obtain ⟨hq, haccepts, -⟩ := Session.handle_authenticated env e.1 e.2 hs
      refine ⟨h.quiet hended hq haccepts ?_, fun hfalse => ?_⟩
      -- authenticated by its headers or by its first text; neither is replaced
      · have hsome : s.session.userId ≠ none := by
          intro hnone
          rw [h.authenticated, hnone] at hs
          cases hs
        rw [h.userId] at hsome ⊢
        cases initial with
        | some identity => rfl
        | none =>
            cases first with
            | some t => rfl
            | none => exact absurd rfl hsome
      · rw [Socket.round, hq.authenticated, hs] at hfalse
        cases hfalse
  | false =>
      have huser : s.session.userId = none := by
        have hauth := h.authenticated
        rw [hs] at hauth
        simpa using hauth.symm
      -- still unauthenticated, so no text has come before
      obtain rfl := hfresh hs
      rcases Session.handle_unauthenticated env e.1 e.2 hs huser with
        ⟨text, identity, he, hauth, hround⟩ | ⟨hq, hend, hnone, haccepts⟩
      · refine ⟨h.authenticates hended huser he hauth hround, fun hfalse => ?_⟩
        rw [Socket.round, hround] at hfalse
        cases hfalse
      · refine ⟨h.quiet hended hq haccepts ?_, fun _ => ?_⟩
        · obtain rfl := h.initial_none huser
          rw [huser]
          cases htext : e.2.text? with
          | none => simp [firstAfter, htext]
          | some text =>
              have hauth := hnone text (SocketEvent.text?_eq_some.mp htext)
              simp [firstAfter, htext, hauth]
        · refine ⟨rfl, ?_⟩
          cases htext : e.2.text? with
          | none => exact .inl rfl
          | some text => exact .inr (hend (.inl ⟨text, SocketEvent.text?_eq_some.mp htext⟩))

end Reached

/-- The next round may start: a socket that is not authenticated got no text yet. -/
def Fresh (first : Option (Clock × String)) (s : Socket) : Prop :=
  s.ended = false → s.session.authenticated = false → first = none

theorem firstText_cons (e : Clock × SocketEvent) (es : List (Clock × SocketEvent)) :
    firstText (e :: es) = (e.2.text?.map fun text => (e.1, text)).or (firstText es) := by
  unfold firstText
  rw [List.findSome?_cons]
  cases e.2.text? <;> rfl

theorem Reached.step (h : Reached env initial first s) (hfresh : Fresh first s)
    (hstep : s.step env e = some s') :
    Reached env initial (Reached.firstAfter first e) s' ∧
      Fresh (Reached.firstAfter first e) s' := by
  obtain ⟨hended, hcases⟩ := step_cases hstep
  obtain ⟨hround, hend⟩ := h.round (e := e) hended (hfresh hended)
  rcases hcases with ⟨hflow, rfl⟩ | ⟨hflow, rfl⟩
  · refine ⟨hround, fun _ hauth => ?_⟩
    obtain ⟨rfl, htext | hbreak⟩ := hend hauth
    · simp [Reached.firstAfter, htext]
    · rw [hflow] at hbreak
      cases hbreak
  · exact ⟨hround.finish rfl, fun hfalse => by cases hfalse⟩

/-- **The state of every session**, whatever events come: what one round preserves, along
the run. -/
theorem Reached.run {es : List (Clock × SocketEvent)} (hrun : Run (Socket.step env) s es s')
    (h : Reached env initial first s) (hfresh : Fresh first s) :
    Reached env initial (first.or (firstText es)) s' ∧ Fresh (first.or (firstText es)) s' := by
  induction hrun generalizing first with
  | nil => simpa [firstText] using And.intro h hfresh
  | cons hstep _ ih =>
      obtain ⟨hnext, hfresh'⟩ := h.step hfresh hstep
      rw [firstText_cons, ← Option.or_assoc]
      exact ih hnext hfresh'

/-- The state of a session whose loop runs, or has ended, after the events `es`. -/
theorem reached_of_run {now : Clock} {es : List (Clock × SocketEvent)}
    (hrun : Run (Socket.step env) (.start now initial) es s) :
    Reached env initial (firstText es) s ∧ Fresh (firstText es) s :=
  (Reached.start now initial).run hrun fun _ _ => rfl

/-- Before registration a text that is no valid auth message, and a binary frame, end
the session. -/
theorem Reached.ends (h : Reached env initial first s) (hnone : s.registered = [])
    (hstep : s.step env e = some s') :
    (∀ text, e.2 = .incoming (.text text) → authOf env e.1 text = none → s'.ended = true) ∧
      (e.2 = .incoming .binary → s'.ended = true) := by
  have huser : s.session.userId = none := by
    rw [h.registered, Option.toList_eq_nil_iff] at hnone
    exact hnone
  have hauth : s.session.authenticated = false := by
    rw [h.authenticated, huser, Option.isSome_none]
  obtain ⟨-, hcases⟩ := step_cases hstep
  -- a round that breaks the loop is the last
  have hended : (s.session.handle env e.1 e.2).1 = .break → s'.ended = true := by
    intro hbreak
    rcases hcases with ⟨hflow, -⟩ | ⟨-, rfl⟩
    · rw [hflow] at hbreak
      cases hbreak
    · rfl
  rcases Session.handle_unauthenticated env e.1 e.2 hauth huser with
    ⟨text, identity, he, hid, -⟩ | ⟨-, hend, -, -⟩
  · refine ⟨fun text' he' hnot => ?_, fun hbinary => ?_⟩
    · rw [he] at he'
      obtain rfl : text = text' := by injection he' with he'; injection he'
      rw [hid] at hnot
      cases hnot
    · rw [he] at hbinary
      cases hbinary
  · exact ⟨fun text he _ => hended (hend (.inl ⟨text, he⟩)), fun he => hended (hend (.inr he))⟩

/-- After registration an auth message ends the session, unless it is the first text
of a socket that its headers authenticated, for the same user. -/
theorem Reached.second_auth (h : Reached env initial first s) (hsome : s.registered ≠ [])
    (hstep : s.step env e = some s') {text token : String} (he : e.2 = .incoming (.text text))
    (htoken : env.clientMessage text = some (.auth token)) :
    s'.ended = false ↔ ∃ identity again, initial = some identity ∧ first = none ∧
      authOf env e.1 text = some again ∧ again.userId = identity.userId := by
  have hauth : s.session.authenticated = true := by
    rw [h.authenticated]
    cases hu : s.session.userId with
    | some userId => rfl
    | none =>
        rw [h.registered, hu] at hsome
        exact absurd rfl hsome
  obtain ⟨-, hcases⟩ := step_cases hstep
  have hended : s'.ended = false ↔ (s.session.handle env e.1 e.2).1 = .next := by
    rcases hcases with ⟨hflow, rfl⟩ | ⟨hflow, rfl⟩
    · simp [hflow, Socket.round]
    · simp [hflow, Socket.finish]
  obtain ⟨-, -, hredundant⟩ :=
    Session.handle_authenticated env e.1 e.2 hauth
  rw [hended, hredundant text he ⟨token, htoken⟩]
  -- redundant: from headers, first text, and of the same user
  unfold Session.redundant
  rw [h.accepts, h.userId]
  cases initial with
  | none => simp
  | some identity =>
      cases first with
      | some t => simp
      | none =>
          simp only [Option.isSome_some, Option.isNone_none, Bool.and_self, if_pos,
            Option.some_or, Option.map_some]
          cases authOf env e.1 text with
          | none => simp
          | some again => simp [Option.filter]

/-! ### Before it is registered -/

/-- A ping or a pong on the socket's own queue. -/
def isControl : Effect → Bool
  | .enqueue m => !m.isText
  | _ => false

/-- A round before authentication that registers nobody and does not end the loop. -/
theorem controls_round {session : Session} (hauth : session.authenticated = false)
    (huser : session.userId = none) (hnext : (session.handle env e.1 e.2).1 = .next)
    (hnone : (session.handle env e.1 e.2).2.2.filterMap Effect.registers = []) :
    ∀ x ∈ (session.handle env e.1 e.2).2.2, isControl x = true := by
  obtain ⟨now, event⟩ := e
  cases event with
  | incoming message =>
      cases message with
      | text text =>
          simp only [Session.handle] at hnext hnone ⊢
          rw [Session.textMessage_unauthenticated text huser] at hnext hnone ⊢
          have hheard : session.heard.authenticated = false := hauth
          -- a text either registers or ends the loop
          rcases Session.applicationMessage_unauthenticated env now text hheard with
            ⟨identity, -, hround⟩ | ⟨-, reason, hround⟩
          · rw [hround] at hnone
            cases hnone
          · rw [hround] at hnext
            cases hnext
      | ping data => simp [Session.handle, isControl, Message.isText]
      | binary => simp [Session.handle, hauth] at hnext
      | _ => simp [Session.handle]
  | heartbeat =>
      simp only [Session.handle] at hnext ⊢
      split at hnext
      · cases hnext
      · rename_i halive
        rw [if_neg halive]
        simp [isControl, Message.isText]
  | _ => simp [Session.handle] at hnext ⊢

/-- **Until it is registered, the loop of a socket enqueues control frames only**: at
the first text that is not a valid auth message it ends. -/
theorem controls_only {now : Clock} {es : List (Clock × SocketEvent)}
    (h : Run (Socket.step env) (.start now initial) es s) (hended : s.ended = false)
    (hnone : s.registered = []) : ∀ x ∈ s.effects, isControl x = true := by
  -- as long as nobody is registered, the session is that of an anonymous client
  have hrun := h.invariant (I := fun s => s.ended = false → s.registered = [] →
      (s.session.authenticated = false ∧ s.session.userId = none) ∧
        ∀ x ∈ s.effects, isControl x = true) (fun e s s' ih hstep hended' hnone' => ?_)
    (fun _ hnone => ?_)
  · exact (hrun hended hnone).2
  · obtain ⟨hended, ⟨hnext, rfl⟩ | ⟨-, rfl⟩⟩ := step_cases hstep
    · rw [registered, round, List.filterMap_append, List.append_eq_nil_iff] at hnone'
      obtain ⟨⟨hauth, huser⟩, hcontrols⟩ := ih hended hnone'.1
      have hmore := controls_round hauth huser hnext hnone'.2
      refine ⟨?_, fun x hx => (List.mem_append.mp hx).elim (hcontrols x) (hmore x)⟩
      rcases Session.handle_unauthenticated env e.1 e.2 hauth huser with
        ⟨text, identity, -, -, hround⟩ | ⟨hquiet, -⟩
      · rw [hround] at hnone'
        cases hnone'.2
      · exact ⟨hquiet.authenticated.trans hauth, hquiet.userId.trans huser⟩
    · cases hended'
  · cases initial with
    | none => exact ⟨⟨rfl, rfl⟩, fun x hx => by cases hx⟩
    | some identity => cases hnone

end Steps

end Socket

open Socket in
/-- **The session state machine.** After any events, handled in this order from the
start of a socket with the identity `initial` of its headers:
- it was registered at most once, for the user of `initial` or else of a valid auth
  message in the first text frame, and keeps this user id from then on;
- no reply was enqueued before the registration, and until then a text that is no
  valid auth message and a binary frame end the session;
- a further auth message ends it, unless the headers authenticated the socket, it is
  the first text and its token belongs to the same user;
- when the loop has ended the socket was unregistered once with this user id if it
  was registered, and before that, or else, it was not. -/
theorem session_machine (env : Env) (initial : Option AuthIdentity) (now : Clock)
    {es : List (Clock × SocketEvent)} {s : Socket}
    (h : Run (Socket.step env) (.start now initial) es s) :
    (s.registered = ((initial.or ((firstText es).bind fun t => authOf env t.1 t.2)).map
        (·.userId)).toList ∧
      s.registered = s.session.userId.toList ∧
      ∀ userId es' s', s.session.userId = some userId → Run (Socket.step env) s es' s' →
        s'.session.userId = some userId ∧ s'.registered = [userId]) ∧
    (RepliesLate s.effects ∧
      ∀ e s', s.step env e = some s' → s.registered = [] →
        (∀ text, e.2 = .incoming (.text text) → authOf env e.1 text = none → s'.ended = true) ∧
          (e.2 = .incoming .binary → s'.ended = true)) ∧
    (∀ e s' text token, s.step env e = some s' → s.registered ≠ [] →
      e.2 = .incoming (.text text) → env.clientMessage text = some (.auth token) →
        (s'.ended = false ↔ ∃ identity again, initial = some identity ∧ firstText es = none ∧
          authOf env e.1 text = some again ∧ again.userId = identity.userId)) ∧
    s.unregistered = if s.ended then s.registered else [] := by
  obtain ⟨hreached, hfresh⟩ := reached_of_run h
  refine ⟨⟨?_, hreached.registered, ?_⟩, ⟨hreached.replies, ?_⟩, ?_, hreached.unregistered⟩
  · rw [hreached.registered, hreached.userId]
  · intro userId es' s' huser hrun
    -- the invariant of the longer run, with the same first text
    have hlater := (hreached.run hrun hfresh).1
    have hsame : s'.session.userId = some userId := by
      rw [hreached.userId] at huser
      rw [hlater.userId]
      cases initial with
      | some identity => exact huser
      | none =>
          cases hfirst : firstText es with
          | none => simp [hfirst] at huser
          | some t => simpa [hfirst] using huser
    exact ⟨hsame, by rw [hlater.registered, hsame, Option.toList_some]⟩
  · intro e s' hstep hnone
    exact hreached.ends hnone hstep
  · intro e s' text token hstep hsome he htoken
    exact hreached.second_auth hsome hstep he htoken

/-! ### A session -/

def authText : String := "\x7b\"type\":\"auth\",\"token\":\"token-7\"\x7d"

def pingText : String := "\x7b\"type\":\"ping\"\x7d"

/-- The parameters on the texts of one client, who holds a token of user 7. -/
def demoEnv : Env where
  jwt := ⟨fun token now => if token = "token-7" ∧ now ≤ 86400 then some ⟨7, none, 86400⟩ else none⟩
  clientMessage text :=
    if text = authText then some (.auth "token-7")
    else if text = pingText then some .ping
    else none

/-- The client authenticates, pings, and authenticates again. -/
def demoEvents : List (Clock × SocketEvent) :=
  [(⟨1, 0⟩, .incoming (.text authText)), (⟨2, 0⟩, .incoming (.text pingText)),
    (⟨3, 0⟩, .incoming (.text authText))]

theorem session_machine_demo : ∃ s : Socket,
    Run (Socket.step demoEnv) (.start ⟨0, 0⟩ none) demoEvents s ∧
      s.ended = true ∧ s.registered = [7] ∧ s.unregistered = [7] := by
  have hrun : (replay (Socket.step demoEnv) (.start ⟨0, 0⟩ none) demoEvents).map
      (fun s => (s.ended, s.session.userId)) = some (true, some 7) := by decide
  obtain ⟨s, hs, hend⟩ := Option.map_eq_some_iff.mp hrun
  obtain ⟨hended, huser⟩ := Prod.mk.inj hend
  have hsession := session_machine demoEnv none ⟨0, 0⟩ (run_of_replay hs)
  have hregistered : s.registered = [7] := by rw [hsession.1.2.1, huser, Option.toList_some]
  refine ⟨s, run_of_replay hs, hended, hregistered, ?_⟩
  rw [hsession.2.2.2, hended, if_pos rfl, hregistered]

end DevbitBackend.Ws
