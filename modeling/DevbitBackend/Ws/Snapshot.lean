import DevbitBackend.Social.Relationship
import DevbitBackend.Ws.Registry
import Mathlib.Data.List.Sort

/-!
# Ws.Snapshot

The presence endpoint (`presence` of `social/relationships.rs`) next to the
registry it reads. A request loads its relationships once and then asks the
registry about one user after another, in any order; sockets come and go between
these reads.
-/

namespace DevbitBackend.Ws

open Social (UserId SocialError RelationshipContext)
open Monitor

/-! ### The requested users -/

/-- `str::parse::<i64>`. -/
def parseI64 (s : String) : Option Int :=
  let value : Option Int :=
    match s.toList with
    | '-' :: digits => (parseDigits digits).map fun n => -(n : Int)
    | '+' :: digits => (parseDigits digits).map fun n => (n : Int)
    | digits => (parseDigits digits).map fun n => (n : Int)
  value.filter fun n => -9223372036854775808 ≤ n ∧ n ≤ 9223372036854775807

def presenceId (value : String) : Except SocialError UserId :=
  match (parseI64 (trim value)).bind fun id => (Social.positiveId id "userIds").toOption with
  | some id => .ok id
  | none => .error (.validation "userIds" "userIds 必须是逗号分隔的正整数")

/-- The set `requested`. -/
def requestedIds (userIds : Option String) : Except SocialError (List UserId) :=
  let values := (splitOn ',' (userIds.getD "")).filter fun value => !(trim value).toList.isEmpty
  match values.mapM presenceId with
  | .error e => .error e
  | .ok ids =>
      if 100 < ids.dedup.length then .error (.validation "userIds" "一次最多查询 100 位用户")
      else .ok ids.dedup

/-! ### The answer -/

inductive Status
  | online
  | offline
  deriving DecidableEq, Repr

structure PresenceEntry where
  userId : UserId
  status : Status
  deriving DecidableEq, Repr

structure PresenceSnapshot where
  users : List PresenceEntry
  generatedAt : Nat
  deriving DecidableEq, Repr

/-- `WsState::is_online`. -/
def Registry.isOnline (userId : UserId) (r : Registry) : Bool :=
  (r.connections.lookup userId).any fun senders => !senders.isEmpty

def Registry.entry (userId : UserId) (r : Registry) : PresenceEntry :=
  ⟨userId, if r.isOnline userId then .online else .offline⟩

/-- A presence request. -/
inductive Query
  /-- It has not arrived. -/
  | idle
  /-- The users whose status is still to be read, and the entries so far. -/
  | reading (viewer : UserId) (rest : List UserId) (users : List PresenceEntry)
  | answered (viewer : UserId) (answer : Except SocialError PresenceSnapshot)

def Query.viewer : Query → Option UserId
  | .idle => none
  | .reading viewer _ _ | .answered viewer _ => some viewer

/-- `presence` before its first read, for a caller that is signed in. Users that
are neither the viewer nor a friend are skipped. -/
def presence (db : Social.Db) (viewer : UserId) (userIds : Option String) : Query :=
  match requestedIds userIds with
  | .error e => .answered viewer (.error e)
  | .ok targets =>
      let context := RelationshipContext.load db viewer targets
      .reading viewer (targets.filter fun t => t == viewer || context.friends.contains t) []

/-! ### The server -/

/-- The registry with the calls that run on it, and the presence requests. -/
structure Node (ι κ : Type) where
  registry : System Registry Task ι
  queries : κ → Query

inductive Node.Move (ι κ : Type)
  /-- A call, a statement of one, or what a socket does to its queue. -/
  | ws (l : Label Call Event ι)
  /-- A request arrives, with the relationships it will load. -/
  | request (k : κ) (db : Social.Db) (viewer : UserId) (userIds : Option String)
  /-- `is_online` of one of its targets. -/
  | read (k : κ) (target : UserId)
  | respond (k : κ) (now : Nat)

variable {ι κ : Type} [DecidableEq ι] [DecidableEq κ]

namespace Node

/-- Nobody is connected, and no request has arrived. -/
def start : Node ι κ := ⟨freshRegistry, fun _ => .idle⟩

/-- The request `k` goes on as `query`. -/
def answer (k : κ) (query : Query) (s : Node ι κ) : Node ι κ :=
  { s with queries := Function.update s.queries k query }

/-- The state of the registry goes on as `r`. -/
def store (r : Registry) (s : Node ι κ) : Node ι κ :=
  { s with registry := { s.registry with shared := r } }

def step (sharding : Sharding) : Move ι κ → Node ι κ → Option (Node ι κ)
  | .ws l, s => ((wsMachine sharding).step l s.registry).map fun registry =>
      { s with registry := registry }
  | .request k db viewer userIds, s =>
      match s.queries k with
      | .idle => some (s.answer k (presence db viewer userIds))
      | _ => none
  | .read k target, s =>
      match s.queries k with
      | .reading viewer rest users =>
          if target ∈ rest then
            some (s.answer k (.reading viewer (rest.erase target)
              (users ++ [s.registry.shared.entry target])))
          else none
      | _ => none
  | .respond k now, s =>
      match s.queries k with
      | .reading viewer [] users =>
          some (s.answer k (.answered viewer
            (.ok ⟨users.insertionSort fun a b => a.userId ≤ b.userId, now⟩)))
      | _ => none

end Node

/-! ### Who is shown -/

/-- The viewer is shown nobody but friends and themselves. -/
theorem presence_shows {db : Social.Db} (hs : Social.SchemaOk db) {viewer viewer' : UserId}
    {userIds : Option String} {rest : List UserId} {users : List PresenceEntry}
    (h : presence db viewer userIds = .reading viewer' rest users) {target : UserId}
    (ht : target ∈ rest) : target = viewer ∨ db.areFriends viewer target = true := by
  unfold presence at h
  split at h
  · cases h
  · cases h
    obtain ⟨hmem, hshown⟩ := List.mem_filter.mp ht
    simp only [Bool.or_eq_true, beq_iff_eq, List.contains_iff_mem] at hshown
    exact hshown.imp_right (RelationshipContext.friends_load hs hmem).mp

end DevbitBackend.Ws
