import DevbitBackend.Lib.Monitor
import DevbitBackend.Social.Model
import Mathlib.Data.List.AList

/-!
# Ws.Registry

The registry of live WebSocket connections (`ws.rs`, `WsState`): its map from a
user to the connections of this user, the outbound queues behind them, and the
five operations on it as tasks of a monitor whose mutex is
`presence_transitions`.

The map is sharded, and each access to it runs under the lock of one shard, so
one access is one step; a `broadcast` visits the shards one after another. A
queue is its channel: any number of clones of a sender reach the same one.
-/

namespace DevbitBackend.Ws

open Social (UserId)
open Monitor

/-- `Tx`: the sender of an outbound queue, by its channel. -/
abbrev Tx := Nat

/-- `DisconnectTx`: the sender of a disconnect signal, by its channel. -/
abbrev DisconnectTx := Nat

structure WsConnection where
  sender : Tx
  disconnect : DisconnectTx
  deriving DecidableEq, Repr

/-- `OUTBOUND_QUEUE_CAPACITY`. -/
def outboundQueueCapacity : Nat := 64

inductive ServerMessage
  | pong
  | authOk (userId : UserId)
  | authError (reason : String)
  | userOnline (userId : UserId)
  | userOffline (userId : UserId)
  | subscribed (channel : String)
  deriving DecidableEq, Repr

/-- `axum::extract::ws::Message`, as the server sends it. -/
inductive Message
  /-- A text frame: a serialized server message. -/
  | server (message : ServerMessage)
  /-- A text frame that a handler built. -/
  | text (json : String)
  | ping
  | pong (data : List UInt8)
  deriving DecidableEq, Repr

/-- The other frames are control frames. -/
def Message.isText : Message → Bool
  | .server _ | .text _ => true
  | .ping | .pong _ => false

/-! ### Outbound queues -/

structure Channel where
  /-- The receiver has not been dropped. -/
  isOpen : Bool
  /-- What the forward task has taken out, in order. -/
  taken : List Message
  queue : List Message
  deriving DecidableEq, Repr

/-- `mpsc::channel(OUTBOUND_QUEUE_CAPACITY)`. -/
def Channel.new : Channel := ⟨true, [], []⟩

/-- `enqueue`: a full queue drops the message and still answers `true`, a closed
one answers `false`. -/
def Channel.enqueue (c : Channel) (message : Message) : Bool × Channel :=
  if c.isOpen then
    if c.queue.length < outboundQueueCapacity then
      (true, { c with queue := c.queue ++ [message] })
    else (true, c)
  else (false, c)

/-- The forward task takes the oldest message. -/
def Channel.forward (c : Channel) : Channel :=
  match c.isOpen, c.queue with
  | true, m :: rest => { c with taken := c.taken ++ [m], queue := rest }
  | _, _ => c

/-! ### The registry -/

/-- How the map spreads its keys: `of` is the shard of a user. -/
structure Sharding where
  count : Nat
  of : UserId → Fin count

structure Registry where
  connections : AList fun _ : UserId => List WsConnection
  channels : Tx → Channel
  /-- The last value of each disconnect signal. -/
  disconnects : DisconnectTx → Bool
  /-- History: the presence messages given to `broadcast`, in order. -/
  announced : List ServerMessage

/-- `WsState::new`, with no queue used yet. -/
def Registry.new : Registry := ⟨∅, fun _ => .new, fun _ => false, []⟩

namespace Registry

/-- `enqueue(sender, message)`: a `try_send`, which drops the message when the queue is
full. The answer is whether the receiver is still there. -/
def enqueue (sender : Tx) (message : Message) (r : Registry) : Bool × Registry :=
  let (sent, channel) := (r.channels sender).enqueue message
  (sent, { r with channels := Function.update r.channels sender channel })

/-- `senders.retain(|connection| enqueue(&connection.sender, message))`. -/
def retainEnqueue (message : Message) :
    List WsConnection → (Tx → Channel) → List WsConnection × (Tx → Channel)
  | [], channels => ([], channels)
  | c :: cs, channels =>
      let (sent, channel) := (channels c.sender).enqueue message
      let (kept, channels) := retainEnqueue message cs (Function.update channels c.sender channel)
      (if sent then c :: kept else kept, channels)

/-- `WsState::register`: whether the user was offline. -/
def register (userId : UserId) (connection : WsConnection) (r : Registry) : Bool × Registry :=
  let senders := (r.connections.lookup userId).getD []
  (senders.isEmpty,
    { r with connections := r.connections.insert userId (senders ++ [connection]) })

/-- `WsState::unregister`, its first statement: the connections on the channel of
`sender` are dropped, which may leave an empty vector. -/
def retainOther (userId : UserId) (sender : Tx) (r : Registry) : Registry :=
  match r.connections.lookup userId with
  | none => r
  | some senders =>
      { r with connections := r.connections.insert userId (senders.filter (·.sender != sender)) }

/-- `WsState::unregister`, its second statement: `remove_if` the vector is empty. -/
def removeIfEmpty (userId : UserId) (r : Registry) : Bool × Registry :=
  match r.connections.lookup userId with
  | some [] => (true, { r with connections := r.connections.erase userId })
  | _ => (false, r)

/-- `WsState::send_to_user`, and one entry of `broadcast`. -/
def sendToUser (userId : UserId) (message : Message) (r : Registry) : Registry :=
  match r.connections.lookup userId with
  | none => r
  | some senders =>
      let (kept, channels) := retainEnqueue message senders r.channels
      { r with connections := r.connections.insert userId kept, channels := channels }

/-- `WsState::broadcast`, the entries of one shard. -/
def broadcastShard (sharding : Sharding) (shard : Nat) (message : Message) (r : Registry) :
    Registry :=
  (r.connections.keys.filter fun u => (sharding.of u).val == shard).foldl
    (fun r u => r.sendToUser u message) r

/-- `self.connections.remove(&user_id)`. -/
def remove (userId : UserId) (r : Registry) : Option (List WsConnection) × Registry :=
  (r.connections.lookup userId, { r with connections := r.connections.erase userId })

/-- `connection.disconnect.send_replace(true)`. -/
def sendReplace (disconnect : DisconnectTx) (r : Registry) : Registry :=
  { r with disconnects := Function.update r.disconnects disconnect true }

end Registry

/-! ### The operations -/

/-- The first access to the map under `presence_transitions`. -/
inductive Access
  /-- `ws_state.register(..)`. -/
  | register (userId : UserId) (connection : WsConnection)
  /-- `senders.retain(..)` of `unregister`. -/
  | retain (userId : UserId) (sender : Tx)
  /-- `self.connections.remove(..)` of `disconnect_user`. -/
  | remove (userId : UserId)
  deriving DecidableEq, Repr

/-- What a call still has to run. Each constructor is a statement of the source
with the values it uses. -/
inductive Task
  /-- Returned; `unregister_authenticated_connection` answers whether the user
  went offline. -/
  | done (answer : Option Bool)
  /-- `presence_transitions.lock()`. -/
  | lock (first : Access)
  | access (first : Access)
  /-- `enqueue_server_message(sender, AuthOk)`. -/
  | authOk (userId : UserId) (sender : Tx) (cameOnline : Bool)
  /-- `self.connections.remove_if(..)` of `unregister`. -/
  | removeIf (userId : UserId)
  /-- The loop over the removed connections of `disconnect_user`. -/
  | disconnect (senders : List WsConnection) (userId : UserId)
  /-- A presence message is given to `broadcast`. -/
  | announce (message : ServerMessage) (answer : Option Bool)
  /-- `broadcast` before the shard `shard`; called under the mutex, it goes on
  with `answer`. -/
  | broadcast (message : Message) (shard : Nat) (caller : Option (Option Bool))
  /-- The guard of `presence_transitions` is dropped. -/
  | unlock (answer : Option Bool)
  | sendToUser (userId : UserId) (json : String)
  deriving DecidableEq, Repr

def registerAuthenticatedConnection (sender : Tx) (disconnect : DisconnectTx)
    (userId : UserId) : Task :=
  .lock (.register userId ⟨sender, disconnect⟩)

def unregisterAuthenticatedConnection (sender : Tx) (userId : UserId) : Task :=
  .lock (.retain userId sender)

def disconnectUser (userId : UserId) : Task := .lock (.remove userId)

def broadcast (json : String) : Task := .broadcast (.text json) 0 none

/-- The next statement of a call. -/
def Task.next (sharding : Sharding) : Task → Registry → Task × Registry
  | .done answer, r => (.done answer, r)
  | .lock first, r => (.access first, r)
  | .access (.register userId connection), r =>
      let (cameOnline, r) := r.register userId connection
      (.authOk userId connection.sender cameOnline, r)
  | .authOk userId sender cameOnline, r =>
      let (_, r) := r.enqueue sender (.server (.authOk userId))
      (if cameOnline then .announce (.userOnline userId) none else .unlock none, r)
  | .access (.retain userId sender), r => (.removeIf userId, r.retainOther userId sender)
  | .removeIf userId, r =>
      let (removed, r) := r.removeIfEmpty userId
      (if removed then .announce (.userOffline userId) (some true) else .unlock (some false), r)
  | .access (.remove userId), r =>
      match r.remove userId with
      | (none, r) => (.unlock none, r)
      | (some senders, r) => (.disconnect senders userId, r)
  | .disconnect [] userId, r => (.announce (.userOffline userId) none, r)
  | .disconnect (c :: senders) userId, r => (.disconnect senders userId, r.sendReplace c.disconnect)
  | .announce message answer, r =>
      (.broadcast (.server message) 0 (some answer),
        { r with announced := r.announced ++ [message] })
  | .broadcast message shard caller, r =>
      if shard < sharding.count then
        (.broadcast message (shard + 1) caller, r.broadcastShard sharding shard message)
      else
        match caller with
        | none => (.done none, r)
        | some answer => (.unlock answer, r)
  | .unlock answer, r => (.done answer, r)
  | .sendToUser userId json, r => (.done none, r.sendToUser userId (.text json))

def Task.isDone : Task → Bool
  | .done _ => true
  | _ => false

def Task.acquires : Task → Bool
  | .lock _ => true
  | _ => false

/-- The guard of `presence_transitions` is held. -/
def Task.inside : Task → Bool
  | .done _ | .lock _ | .sendToUser _ _ | .broadcast _ _ none => false
  | _ => true

inductive Call
  | registerAuthenticatedConnection (sender : Tx) (disconnect : DisconnectTx) (userId : UserId)
  | unregisterAuthenticatedConnection (sender : Tx) (userId : UserId)
  | disconnectUser (userId : UserId)
  | sendToUser (userId : UserId) (json : String)
  | broadcast (json : String)
  deriving DecidableEq, Repr

def Call.code : Call → Task
  | .registerAuthenticatedConnection sender disconnect userId =>
      Ws.registerAuthenticatedConnection sender disconnect userId
  | .unregisterAuthenticatedConnection sender userId =>
      Ws.unregisterAuthenticatedConnection sender userId
  | .disconnectUser userId => Ws.disconnectUser userId
  | .sendToUser userId json => .sendToUser userId json
  | .broadcast json => Ws.broadcast json

/-- What the sockets do to their queues. -/
inductive Event
  /-- The receiver is dropped. -/
  | close (sender : Tx)
  | forward (sender : Tx)
  /-- The loop of `handle_socket` enqueues a frame of its own: a reply, or a control
  frame, which it also does before the socket is authenticated. -/
  | frame (sender : Tx) (message : Message)
  deriving DecidableEq, Repr

/-- The socket that makes the move. -/
def Event.sender : Event → Tx
  | .close sender | .forward sender | .frame sender _ => sender

def Event.apply : Event → Registry → Registry
  | .close sender, r =>
      let channel := { r.channels sender with isOpen := false }
      { r with channels := Function.update r.channels sender channel }
  | .forward sender, r =>
      { r with channels := Function.update r.channels sender (r.channels sender).forward }
  | .frame sender message, r => (r.enqueue sender message).2

/-- The registry as a monitor. -/
def wsMachine (sharding : Sharding) : Machine Registry Task Call Event where
  code := Call.code
  isDone := Task.isDone
  acquires := Task.acquires
  inside := Task.inside
  next := Task.next sharding
  env := Event.apply

theorem wsMachine_lawful (sharding : Sharding) : (wsMachine sharding).Lawful where
  code_outside c := by cases c <;> rfl
  done_outside t ht := by cases t <;> first | rfl | cases ht
  acquires_outside t ht := by cases t <;> first | rfl | cases ht
  next_outside t r ha hi := by
    cases t with
    | done _ | sendToUser _ _ => rfl
    | lock _ => cases ha
    | broadcast message shard caller =>
        cases caller with
        | none =>
            simp only [wsMachine, Task.next]
            split <;> rfl
        | some _ => cases hi
    | _ => cases hi

/-- A registry that nobody uses yet. -/
def freshRegistry {ι : Type} : System Registry Task ι := start (.done none) .new

end DevbitBackend.Ws
