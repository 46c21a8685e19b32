import DevbitBackend.Ws.Sockets

/-!
# Ws.AuthOk

**`auth_ok` comes first**, as long as nobody sends to a connection while it waits
for it, and its queue has room for it. `register_authenticated_connection` pushes the
connection into the map and enqueues `auth_ok` in the next statement; sends take no
mutex, so a private message or a broadcast of another task may fall between the two.
And a socket that authenticates with its first text has used its queue before: the
heartbeat and the pings of the client put control frames there, and a full queue
drops `auth_ok`.
-/

namespace DevbitBackend.Ws

open Social (UserId)
open Monitor Transition

/-! ### What was put into a queue -/

/-- Every message that was put into the queue, in order. -/
def Channel.put (c : Channel) : List Message := c.taken ++ c.queue

/-- The text messages among them. -/
def Channel.texts (c : Channel) : List Message := c.put.filter Message.isText

/-- A message that is enqueued now is put into the queue. -/
def Channel.accepts (c : Channel) : Bool :=
  c.isOpen && decide (c.queue.length < outboundQueueCapacity)

theorem Channel.enqueue_eq (c : Channel) (m : Message) :
    c.enqueue m = (c.isOpen, if c.accepts then { c with queue := c.queue ++ [m] } else c) := by
  unfold Channel.enqueue Channel.accepts
  cases c.isOpen with
  | true =>
      by_cases hroom : c.queue.length < outboundQueueCapacity
      · simp [hroom]
      · simp [hroom]
  | false => rfl

theorem Channel.accepts_of_closed {c : Channel} (hc : c.isOpen = false) : c.accepts = false := by
  rw [Channel.accepts, hc, Bool.false_and]

/-- Text messages were put at the end, and nothing happened to a queue that accepts
none. -/
structure Grows (c c' : Channel) : Prop where
  isOpen : c'.isOpen = c.isOpen
  texts : ∃ messages, c'.texts = c.texts ++ messages
  same : c.accepts = false → c' = c

namespace Grows

variable {c c' c'' : Channel}

theorem refl (c : Channel) : Grows c c := ⟨rfl, ⟨[], (List.append_nil _).symm⟩, fun _ => rfl⟩

theorem trans (h : Grows c c') (h' : Grows c' c'') : Grows c c'' := by
  obtain ⟨messages, htexts⟩ := h.texts
  obtain ⟨messages', htexts'⟩ := h'.texts
  refine ⟨h'.isOpen.trans h.isOpen, ⟨messages ++ messages', ?_⟩, fun hc => ?_⟩
  · rw [htexts', htexts, List.append_assoc]
  · have hsame := h.same hc
    rw [h'.same (hsame ▸ hc), hsame]

theorem enqueue (c : Channel) (m : Message) : Grows c (c.enqueue m).2 := by
  rw [Channel.enqueue_eq]
  cases hc : c.accepts with
  | true =>
      refine ⟨rfl, ⟨[m].filter Message.isText, ?_⟩, fun hno => ?_⟩
      · simp [Channel.texts, Channel.put]
      · rw [hc] at hno
        cases hno
  | false => exact refl c

end Grows

/-- The text messages after one more, in a queue that accepts it. -/
theorem texts_enqueue {c : Channel} (hc : c.accepts = true) {m : Message}
    (hm : m.isText = true) : (c.enqueue m).2.texts = c.texts ++ [m] := by
  rw [Channel.enqueue_eq, hc]
  simp [Channel.texts, Channel.put, hm]

theorem put_forward (c : Channel) : c.forward.put = c.put := by
  unfold Channel.forward
  split
  · rename_i hqueue
    simp [Channel.put, hqueue]
  · rfl

/-- The texts of a queue whose receiver may have been dropped. -/
structure Extends (c c' : Channel) : Prop where
  texts : ∃ messages, c'.texts = c.texts ++ messages
  closed : c.isOpen = false → c'.isOpen = false ∧ c'.texts = c.texts

namespace Extends

variable {c c' : Channel}

theorem of_texts (hopen : c.isOpen = false → c'.isOpen = false) (h : c'.texts = c.texts) :
    Extends c c' :=
  ⟨⟨[], by rw [h, List.append_nil]⟩, fun hc => ⟨hopen hc, h⟩⟩

theorem of_grows (h : Grows c c') : Extends c c' where
  texts := h.texts
  closed hc := by
    rw [h.same (Channel.accepts_of_closed hc)]
    exact ⟨hc, rfl⟩

/-- The first text message stays the first. -/
theorem head (h : Extends c c') {m : Message} (hm : c.texts.head? = some m) :
    c'.texts.head? = some m := by
  obtain ⟨messages, htexts⟩ := h.texts
  rw [htexts, List.head?_append, hm, Option.some_or]

end Extends

theorem Grows.head {c c' : Channel} (h : Grows c c') {m : Message}
    (hm : c.texts.head? = some m) : c'.texts.head? = some m :=
  (Extends.of_grows h).head hm

/-- A socket's move leaves the texts of a queue alone, unless it puts one there. -/
theorem texts_apply {e : Event} {sender : Tx} (he : ∀ m, e ≠ .frame sender m) (r : Registry) :
    ((e.apply r).channels sender).texts = (r.channels sender).texts := by
  cases e with
  | close x =>
      by_cases hx : sender = x
      · subst hx
        simp [Event.apply, Channel.texts, Channel.put]
      · simp [Event.apply, Function.update_of_ne hx]
  | forward x =>
      by_cases hx : sender = x
      · subst hx
        simp [Event.apply, Channel.texts, put_forward]
      · simp [Event.apply, Function.update_of_ne hx]
  | frame x m =>
      have hx : sender ≠ x := fun heq => he m (heq ▸ rfl)
      simp [Event.apply, Registry.enqueue, Function.update_of_ne hx]

theorem extends_apply (e : Event) (r : Registry) (sender : Tx) :
    Extends (r.channels sender) ((e.apply r).channels sender) := by
  cases e with
  | close x =>
      refine .of_texts (fun hc => ?_) (texts_apply (fun _ h => by cases h) r)
      by_cases hx : sender = x
      · subst hx
        simp [Event.apply]
      · simpa [Event.apply, Function.update_of_ne hx] using hc
  | forward x =>
      refine .of_texts (fun hc => ?_) (texts_apply (fun _ h => by cases h) r)
      by_cases hx : sender = x
      · subst hx
        simp [Event.apply, Channel.forward, hc]
      · simpa [Event.apply, Function.update_of_ne hx] using hc
  | frame x m =>
      by_cases hx : sender = x
      · subst hx
        simpa [Event.apply, Registry.enqueue] using Extends.of_grows (.enqueue _ m)
      · simpa [Event.apply, Registry.enqueue, Function.update_of_ne hx] using
          Extends.of_grows (.refl _)

/-! ### Which queues a statement reaches -/

/-- The next statement sends to the connections of `u`. -/
def Task.reaches (sharding : Sharding) (u : UserId) : Task → Bool
  | .sendToUser v _ => v == u
  | .broadcast _ shard _ => (sharding.of u).val == shard
  | _ => false

/-- The user has a connection on the channel of `sender`. -/
def Registry.Holds (r : Registry) (u : UserId) (sender : Tx) : Prop :=
  ∃ senders, r.connections.lookup u = some senders ∧ ∃ c ∈ senders, c.sender = sender

/-- The next statement enqueues a message on the channel of `sender`, which it finds
in the map. -/
def Task.SendsOn (sharding : Sharding) (t : Task) (r : Registry) (sender : Tx) : Prop :=
  ∃ u, t.reaches sharding u = true ∧ r.Holds u sender

/-- The queues of these users grow, and only theirs. -/
structure Feeds (users : UserId → Prop) (r r' : Registry) : Prop where
  grows : ∀ sender, Grows (r.channels sender) (r'.channels sender)
  other : ∀ sender, (∀ u, users u → ¬ r.Holds u sender) →
    r'.channels sender = r.channels sender

namespace Feeds

variable {users : UserId → Prop} {r r' r'' : Registry}

/-- No queue changes, so none is fed. -/
theorem same (h : r'.channels = r.channels) : Feeds users r r' where
  grows sender := by rw [h]; exact .refl _
  other sender _ := by rw [h]

theorem trans (h : Feeds users r r') (hp : Prunes r r') (h' : Feeds users r' r'') :
    Feeds users r r'' where
  grows sender := (h.grows sender).trans (h'.grows sender)
  other sender hnot := by
    rw [h'.other sender, h.other sender hnot]
    rintro u hu ⟨senders', hl, c, hc, hsender⟩
    obtain ⟨senders, hl', hsub⟩ := hp.sublist u senders' hl
    exact hnot u hu ⟨senders, hl', c, hsub.subset hc, hsender⟩

theorem mono {users' : UserId → Prop} (h : Feeds users r r') (hsub : ∀ u, users u → users' u) :
    Feeds users' r r' where
  grows := h.grows
  other sender hnot := h.other sender fun u hu => hnot u (hsub u hu)

end Feeds

namespace Registry

theorem grows_retainEnqueue (m : Message) (senders : List WsConnection) (channels : Tx → Channel)
    (sender : Tx) : Grows (channels sender) ((retainEnqueue m senders channels).2 sender) := by
  induction senders generalizing channels with
  | nil => exact .refl _
  | cons c senders ih =>
      have hrest := ih (Function.update channels c.sender ((channels c.sender).enqueue m).2)
      unfold retainEnqueue
      refine Grows.trans ?_ hrest
      by_cases hc : sender = c.sender
      · subst hc
        rw [Function.update_self]
        exact .enqueue _ m
      · rw [Function.update_of_ne hc]
        exact .refl _

theorem retainEnqueue_other (m : Message) {senders : List WsConnection} (channels : Tx → Channel)
    {sender : Tx} (h : ∀ c ∈ senders, c.sender ≠ sender) :
    (retainEnqueue m senders channels).2 sender = channels sender := by
  induction senders generalizing channels with
  | nil => rfl
  | cons c senders ih =>
      obtain ⟨hc, hrest⟩ := List.forall_mem_cons.mp h
      unfold retainEnqueue
      exact (ih _ hrest).trans (Function.update_of_ne hc.symm _ _)

/-- A text that is sent to an open queue without texts is its first. -/
theorem head_retainEnqueue {m : Message} (hm : m.isText = true) {senders : List WsConnection}
    {channels : Tx → Channel} {sender : Tx} (hc : ∃ c ∈ senders, c.sender = sender)
    (hnil : (channels sender).texts = []) (haccepts : (channels sender).accepts = true) :
    ((retainEnqueue m senders channels).2 sender).texts.head? = some m := by
  induction senders generalizing channels with
  | nil =>
      obtain ⟨c, hc, -⟩ := hc
      cases hc
  | cons c senders ih =>
      unfold retainEnqueue
      by_cases hsender : c.sender = sender
      · subst hsender
        refine (grows_retainEnqueue m senders _ c.sender).head ?_
        rw [Function.update_self, texts_enqueue haccepts hm, hnil]
        rfl
      · obtain ⟨d, hd, hdsender⟩ := hc
        have hrest : d ∈ senders := by
          refine (List.mem_cons.mp hd).resolve_left ?_
          rintro rfl
          exact hsender hdsender
        refine ih ⟨d, hrest, hdsender⟩ ?_ ?_
        · rw [Function.update_of_ne (Ne.symm hsender), hnil]
        · rw [Function.update_of_ne (Ne.symm hsender), haccepts]

variable (r : Registry)

theorem feeds_sendToUser (u : UserId) (m : Message) : Feeds (· = u) r (r.sendToUser u m) := by
  unfold sendToUser
  cases hl : r.connections.lookup u with
  | none => exact .same rfl
  | some senders =>
      refine ⟨fun sender => grows_retainEnqueue m senders r.channels sender, fun sender hnot => ?_⟩
      exact retainEnqueue_other m r.channels fun c hc hsender =>
        hnot u rfl ⟨senders, hl, c, hc, hsender⟩

/-- `broadcast` treats the entries of a shard one after another. -/
theorem feeds_foldl {P : UserId → Prop} (m : Message) (users : List UserId)
    (h : ∀ u ∈ users, P u) : Feeds P r (users.foldl (fun r u => r.sendToUser u m) r) := by
  induction users generalizing r with
  | nil => exact .same rfl
  | cons v users ih =>
      obtain ⟨hv, hrest⟩ := List.forall_mem_cons.mp h
      have hsend : Feeds P r (r.sendToUser v m) :=
        (r.feeds_sendToUser v m).mono fun u hu => hu ▸ hv
      exact hsend.trans (r.prunes_sendToUser v m) (ih (r.sendToUser v m) hrest)

theorem feeds_broadcastShard (sharding : Sharding) (shard : Nat) (m : Message) :
    Feeds (fun u => (sharding.of u).val = shard) r (r.broadcastShard sharding shard m) := by
  refine r.feeds_foldl m _ fun u hu => ?_
  simpa using (List.mem_filter.mp hu).2

variable {r}

theorem lookup_sendToUser_ne {u v : UserId} {m : Message} (hv : v ≠ u) :
    (r.sendToUser u m).connections.lookup v = r.connections.lookup v := by
  unfold sendToUser
  split
  · rfl
  · exact AList.lookup_insert_ne hv

variable {m : Message} {u : UserId} {sender : Tx}

theorem head_sendToUser (hm : m.isText = true) (hholds : r.Holds u sender)
    (hnil : (r.channels sender).texts = []) (haccepts : (r.channels sender).accepts = true) :
    ((r.sendToUser u m).channels sender).texts.head? = some m := by
  obtain ⟨senders, hl, hc⟩ := hholds
  unfold sendToUser
  rw [hl]
  exact head_retainEnqueue hm hc hnil haccepts

theorem head_broadcastShard {sharding : Sharding} {shard : Nat} (hm : m.isText = true)
    (hu : (sharding.of u).val = shard) (hholds : r.Holds u sender)
    (hnil : (r.channels sender).texts = []) (haccepts : (r.channels sender).accepts = true) :
    ((r.broadcastShard sharding shard m).channels sender).texts.head? = some m := by
  obtain ⟨senders, hl, -⟩ := id hholds
  have hmem : u ∈ r.connections.keys.filter fun u => (sharding.of u).val == shard := by
    refine List.mem_filter.mpr ⟨?_, by simpa using hu⟩
    exact AList.mem_keys.mp (AList.lookup_isSome.mp (by rw [hl]; rfl))
  unfold broadcastShard
  generalize r.connections.keys.filter _ = users at hmem
  induction users generalizing r senders with
  | nil => cases hmem
  | cons v users ih =>
      rw [List.foldl_cons]
      by_cases hv : r.Holds v sender
      · -- the entry of `v` is the first that has the queue
        exact ((feeds_foldl (P := fun _ => True) _ m users fun _ _ => trivial).grows sender).head
          (head_sendToUser hm hv hnil haccepts)
      · have hne : u ≠ v := by
          rintro rfl
          exact hv hholds
        have hother : (r.sendToUser v m).channels sender = r.channels sender :=
          (r.feeds_sendToUser v m).other sender fun w hw => hw ▸ hv
        obtain ⟨senders, hl, hc⟩ := hholds
        have hl' := (lookup_sendToUser_ne (m := m) hne).trans hl
        exact ih ⟨senders, hl', hc⟩ (by rw [hother, hnil]) (by rw [hother, haccepts]) senders hl'
          ((List.mem_cons.mp hmem).resolve_left hne)

end Registry

/-- The next statement is the one that enqueues `auth_ok`. -/
def Task.greets : Task → Option (UserId × Tx)
  | .authOk u sender _ => some (u, sender)
  | _ => none

theorem channels_retainOther (r : Registry) (u : UserId) (sender : Tx) :
    (r.retainOther u sender).channels = r.channels := by
  unfold Registry.retainOther
  split <;> rfl

theorem channels_removeIfEmpty (r : Registry) (u : UserId) :
    (r.removeIfEmpty u).2.channels = r.channels := by
  unfold Registry.removeIfEmpty
  split <;> rfl

/-- Every statement but that one feeds the queues of the users it sends to. -/
theorem feeds_next (sharding : Sharding) {t : Task} (ht : t.greets = none) (r : Registry) :
    Feeds (fun u => t.reaches sharding u = true) r (t.next sharding r).2 := by
  cases t with
  | authOk u sender cameOnline => cases ht
  | sendToUser u json =>
      exact (r.feeds_sendToUser u (.text json)).mono fun v hv => by simp [Task.reaches, hv]
  | broadcast m shard caller =>
      simp only [Task.next]
      split
      · exact (r.feeds_broadcastShard sharding shard m).mono fun v hv => by
          simpa [Task.reaches] using hv
      · cases caller <;> exact .same rfl
  | access first =>
      cases first with
      | register u c => exact .same rfl
      | retain u sender => exact .same (channels_retainOther r u sender)
      | remove u =>
          simp only [Task.next, Registry.remove]
          cases r.connections.lookup u <;> exact .same rfl
  | removeIf u => exact .same (channels_removeIfEmpty r u)
  | disconnect senders u => cases senders <;> exact .same rfl
  | _ => exact .same rfl

/-- A call comes to that statement right after it pushed the connection. -/
theorem greets_next {sharding : Sharding} {t : Task} {r : Registry} {u : UserId} {sender : Tx}
    (h : (t.next sharding r).1.greets = some (u, sender)) :
    ∃ c, t = .access (.register u c) ∧ c.sender = sender := by
  cases t with
  | access first =>
      cases first with
      | register v c =>
          -- `register` is the only access after which an `auth_ok` is due
          obtain ⟨rfl, rfl⟩ := Prod.mk.inj (Option.some.inj h)
          exact ⟨c, rfl, rfl⟩
      | retain v sender => cases h
      | remove v =>
          simp only [Task.next, Registry.remove] at h
          split at h <;> cases h
  | authOk v sender cameOnline => cases cameOnline <;> cases h
  | removeIf v =>
      simp only [Task.next] at h
      split at h <;> cases h
  | disconnect senders v => cases senders <;> cases h
  | broadcast m shard caller =>
      simp only [Task.next] at h
      split at h
      · cases h
      · cases caller <;> cases h
  | _ => cases h

/-! ### The messages of the sends -/

/-- A call sends the texts of the handlers, and tells who came and who went. -/
def Message.IsSent (m : Message) : Prop :=
  (∃ json, m = .text json) ∨ ∃ u, m = .server (.userOnline u) ∨ m = .server (.userOffline u)

/-- The message that the next statement sends. -/
def Task.message : Task → Option Message
  | .sendToUser _ json => some (.text json)
  | .announce message _ => some (.server message)
  | .broadcast message _ _ => some message
  | _ => none

theorem isSent_code (c : Call) : ∀ m, c.code.message = some m → m.IsSent := by
  intro m hm
  cases c with
  | sendToUser u json => exact .inl ⟨json, (Option.some.inj hm).symm⟩
  | broadcast json => exact .inl ⟨json, (Option.some.inj hm).symm⟩
  | _ => cases hm

theorem isSent_next (sharding : Sharding) {t : Task} (r : Registry)
    (h : ∀ m, t.message = some m → m.IsSent) :
    ∀ m, (t.next sharding r).1.message = some m → m.IsSent := by
  intro m hm
  cases t with
  | authOk u sender cameOnline =>
      cases cameOnline with
      | true => exact .inr ⟨u, .inl (Option.some.inj hm).symm⟩
      | false => cases hm
  | access first =>
      cases first with
      | remove u =>
          simp only [Task.next, Registry.remove] at hm
          split at hm <;> cases hm
      | _ => cases hm
  | removeIf u =>
      simp only [Task.next] at hm
      split at hm
      -- the last connection of a user: `user_offline`
      · exact .inr ⟨u, .inr (Option.some.inj hm).symm⟩
      · cases hm
  | disconnect senders u =>
      cases senders with
      | nil => exact .inr ⟨u, .inr (Option.some.inj hm).symm⟩
      | cons c senders => cases hm
  | announce message answer => exact h m hm
  | broadcast message shard caller =>
      simp only [Task.next] at hm
      split at hm
      · exact h m hm
      · cases caller <;> cases hm
  | _ => cases hm

theorem isSent_of_reachable {ι : Type} [DecidableEq ι] {sharding : Sharding}
    {P : Label Call Event ι → System (Registry × Sockets) Task ι → Prop}
    {s : System (Registry × Sockets) Task ι}
    (h : ReachableBy P (socketMachine sharding).step freshSockets s) (i : ι) :
    ∀ m, (s.tasks i).message = some m → m.IsSent := by
  let Sent : Task → Prop := fun t => ∀ m, t.message = some m → m.IsSent
  refine h.invariant (I := fun s => ∀ j, Sent (s.tasks j)) (fun l s s' ih _ hstep => ?_)
    (fun _ _ hm => by cases hm) i
  cases l with
  | call j c =>
      simp only [Machine.step, Option.ite_none_right_eq_some, Option.some.injEq] at hstep
      obtain ⟨-, rfl⟩ := hstep
      exact (Function.forall_update_iff s.tasks fun _ => Sent).mpr
        ⟨isSent_code c, fun k _ => ih k⟩
  | advance j =>
      obtain ⟨-, rfl⟩ := (socketMachine sharding).step_advance hstep
      exact (Function.forall_update_iff s.tasks fun _ => Sent).mpr
        ⟨isSent_next sharding s.shared.1 (ih j), fun k _ => ih k⟩
  | env e =>
      obtain rfl := Option.some.inj hstep
      exact ih

/-- A send that finds an open queue without texts puts the first one there. -/
theorem head_next {sharding : Sharding} {t : Task} {r : Registry} {sender : Tx}
    (ht : ∀ m, t.message = some m → m.IsSent) (hsends : t.SendsOn sharding r sender)
    (hnil : (r.channels sender).texts = []) (haccepts : (r.channels sender).accepts = true) :
    ∃ m, m.IsSent ∧ ((t.next sharding r).2.channels sender).texts.head? = some m := by
  obtain ⟨u, hu, hholds⟩ := hsends
  have htext : ∀ m : Message, m.IsSent → m.isText = true := by
    rintro m (⟨json, rfl⟩ | ⟨v, rfl | rfl⟩) <;> rfl
  cases t with
  | sendToUser v json =>
      obtain rfl : v = u := by simpa [Task.reaches] using hu
      exact ⟨.text json, ht _ rfl, Registry.head_sendToUser rfl hholds hnil haccepts⟩
  | broadcast m shard caller =>
      have hshard : (sharding.of u).val = shard := by simpa [Task.reaches] using hu
      refine ⟨m, ht m rfl, ?_⟩
      simp only [Task.next]
      rw [if_pos (hshard ▸ (sharding.of u).isLt)]
      exact Registry.head_broadcastShard (htext m (ht m rfl)) hshard hholds hnil haccepts
  | _ => cases hu

/-! ### The invariant -/

/-- The call will enqueue `auth_ok` on this channel. -/
def Task.registering : Task → Option Tx
  | .lock (.register _ c) | .access (.register _ c) => some c.sender
  | .authOk _ sender _ => some sender
  | _ => none

section Runs

variable {ι : Type} {sharding : Sharding} {s s' : System (Registry × Sockets) Task ι}

/-- What `handle_socket` does in order: when it registers its socket its loop has put
no text into the queue, since it would have ended there (`Socket.controls_only`), and
it puts nothing there while the call runs. -/
def LoopInOrder (l : Label Call Event ι) (s : System (Registry × Sockets) Task ι) : Prop :=
  match l with
  | .call _ (.registerAuthenticatedConnection sender _ _) =>
      (s.shared.1.channels sender).texts = []
  | .env (.frame sender _) => ∀ i, (s.tasks i).registering ≠ some sender
  | _ => True

/-- A connection of `u` waits for its `auth_ok`. -/
def Awaits (s : System (Registry × Sockets) Task ι) (u : UserId) (sender : Tx) : Prop :=
  ∃ i, (s.tasks i).greets = some (u, sender)

/-- No send puts a message into a queue that waits for its `auth_ok`. -/
def NoEarlySend (sharding : Sharding) (l : Label Call Event ι)
    (s : System (Registry × Sockets) Task ι) : Prop :=
  ∀ i u sender, l = .advance i → Awaits s u sender →
    (s.tasks i).SendsOn sharding s.shared.1 sender →
      (s.shared.1.channels sender).accepts = false

/-- `auth_ok` is not enqueued on a full queue whose receiver listens. -/
def RoomForAuthOk (l : Label Call Event ι) (s : System (Registry × Sockets) Task ι) : Prop :=
  ∀ i u sender, l = .advance i → (s.tasks i).greets = some (u, sender) →
    (s.shared.1.channels sender).isOpen = true → (s.shared.1.channels sender).accepts = true

/-- Nothing keeps an `auth_ok` from being first. -/
structure Welcomes (sharding : Sharding) (l : Label Call Event ι)
    (s : System (Registry × Sockets) Task ι) : Prop where
  early : NoEarlySend sharding l s
  room : RoomForAuthOk l s

/-- No text was put into a queue before its `auth_ok`. -/
structure Greeted (s : System (Registry × Sockets) Task ι) : Prop where
  pending : ∀ i u c, (s.tasks i).pending = some (.register u c) →
    (s.shared.1.channels c.sender).texts = []
  awaits : ∀ u sender, Awaits s u sender → (s.shared.1.channels sender).texts = [] ∧
    ∃ c, (u, c) ∈ s.shared.2.registered ∧ c.sender = sender
  greeted : ∀ u c, (u, c) ∈ s.shared.2.registered → ¬ Awaits s u c.sender →
    (s.shared.1.channels c.sender).texts.head? = some (.server (.authOk u)) ∨
      (s.shared.1.channels c.sender).texts = [] ∧ (s.shared.1.channels c.sender).isOpen = false

theorem registering_of_pending {t : Task} {u : UserId} {c : WsConnection}
    (h : t.pending = some (.register u c)) : t.registering = some c.sender := by
  cases t with
  | lock first =>
      obtain rfl := Option.some.inj h
      rfl
  | access first =>
      obtain rfl := Option.some.inj h
      rfl
  | _ => cases h

theorem registering_of_greets {t : Task} {u : UserId} {sender : Tx}
    (h : t.greets = some (u, sender)) : t.registering = some sender := by
  cases t with
  | authOk v x cameOnline =>
      obtain ⟨rfl, rfl⟩ := Prod.mk.inj (Option.some.inj h)
      rfl
  | _ => cases h

theorem registering_cases {t : Task} {sender : Tx} (h : t.registering = some sender) :
    (∃ u c, t.pending = some (.register u c) ∧ c.sender = sender) ∨
      ∃ u, t.greets = some (u, sender) := by
  cases t with
  | lock first | access first =>
      cases first with
      | register u c => exact .inl ⟨u, c, rfl, Option.some.inj h⟩
      | _ => cases h
  | authOk u x cameOnline =>
      obtain rfl := Option.some.inj h
      exact .inr ⟨u, rfl⟩
  | _ => cases h

namespace Greeted

/-- Queues are fed, but no text is put into one that waits for its `auth_ok`, or
will. -/
theorem feed (hg : Greeted s)
    (hext : ∀ sender, Extends (s.shared.1.channels sender) (s'.shared.1.channels sender))
    (hquiet : ∀ i sender, (s.tasks i).registering = some sender →
      (s'.shared.1.channels sender).texts = (s.shared.1.channels sender).texts)
    (hpending : ∀ i u c, (s'.tasks i).pending = some (.register u c) →
      (s.tasks i).pending = some (.register u c))
    (hregistered : ∀ e, e ∈ s'.shared.2.registered ↔ e ∈ s.shared.2.registered)
    (hawaits : ∀ u sender, Awaits s' u sender ↔ Awaits s u sender) : Greeted s' where
  pending i u c hc := by
    have hold := hpending i u c hc
    rw [hquiet i c.sender (registering_of_pending hold)]
    exact hg.pending i u c hold
  awaits u sender hw := by
    have hold := (hawaits u sender).mp hw
    obtain ⟨hnil, c, hc, hsender⟩ := hg.awaits u sender hold
    obtain ⟨i, hi⟩ := hold
    refine ⟨?_, c, (hregistered _).mpr hc, hsender⟩
    rw [hquiet i sender (registering_of_greets hi), hnil]
  greeted u c hc hw := by
    rcases hg.greeted u c ((hregistered _).mp hc) (mt (hawaits u c.sender).mpr hw) with
      hhead | ⟨hnil, hclosed⟩
    · exact .inl ((hext c.sender).head hhead)
    · obtain ⟨hclosed', htexts⟩ := (hext c.sender).closed hclosed
      exact .inr ⟨htexts.trans hnil, hclosed'⟩

/-- A connection is pushed whose queue has no text. -/
theorem register {u : UserId} {c : WsConnection} (hg : Greeted s)
    (hnil : (s.shared.1.channels c.sender).texts = [])
    (hchannels : s'.shared.1.channels = s.shared.1.channels)
    (hpending : ∀ i v d, (s'.tasks i).pending = some (.register v d) →
      (s.tasks i).pending = some (.register v d))
    (hregistered : ∀ e, e ∈ s'.shared.2.registered ↔ e ∈ s.shared.2.registered ∨ e = (u, c))
    (hawaits : ∀ v sender, Awaits s' v sender ↔ Awaits s v sender ∨ (v, sender) = (u, c.sender)) :
    Greeted s' where
  pending i v d hd := by
    rw [hchannels]
    exact hg.pending i v d (hpending i v d hd)
  awaits v sender hw := by
    rw [hchannels]
    rcases (hawaits v sender).mp hw with hold | heq
    · obtain ⟨htexts, d, hd, hsender⟩ := hg.awaits v sender hold
      exact ⟨htexts, d, (hregistered _).mpr (.inl hd), hsender⟩
    · obtain ⟨rfl, rfl⟩ := Prod.mk.inj heq
      exact ⟨hnil, c, (hregistered _).mpr (.inr rfl), rfl⟩
  greeted v d hd hw := by
    rw [hchannels]
    rcases (hregistered (v, d)).mp hd with hold | heq
    · exact hg.greeted v d hold fun hold => hw ((hawaits v d.sender).mpr (.inl hold))
    · obtain ⟨rfl, rfl⟩ := Prod.mk.inj heq
      exact absurd ((hawaits v d.sender).mpr (.inr rfl)) hw

/-- The one connection that waits is sent its `auth_ok`. -/
theorem greet {u : UserId} {sender : Tx} (hg : Greeted s)
    (hdistinct : (s.shared.2.registered.map (·.2.sender)).Nodup) (hw : Awaits s u sender)
    (hroom : (s.shared.1.channels sender).isOpen = true →
      (s.shared.1.channels sender).accepts = true)
    (hone : ∀ v sender', Awaits s v sender' → sender' = sender)
    (hchannels : s'.shared.1.channels = Function.update s.shared.1.channels sender
      ((s.shared.1.channels sender).enqueue (.server (.authOk u))).2)
    (hpending : ∀ i v d, (s'.tasks i).pending = some (.register v d) →
      (s.tasks i).pending = some (.register v d) ∧ d.sender ≠ sender)
    (hregistered : ∀ e, e ∈ s'.shared.2.registered ↔ e ∈ s.shared.2.registered)
    (hawaits : ∀ v sender', ¬ Awaits s' v sender') : Greeted s' where
  pending i v d hd := by
    obtain ⟨hold, hne⟩ := hpending i v d hd
    rw [hchannels, Function.update_of_ne hne]
    exact hg.pending i v d hold
  awaits v sender' hw' := absurd hw' (hawaits v sender')
  greeted v d hd _ := by
    obtain ⟨hnil, c, hc, rfl⟩ := hg.awaits u sender hw
    have hd' := (hregistered (v, d)).mp hd
    rw [hchannels]
    -- two registered connections with one sender are one
    by_cases hsame : d.sender = c.sender
    · obtain ⟨rfl, rfl⟩ := Prod.mk.inj (List.inj_on_of_nodup_map hdistinct hd' hc hsame)
      rw [Function.update_self]
      cases hopen : (s.shared.1.channels d.sender).isOpen with
      | true => exact .inl (by rw [texts_enqueue (hroom hopen) rfl, hnil]; rfl)
      | false =>
          rw [(Grows.enqueue _ _).same (Channel.accepts_of_closed hopen)]
          -- the receiver is gone: nothing comes in any more
          exact .inr ⟨hnil, hopen⟩
    · rw [Function.update_of_ne hsame]
      exact hg.greeted v d hd' fun hold => hsame (hone v d.sender hold)

end Greeted

variable [DecidableEq ι] {i : ι}

/-- Task `i` has moved on to `t`. -/
theorem awaits_update {shared : Registry × Sockets} {t : Task} {owner : Option ι} {u : UserId}
    {sender : Tx} : Awaits ⟨shared, Function.update s.tasks i t, owner⟩ u sender ↔
      t.greets = some (u, sender) ∨ ∃ j, j ≠ i ∧ (s.tasks j).greets = some (u, sender) := by
  constructor
  · rintro ⟨j, hj⟩
    by_cases hji : j = i
    · subst hji
      exact .inl (by simpa using hj)
    · exact .inr ⟨j, hji, by simpa [Function.update_of_ne hji] using hj⟩
  · rintro (ht | ⟨j, hji, hj⟩)
    · exact ⟨i, by simpa using ht⟩
    · exact ⟨j, by simpa [Function.update_of_ne hji] using hj⟩

omit [DecidableEq ι] in
theorem awaits_iff_other (hi : (s.tasks i).greets = none) {u : UserId} {sender : Tx} :
    Awaits s u sender ↔ ∃ j, j ≠ i ∧ (s.tasks j).greets = some (u, sender) := by
  constructor
  · rintro ⟨j, hj⟩
    refine ⟨j, ?_, hj⟩
    rintro rfl
    rw [hi] at hj
    cases hj
  · rintro ⟨j, -, hj⟩
    exact ⟨j, hj⟩

/-- A statement leaves no access pending that was not. -/
theorem pending_update {r : Registry} {j : ι} {a : Access}
    (h : (Function.update s.tasks i ((s.tasks i).next sharding r).1 j).pending =
      some a) : (s.tasks j).pending = some a := by
  by_cases hj : j = i
  · subst hj
    rw [Function.update_self] at h
    rw [pending_next h]
    rfl
  · rwa [Function.update_of_ne hj] at h

/-- Who waits for an `auth_ok` holds the mutex. -/
theorem inside_of_greets {t : Task} {w : UserId × Tx} (h : t.greets = some w) :
    t.inside = true := by
  cases t with
  | authOk u sender cameOnline => rfl
  | _ => cases h

omit [DecidableEq ι] in
/-- The queue of a socket that is still to be pushed is in no entry. -/
theorem not_sendsOn_pending {owed : List ServerMessage} {emptied : Option UserId} (hq : Queued s)
    (hs : SocketsOk owed emptied s.shared) {t : Task} {j : ι} {u : UserId} {c : WsConnection}
    (hj : (s.tasks j).pending = some (.register u c)) :
    ¬ t.SendsOn sharding s.shared.1 c.sender := by
  rintro ⟨v, -, senders, hl, d, hd, hsender⟩
  exact hq.register j u c hj (v, d) (hs.stored v senders hl d hd).1 hsender

/-- **One statement** keeps the invariant, if it sends nothing too early and finds room
for its `auth_ok`. -/
theorem greeted_advance (hq : Queued s)
    (hguard : Guarded (socketMachine sharding) SocketsFree SocketsAt s) (hg : Greeted s)
    (hP : Welcomes sharding (.advance i) s)
    (hstep : (socketMachine sharding).step (.advance i) s = some s') : Greeted s' := by
  obtain ⟨owed, emptied, hs⟩ := socketsOk_of_guarded hguard
  obtain ⟨-, rfl⟩ := (socketMachine sharding).step_advance hstep
  cases hgreets : (s.tasks i).greets with
  | some w =>
      obtain ⟨u, sender⟩ := w
      -- the owner of the mutex waits, and no one else
      have howner := (hguard.inside_iff i).mp (inside_of_greets hgreets)
      have hself : ∀ j v sender', (s.tasks j).greets = some (v, sender') → j = i := by
        intro j v sender' hj
        have hjo := (hguard.inside_iff j).mp (inside_of_greets hj)
        exact Option.some.inj (hjo.symm.trans howner)
      have hroom := hP.room i u sender rfl hgreets
      obtain ⟨-, c, hc, rfl⟩ := hg.awaits u sender ⟨i, hgreets⟩
      cases ht : s.tasks i with
      | authOk u' sender' cameOnline =>
          rw [ht] at hgreets
          obtain ⟨rfl, rfl⟩ := Prod.mk.inj (Option.some.inj hgreets)
          refine hg.greet hs.distinct ⟨i, by rw [ht]; rfl⟩ hroom ?_ rfl (fun j v d hd => ?_)
            (fun _ => Iff.rfl) ?_
          · rintro v sender'' ⟨j, hj⟩
            rw [hself j v sender'' hj, ht] at hj
            exact (Prod.mk.inj (Option.some.inj hj)).2.symm
          · rw [← ht] at hd
            have hold := pending_update hd
            exact ⟨hold, (hq.register j v d hold (u', c) hc).symm⟩
          · intro v sender'' hw
            rcases awaits_update.mp hw with hnext | ⟨j, hji, hj⟩
            · obtain ⟨c, hc, -⟩ := greets_next hnext
              cases hc
            · exact hji (hself j v sender'' hj)
      | _ =>
          rw [ht] at hgreets
          cases hgreets
  | none =>
      by_cases haccess : ∃ u c, s.tasks i = .access (.register u c)
      · obtain ⟨u, c, ht⟩ := haccess
        refine hg.register (u := u) (hg.pending i u c (by rw [ht]; rfl)) (by rw [ht]; rfl)
          (fun j v d hd => pending_update hd) (fun e => ?_) fun v sender => ?_
        · rw [ht]
          simp [Machine.recording, Sockets.note]
        · rw [awaits_update, awaits_iff_other hgreets, ht, or_comm]
          refine or_congr_right ⟨fun h => ?_, fun h => ?_⟩
          · exact (Option.some.inj h).symm
          · rw [h]
            rfl
      · have hf := feeds_next sharding hgreets s.shared.1
        refine hg.feed (fun sender => .of_grows (hf.grows sender)) (fun j sender hj => ?_)
          (fun j v d hd => pending_update hd) (fun e => ?_) fun v sender => ?_
        · -- a send reaches a queue that waits only when the queue takes no message
          by_cases hsends : (s.tasks i).SendsOn sharding s.shared.1 sender
          · refine congrArg Channel.texts ((hf.grows sender).same ?_)
            rcases registering_cases hj with ⟨u, c, hpending, rfl⟩ | ⟨u, hwaits⟩
            · exact absurd hsends (not_sendsOn_pending hq hs hpending)
            · exact hP.early i u sender rfl ⟨j, hwaits⟩ hsends
          · exact congrArg Channel.texts
              (hf.other sender fun u hu hholds => hsends ⟨u, hu, hholds⟩)
        · have hmem : e ∈ (Sockets.note (s.tasks i) s.shared.1 s.shared.2).registered ↔
              e ∈ s.shared.2.registered ∨ s.tasks i = .access (.register e.1 e.2) :=
            mem_registered_note
          exact hmem.trans (or_iff_left fun ht => haccess ⟨e.1, e.2, ht⟩)
        · rw [awaits_update, awaits_iff_other hgreets]
          refine or_iff_right fun hnext => ?_
          obtain ⟨c, ht, -⟩ := greets_next hnext
          exact haccess ⟨v, c, ht⟩

/-- A call that starts keeps it, when its socket's loop has put no text there. -/
theorem greeted_call {c : Call} (hg : Greeted s) (hdone : (s.tasks i).isDone = true)
    (hloop : LoopInOrder (.call i c) s) :
    Greeted { s with tasks := Function.update s.tasks i c.code } := by
  -- a finished task waits for nothing, nor does one that starts
  have hidle : (s.tasks i).greets = none := by
    cases ht : s.tasks i with
    | authOk u sender cameOnline =>
        rw [ht] at hdone
        cases hdone
    | _ => rfl
  have hcode : c.code.greets = none := by cases c <;> rfl
  have hawaits : ∀ u sender, Awaits { s with tasks := Function.update s.tasks i c.code } u sender ↔
      Awaits s u sender := by
    intro u sender
    rw [awaits_update, awaits_iff_other hidle, hcode]
    exact or_iff_right fun h => by cases h
  refine ⟨fun j u d hd => ?_, fun u sender hw => hg.awaits u sender ((hawaits u sender).mp hw),
    fun u d hd hw => hg.greeted u d hd (mt (hawaits u d.sender).mpr hw)⟩
  by_cases hj : j = i
  · subst hj
    dsimp only at hd
    rw [Function.update_self] at hd
    cases c with
    | registerAuthenticatedConnection sender disconnect v =>
        obtain ⟨rfl, rfl⟩ := Access.register.inj (Option.some.inj hd)
        -- the loop of the socket has put in control frames only
        exact hloop
    | unregisterAuthenticatedConnection sender v => cases Option.some.inj hd
    | disconnectUser v => cases Option.some.inj hd
    | _ => cases hd
  · dsimp only at hd
    rw [Function.update_of_ne hj] at hd
    exact hg.pending j u d hd

omit [DecidableEq ι] in
/-- The sockets' own moves keep it: control frames are no texts, and a forwarded message
was put in before. -/
theorem greeted_env {e : Event} (hg : Greeted s)
    (hloop : LoopInOrder (.env e : Label Call Event ι) s) :
    Greeted { s with shared := (e.apply s.shared.1, s.shared.2) } := by
  refine hg.feed (extends_apply e s.shared.1) (fun j sender hj => texts_apply ?_ s.shared.1)
    (fun _ _ _ hd => hd) (fun _ => Iff.rfl) fun _ _ => Iff.rfl
  rintro m rfl
  exact hloop j hj

omit [DecidableEq ι] in
theorem greeted_freshSockets :
    Greeted (freshSockets : System (Registry × Sockets) Task ι) := by
  refine ⟨?_, ?_, ?_⟩
  · intro i u c hc
    cases hc
  · rintro u sender ⟨i, hi⟩
    cases hi
  · intro u c hc
    cases hc

/-- The order that `handle_socket` keeps. -/
abbrev InTurn (l : Label Call Event ι) (s : System (Registry × Sockets) Task ι) : Prop :=
  OncePerSocket l s ∧ LoopInOrder l s

theorem greeted_of_reachable
    (h : ReachableBy (fun l s => InTurn l s ∧ Welcomes sharding l s)
      (socketMachine sharding).step freshSockets s) : Greeted s := by
  induction h with
  | refl => exact greeted_freshSockets
  | @tail s s' l hreach hP hstep ih =>
      cases l with
      | call i c =>
          simp only [Machine.step, Option.ite_none_right_eq_some, Option.some.injEq] at hstep
          obtain ⟨hdone, rfl⟩ := hstep
          exact greeted_call ih hdone hP.1.2
      | advance i =>
          obtain ⟨hq, hguard⟩ := sockets_of_reachable (hreach.mono fun _ _ hP => hP.1.1)
          exact greeted_advance hq hguard ih hP.2 hstep
      | env e =>
          obtain rfl := Option.some.inj hstep
          exact greeted_env ih hP.1.2

/-- **`auth_ok` comes first**, in every run in which no send puts a message into a
queue that waits for its `auth_ok`, and none is enqueued on a full queue. -/
theorem authOk_first
    (h : ReachableBy (fun l s => InTurn l s ∧ Welcomes sharding l s)
      (socketMachine sharding).step freshSockets s)
    {u : UserId} {c : WsConnection} (hc : (u, c) ∈ s.shared.2.registered) :
    ∀ m ∈ (s.shared.1.channels c.sender).texts.head?, m = .server (.authOk u) := by
  have hgreeted := greeted_of_reachable h
  intro m hm
  by_cases hw : Awaits s u c.sender
  · rw [(hgreeted.awaits u c.sender hw).1] at hm
    cases hm
  · rcases hgreeted.greeted u c hc hw with hhead | ⟨hnil, -⟩
    · rw [Option.mem_def, hhead, Option.some.injEq] at hm
      exact hm.symm
    · rw [hnil] at hm
      cases hm

/-- **Both conditions are needed.** The first step that breaks one of them leaves a
connection whose receiver listens with another text in front, or with its `auth_ok`
dropped. -/
theorem authOk_missed
    (h : ReachableBy (fun l s => InTurn l s ∧ Welcomes sharding l s)
      (socketMachine sharding).step freshSockets s) {l : Label Call Event ι}
    (hl : ¬ Welcomes sharding l s) (hstep : (socketMachine sharding).step l s = some s') :
    ∃ u c, (u, c) ∈ s'.shared.2.registered ∧ (s'.shared.1.channels c.sender).isOpen = true ∧
      ((∃ m, m.IsSent ∧ (s'.shared.1.channels c.sender).texts.head? = some m) ∨
        (s'.shared.1.channels c.sender).texts = [] ∧ ¬ Awaits s' u c.sender) := by
  have hg := greeted_of_reachable h
  obtain ⟨hq, hguard⟩ := sockets_of_reachable (h.mono fun _ _ hP => hP.1.1)
  by_cases hearly : NoEarlySend sharding l s
  -- the queue is full when `auth_ok` comes: it is dropped
  · have hroom : ¬ RoomForAuthOk l s := fun hroom => hl ⟨hearly, hroom⟩
    simp only [RoomForAuthOk, not_forall] at hroom
    obtain ⟨i, u, sender, rfl, hgreets, hopen, hfull⟩ := hroom
    obtain ⟨hnil, c, hc, rfl⟩ := hg.awaits u sender ⟨i, hgreets⟩
    obtain ⟨-, rfl⟩ := (socketMachine sharding).step_advance hstep
    -- the mutex is held, so nobody else can be about to send it
    have howner := (hguard.inside_iff i).mp (inside_of_greets hgreets)
    cases ht : s.tasks i with
    | authOk u' sender' cameOnline =>
        rw [ht] at hgreets
        obtain ⟨rfl, rfl⟩ := Prod.mk.inj (Option.some.inj hgreets)
        have hsame : ((s.shared.1.enqueue c.sender (.server (.authOk u'))).2.channels c.sender) =
            s.shared.1.channels c.sender := by
          rw [Registry.enqueue]
          simpa using (Grows.enqueue _ _).same (by simpa using hfull)
        refine ⟨u', c, hc, hsame ▸ hopen, .inr ⟨by rw [← hnil]; exact congrArg _ hsame, ?_⟩⟩
        intro hw
        rcases awaits_update.mp hw with hnext | ⟨j, hji, hj⟩
        · obtain ⟨d, hd, -⟩ := greets_next hnext
          cases hd
        · have hjo := (hguard.inside_iff j).mp (inside_of_greets hj)
          exact hji (Option.some.inj (hjo.symm.trans howner))
    | _ =>
        rw [ht] at hgreets
        cases hgreets
  -- another text gets in first
  · simp only [NoEarlySend, not_forall] at hearly
    obtain ⟨i, u, sender, rfl, hw, hsends, haccepts⟩ := hearly
    obtain ⟨hnil, c, hc, rfl⟩ := hg.awaits u sender hw
    obtain ⟨-, rfl⟩ := (socketMachine sharding).step_advance hstep
    have haccepts' : (s.shared.1.channels c.sender).accepts = true := by simpa using haccepts
    have hgreets : (s.tasks i).greets = none := by
      obtain ⟨v, hv, -⟩ := hsends
      cases ht : s.tasks i with
      | authOk _ _ _ =>
          rw [ht] at hv
          cases hv
      | _ => rfl
    obtain ⟨m, hm, hhead⟩ := head_next (isSent_of_reachable h i) hsends hnil haccepts'
    refine ⟨u, c, mem_registered_note.mpr (.inl hc), ?_, .inl ⟨m, hm, hhead⟩⟩
    have hopen := ((feeds_next sharding hgreets s.shared.1).grows c.sender).isOpen
    exact hopen.trans (Bool.and_eq_true_iff.mp haccepts').1

end Runs

/-! ### Runs of two tasks -/

/-- One task makes a call in so many statements. -/
def callIn (i : Bool) (call : Call) (statements : Nat) : List (Label Call Event Bool) :=
  .call i call :: List.replicate statements (.advance i)

/-- A message to 7 comes in between the push of 7's connection and its `auth_ok`. -/
def earlySend : List (Label Call Event Bool) :=
  callIn true (.registerAuthenticatedConnection 1 1 7) 2 ++ callIn false (.sendToUser 7 "hi") 1 ++
    [.advance true]

/-- The order of the sockets, decided for two tasks. -/
def checkInTurn (l : Label Call Event Bool) (s : System (Registry × Sockets) Task Bool) : Bool :=
  checkOncePerSocket [true, false] l s &&
    match l with
    | .call _ (.registerAuthenticatedConnection sender _ _) =>
        (s.shared.1.channels sender).texts.isEmpty
    | .env (.frame sender _) => [true, false].all fun i => (s.tasks i).registering != some sender
    | _ => true

theorem inTurn_of_check {l : Label Call Event Bool} {s : System (Registry × Sockets) Task Bool}
    (h : checkInTurn l s = true) : InTurn l s := by
  obtain ⟨honce, hloop⟩ := Bool.and_eq_true_iff.mp h
  refine ⟨oncePerSocket_of_check (by decide) l s honce, ?_⟩
  cases l with
  | call i c =>
      cases c with
      | registerAuthenticatedConnection sender disconnect u => exact List.isEmpty_iff.mp hloop
      | _ => trivial
  | advance i => trivial
  | env e =>
      cases e with
      | frame sender m =>
          intro i
          simpa using List.all_eq_true.mp hloop i (by cases i <;> decide)
      | _ => trivial

/-- The first text in the queue is not always `auth_ok`. -/
theorem authOk_not_first : ¬ ∀ (s : System (Registry × Sockets) Task Bool) (u : UserId)
    (c : WsConnection), ReachableBy InTurn (socketMachine oneShard).step freshSockets s →
      (u, c) ∈ s.shared.2.registered →
        ∀ m ∈ (s.shared.1.channels c.sender).texts.head?, m = .server (.authOk u) := by
  intro hclaim
  have hrun : ((replay (fun l s =>
      if checkInTurn l s then (socketMachine oneShard).step l s else none)
        freshSockets earlySend).map fun s =>
          (s.shared.2.registered, (s.shared.1.channels 1).texts)) =
            some ([(7, ⟨1, 1⟩)], [.text "hi", .server (.authOk 7)]) := by decide
  obtain ⟨s, hs, hend⟩ := Option.map_eq_some_iff.mp hrun
  obtain ⟨hregistered, htexts⟩ := Prod.mk.inj hend
  have hfirst := hclaim s 7 ⟨1, 1⟩ (.of_replay (fun _ _ => inTurn_of_check) hs .refl)
    (by rw [hregistered]; decide) (.text "hi") (by rw [htexts]; rfl)
  cases hfirst

/-- The conditions, decided for two tasks: no send at all while a connection waits,
and room for the `auth_ok`. -/
def checkWelcomes (l : Label Call Event Bool) (s : System (Registry × Sockets) Task Bool) : Bool :=
  match l with
  | .advance i =>
      [true, false].all (fun j => (s.tasks j).greets.isNone || (s.tasks i).message.isNone) &&
        match (s.tasks i).greets with
        | some (_, sender) => (s.shared.1.channels sender).accepts
        | none => true
  | _ => true

theorem welcomes_of_check {sharding : Sharding} {l : Label Call Event Bool}
    {s : System (Registry × Sockets) Task Bool} (h : checkWelcomes l s = true) :
    Welcomes sharding l s where
  early := by
    rintro i u sender rfl ⟨j, hj⟩ ⟨v, hv, -⟩
    have hcheck := List.all_eq_true.mp (Bool.and_eq_true_iff.mp h).1 j (by cases j <;> decide)
    rw [hj] at hcheck
    cases ht : s.tasks i with
    | sendToUser _ _ | broadcast _ _ _ =>
        rw [ht] at hcheck
        cases hcheck
    | _ =>
        rw [ht] at hv
        cases hv
  room := by
    rintro i u sender rfl hgreets -
    have hcheck := (Bool.and_eq_true_iff.mp h).2
    rwa [hgreets] at hcheck

/-- A client pings and then authenticates; the same message comes after its
`auth_ok`. -/
def lateSend : List (Label Call Event Bool) :=
  [.env (.frame 1 .ping), .env (.frame 1 (.pong [42]))] ++
    callIn true (.registerAuthenticatedConnection 1 1 7) 3 ++
      callIn false (.sendToUser 7 "hi") 1

theorem authOk_first_lateSend : ∃ s : System (Registry × Sockets) Task Bool,
    (s.shared.1.channels 1).put = [.ping, .pong [42], .server (.authOk 7), .text "hi"] ∧
      ∀ m ∈ (s.shared.1.channels 1).texts.head?, m = .server (.authOk 7) := by
  have hrun : ((replay (fun l s =>
      if checkInTurn l s && checkWelcomes l s then (socketMachine oneShard).step l s else none)
        freshSockets lateSend).map fun s =>
          (s.shared.2.registered, (s.shared.1.channels 1).put)) =
            some ([(7, ⟨1, 1⟩)], [.ping, .pong [42], .server (.authOk 7), .text "hi"]) := by
    decide
  obtain ⟨s, hs, hend⟩ := Option.map_eq_some_iff.mp hrun
  obtain ⟨hregistered, hput⟩ := Prod.mk.inj hend
  have hreach : ReachableBy (fun l s => InTurn l s ∧ Welcomes oneShard l s)
      (socketMachine oneShard).step freshSockets s := by
    refine .of_replay (fun l s h => ?_) hs .refl
    obtain ⟨hturn, hwelcomes⟩ := Bool.and_eq_true_iff.mp h
    exact ⟨inTurn_of_check hturn, welcomes_of_check hwelcomes⟩
  exact ⟨s, hput, authOk_first hreach (c := ⟨1, 1⟩) (by rw [hregistered]; decide)⟩

end DevbitBackend.Ws
