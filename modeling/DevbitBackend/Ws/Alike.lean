import DevbitBackend.Ws.AuthOk

/-!
# Ws.Alike

Two registries that a viewer `w` cannot tell apart: they may differ in the entry and
the queues of one other user `u`, and in what is queued for third users. Each
statement of a task that runs for others keeps them alike when it runs on both
(`Alike.next`); one that runs for `u`'s own sockets keeps them alike when it runs on
one of them, unless it is a broadcast that reaches the viewer or removes a
connection (`Alike.next_own`).

A send treats every queue on its own, so a broadcast is described user by user
(`Registry.Owned.broadcastShard`), whatever the order of the map.
-/

namespace DevbitBackend.Ws

open Social (UserId)

/-! ### A send, queue by queue -/

/-- The queue is full. -/
def Channel.isFull (c : Channel) : Prop := outboundQueueCapacity ≤ c.queue.length

theorem Channel.enqueue_full {c : Channel} (hopen : c.isOpen = true) (hfull : c.isFull)
    (m : Message) : c.enqueue m = (true, c) := by
  unfold Channel.enqueue
  rw [if_pos hopen, if_neg (Nat.not_lt.mpr hfull)]

theorem Channel.enqueue_fst (c : Channel) (m : Message) : (c.enqueue m).1 = c.isOpen := by
  rw [Channel.enqueue_eq]

theorem Channel.isOpen_forward (c : Channel) : c.forward.isOpen = c.isOpen := by
  unfold Channel.forward
  split <;> rfl

theorem Channel.put_enqueue (c : Channel) (m : Message) :
    (c.enqueue m).2.put = c.put ++ if c.accepts then [m] else [] := by
  rw [Channel.enqueue_eq]
  cases c.accepts with
  | true => exact (List.append_assoc _ _ _).symm
  | false => exact (List.append_nil _).symm

namespace Registry

/-- Nothing that was put into a queue is lost. -/
theorem put_retainEnqueue_le (m : Message) (senders : List WsConnection)
    (channels : Tx → Channel) (x : Tx) :
    (channels x).put.length ≤ ((retainEnqueue m senders channels).2 x).put.length := by
  induction senders generalizing channels with
  | nil => exact Nat.le_refl _
  | cons c senders ih =>
      have hrest := ih (Function.update channels c.sender ((channels c.sender).enqueue m).2)
      refine Nat.le_trans ?_ hrest
      by_cases hx : x = c.sender
      · subst hx
        rw [Function.update_self, Channel.put_enqueue, List.length_append]
        exact Nat.le_add_right _ _
      · rw [Function.update_of_ne hx]

/-- A queue with room gets what is sent to its connection. -/
theorem put_retainEnqueue_lt {m : Message} {senders : List WsConnection}
    {channels : Tx → Channel} {c : WsConnection} (hc : c ∈ senders)
    (haccepts : (channels c.sender).accepts = true) :
    (channels c.sender).put.length <
      ((retainEnqueue m senders channels).2 c.sender).put.length := by
  induction senders generalizing channels with
  | nil => cases hc
  | cons d senders ih =>
      by_cases hd : c.sender = d.sender
      · -- the first connection on the channel gets it
        have hlater := put_retainEnqueue_le m senders
          (Function.update channels d.sender ((channels d.sender).enqueue m).2) c.sender
        refine Nat.lt_of_lt_of_le ?_ hlater
        rw [hd] at haccepts ⊢
        rw [Function.update_self, Channel.put_enqueue, if_pos haccepts, List.length_append]
        exact Nat.lt_succ_self _
      · have hrest : c ∈ senders := by
          refine (List.mem_cons.mp hc).resolve_left ?_
          rintro rfl
          exact hd rfl
        have hsame : Function.update channels d.sender ((channels d.sender).enqueue m).2 c.sender =
            channels c.sender := Function.update_of_ne hd _ _
        have hlater := @ih (Function.update channels d.sender ((channels d.sender).enqueue m).2)
          hrest (hsame ▸ haccepts)
        rwa [hsame] at hlater

theorem isOpen_update (channels : Tx → Channel) (sender x : Tx) (m : Message) :
    (Function.update channels sender ((channels sender).enqueue m).2 x).isOpen =
      (channels x).isOpen := by
  by_cases hx : x = sender
  · subst hx
    rw [Function.update_self]
    exact (Grows.enqueue _ m).isOpen
  · rw [Function.update_of_ne hx]

/-- A send keeps the connections whose receiver is there. -/
theorem retainEnqueue_fst (m : Message) (senders : List WsConnection) (channels : Tx → Channel) :
    (retainEnqueue m senders channels).1 = senders.filter fun c => (channels c.sender).isOpen := by
  induction senders generalizing channels with
  | nil => rfl
  | cons c senders ih =>
      have hrest := ih (Function.update channels c.sender ((channels c.sender).enqueue m).2)
      simp only [isOpen_update] at hrest
      simp only [retainEnqueue, hrest, Channel.enqueue_fst, List.filter_cons]

/-- What a send does to a queue depends on this queue only. -/
theorem retainEnqueue_congr (m : Message) (senders : List WsConnection)
    {channels channels' : Tx → Channel} {x : Tx} (h : channels x = channels' x) :
    (retainEnqueue m senders channels).2 x = (retainEnqueue m senders channels').2 x := by
  induction senders generalizing channels channels' with
  | nil => exact h
  | cons c senders ih =>
      refine ih ?_
      by_cases hx : x = c.sender
      · subst hx
        rw [Function.update_self, Function.update_self, h]
      · rw [Function.update_of_ne hx, Function.update_of_ne hx, h]

/-- A send to full queues changes nothing. -/
theorem retainEnqueue_full (m : Message) {senders : List WsConnection} {channels : Tx → Channel}
    (h : ∀ c ∈ senders, (channels c.sender).isOpen = true ∧ (channels c.sender).isFull) :
    (retainEnqueue m senders channels).2 = channels := by
  induction senders with
  | nil => rfl
  | cons c senders ih =>
      obtain ⟨⟨hopen, hfull⟩, hrest⟩ := List.forall_mem_cons.mp h
      simp only [retainEnqueue, Channel.enqueue_full hopen hfull, Function.update_eq_self]
      exact ih hrest

variable {r r' : Registry} {u v : UserId} {m : Message}

theorem lookup_sendToUser_self :
    (r.sendToUser v m).connections.lookup v =
      (r.connections.lookup v).map fun senders =>
        senders.filter fun c => (r.channels c.sender).isOpen := by
  unfold sendToUser
  cases hl : r.connections.lookup v with
  | none => exact hl
  | some senders =>
      dsimp only
      rw [AList.lookup_insert, retainEnqueue_fst, Option.map_some]

theorem channels_sendToUser (x : Tx) :
    (r.sendToUser v m).channels x =
      (retainEnqueue m ((r.connections.lookup v).getD []) r.channels).2 x := by
  unfold sendToUser
  split
  · rename_i hl
    rw [hl]
    rfl
  · rename_i senders hl
    rw [hl]
    rfl

theorem isOpen_sendToUser (x : Tx) :
    ((r.sendToUser v m).channels x).isOpen = (r.channels x).isOpen := by
  rw [channels_sendToUser]
  exact (grows_retainEnqueue m _ r.channels x).isOpen

/-- What a send to `v` does to a queue depends on this queue and on the entry of `v`. -/
theorem channels_sendToUser_congr {x : Tx} (hl : r.connections.lookup v = r'.connections.lookup v)
    (hx : r.channels x = r'.channels x) :
    (r.sendToUser v m).channels x = (r'.sendToUser v m).channels x := by
  rw [channels_sendToUser, channels_sendToUser, hl]
  exact retainEnqueue_congr m _ hx

end Registry

/-! ### Whose sockets they are -/

/-- `user` says as whom a socket is, or will be, authenticated: a connection stands
under its own user. -/
def Registry.Owned (user : Tx → UserId) (r : Registry) : Prop :=
  ∀ v senders, r.connections.lookup v = some senders → ∀ c ∈ senders, user c.sender = v

section Owned

variable {user : Tx → UserId} {r r' : Registry} {u v : UserId} {m : Message}

theorem Registry.Owned.of_prunes (hr : r.Owned user) (hp : Prunes r r') : r'.Owned user := by
  intro v senders' hl c hc
  obtain ⟨senders, hl', hsub⟩ := hp.sublist v senders' hl
  exact hr v senders hl' c (hsub.subset hc)

theorem Registry.Owned.erase (hr : r.Owned user) :
    Registry.Owned user { r with connections := r.connections.erase u } := by
  intro v senders hl
  by_cases hv : v = u
  · subst hv
    rw [AList.lookup_erase] at hl
    cases hl
  · rw [AList.lookup_erase_ne hv] at hl
    exact hr v senders hl

/-- A send to `v` leaves the queues of others alone. -/
theorem Registry.Owned.channels_sendToUser (hr : r.Owned user) {x : Tx} (hx : user x ≠ v) :
    (r.sendToUser v m).channels x = r.channels x := by
  rw [Registry.channels_sendToUser]
  refine Registry.retainEnqueue_other m r.channels fun c hc heq => ?_
  cases hl : r.connections.lookup v with
  | none =>
      rw [hl] at hc
      cases hc
  | some senders =>
      rw [hl] at hc
      exact hx (heq ▸ hr v senders hl c hc)

/-- What a send to `v` leaves of the entry of `v` depends on this entry and on
which receivers are there. -/
theorem Registry.Owned.lookup_sendToUser (hr : r.Owned user)
    (hl : r.connections.lookup v = r'.connections.lookup v)
    (hopen : ∀ x, user x = v → (r.channels x).isOpen = (r'.channels x).isOpen) :
    (r.sendToUser v m).connections.lookup v = (r'.sendToUser v m).connections.lookup v := by
  rw [Registry.lookup_sendToUser_self, Registry.lookup_sendToUser_self, ← hl]
  cases hs : r.connections.lookup v with
  | none => rfl
  | some senders =>
      rw [Option.map_some, Option.map_some]
      congr 1
      exact List.filter_congr fun c hc => hopen _ (hr v senders hs c hc)

/-- Sends to several users, one after another. -/
theorem Registry.Owned.foldl_sendToUser (m : Message) {users : List UserId} (hn : users.Nodup)
    (hr : r.Owned user) :
    (∀ v, (users.foldl (fun r u => r.sendToUser u m) r).connections.lookup v =
      if v ∈ users then (r.sendToUser v m).connections.lookup v else r.connections.lookup v) ∧
    ∀ x, (users.foldl (fun r u => r.sendToUser u m) r).channels x =
      if user x ∈ users then (r.sendToUser (user x) m).channels x else r.channels x := by
  induction users generalizing r with
  | nil => exact ⟨fun _ => rfl, fun _ => rfl⟩
  | cons a users ih =>
      obtain ⟨hnot, hn⟩ := List.nodup_cons.mp hn
      obtain ⟨hlookup, hchannels⟩ := ih hn (hr.of_prunes (r.prunes_sendToUser a m))
      refine ⟨fun v => ?_, fun x => ?_⟩
      · rw [List.foldl_cons, hlookup]
        by_cases hv : v = a
        · subst hv
          rw [if_neg hnot, if_pos List.mem_cons_self]
        -- the send to `a` leaves the entry of `v` as it was
        · have hsame := Registry.lookup_sendToUser_ne (r := r) (m := m) hv
          have hsent := (hr.of_prunes (r.prunes_sendToUser a m)).lookup_sendToUser (m := m) hsame
            fun x _ => Registry.isOpen_sendToUser x
          rw [hsame, hsent]
          simp [hv]
      · rw [List.foldl_cons, hchannels]
        by_cases hx : user x = a
        · subst hx
          rw [if_neg hnot, if_pos List.mem_cons_self]
        -- and the queues of other users too, since connections are owned
        · have hsame := hr.channels_sendToUser (m := m) hx
          have hsent := Registry.channels_sendToUser_congr (m := m)
            (Registry.lookup_sendToUser_ne (r := r) (m := m) hx) hsame
          rw [hsame, hsent]
          simp [hx]

/-- The entries of one shard of a broadcast. -/
theorem Registry.Owned.broadcastShard (hr : r.Owned user) (sharding : Sharding) (shard : Nat)
    (m : Message) :
    (∀ v, (r.broadcastShard sharding shard m).connections.lookup v =
      if (sharding.of v).val = shard then (r.sendToUser v m).connections.lookup v
      else r.connections.lookup v) ∧
    ∀ x, (r.broadcastShard sharding shard m).channels x =
      if (sharding.of (user x)).val = shard then (r.sendToUser (user x) m).channels x
      else r.channels x := by
  have hn : (r.connections.keys.filter fun u => (sharding.of u).val == shard).Nodup :=
    r.connections.keys_nodup.filter _
  -- the users of the shard that have an entry; to others nothing is sent
  have hmem : ∀ v, v ∈ r.connections.keys.filter (fun u => (sharding.of u).val == shard) ↔
      v ∈ r.connections ∧ (sharding.of v).val = shard := by
    intro v
    rw [List.mem_filter, beq_iff_eq]
    exact Iff.rfl
  have habsent : ∀ v, v ∉ r.connections → r.sendToUser v m = r := by
    intro v hv
    unfold sendToUser
    rw [AList.lookup_eq_none.mpr hv]
  obtain ⟨hlookup, hchannels⟩ := hr.foldl_sendToUser m hn
  refine ⟨fun v => ?_, fun x => ?_⟩
  · rw [Registry.broadcastShard, hlookup]
    simp only [hmem]
    by_cases hv : v ∈ r.connections
    · simp [hv]
    · simp [hv, habsent v hv]
  · rw [Registry.broadcastShard, hchannels]
    simp only [hmem]
    by_cases hv : user x ∈ r.connections
    · simp [hv]
    · simp [hv, habsent _ hv]

end Owned

/-! ### Registries that look alike -/

/-- The registries agree on everything but the entry and the queues of `u` and the
contents of queues that are not the viewer's. -/
structure Alike (user : Tx → UserId) (u w : UserId) (r r' : Registry) : Prop where
  lookup : ∀ v, v ≠ u → r.connections.lookup v = r'.connections.lookup v
  isOpen : ∀ x, user x ≠ u → (r.channels x).isOpen = (r'.channels x).isOpen
  queue : ∀ x, user x = w → r.channels x = r'.channels x

namespace Alike

variable {user : Tx → UserId} {u v w : UserId} {r r' r'' : Registry} {m : Message}

theorem refl (r : Registry) : Alike user u w r r := ⟨fun _ _ => rfl, fun _ _ => rfl, fun _ _ => rfl⟩

theorem symm (h : Alike user u w r r') : Alike user u w r' r where
  lookup v hv := (h.lookup v hv).symm
  isOpen x hx := (h.isOpen x hx).symm
  queue x hx := (h.queue x hx).symm

theorem trans (h : Alike user u w r r') (h' : Alike user u w r' r'') : Alike user u w r r'' where
  lookup v hv := (h.lookup v hv).trans (h'.lookup v hv)
  isOpen x hx := (h.isOpen x hx).trans (h'.isOpen x hx)
  queue x hx := (h.queue x hx).trans (h'.queue x hx)

/-- The entry of one user is replaced on both sides. -/
theorem insert (h : Alike user u w r r') (v : UserId) (senders : List WsConnection) :
    Alike user u w { r with connections := r.connections.insert v senders }
      { r' with connections := r'.connections.insert v senders } where
  lookup v' hv' := by
    by_cases hv : v' = v
    · subst hv
      simp
    · simpa [hv] using h.lookup v' hv'
  isOpen := h.isOpen
  queue := h.queue

theorem erase (h : Alike user u w r r') (v : UserId) :
    Alike user u w { r with connections := r.connections.erase v }
      { r' with connections := r'.connections.erase v } where
  lookup v' hv' := by
    by_cases hv : v' = v
    · subst hv
      simp
    · simpa [hv] using h.lookup v' hv'
  isOpen := h.isOpen
  queue := h.queue

/-- The entry of `u` does not matter. -/
theorem insert_self (senders : List WsConnection) :
    Alike user u w { r with connections := r.connections.insert u senders } r where
  lookup _ hv := AList.lookup_insert_ne hv
  isOpen _ _ := rfl
  queue _ _ := rfl

theorem erase_self : Alike user u w { r with connections := r.connections.erase u } r where
  lookup _ hv := AList.lookup_erase_ne hv
  isOpen _ _ := rfl
  queue _ _ := rfl

/-- One queue is changed on both sides, in a way that does not open or close it
differently. -/
theorem update (h : Alike user u w r r') (x : Tx) (f : Channel → Channel)
    (hf : ∀ c c' : Channel, c.isOpen = c'.isOpen → (f c).isOpen = (f c').isOpen) :
    Alike user u w { r with channels := Function.update r.channels x (f (r.channels x)) }
      { r' with channels := Function.update r'.channels x (f (r'.channels x)) } where
  lookup := h.lookup
  isOpen y hy := by
    by_cases hx : y = x
    · subst hx
      simpa using hf _ _ (h.isOpen y hy)
    · simpa [hx] using h.isOpen y hy
  queue y hy := by
    by_cases hx : y = x
    · subst hx
      simpa using congrArg f (h.queue y hy)
    · simpa [hx] using h.queue y hy

/-- The queues of `u` do not matter. -/
theorem update_self (hwu : w ≠ u) {x : Tx} (hx : user x = u) (c : Channel) :
    Alike user u w { r with channels := Function.update r.channels x c } r where
  lookup _ _ := rfl
  isOpen y hy := by
    have hne : y ≠ x := fun heq => hy (heq ▸ hx)
    simp [hne]
  queue y hy := by
    have hne : y ≠ x := fun heq => hwu (hy.symm.trans (heq ▸ hx))
    simp [hne]

/-- The entry of another user is removed on both sides, or on neither. -/
theorem removeIfEmpty (h : Alike user u w r r') (hv : v ≠ u) :
    (r.removeIfEmpty v).1 = (r'.removeIfEmpty v).1 ∧
      Alike user u w (r.removeIfEmpty v).2 (r'.removeIfEmpty v).2 := by
  unfold Registry.removeIfEmpty
  rw [h.lookup v hv]
  split
  · exact ⟨rfl, h.erase v⟩
  · exact ⟨rfl, h⟩

theorem enqueue (h : Alike user u w r r') (sender : Tx) (m : Message) :
    Alike user u w (r.enqueue sender m).2 (r'.enqueue sender m).2 :=
  h.update sender (fun c => (c.enqueue m).2) fun c c' hc => by
    rw [(Grows.enqueue c m).isOpen, (Grows.enqueue c' m).isOpen, hc]

theorem apply (h : Alike user u w r r') (e : Event) : Alike user u w (e.apply r) (e.apply r') := by
  cases e with
  | close x => exact h.update x (fun c => { c with isOpen := false }) fun _ _ _ => rfl
  | forward x =>
      refine h.update x Channel.forward fun c c' hc => ?_
      rw [c.isOpen_forward, c'.isOpen_forward, hc]
  | frame x m => exact h.enqueue x m

theorem sendToUser (hwu : w ≠ u) (hr : r.Owned user) (hr' : r'.Owned user)
    (h : Alike user u w r r') (v : UserId) (m : Message) :
    Alike user u w (r.sendToUser v m) (r'.sendToUser v m) where
  lookup v' hv' := by
    by_cases hv : v' = v
    · subst hv
      exact hr.lookup_sendToUser (h.lookup v' hv') fun x hx => h.isOpen x (hx ▸ hv')
    · rw [Registry.lookup_sendToUser_ne hv, Registry.lookup_sendToUser_ne hv, h.lookup v' hv']
  isOpen x hx := by
    rw [Registry.isOpen_sendToUser, Registry.isOpen_sendToUser, h.isOpen x hx]
  queue x hx := by
    by_cases hv : user x = v
    · have hvu : v ≠ u := hv ▸ hx.symm ▸ hwu
      exact Registry.channels_sendToUser_congr (h.lookup v hvu) (h.queue x hx)
    · rw [hr.channels_sendToUser hv, hr'.channels_sendToUser hv, h.queue x hx]

theorem broadcastShard (hwu : w ≠ u) (hr : r.Owned user) (hr' : r'.Owned user)
    (h : Alike user u w r r') (sharding : Sharding) (shard : Nat) (m : Message) :
    Alike user u w (r.broadcastShard sharding shard m) (r'.broadcastShard sharding shard m) := by
  obtain ⟨hlookup, hchannels⟩ := hr.broadcastShard sharding shard m
  obtain ⟨hlookup', hchannels'⟩ := hr'.broadcastShard sharding shard m
  have hsent : ∀ v, Alike user u w (r.sendToUser v m) (r'.sendToUser v m) :=
    fun v => h.sendToUser hwu hr hr' v m
  refine ⟨fun v hv => ?_, fun x hx => ?_, fun x hx => ?_⟩
  · rw [hlookup, hlookup', (hsent v).lookup v hv, h.lookup v hv]
  · rw [hchannels, hchannels']
    split
    · exact (hsent _).isOpen x hx
    · exact h.isOpen x hx
  · rw [hchannels, hchannels', (hsent _).queue x hx, h.queue x hx]

end Alike

/-! ### The tasks of the user's own sockets -/

def Access.user : Access → UserId
  | .register v _ | .retain v _ | .remove v => v

/-- A socket is registered as its user. -/
def Access.Owned (user : Tx → UserId) : Access → Prop
  | .register v c => user c.sender = v
  | _ => True

/-- The user whose coming or going a call is about. -/
def Call.user : Call → Option UserId
  | .registerAuthenticatedConnection _ _ v | .unregisterAuthenticatedConnection _ v
  | .disconnectUser v => some v
  | .sendToUser _ _ | .broadcast _ => none

def Call.Owned (user : Tx → UserId) : Call → Prop
  | .registerAuthenticatedConnection sender _ v => user sender = v
  | _ => True

/-- The task runs the coming and going of `u` if it is one of `u`'s `own`, and of
others if not. -/
def Task.Of (user : Tx → UserId) (u : UserId) (own : Prop) : Task → Prop
  | .lock first | .access first => first.Owned user ∧ (own ↔ first.user = u)
  | .authOk v sender _ => user sender = v ∧ (own ↔ v = u)
  | .removeIf v | .disconnect _ v => own ↔ v = u
  | .sendToUser _ _ | .broadcast _ _ none => ¬ own
  | _ => True

section Tasks

variable {user : Tx → UserId} {u w : UserId} {own : Prop} {sharding : Sharding} {t : Task}
  {r r' : Registry}

theorem Task.of_code {c : Call} (hc : own ↔ c.user = some u) (howned : c.Owned user) :
    c.code.Of user u own := by
  cases c with
  | registerAuthenticatedConnection sender disconnect v =>
      exact ⟨howned, hc.trans Option.some_inj⟩
  | unregisterAuthenticatedConnection sender v => exact ⟨trivial, hc.trans Option.some_inj⟩
  | disconnectUser v => exact ⟨trivial, hc.trans Option.some_inj⟩
  | sendToUser v json => exact fun ho => by cases hc.mp ho
  | broadcast json => exact fun ho => by cases hc.mp ho

theorem Task.Of.next (h : t.Of user u own) (r : Registry) :
    (t.next sharding r).1.Of user u own := by
  cases t with
  | done answer => trivial
  | lock first => exact h
  | access first =>
      obtain ⟨howned, hown⟩ := h
      cases first with
      | register v c => exact ⟨howned, hown⟩
      | retain v sender => exact hown
      | remove v =>
          simp only [Task.next, Registry.remove]
          split
          · trivial
          · exact hown
  | authOk v sender cameOnline => cases cameOnline <;> trivial
  | removeIf v =>
      simp only [Task.next]
      split <;> trivial
  | disconnect senders v =>
      cases senders with
      | nil => trivial
      | cons c senders => exact h
  | announce message answer => trivial
  | broadcast message shard caller =>
      simp only [Task.next]
      split
      · cases caller with
        | none => exact h
        | some answer => trivial
      · cases caller <;> trivial
  | unlock answer => trivial
  | sendToUser v json => trivial

/-- The connections stay under their own users. -/
theorem Registry.Owned.next (hr : r.Owned user) (h : t.Of user u own) :
    (t.next sharding r).2.Owned user := by
  cases t with
  | access first =>
      cases first with
      | register v c =>
          intro v' senders hl c' hc'
          rcases Registry.mem_lookup_register hl hc' with ⟨rfl, rfl⟩ | ⟨old, hold, hin⟩
          · exact h.1
          · exact hr v' old hold c' hin
      | retain v sender => exact hr.of_prunes (r.prunes_retainOther v sender)
      | remove v =>
          simp only [Task.next, Registry.remove]
          cases r.connections.lookup v <;> exact hr.erase
  | removeIf v =>
      simp only [Task.next, Registry.removeIfEmpty]
      split
      · exact hr.erase
      · exact hr
  | disconnect senders v => cases senders <;> exact hr
  | broadcast message shard caller =>
      simp only [Task.next]
      split
      · exact hr.of_prunes (r.prunes_broadcastShard sharding shard message)
      · cases caller <;> exact hr
  | sendToUser v json => exact hr.of_prunes (r.prunes_sendToUser v _)
  | _ => exact hr

/-- The task is not about to show its user's coming or going to the viewer, or to
remove a connection of somebody else. -/
def Task.Unseen (sharding : Sharding) (u w : UserId) (r : Registry) : Task → Prop
  | .broadcast _ shard _ =>
      ∀ v senders, v ≠ u → (sharding.of v).val = shard → r.connections.lookup v = some senders →
        ∀ c ∈ senders, (r.channels c.sender).isOpen = true ∧
          (v = w → (r.channels c.sender).isFull)
  | _ => True

/-- A broadcast about `u` that nobody relevant receives. -/
theorem Alike.unseen (hwu : w ≠ u) (hr : r.Owned user) {message : Message} {shard : Nat}
    {caller : Option (Option Bool)}
    (h : (Task.broadcast message shard caller).Unseen sharding u w r) :
    Alike user u w (r.broadcastShard sharding shard message) r := by
  obtain ⟨hlookup, hchannels⟩ := hr.broadcastShard sharding shard message
  refine ⟨fun v hv => ?_, fun x hx => ?_, fun x hx => ?_⟩
  · rw [hlookup]
    split
    · rename_i hshard
      rw [Registry.lookup_sendToUser_self]
      cases hl : r.connections.lookup v with
      | none => rfl
      | some senders =>
          -- every receiver is open, so the broadcast prunes nothing
          have hkept : ∀ c ∈ senders, (r.channels c.sender).isOpen = true :=
            fun c hc => (h v senders hv hshard hl c hc).1
          rw [Option.map_some, List.filter_eq_self.mpr hkept]
    · rfl
  · rw [hchannels]
    split
    · exact Registry.isOpen_sendToUser x
    · rfl
  · rw [hchannels]
    split
    · rename_i hshard
      -- the queues of the viewer are full, so the frame is dropped
      rw [Registry.channels_sendToUser, Registry.retainEnqueue_full]
      intro c hc
      cases hl : r.connections.lookup (user x) with
      | none =>
          rw [hl] at hc
          cases hc
      | some senders =>
          rw [hl] at hc
          obtain ⟨hopen, hfull⟩ := h (user x) senders (hx ▸ hwu) hshard hl c hc
          exact ⟨hopen, hfull hx⟩
    · rfl

/-- **Any other broadcast is noticed**: it removes a connection of somebody else, or it
puts a frame on a socket of the viewer. -/
theorem Registry.Owned.seen (hr : r.Owned user) {message : Message} {shard : Nat}
    {caller : Option (Option Bool)}
    (h : ¬ (Task.broadcast message shard caller).Unseen sharding u w r) :
    (∃ v, v ≠ u ∧ (r.broadcastShard sharding shard message).connections.lookup v ≠
      r.connections.lookup v) ∨
    ∃ x, user x = w ∧ (r.channels x).put.length <
      ((r.broadcastShard sharding shard message).channels x).put.length := by
  obtain ⟨hlookup, hchannels⟩ := hr.broadcastShard sharding shard message
  simp only [Task.Unseen, not_forall] at h
  obtain ⟨v, senders, hv, hshard, hl, c, hc, hseen⟩ := h
  by_cases hopen : (r.channels c.sender).isOpen = true
  · -- the connection is the viewer's, and its queue has room
    obtain ⟨rfl, hroom⟩ : v = w ∧ ¬ (r.channels c.sender).isFull := by
      simpa [hopen] using hseen
    have hown : user c.sender = v := hr v senders hl c hc
    refine .inr ⟨c.sender, hown, ?_⟩
    rw [hchannels, if_pos (hown.symm ▸ hshard), hown, Registry.channels_sendToUser, hl]
    refine Registry.put_retainEnqueue_lt hc ?_
    simpa [Channel.accepts, hopen, Channel.isFull] using hroom
  · refine .inl ⟨v, hv, ?_⟩
    rw [hlookup, if_pos hshard, Registry.lookup_sendToUser_self, hl, Option.map_some]
    intro hsame
    have hkept : senders.filter (fun c => (r.channels c.sender).isOpen) = senders :=
      Option.some.inj hsame
    exact hopen (List.filter_eq_self.mp hkept c hc)

/-- A statement of the user's own sockets. -/
theorem Alike.next_own (hwu : w ≠ u) (hr : r.Owned user) (ht : t.Of user u own) (hown : own)
    (h : t.Unseen sharding u w r) : Alike user u w (t.next sharding r).2 r := by
  cases t with
  | access first =>
      -- an own statement touches the entry of `u` only, which nobody compares
      obtain rfl : first.user = u := ht.2.mp hown
      cases first with
      | register v c => exact .insert_self _
      | retain v sender =>
          simp only [Task.next, Registry.retainOther]
          split
          · exact .refl r
          · exact .insert_self _
      | remove v =>
          simp only [Task.next, Registry.remove]
          cases r.connections.lookup v <;> exact .erase_self
  | authOk v sender cameOnline => exact .update_self hwu (ht.1.trans (ht.2.mp hown)) _
  | removeIf v =>
      obtain rfl : v = u := ht.mp hown
      simp only [Task.next, Registry.removeIfEmpty]
      split
      · exact .erase_self
      · exact .refl r
  | disconnect senders v =>
      cases senders <;> exact ⟨fun _ _ => rfl, fun _ _ => rfl, fun _ _ => rfl⟩
  | announce message answer => exact ⟨fun _ _ => rfl, fun _ _ => rfl, fun _ _ => rfl⟩
  | broadcast message shard caller =>
      simp only [Task.next]
      split
      -- the broadcast is the one statement that reaches others
      · exact .unseen hwu hr h
      · cases caller <;> exact .refl r
  | sendToUser v json => exact absurd hown ht
  | _ => exact .refl r

/-- A statement of another task, on both sides. -/
theorem Alike.next (sharding : Sharding) (hwu : w ≠ u) (hr : r.Owned user) (hr' : r'.Owned user)
    (ht : t.Of user u own) (hown : ¬ own) (h : Alike user u w r r') :
    (t.next sharding r).1 = (t.next sharding r').1 ∧
      Alike user u w (t.next sharding r).2 (t.next sharding r').2 := by
  cases t with
  | done answer => exact ⟨rfl, h⟩
  | lock first => exact ⟨rfl, h⟩
  | access first =>
      have hne : first.user ≠ u := fun heq => hown (ht.2.mpr heq)
      -- the entry that is looked up is the same on both sides
      have hl := h.lookup first.user hne
      cases first with
      | register v c =>
          simp only [Access.user] at hl
          simp only [Task.next, Registry.register, hl]
          exact ⟨trivial, h.insert v _⟩
      | retain v sender =>
          simp only [Access.user] at hl
          refine ⟨rfl, ?_⟩
          simp only [Task.next, Registry.retainOther, hl]
          split
          · exact h
          · exact h.insert v _
      | remove v =>
          simp only [Access.user] at hl
          simp only [Task.next, Registry.remove, hl]
          cases r'.connections.lookup v with
          | none => exact ⟨rfl, h.erase v⟩
          | some senders => exact ⟨rfl, h.erase v⟩
  | authOk v sender cameOnline => exact ⟨rfl, h.enqueue sender _⟩
  | removeIf v =>
      have hne : v ≠ u := fun heq => hown (ht.mpr heq)
      obtain ⟨hremoved, hafter⟩ := h.removeIfEmpty hne
      simp only [Task.next, hremoved]
      exact ⟨trivial, hafter⟩
  | disconnect senders v =>
      cases senders with
      | nil => exact ⟨rfl, h⟩
      | cons c senders => exact ⟨rfl, h.lookup, h.isOpen, h.queue⟩
  | announce message answer => exact ⟨rfl, h.lookup, h.isOpen, h.queue⟩
  | broadcast message shard caller =>
      simp only [Task.next]
      split
      · exact ⟨rfl, h.broadcastShard hwu hr hr' sharding shard message⟩
      · cases caller <;> exact ⟨rfl, h⟩
  | unlock answer => exact ⟨rfl, h⟩
  | sendToUser v json => exact ⟨rfl, h.sendToUser hwu hr hr' v _⟩

end Tasks

end DevbitBackend.Ws
