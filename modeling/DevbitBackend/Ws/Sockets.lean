import DevbitBackend.Lib.Serial
import DevbitBackend.Ws.Presence

/-!
# Ws.Sockets

**No leaked connection and no lost offline.** The registry is compared with a
history of its sockets: which connections were registered, and which sockets ran
`unregister` since. Every stored connection is that of a socket which is still
there, every entry has such a socket of its user, and whoever takes an entry away
under the mutex owes the `user_offline` that follows.

A socket is its channel: `handle_socket` makes a new one, registers it once at
most, and unregisters it once when it was registered.
-/

namespace DevbitBackend.Ws

open Social (UserId)
open Monitor Transition

/-! ### The history of the sockets -/

/-- What the sockets did, in the order of the statements. -/
structure Sockets where
  /-- The connections that `ws_state.register(..)` pushed. -/
  registered : List (UserId × WsConnection)
  /-- The sockets whose `unregister` has begun, and holds the mutex. -/
  leaving : List (UserId × Tx)
  /-- The sockets whose `unregister_authenticated_connection` is through. -/
  unregistered : List (UserId × Tx)
  deriving DecidableEq, Repr

namespace Sockets

def none : Sockets := ⟨[], [], []⟩

/-- What the next statement of a call adds to the history. -/
def note : Task → Registry → Sockets → Sockets
  | .access (.register u c), _, h => { h with registered := h.registered ++ [(u, c)] }
  | .access (.retain u sender), _, h => { h with leaving := h.leaving ++ [(u, sender)] }
  | .unlock (some _), _, h => ⟨h.registered, [], h.unregistered ++ h.leaving⟩
  | _, _, h => h

variable (h : Sockets) (u : UserId)

/-- The connections of the socket have been dropped. -/
def Left (sender : Tx) : Prop := (u, sender) ∈ h.leaving ∨ (u, sender) ∈ h.unregistered

/-- The socket of `c` has registered for `u`, and not begun to unregister. -/
def Live (c : WsConnection) : Prop := (u, c) ∈ h.registered ∧ ¬ h.Left u c.sender

/-- Some socket of `u` has registered and not unregistered. -/
def Present : Prop := ∃ c, (u, c) ∈ h.registered ∧ (u, c.sender) ∉ h.unregistered

variable {h u}

theorem Live.present {c : WsConnection} (hc : h.Live u c) : h.Present u :=
  ⟨c, hc.1, fun hun => hc.2 (.inr hun)⟩

end Sockets

/-- The registry with the history of its sockets. -/
abbrev socketMachine (sharding : Sharding) : Machine (Registry × Sockets) Task Call Event :=
  (wsMachine sharding).recording Sockets.note

def freshSockets {ι : Type} : System (Registry × Sockets) Task ι :=
  start (.done none) (.new, .none)

/-- The history changes no run of the registry. -/
theorem reachable_forget_iff {ι : Type} [DecidableEq ι] {sharding : Sharding}
    {s : System Registry Task ι} :
    Reachable (wsMachine sharding).step freshRegistry s ↔
      ∃ s', Reachable (socketMachine sharding).step freshSockets s' ∧ s'.forget = s := by
  change Reachable (wsMachine sharding).step (System.forget freshSockets) s ↔ _
  exact reachable_recording_iff

/-! ### Pruning -/

/-- Each vector loses connections at most, and nothing else changes. -/
structure Prunes (r r' : Registry) : Prop where
  presence : SamePresence r r'
  sublist : ∀ u senders', r'.connections.lookup u = some senders' →
    ∃ senders, r.connections.lookup u = some senders ∧ senders'.Sublist senders

namespace Prunes

variable {r r' r'' : Registry} {u : UserId}

/-- The map stays as it is. -/
theorem same (hp : SamePresence r r') (h : r'.connections = r.connections) : Prunes r r' where
  presence := hp
  sublist u senders' hl := ⟨senders', by rw [← h, hl], .refl _⟩

theorem trans (h : Prunes r r') (h' : Prunes r' r'') : Prunes r r'' where
  presence := h.presence.trans h'.presence
  sublist u senders'' hl := by
    obtain ⟨senders', hl', hsub'⟩ := h'.sublist u senders'' hl
    obtain ⟨senders, hl, hsub⟩ := h.sublist u senders' hl'
    exact ⟨senders, hl, hsub'.trans hsub⟩

theorem insert {old new : List WsConnection} (hu : r.connections.lookup u = some old)
    (hsub : new.Sublist old) (channels : Tx → Channel) :
    Prunes r { r with connections := r.connections.insert u new, channels := channels } where
  presence := .insert hu channels
  sublist v senders' hl := by
    by_cases hv : v = u
    · subst hv
      rw [AList.lookup_insert, Option.some.injEq] at hl
      subst hl
      exact ⟨old, hu, hsub⟩
    · rw [AList.lookup_insert_ne hv] at hl
      exact ⟨senders', hl, .refl _⟩

end Prunes

namespace Registry

theorem sublist_retainEnqueue (m : Message) (senders : List WsConnection)
    (channels : Tx → Channel) : (retainEnqueue m senders channels).1.Sublist senders := by
  induction senders generalizing channels with
  | nil => exact .slnil
  | cons c senders ih =>
      unfold retainEnqueue
      have hrest := ih (Function.update channels c.sender ((channels c.sender).enqueue m).2)
      cases hsent : ((channels c.sender).enqueue m).1 with
      | true => simpa [hsent] using hrest.cons_cons c
      | false => simpa [hsent] using hrest.cons c

variable (r : Registry) (u : UserId)

theorem prunes_enqueue (sender : Tx) (m : Message) : Prunes r (r.enqueue sender m).2 :=
  .same (r.samePresence_enqueue sender m) rfl

theorem prunes_sendReplace (d : DisconnectTx) : Prunes r (r.sendReplace d) :=
  .same (r.samePresence_sendReplace d) rfl

theorem prunes_sendToUser (m : Message) : Prunes r (r.sendToUser u m) := by
  unfold sendToUser
  split
  · exact .same (.refl r) rfl
  · rename_i senders hl
    exact .insert hl (sublist_retainEnqueue m senders r.channels) _

theorem prunes_broadcastShard (sharding : Sharding) (shard : Nat) (m : Message) :
    Prunes r (r.broadcastShard sharding shard m) := by
  unfold broadcastShard
  generalize r.connections.keys.filter _ = users
  induction users generalizing r with
  | nil => exact .same (.refl r) rfl
  | cons v users ih => exact (prunes_sendToUser r v m).trans (ih (r.sendToUser v m))

theorem prunes_apply (e : Event) : Prunes r (e.apply r) := by
  refine .same (r.samePresence_apply e) ?_
  cases e <;> rfl

/-- `unregister` drops the connections of one socket from the vector of its user. -/
theorem prunes_retainOther (sender : Tx) : Prunes r (r.retainOther u sender) := by
  unfold retainOther
  split
  · exact .same (.refl r) rfl
  · rename_i senders hl
    exact .insert hl List.filter_sublist r.channels

theorem lookup_retainOther_self (sender : Tx) {senders' : List WsConnection}
    (hl : (r.retainOther u sender).connections.lookup u = some senders') :
    ∀ c ∈ senders', c.sender ≠ sender := by
  unfold retainOther at hl
  split at hl
  · rename_i hnone
    rw [hnone] at hl
    cases hl
  · rw [AList.lookup_insert, Option.some.injEq] at hl
    subst hl
    intro c hc
    simpa using (List.mem_filter.mp hc).2

theorem lookup_register_self (c : WsConnection) :
    (r.register u c).2.connections.lookup u =
      some ((r.connections.lookup u).getD [] ++ [c]) := AList.lookup_insert _

theorem lookup_register_ne (c : WsConnection) {v : UserId} (hv : v ≠ u) :
    (r.register u c).2.connections.lookup v = r.connections.lookup v := AList.lookup_insert_ne hv

variable {r u}

/-- A connection that is stored after a registration is the new one, or was stored
before. -/
theorem mem_lookup_register {c c' : WsConnection} {v : UserId} {senders : List WsConnection}
    (hl : (r.register u c).2.connections.lookup v = some senders) (hc' : c' ∈ senders) :
    (v = u ∧ c' = c) ∨ ∃ old, r.connections.lookup v = some old ∧ c' ∈ old := by
  by_cases hv : v = u
  · subst hv
    rw [lookup_register_self, Option.some.injEq] at hl
    subst hl
    rcases List.mem_append.mp hc' with hin | hin
    · cases hlv : r.connections.lookup v with
      | none => simp [hlv] at hin
      | some old => exact .inr ⟨old, rfl, by simpa [hlv] using hin⟩
    · exact .inl ⟨rfl, List.mem_singleton.mp hin⟩
  · rw [lookup_register_ne r u c hv] at hl
    exact .inr ⟨senders, hl, hc'⟩

end Registry

/-! ### What others were told -/

/-- No two `user_offline` about `u` follow one another. -/
def Separated (u : UserId) (log : List ServerMessage) : Prop :=
  (about u log).IsChain fun m m' => m = .userOnline u ∨ m' = .userOnline u

/-- The last message about each user says whether they are in `online`. -/
def Tells (log : List ServerMessage) (online : UserId → Prop) : Prop :=
  ∀ u, Separated u log ∧ ((about u log).getLast? = some (.userOnline u) ↔ online u)

/-- Between two `user_offline` stands a `user_online`. -/
theorem Separated.between {u : UserId} {before log after : List ServerMessage}
    (h : Separated u (before ++ .userOffline u :: log ++ .userOffline u :: after)) :
    .userOnline u ∈ log := by
  have hoff : ∀ rest, about u (.userOffline u :: rest) = .userOffline u :: about u rest := by
    intro rest
    simp [about]
  unfold Separated at h
  rw [about_append, about_append, hoff, hoff, List.append_assoc, List.cons_append] at h
  have hchain := h.right_of_append
  cases hl : about u log with
  | nil =>
      rw [hl, List.nil_append, List.isChain_cons_cons] at hchain
      rcases hchain.1 with heq | heq <;> cases heq
  | cons m rest =>
      rw [hl, List.cons_append, List.isChain_cons_cons] at hchain
      rcases hchain.1 with heq | rfl
      · cases heq
      · exact List.mem_of_mem_filter (hl ▸ List.mem_cons_self)

namespace Tells

variable {log : List ServerMessage} {shown shown' : UserId → Prop} {u : UserId}

theorem congr (h : Tells log shown) (ho : ∀ v, shown' v ↔ shown v) : Tells log shown' :=
  fun v => ⟨(h v).1, (h v).2.trans (ho v).symm⟩

/-- One more message about `u`, which says what is shown of `u` from then on. -/
theorem concat {m : ServerMessage} (h : Tells log shown)
    (hm : m = .userOnline u ∨ m = .userOffline u) (hturn : m = .userOffline u → shown u)
    (hu : shown' u ↔ m = .userOnline u) (ho : ∀ v, v ≠ u → (shown' v ↔ shown v)) :
    Tells (log ++ [m]) shown' := by
  intro v
  by_cases hv : v = u
  · subst hv
    unfold Separated
    rw [about_append, about_self m v hm]
    refine ⟨?_, by rw [List.getLast?_concat, hu, Option.some.injEq]⟩
    refine List.isChain_append.mpr ⟨(h v).1, .singleton m, fun x hx y hy => ?_⟩
    rw [List.head?_cons, Option.mem_def, Option.some.injEq] at hy
    subst hy
    rcases hm with hon | hoff
    · exact .inr hon
    · rw [Option.mem_def, (h v).2.mpr (hturn hoff), Option.some.injEq] at hx
      exact .inl hx.symm
  · unfold Separated
    rw [about_append, about_other m hv hm, List.append_nil, ho v hv]
    exact h v

/-- What is shown was told: who is shown online has been the subject of a broadcast. -/
theorem ne_nil (h : Tells log shown) (hu : shown u) : about u log ≠ [] := by
  intro hnil
  have hlast := (h u).2.mpr hu
  rw [hnil] at hlast
  cases hlast

/-- Who is not shown, but was told about, was last told offline. -/
theorem offline (h : Tells log shown) (hu : ¬ shown u) (hne : about u log ≠ []) :
    (about u log).getLast? = some (.userOffline u) := by
  have hlast := List.getLast?_eq_some_getLast hne
  rcases mem_about (List.getLast_mem hne) with hon | hoff
  · rw [hon] at hlast
    exact absurd ((h u).2.mp hlast) hu
  · rw [hlast, hoff]

end Tells

/-! ### The invariant -/

/-- Under the mutex the presence messages `owed` are still to be broadcast, and the
entry of `emptied` may have lost its last socket. -/
structure SocketsOk (owed : List ServerMessage) (emptied : Option UserId)
    (s : Registry × Sockets) : Prop where
  stored : ∀ u senders, s.1.connections.lookup u = some senders → ∀ c ∈ senders, s.2.Live u c
  once : ∀ u senders, s.1.connections.lookup u = some senders → (senders.map (·.sender)).Nodup
  /-- Each socket registers once. -/
  distinct : (s.2.registered.map (·.2.sender)).Nodup
  left : ∀ u sender, s.2.Left u sender → ∃ c, (u, c) ∈ s.2.registered ∧ c.sender = sender
  occupied : ∀ u, u ∈ s.1.connections → emptied ≠ some u → ∃ c, s.2.Live u c
  told : Tells (s.1.announced ++ owed) (· ∈ s.1.connections)
  met : ∀ u c, (u, c) ∈ s.2.registered → about u (s.1.announced ++ owed) ≠ []

/-- The user whose entry this call takes away, or has taken. -/
def Task.evicts : Task → Option UserId
  | .removeIf u | .disconnect _ u | .announce (.userOffline u) _ => some u
  | _ => none

/-- The user whose last socket may have just left. -/
def Task.empties : Task → Option UserId
  | .removeIf u => some u
  | _ => none

abbrev SocketsFree : Registry × Sockets → Prop := SocketsOk [] none

/-- At a point of the critical section. Whoever is evicted has a socket that is not
through with `unregister`. -/
structure SocketsAt (t : Task) (s : Registry × Sockets) : Prop where
  ok : SocketsOk t.owed t.empties s
  evicted : ∀ u, t.evicts = some u → s.2.Present u

/-- Nobody is being evicted, and the broadcasts that are owed are those of the statement. -/
theorem SocketsAt.of_ok {t : Task} {s : Registry × Sockets} (ht : t.evicts = none)
    (hs : SocketsOk t.owed t.empties s) : SocketsAt t s := by
  refine ⟨hs, fun u hu => ?_⟩
  rw [ht] at hu
  cases hu

/-- A socket registers once, and unregisters once, after it registered. -/
def InOrder : Task → Registry × Sockets → Prop
  | .access (.register _ c), s => ∀ e ∈ s.2.registered, e.2.sender ≠ c.sender
  | .access (.retain u sender), s =>
      (∃ c, (u, c) ∈ s.2.registered ∧ c.sender = sender) ∧ ¬ s.2.Left u sender
  | _, _ => True

namespace SocketsOk

variable {owed : List ServerMessage} {emptied : Option UserId} {r r' : Registry} {h : Sockets}
  {u : UserId}

/-- Pruning takes connections away, and no entry. -/
theorem prune (hs : SocketsOk owed emptied (r, h)) (hp : Prunes r r') :
    SocketsOk owed emptied (r', h) where
  stored v senders' hl c hc := by
    obtain ⟨senders, hl', hsub⟩ := hp.sublist v senders' hl
    exact hs.stored v senders hl' c (hsub.subset hc)
  once v senders' hl := by
    obtain ⟨senders, hl', hsub⟩ := hp.sublist v senders' hl
    exact (hs.once v senders hl').sublist (hsub.map _)
  distinct := hs.distinct
  left := hs.left
  occupied v hv := hs.occupied v ((hp.presence.entries v).mp hv)
  told := by
    rw [hp.presence.announced]
    exact hs.told.congr hp.presence.entries
  met v c hc := by
    rw [hp.presence.announced]
    exact hs.met v c hc

/-- The broadcast that was owed is made. -/
theorem announce {m : ServerMessage} (hs : SocketsOk [m] emptied (r, h)) :
    SocketsOk [] emptied ({ r with announced := r.announced ++ [m] }, h) where
  stored := hs.stored
  once := hs.once
  distinct := hs.distinct
  left := hs.left
  occupied := hs.occupied
  told := by
    rw [List.append_nil]
    exact hs.told
  met v c hc := by
    rw [List.append_nil]
    exact hs.met v c hc

/-- An entry is taken away, and the broadcast that its user is offline is owed. -/
theorem erase (hs : SocketsOk [] emptied (r, h)) (hu : u ∈ r.connections)
    (hemptied : ∀ v, v ≠ u → emptied ≠ some v) :
    SocketsOk [.userOffline u] none ({ r with connections := r.connections.erase u }, h) where
  stored v senders hl := by
    by_cases hv : v = u
    · subst hv
      rw [AList.lookup_erase] at hl
      cases hl
    · rw [AList.lookup_erase_ne hv] at hl
      exact hs.stored v senders hl
  once v senders hl := by
    by_cases hv : v = u
    · subst hv
      rw [AList.lookup_erase] at hl
      cases hl
    · rw [AList.lookup_erase_ne hv] at hl
      exact hs.once v senders hl
  distinct := hs.distinct
  left := hs.left
  occupied v hv _ := by
    obtain ⟨hne, hmem⟩ := AList.mem_erase.mp hv
    exact hs.occupied v hmem (hemptied v hne)
  -- `u` had an entry and has none now, as the broadcast says
  told := by
    have htold := hs.told
    rw [List.append_nil] at htold
    exact htold.concat (.inr rfl) (fun _ => hu) (by simp [AList.mem_erase])
      fun v hv => by simp [AList.mem_erase, hv]
  met v c hc := by
    have hmet := hs.met v c hc
    rw [List.append_nil] at hmet
    rw [about_append]
    exact fun hnil => hmet (List.append_eq_nil_iff.mp hnil).1

/-- What others have to be told when a connection of `u` is pushed. -/
theorem told_register (hs : SocketsOk [] none (r, h)) (c : WsConnection) :
    Tells (r.announced ++ (Task.authOk u c.sender (r.register u c).1).owed)
      (· ∈ (r.register u c).2.connections) := by
  have htold := hs.told
  rw [List.append_nil] at htold
  cases hcame : (r.register u c).1 with
  | true =>
      exact htold.concat (.inl rfl) (fun hoff => by cases hoff)
        (by simp [r.mem_register]) fun v hv => by simp [r.mem_register, hv]
  | false =>
      have hu : u ∈ r.connections := by
        by_contra hcon
        rw [(r.register_cameOnline u c).mpr (.inl hcon)] at hcame
        cases hcame
      refine Tells.congr (by simpa [Task.owed] using htold) fun v => ?_
      rw [r.mem_register]
      constructor
      · rintro (rfl | hv)
        · exact hu
        · exact hv
      · exact .inr

/-- A new socket is live once its connection is pushed. -/
theorem live_register (hs : SocketsOk [] none (r, h)) {c : WsConnection}
    (hnew : ∀ e ∈ h.registered, e.2.sender ≠ c.sender) :
    Sockets.Live { h with registered := h.registered ++ [(u, c)] } u c := by
  refine ⟨List.mem_append_right _ List.mem_cons_self, fun hleft => ?_⟩
  obtain ⟨c', hc', heq⟩ := hs.left u c.sender hleft
  exact hnew (u, c') hc' heq

/-- A new socket registers: its connection is stored, and `user_online` is owed if it is
the first of its user. -/
theorem register (hs : SocketsOk [] none (r, h)) {c : WsConnection}
    (hnew : ∀ e ∈ h.registered, e.2.sender ≠ c.sender) :
    SocketsOk (Task.authOk u c.sender (r.register u c).1).owed none
      ((r.register u c).2, { h with registered := h.registered ++ [(u, c)] }) where
  stored v senders hl c' hc' := by
    rcases Registry.mem_lookup_register hl hc' with ⟨rfl, rfl⟩ | ⟨old, hold, hin⟩
    · exact hs.live_register hnew
    · have hlive := hs.stored v old hold c' hin
      exact ⟨List.mem_append_left _ hlive.1, hlive.2⟩
  once v senders hl := by
    by_cases hv : v = u
    · subst hv
      rw [Registry.lookup_register_self, Option.some.injEq] at hl
      subst hl
      cases hlv : r.connections.lookup v with
      | none => simp
      | some old =>
          exact Serial.nodup_keys_append (hs.once v old hlv) fun c' hc' =>
            hnew (v, c') (hs.stored v old hlv c' hc').1
    · rw [Registry.lookup_register_ne r u c hv] at hl
      exact hs.once v senders hl
  distinct := Serial.nodup_keys_append hs.distinct hnew
  left v sender hleft := by
    obtain ⟨c', hc', heq⟩ := hs.left v sender hleft
    exact ⟨c', List.mem_append_left _ hc', heq⟩
  occupied v hv _ := by
    rcases (r.mem_register u c v).mp hv with rfl | hv
    · exact ⟨c, hs.live_register hnew⟩
    · obtain ⟨c', hc', hnot⟩ := hs.occupied v hv (by simp)
      exact ⟨c', List.mem_append_left _ hc', hnot⟩
  told := hs.told_register c
  met v c' hc' := by
    rcases List.mem_append.mp hc' with hold | hnew
    · have hmet := hs.met v c' hold
      rw [List.append_nil] at hmet
      rw [about_append]
      exact fun hnil => hmet (List.append_eq_nil_iff.mp hnil).1
    -- the entry of `u` is there now, and `user_online` was the last about it
    · obtain ⟨rfl, rfl⟩ := Prod.mk.inj (List.mem_singleton.mp hnew)
      exact (hs.told_register c').ne_nil ((r.mem_register v c' v).mpr (.inl rfl))

/-- A socket that begins to unregister drops its connections. -/
theorem retain (hs : SocketsOk [] none (r, h)) {sender : Tx}
    (hreg : ∃ c, (u, c) ∈ h.registered ∧ c.sender = sender) :
    SocketsOk [] (some u)
      (r.retainOther u sender, { h with leaving := h.leaving ++ [(u, sender)] }) := by
  have hp := r.prunes_retainOther u sender
  -- the others of the user are as live as before
  have hlive : ∀ v c, h.Live v c → (v, c.sender) ≠ (u, sender) →
      Sockets.Live { h with leaving := h.leaving ++ [(u, sender)] } v c := by
    rintro v c ⟨hin, hnot⟩ hne
    refine ⟨hin, ?_⟩
    rintro (hleaving | hun)
    · rcases List.mem_append.mp hleaving with hold | hnew
      · exact hnot (.inl hold)
      · exact hne (List.mem_singleton.mp hnew)
    · exact hnot (.inr hun)
  have hpruned := hs.prune hp
  refine ⟨?_, hpruned.once, hs.distinct, ?_, ?_, hpruned.told, hpruned.met⟩
  · intro v senders hl c hc
    refine hlive v c (hpruned.stored v senders hl c hc) ?_
    intro heq
    obtain ⟨rfl, hsender⟩ := Prod.mk.inj heq
    exact r.lookup_retainOther_self v sender hl c hc hsender
  · rintro v x (hleaving | hun)
    · rcases List.mem_append.mp hleaving with hold | hnew
      · exact hs.left v x (.inl hold)
      · obtain ⟨rfl, rfl⟩ := Prod.mk.inj (List.mem_singleton.mp hnew)
        exact hreg
    · exact hs.left v x (.inr hun)
  -- the list of `u` may be empty now; the next statement looks at it
  · intro v hv hne
    obtain ⟨c, hc⟩ := hpruned.occupied v hv (by simp)
    exact ⟨c, hlive v c hc fun heq => hne (congrArg some (Prod.mk.inj heq).1.symm)⟩

/-- A vector that `remove_if` finds non-empty has a socket. -/
theorem refill (hs : SocketsOk [] (some u) (r, h)) (hne : r.connections.lookup u ≠ some []) :
    SocketsOk [] none (r, h) where
  stored := hs.stored
  once := hs.once
  distinct := hs.distinct
  left := hs.left
  occupied v hv _ := by
    by_cases hvu : v = u
    · subst hvu
      obtain ⟨senders, hl⟩ := Option.isSome_iff_exists.mp (AList.lookup_isSome.mpr hv)
      cases senders with
      | nil => exact absurd hl hne
      | cons c senders => exact ⟨c, hs.stored v _ hl c List.mem_cons_self⟩
    · exact hs.occupied v hv fun heq => hvu (Option.some.inj heq).symm
  told := hs.told
  met := hs.met

/-- The socket that holds the mutex is through with `unregister`. -/
theorem through (hs : SocketsOk [] none (r, h)) :
    SocketsOk [] none (r, ⟨h.registered, [], h.unregistered ++ h.leaving⟩) := by
  have hleft : ∀ v x, Sockets.Left ⟨h.registered, [], h.unregistered ++ h.leaving⟩ v x ↔
      h.Left v x := by
    intro v x
    simp [Sockets.Left, or_comm]
  have hlive : ∀ v c, h.Live v c →
      Sockets.Live ⟨h.registered, [], h.unregistered ++ h.leaving⟩ v c := by
    rintro v c ⟨hin, hnot⟩
    exact ⟨hin, fun hl => hnot ((hleft v c.sender).mp hl)⟩
  refine ⟨?_, hs.once, hs.distinct, ?_, ?_, hs.told, hs.met⟩
  · intro v senders hl c hc
    exact hlive v c (hs.stored v senders hl c hc)
  · intro v x hl
    exact hs.left v x ((hleft v x).mp hl)
  · intro v hv hne
    obtain ⟨c, hc⟩ := hs.occupied v hv hne
    exact ⟨c, hlive v c hc⟩

end SocketsOk

section Statements

variable {sharding : Sharding} {t : Task} {r : Registry} {h : Sockets} {u : UserId}

/-- The socket invariant after a statement. -/
abbrev SocketsAfter (sharding : Sharding) (t : Task) (r : Registry) (h : Sockets) : Prop :=
  (socketMachine sharding).Asserts SocketsFree SocketsAt (t.next sharding r).1
    ((t.next sharding r).2, Sockets.note t r h)

theorem sockets_after_access {first : Access} (hQ : InOrder (.access first) (r, h))
    (hs : SocketsFree (r, h)) : SocketsAfter sharding (.access first) r h := by
  cases first with
  | register u c => exact .of_ok rfl (hs.register hQ)
  | retain u sender =>
      obtain ⟨⟨c, hc, rfl⟩, hnot⟩ := hQ
      refine ⟨hs.retain ⟨c, hc, rfl⟩, fun v hv => ?_⟩
      obtain rfl := Option.some.inj hv
      exact ⟨c, hc, fun hun => hnot (.inr hun)⟩
  | remove u =>
      simp only [SocketsAfter, Task.next, Registry.remove]
      cases hl : r.connections.lookup u with
      | none =>
          have hu := AList.lookup_eq_none.mp hl
          exact .of_ok rfl (hs.prune (.same (r.samePresence_erase u hu)
            (AList.ext (List.kerase_of_notMem_keys hu))))
      | some senders =>
          have hu : u ∈ r.connections := AList.lookup_isSome.mp (by rw [hl]; rfl)
          refine ⟨hs.erase hu (by simp), fun v hv => ?_⟩
          obtain rfl := Option.some.inj hv
          obtain ⟨c, hc⟩ := hs.occupied u hu (by simp)
          exact hc.present

theorem sockets_after_removeIf (hs : SocketsAt (.removeIf u) (r, h)) :
    SocketsAfter sharding (.removeIf u) r h := by
  simp only [SocketsAfter, Task.next]
  rcases r.removeIfEmpty_cases u with ⟨hl, heq⟩ | heq
  · rw [heq]
    have hu : u ∈ r.connections := AList.lookup_isSome.mp (by rw [hl]; rfl)
    exact ⟨hs.ok.erase hu fun v hv heq => hv (Option.some.inj heq).symm, hs.evicted⟩
  · rw [heq]
    refine .of_ok rfl (hs.ok.refill fun hl => ?_)
    simp [Registry.removeIfEmpty, hl] at heq

theorem sockets_after_authOk {sender : Tx} {cameOnline : Bool}
    (hs : SocketsAt (.authOk u sender cameOnline) (r, h)) :
    SocketsAfter sharding (.authOk u sender cameOnline) r h := by
  have hp := r.prunes_enqueue sender (.server (.authOk u))
  cases cameOnline with
  | true => exact .of_ok rfl (hs.ok.prune hp)
  | false => exact .of_ok rfl (hs.ok.prune hp)

theorem sockets_after_broadcast {m : Message} {shard : Nat} {answer : Option Bool}
    (hs : SocketsFree (r, h)) : SocketsAfter sharding (.broadcast m shard (some answer)) r h := by
  simp only [SocketsAfter, Task.next]
  split
  · exact .of_ok rfl (hs.prune (r.prunes_broadcastShard sharding shard m))
  · exact .of_ok rfl hs

/-- Inside the critical section, one case for each statement. -/
theorem sockets_after_inside (hi : t.inside = true) (hQ : InOrder t (r, h))
    (hs : SocketsAt t (r, h)) : SocketsAfter sharding t r h := by
  cases t with
  | done _ | lock _ | sendToUser _ _ => cases hi
  | access first => exact sockets_after_access hQ hs.ok
  | authOk u sender cameOnline => exact sockets_after_authOk hs
  | removeIf u => exact sockets_after_removeIf hs
  | disconnect senders u =>
      cases senders with
      | nil => exact ⟨hs.ok, hs.evicted⟩
      | cons c senders => exact ⟨hs.ok.prune (r.prunes_sendReplace c.disconnect), hs.evicted⟩
  | announce m answer => exact .of_ok rfl hs.ok.announce
  | broadcast m shard caller =>
      cases caller with
      | none => cases hi
      | some answer => exact sockets_after_broadcast hs.ok
  | unlock answer =>
      cases answer with
      | none => exact hs.ok
      | some _ => exact hs.ok.through

/-- Outside the critical section only sends run, which prune. -/
theorem prunes_outside (ha : t.acquires = false) (hi : t.inside = false) :
    Prunes r (t.next sharding r).2 := by
  cases t with
  | done _ => exact .same (.refl r) rfl
  | sendToUser u json => exact r.prunes_sendToUser u (.text json)
  | lock _ => cases ha
  | broadcast m shard caller =>
      cases caller with
      | some _ => cases hi
      | none =>
          simp only [Task.next]
          split
          · exact r.prunes_broadcastShard sharding shard m
          · exact .same (.refl r) rfl
  | _ => cases hi

theorem note_outside (hi : t.inside = false) : Sockets.note t r h = h := by
  cases t with
  | access _ | unlock _ => cases hi
  | _ => rfl

end Statements

/-- **Every statement keeps the socket invariant**, when the sockets register and
unregister in order. -/
theorem keeps_sockets (sharding : Sharding) :
    Keeps (socketMachine sharding) InOrder SocketsFree SocketsAt where
  acquire t s ha _ hs := by
    cases t with
    | lock first => exact .of_ok rfl hs
    | _ => cases ha
  inside _ _ hi hQ hs := sockets_after_inside hi hQ hs
  outside_free t s ha hi hs := by
    show SocketsFree ((t.next sharding s.1).2, Sockets.note t s.1 s.2)
    rw [note_outside hi]
    exact hs.prune (prunes_outside ha hi)
  outside_held t s t' ha hi hs := by
    show SocketsAt t' ((t.next sharding s.1).2, Sockets.note t s.1 s.2)
    rw [note_outside hi]
    exact ⟨hs.ok.prune (prunes_outside ha hi), hs.evicted⟩
  env_free e s hs := hs.prune (s.1.prunes_apply e)
  env_held e s _ hs := ⟨hs.ok.prune (s.1.prunes_apply e), hs.evicted⟩

/-! ### The order of the calls -/

/-- The first access of a call that has not run it. -/
def Task.pending : Task → Option Access
  | .lock first | .access first => some first
  | _ => none

section Order

variable {ι : Type} {sharding : Sharding}

/-- `register_authenticated_connection` is called with a socket that no call
registered or is registering, and `unregister_authenticated_connection` with one
that was registered for this user, once. -/
def OncePerSocket (l : Label Call Event ι) (s : System (Registry × Sockets) Task ι) : Prop :=
  match l with
  | .call _ (.registerAuthenticatedConnection sender _ _) =>
      (∀ e ∈ s.shared.2.registered, e.2.sender ≠ sender) ∧
        ∀ i u c, (s.tasks i).pending = some (.register u c) → c.sender ≠ sender
  | .call _ (.unregisterAuthenticatedConnection sender u) =>
      ((∃ c, (u, c) ∈ s.shared.2.registered ∧ c.sender = sender) ∧ ¬ s.shared.2.Left u sender) ∧
        ∀ i, (s.tasks i).pending ≠ some (.retain u sender)
  | _ => True

/-- What the calls that wait for the mutex will do is still in order. -/
structure Queued (s : System (Registry × Sockets) Task ι) : Prop where
  register : ∀ i u c, (s.tasks i).pending = some (.register u c) →
    ∀ e ∈ s.shared.2.registered, e.2.sender ≠ c.sender
  register_once : ∀ i j u u' c c', (s.tasks i).pending = some (.register u c) →
    (s.tasks j).pending = some (.register u' c') → c.sender = c'.sender → i = j
  retain : ∀ i u sender, (s.tasks i).pending = some (.retain u sender) →
    (∃ c, (u, c) ∈ s.shared.2.registered ∧ c.sender = sender) ∧ ¬ s.shared.2.Left u sender
  retain_once : ∀ i j u sender, (s.tasks i).pending = some (.retain u sender) →
    (s.tasks j).pending = some (.retain u sender) → i = j

theorem pending_next {t : Task} {r : Registry} {a : Access}
    (h : (t.next sharding r).1.pending = some a) : t = .lock a := by
  cases t with
  | lock first =>
      obtain rfl := Option.some.inj h
      rfl
  | access first =>
      cases first with
      | register u c => cases h
      | retain u sender => cases h
      | remove u =>
          simp only [Task.next, Registry.remove] at h
          split at h <;> cases h
  | authOk u sender cameOnline => cases cameOnline <;> cases h
  | removeIf u =>
      simp only [Task.next] at h
      split at h <;> cases h
  | disconnect senders u => cases senders <;> cases h
  | broadcast m shard caller =>
      simp only [Task.next] at h
      split at h
      · cases h
      · cases caller <;> cases h
  | _ => cases h

theorem mem_registered_note {t : Task} {r : Registry} {h : Sockets} {e : UserId × WsConnection} :
    e ∈ (Sockets.note t r h).registered ↔
      e ∈ h.registered ∨ t = .access (.register e.1 e.2) := by
  cases t with
  | access first =>
      cases first with
      | register u c => simp [Sockets.note, Prod.ext_iff, eq_comm]
      | retain u sender => simp [Sockets.note]
      | remove u => simp [Sockets.note]
  | unlock answer => cases answer <;> simp [Sockets.note]
  | _ => simp [Sockets.note]

theorem left_note {t : Task} {r : Registry} {h : Sockets} {u : UserId} {sender : Tx} :
    (Sockets.note t r h).Left u sender ↔ h.Left u sender ∨ t = .access (.retain u sender) := by
  cases t with
  | access first =>
      cases first with
      | register u' c => simp [Sockets.note, Sockets.Left]
      | retain u' sender' =>
          simp only [Sockets.note, Sockets.Left, List.mem_append, List.mem_singleton,
            Prod.mk.injEq, Task.access.injEq, Access.retain.injEq]
          rw [or_right_comm, eq_comm, eq_comm (a := sender)]
      | remove u' => simp [Sockets.note, Sockets.Left]
  | unlock answer => cases answer <;> simp [Sockets.note, Sockets.Left, or_comm]
  | _ => simp [Sockets.note, Sockets.Left]

variable [DecidableEq ι] {s s' : System (Registry × Sockets) Task ι} {i : ι}

namespace Queued

omit [DecidableEq ι] in
theorem inOrder (hq : Queued s) (i : ι) : InOrder (s.tasks i) s.shared := by
  cases ht : s.tasks i with
  | access first =>
      have hpending : (s.tasks i).pending = some first := by rw [ht]; rfl
      cases first with
      | register u c => exact hq.register i u c hpending
      | retain u sender => exact hq.retain i u sender hpending
      | remove u => trivial
  | _ => trivial

/-- A statement that does not add to what is pending. -/
theorem advance (hq : Queued s) (h : (socketMachine sharding).step (.advance i) s = some s') :
    Queued s' := by
  obtain ⟨-, rfl⟩ := (socketMachine sharding).step_advance h
  -- what is pending afterwards was pending before
  have hold : ∀ j a,
      (Function.update s.tasks i ((s.tasks i).next sharding s.shared.1).1 j).pending = some a →
        (s.tasks j).pending = some a ∧ (j = i → s.tasks i = .lock a) := by
    intro j a hj
    by_cases hji : j = i
    · subst hji
      rw [Function.update_self] at hj
      have hlock := pending_next hj
      exact ⟨by rw [hlock]; rfl, fun _ => hlock⟩
    · rw [Function.update_of_ne hji] at hj
      exact ⟨hj, fun heq => absurd heq hji⟩
  refine ⟨?_, ?_, ?_, ?_⟩
  · intro j u c hj e he heq
    obtain ⟨hpending, hself⟩ := hold j _ hj
    rcases mem_registered_note.mp he with hin | hnew
    · exact hq.register j u c hpending e hin heq
    · have hji : i = j := hq.register_once i j _ _ _ _ (by rw [hnew]; rfl) hpending heq
      rw [hself hji.symm] at hnew
      cases hnew
  · intro j k u u' c c' hj hk
    exact hq.register_once j k u u' c c' (hold j _ hj).1 (hold k _ hk).1
  · intro j u sender hj
    obtain ⟨hpending, hself⟩ := hold j _ hj
    obtain ⟨⟨c, hc, heq⟩, hnot⟩ := hq.retain j u sender hpending
    refine ⟨⟨c, mem_registered_note.mpr (.inl hc), heq⟩, fun hleft => ?_⟩
    rcases left_note.mp hleft with hin | hnew
    · exact hnot hin
    · have hji : i = j := hq.retain_once i j _ _ (by rw [hnew]; rfl) hpending
      rw [hself hji.symm] at hnew
      cases hnew
  · intro j k u sender hj hk
    exact hq.retain_once j k u sender (hold j _ hj).1 (hold k _ hk).1

/-- A call with nothing pending but what is in order. -/
theorem call (hq : Queued s) {c : Call} (hP : OncePerSocket (.call i c) s)
    (h : (socketMachine sharding).step (.call i c) s = some s') : Queued s' := by
  simp only [Machine.step, Option.ite_none_right_eq_some, Option.some.injEq] at h
  obtain ⟨-, rfl⟩ := h
  -- a pending access is the new call's, or was pending before
  have hold : ∀ j a, (Function.update s.tasks i c.code j).pending = some a →
      (j = i ∧ c.code = .lock a) ∨ (j ≠ i ∧ (s.tasks j).pending = some a) := by
    intro j a hj
    by_cases hji : j = i
    · subst hji
      rw [Function.update_self] at hj
      refine .inl ⟨rfl, ?_⟩
      cases c with
      | sendToUser _ _ | broadcast _ => cases hj
      | _ =>
          obtain rfl := Option.some.inj hj
          rfl
    · rw [Function.update_of_ne hji] at hj
      exact .inr ⟨hji, hj⟩
  refine ⟨?_, ?_, ?_, ?_⟩
  · intro j u d hj
    rcases hold j _ hj with ⟨-, hcode⟩ | ⟨-, hpending⟩
    · cases c <;> cases hcode
      exact hP.1
    · exact hq.register j u d hpending
  · intro j k u u' d d' hj hk heq
    rcases hold j _ hj with ⟨rfl, hcode⟩ | ⟨-, hpj⟩
    · rcases hold k _ hk with ⟨rfl, -⟩ | ⟨-, hpk⟩
      · rfl
      · cases c <;> cases hcode
        exact absurd heq.symm (hP.2 k u' d' hpk)
    · rcases hold k _ hk with ⟨rfl, hcode⟩ | ⟨-, hpk⟩
      · cases c <;> cases hcode
        exact absurd heq (hP.2 j u d hpj)
      · exact hq.register_once j k u u' d d' hpj hpk heq
  · intro j u sender hj
    rcases hold j _ hj with ⟨-, hcode⟩ | ⟨-, hpending⟩
    · cases c <;> cases hcode
      exact hP.1
    · exact hq.retain j u sender hpending
  · intro j k u sender hj hk
    rcases hold j _ hj with ⟨rfl, hcode⟩ | ⟨-, hpj⟩
    · rcases hold k _ hk with ⟨rfl, -⟩ | ⟨-, hpk⟩
      · rfl
      · cases c <;> cases hcode
        exact absurd hpk (hP.2 k)
    · rcases hold k _ hk with ⟨rfl, hcode⟩ | ⟨-, hpk⟩
      · cases c <;> cases hcode
        exact absurd hpj (hP.2 j)
      · exact hq.retain_once j k u sender hpj hpk

end Queued

/-- **The invariant of every run** whose sockets register and unregister once. -/
theorem sockets_of_reachable
    (h : ReachableBy OncePerSocket (socketMachine sharding).step freshSockets s) :
    Queued s ∧ Guarded (socketMachine sharding) SocketsFree SocketsAt s := by
  refine h.invariant (I := fun s => Queued s ∧
    Guarded (socketMachine sharding) SocketsFree SocketsAt s) ?_ ⟨?_, guarded_start rfl ?_⟩
  · intro l s s' hI hP hstep
    obtain ⟨hq, hg⟩ := hI
    have hguarded := hg.step (wsMachine_lawful sharding).recording (keeps_sockets sharding)
      (fun i _ => hq.inOrder i) hstep
    refine ⟨?_, hguarded⟩
    cases l with
    | call i c => exact hq.call hP hstep
    | advance i => exact hq.advance hstep
    | env e =>
        obtain rfl := Option.some.inj hstep
        exact ⟨hq.register, hq.register_once, hq.retain, hq.retain_once⟩
  · have hnone : ∀ (j : ι) (a : Access),
        ((freshSockets : System (Registry × Sockets) Task ι).tasks j).pending ≠ some a := by
      intro j a ha
      cases ha
    exact ⟨fun j u c hj => absurd hj (hnone j _), fun j k u u' c c' hj => absurd hj (hnone j _),
      fun j u sender hj => absurd hj (hnone j _), fun j k u sender hj => absurd hj (hnone j _)⟩
  -- at the start nothing is registered and nothing was said
  · refine ⟨?_, ?_, .nil, ?_, ?_, ?_, ?_⟩
    · intro u senders hl
      cases hl
    · intro u senders hl
      cases hl
    · intro u sender hl
      simp [Sockets.Left, Sockets.none] at hl
    · intro u hu
      simp [Registry.new] at hu
    · intro u
      simp [Separated, about, Registry.new]
    · intro u c hc
      simp [Sockets.none] at hc

/-- One broadcast at most is owed, and one that a user is offline only to the user
who is being evicted. -/
theorem owed_cases (t : Task) :
    t.owed = [] ∨ ∃ m, t.owed = [m] ∧ ∀ v, m = .userOffline v → t.evicts = some v := by
  cases t with
  | authOk v sender cameOnline =>
      cases cameOnline with
      | false => exact .inl rfl
      | true => exact .inr ⟨_, rfl, fun v hv => by cases hv⟩
  | disconnect senders v => exact .inr ⟨_, rfl, fun v hv => by cases hv; rfl⟩
  | announce m answer =>
      refine .inr ⟨m, rfl, fun v hv => ?_⟩
      subst hv
      rfl
  | _ => exact .inl rfl

/-- When every socket of `u` is through with `unregister`, no entry is left and
nothing about `u` is owed, whatever the owner of the mutex does. -/
theorem SocketsAt.settled {t : Task} {r : Registry} {h : Sockets} {u : UserId}
    (hs : SocketsAt t (r, h)) (hgone : ¬ h.Present u) :
    u ∉ r.connections ∧ about u (r.announced ++ t.owed) = about u r.announced := by
  have hu : u ∉ r.connections := by
    intro hmem
    -- an entry without a connection is one that is about to be removed
    by_cases he : t.empties = some u
    · refine hgone (hs.evicted u ?_)
      cases t with
      | removeIf v => exact he
      | _ => cases he
    · obtain ⟨c, hc⟩ := hs.ok.occupied u hmem he
      exact hgone hc.present
  refine ⟨hu, ?_⟩
  have hlast := (hs.ok.told u).2.not.mpr hu
  rcases owed_cases t with hnil | ⟨m, howed, hoff⟩
  · rw [hnil, List.append_nil]
  · rw [howed, about_append] at hlast ⊢
    -- no `user_online` is owed, since `u` has no entry
    by_cases hon : m = .userOnline u
    · rw [about_self m u (.inl hon), List.getLast?_concat, hon] at hlast
      exact absurd rfl hlast
    · by_cases hm : m = .userOffline u
      · exact absurd (hs.evicted u (hoff u hm)) hgone
      · have hnone : about u [m] = [] := by simp [about, hon, hm]
        rw [hnone, List.append_nil]

omit [DecidableEq ι] in
/-- Wherever the owner of the mutex stands. -/
theorem socketsOk_of_guarded {s : System (Registry × Sockets) Task ι}
    (hguard : Guarded (socketMachine sharding) SocketsFree SocketsAt s) :
    ∃ owed emptied, SocketsOk owed emptied s.shared := by
  cases ho : s.owner with
  | none => exact ⟨_, _, hguard.free ho⟩
  | some j => exact ⟨_, _, (hguard.held j ho).ok⟩

/-- **No leaked connection and no lost offline.** In every state of every run whose
sockets register once and unregister once after it: a stored connection is that of
a socket which registered for this user and did not unregister, and it is stored
once; between two `user_offline` about a user there is a `user_online`; and when
every socket of a user is through with `unregister`, the map has no entry for them,
and the latest broadcast about them is `user_offline`. -/
theorem sockets_settled
    (h : ReachableBy OncePerSocket (socketMachine sharding).step freshSockets s) :
    (∀ u senders, s.shared.1.connections.lookup u = some senders →
      (senders.map (·.sender)).Nodup ∧ ∀ c ∈ senders,
        (u, c) ∈ s.shared.2.registered ∧ (u, c.sender) ∉ s.shared.2.unregistered ∧
        ∀ u' senders' c', s.shared.1.connections.lookup u' = some senders' → c' ∈ senders' →
          c'.sender = c.sender → u' = u) ∧
    (∀ u before log after,
      s.shared.1.announced = before ++ .userOffline u :: log ++ .userOffline u :: after →
        .userOnline u ∈ log) ∧
    ∀ u, (∀ c, (u, c) ∈ s.shared.2.registered → (u, c.sender) ∈ s.shared.2.unregistered) →
      u ∉ s.shared.1.connections ∧
        (∀ m ∈ (about u s.shared.1.announced).getLast?, m = .userOffline u) ∧
        ((∃ c, (u, c) ∈ s.shared.2.registered) → about u s.shared.1.announced ≠ []) := by
  have hg := (sockets_of_reachable h).2
  -- the invariant holds at the statement of the owner, or with the mutex free
  obtain ⟨t, ht⟩ : ∃ t, SocketsAt t s.shared := by
    cases ho : s.owner with
    | none => exact ⟨.done none, .of_ok rfl (hg.free ho)⟩
    | some i => exact ⟨s.tasks i, hg.held i ho⟩
  refine ⟨?_, ?_, ?_⟩
  · intro u senders hl
    refine ⟨ht.ok.once u senders hl, fun c hc => ?_⟩
    obtain ⟨hreg, hnot⟩ := ht.ok.stored u senders hl c hc
    refine ⟨hreg, fun hun => hnot (.inr hun), ?_⟩
    intro u' senders' c' hl' hc' heq
    have hreg' := (ht.ok.stored u' senders' hl' c' hc').1
    exact congrArg Prod.fst (List.inj_on_of_nodup_map ht.ok.distinct hreg' hreg heq)
  · intro u before log after heq
    have hsep := (ht.ok.told u).1
    rw [heq, List.append_assoc, List.cons_append] at hsep
    exact hsep.between
  · intro u hgone
    have hnot : ¬ s.shared.2.Present u := by
      rintro ⟨c, hc, hun⟩
      exact hun (hgone c hc)
    obtain ⟨hu, hsame⟩ := ht.settled hnot
    have htold := ht.ok.told
    have hmet := ht.ok.met u
    rw [hsame] at hmet
    refine ⟨hu, fun m hm => ?_, fun ⟨c, hc⟩ => hmet c hc⟩
    have hne : about u (s.shared.1.announced ++ t.owed) ≠ [] := by
      rw [hsame]
      intro hnil
      rw [hnil] at hm
      cases hm
    have hlast := htold.offline hu hne
    rw [hsame] at hlast
    rw [Option.mem_def, hlast] at hm
    exact (Option.some.inj hm).symm

end Order

/-! ### A run -/

section Check

variable {ι : Type}

/-- The discipline, decided for a system with the tasks `tasks`, of which none waits
for the mutex when a call starts. -/
def checkOncePerSocket (tasks : List ι) (l : Label Call Event ι)
    (s : System (Registry × Sockets) Task ι) : Bool :=
  match l with
  | .call _ (.registerAuthenticatedConnection sender _ _) =>
      tasks.all (fun i => (s.tasks i).pending.isNone) &&
        s.shared.2.registered.all (·.2.sender != sender)
  | .call _ (.unregisterAuthenticatedConnection sender u) =>
      tasks.all (fun i => (s.tasks i).pending.isNone) &&
        s.shared.2.registered.any (fun e => e.1 == u && e.2.sender == sender) &&
          !(s.shared.2.leaving ++ s.shared.2.unregistered).contains (u, sender)
  | _ => true

theorem oncePerSocket_of_check {tasks : List ι} (htasks : ∀ i, i ∈ tasks)
    (l : Label Call Event ι) (s : System (Registry × Sockets) Task ι)
    (h : checkOncePerSocket tasks l s = true) : OncePerSocket l s := by
  have hpending : (∀ i ∈ tasks, (s.tasks i).pending.isNone = true) → ∀ (i : ι) (a : Access),
      (s.tasks i).pending ≠ some a := by
    intro hnone i a ha
    have hi := hnone i (htasks i)
    rw [ha] at hi
    cases hi
  cases l with
  | call i c =>
      cases c with
      | registerAuthenticatedConnection sender disconnect u =>
          simp only [checkOncePerSocket, Bool.and_eq_true, List.all_eq_true, bne_iff_ne] at h
          exact ⟨h.2, fun j v d hj => absurd hj (hpending h.1 j _)⟩
      | unregisterAuthenticatedConnection sender u =>
          simp only [checkOncePerSocket, Bool.and_eq_true, List.all_eq_true, List.any_eq_true,
            beq_iff_eq, Bool.not_eq_true', List.contains_eq_mem, decide_eq_false_iff_not,
            List.mem_append] at h
          obtain ⟨⟨hnone, ⟨⟨v, d⟩, hin, rfl, rfl⟩⟩, hnot⟩ := h
          exact ⟨⟨⟨d, hin, rfl⟩, hnot⟩, fun j => hpending hnone j _⟩
      | _ => trivial
  | _ => trivial

end Check

/-- A tab of 7 dies, a message prunes it, a second tab opens, 7 is disconnected,
a third tab opens, and all three leave. -/
def threeTabs : List (Label Call Event Unit) :=
  inTurn [(.registerAuthenticatedConnection 1 1 7, 7)] ++ [.env (.close 1)] ++
    inTurn [(.sendToUser 7 "hi", 1), (.registerAuthenticatedConnection 2 2 7, 7),
      (.disconnectUser 7, 8), (.registerAuthenticatedConnection 3 3 7, 7),
      (.unregisterAuthenticatedConnection 2 7, 4), (.unregisterAuthenticatedConnection 1 7, 4),
      (.unregisterAuthenticatedConnection 3 7, 7)]

theorem sockets_settled_threeTabs :
    ∃ s : System (Registry × Sockets) Task Unit,
      s.shared.1.announced =
        [.userOnline 7, .userOnline 7, .userOffline 7, .userOnline 7, .userOffline 7] ∧
      s.shared.2.unregistered = [(7, 2), (7, 1), (7, 3)] ∧
        (7 : UserId) ∉ s.shared.1.connections := by
  have hrun : ((replay (fun l s =>
      if checkOncePerSocket [()] l s then (socketMachine oneShard).step l s else none)
        freshSockets threeTabs).map fun s => (s.shared.1.announced, s.shared.2)) =
          some ([.userOnline 7, .userOnline 7, .userOffline 7, .userOnline 7, .userOffline 7],
            ⟨[(7, ⟨1, 1⟩), (7, ⟨2, 2⟩), (7, ⟨3, 3⟩)], [], [(7, 2), (7, 1), (7, 3)]⟩) := by decide
  obtain ⟨s, hs, hend⟩ := Option.map_eq_some_iff.mp hrun
  obtain ⟨hannounced, hsockets⟩ := Prod.mk.inj hend
  have hsettled := sockets_settled (.of_replay (oncePerSocket_of_check (by simp)) hs .refl)
  refine ⟨s, hannounced, by rw [hsockets], (hsettled.2.2 7 ?_).1⟩
  rw [hsockets]
  intro c hc
  simp only [List.mem_cons, Prod.mk.injEq, true_and, List.not_mem_nil, or_false] at hc
  rcases hc with rfl | rfl | rfl <;> decide

end DevbitBackend.Ws
