import DevbitBackend.Ws.Registry
import Mathlib.Data.List.Chain

/-!
# Ws.Presence

The **presence broadcasts about a user alternate**, starting with `user_online`,
as long as no tab is registered over a vector that pruning has emptied.

What others were told is compared with the entries of the map: under the mutex,
a user has an entry exactly when the latest broadcast about them is
`user_online`, or the owner of the mutex still owes the broadcast that makes it
so. Sends prune connections without the mutex, but never add or remove an entry.
-/

namespace DevbitBackend.Ws

open Social (UserId)
open Monitor Transition

/-! ### A log of presence messages and the set of users it shows online -/

/-- The presence messages of a log that are about `u`. -/
def about (u : UserId) (log : List ServerMessage) : List ServerMessage :=
  log.filter fun m => m == .userOnline u || m == .userOffline u

/-- `user_online`, `user_offline`, `user_online`, … -/
def Alternates (u : UserId) (log : List ServerMessage) : Prop :=
  (∀ m ∈ (about u log).head?, m = .userOnline u) ∧ (about u log).IsChain (· ≠ ·)

/-- Every user's messages alternate, and the last one says whether they are in
`online`. -/
def Shows (log : List ServerMessage) (online : UserId → Prop) : Prop :=
  ∀ u, Alternates u log ∧ ((about u log).getLast? = some (.userOnline u) ↔ online u)

theorem about_append (u : UserId) (log log' : List ServerMessage) :
    about u (log ++ log') = about u log ++ about u log' := List.filter_append ..

theorem about_self (m : ServerMessage) (u : UserId)
    (hm : m = .userOnline u ∨ m = .userOffline u) : about u [m] = [m] := by
  simp [about, hm]

theorem about_other (m : ServerMessage) {u v : UserId} (huv : v ≠ u)
    (hm : m = .userOnline u ∨ m = .userOffline u) : about v [m] = [] := by
  rcases hm with rfl | rfl <;> simp [about, huv.symm]

theorem mem_about {u : UserId} {m : ServerMessage} {log : List ServerMessage}
    (h : m ∈ about u log) : m = .userOnline u ∨ m = .userOffline u := by
  simpa using (List.mem_filter.mp h).2

theorem alternates_nil (u : UserId) : Alternates u [] := by simp [Alternates, about]

/-- One more message about `u`: it differs from the last one, and it is
`user_online` when it is the first. -/
theorem alternates_concat {u : UserId} {m : ServerMessage} {log : List ServerMessage}
    (hm : m = .userOnline u ∨ m = .userOffline u) :
    Alternates u (log ++ [m]) ↔ Alternates u log ∧
      (m = .userOnline u ↔ (about u log).getLast? ≠ some (.userOnline u)) := by
  have hab : about u (log ++ [m]) = about u log ++ [m] := by rw [about_append, about_self m u hm]
  unfold Alternates
  rw [hab, List.isChain_append]
  cases hl : (about u log).getLast? with
  | none =>
      rw [List.getLast?_eq_none_iff.mp hl]
      simp
  | some y =>
      have hy := mem_about (List.mem_of_getLast? hl)
      obtain ⟨x, rest, hcons⟩ := List.ne_nil_iff_exists_cons.mp
        (List.ne_nil_of_mem (List.mem_of_getLast? hl))
      rw [hcons]
      rcases hm with rfl | rfl <;> rcases hy with rfl | rfl <;> simp

/-- Messages that alternate did so before the last ones. -/
theorem Alternates.of_append {u : UserId} {log log' : List ServerMessage}
    (h : Alternates u (log ++ log')) : Alternates u log := by
  obtain ⟨hhead, hchain⟩ := h
  rw [about_append] at hhead hchain
  refine ⟨fun m hm => hhead m ?_, hchain.left_of_append⟩
  rw [Option.mem_def] at hm ⊢
  rw [List.head?_append, hm, Option.some_or]

theorem shows_nil : Shows [] fun _ => False := by
  intro u
  simp [alternates_nil, about]

namespace Shows

variable {log : List ServerMessage} {shown shown' : UserId → Prop} {u : UserId}

theorem congr (h : Shows log shown) (ho : ∀ v, shown' v ↔ shown v) : Shows log shown' :=
  fun v => ⟨(h v).1, (h v).2.trans (ho v).symm⟩

/-- A message about `u` that changes what is shown of `u`. -/
theorem concat {m : ServerMessage} (h : Shows log shown)
    (hm : m = .userOnline u ∨ m = .userOffline u) (hturn : m = .userOnline u ↔ ¬ shown u)
    (hu : shown' u ↔ m = .userOnline u) (ho : ∀ v, v ≠ u → (shown' v ↔ shown v)) :
    Shows (log ++ [m]) shown' := by
  intro v
  by_cases hv : v = u
  · subst hv
    refine ⟨(alternates_concat hm).mpr ⟨(h v).1, ?_⟩, ?_⟩
    · rw [hturn, ← (h v).2]
    · rw [about_append, about_self m v hm, List.getLast?_concat, hu, Option.some.injEq]
  · have hab : about v (log ++ [m]) = about v log := by
      rw [about_append, about_other m hv hm, List.append_nil]
    unfold Alternates
    rw [hab, ho v hv]
    exact h v

/-- `u` comes online: the broadcast fits, as `u` was offline before. -/
theorem online (h : Shows log shown) (hu : ¬ shown u)
    (ho : ∀ v, shown' v ↔ v = u ∨ shown v) : Shows (log ++ [.userOnline u]) shown' :=
  h.concat (.inl rfl) (by simp [hu]) (by simp [ho]) fun v hv => by simp [ho, hv]

/-- `u` goes offline: the broadcast fits, as `u` was online before. -/
theorem offline (h : Shows log shown) (hu : shown u)
    (ho : ∀ v, shown' v ↔ v ≠ u ∧ shown v) : Shows (log ++ [.userOffline u]) shown' :=
  h.concat (.inr rfl) (by simp [hu]) (by simp [ho]) fun v hv => by simp [ho, hv]

/-- Showing `u` online once more breaks the alternation. -/
theorem not_alternates (h : Shows log shown) (hu : shown u) :
    ¬ Alternates u (log ++ [.userOnline u]) := by
  rw [alternates_concat (.inl rfl), (h u).2.mpr hu]
  simp

end Shows

/-! ### What the operations do to the entries -/

/-- The same users have an entry, and no presence message was given out. -/
structure SamePresence (r r' : Registry) : Prop where
  announced : r'.announced = r.announced
  entries : ∀ u, u ∈ r'.connections ↔ u ∈ r.connections

namespace SamePresence

variable {r r' r'' : Registry}

theorem refl (r : Registry) : SamePresence r r := ⟨rfl, fun _ => Iff.rfl⟩

theorem trans (h : SamePresence r r') (h' : SamePresence r' r'') : SamePresence r r'' :=
  ⟨h'.announced.trans h.announced, fun u => (h'.entries u).trans (h.entries u)⟩

/-- A vector is replaced, and a user with a vector keeps an entry. -/
theorem insert {u : UserId} {old new : List WsConnection} (hu : r.connections.lookup u = some old)
    (channels : Tx → Channel) :
    SamePresence r { r with connections := r.connections.insert u new, channels := channels } where
  announced := rfl
  entries v := by
    have hmem : u ∈ r.connections := AList.lookup_isSome.mp (by rw [hu]; rfl)
    rw [AList.mem_insert]
    constructor
    · rintro (rfl | hv)
      · exact hmem
      · exact hv
    · exact .inr

end SamePresence

namespace Registry

variable (r : Registry) (u : UserId)

theorem samePresence_enqueue (sender : Tx) (m : Message) : SamePresence r (r.enqueue sender m).2 :=
  ⟨rfl, fun _ => Iff.rfl⟩

theorem samePresence_sendReplace (d : DisconnectTx) : SamePresence r (r.sendReplace d) :=
  ⟨rfl, fun _ => Iff.rfl⟩

theorem samePresence_retainOther (sender : Tx) : SamePresence r (r.retainOther u sender) := by
  unfold retainOther
  split
  · exact .refl r
  · rename_i senders hl
    exact .insert hl r.channels

theorem samePresence_sendToUser (m : Message) : SamePresence r (r.sendToUser u m) := by
  unfold sendToUser
  split
  · exact .refl r
  · rename_i senders hl
    exact .insert hl _

/-- A broadcast prunes connections, and keeps every entry. -/
theorem samePresence_broadcastShard (sharding : Sharding) (shard : Nat) (m : Message) :
    SamePresence r (r.broadcastShard sharding shard m) := by
  unfold broadcastShard
  generalize r.connections.keys.filter _ = users
  induction users generalizing r with
  | nil => exact .refl r
  | cons v users ih => exact (samePresence_sendToUser r v m).trans (ih (r.sendToUser v m))

theorem samePresence_apply (e : Event) : SamePresence r (e.apply r) := by
  cases e <;> exact ⟨rfl, fun _ => Iff.rfl⟩

/-- `register` inserts an entry, and finds the user offline when they had none or
an empty one. -/
theorem mem_register (c : WsConnection) (v : UserId) :
    v ∈ (r.register u c).2.connections ↔ v = u ∨ v ∈ r.connections := AList.mem_insert _

theorem register_cameOnline (c : WsConnection) :
    (r.register u c).1 = true ↔ u ∉ r.connections ∨ r.connections.lookup u = some [] := by
  rw [← AList.lookup_eq_none]
  cases hl : r.connections.lookup u <;> simp [register, hl]

/-- Removing the entry of a user without one changes nothing. -/
theorem samePresence_erase (hu : u ∉ r.connections) :
    SamePresence r { r with connections := r.connections.erase u } where
  announced := rfl
  entries v := by
    rw [AList.mem_erase, and_iff_right_iff_imp]
    rintro hv rfl
    exact hu hv

/-- `remove_if` removes an empty vector or does nothing. -/
theorem removeIfEmpty_cases :
    (r.connections.lookup u = some [] ∧
      r.removeIfEmpty u = (true, { r with connections := r.connections.erase u })) ∨
    r.removeIfEmpty u = (false, r) := by
  unfold removeIfEmpty
  split
  · rename_i hl
    exact .inl ⟨hl, rfl⟩
  · exact .inr rfl

end Registry

/-! ### The lock invariant -/

/-- The presence message that a call will still give to `broadcast`. -/
def Task.owed : Task → List ServerMessage
  | .authOk u _ true => [.userOnline u]
  | .disconnect _ u => [.userOffline u]
  | .announce m _ => [m]
  | _ => []

/-- With the messages `owed` broadcast, what was broadcast is what the map says. -/
def Owes (owed : List ServerMessage) (r : Registry) : Prop :=
  Shows (r.announced ++ owed) (· ∈ r.connections)

/-- Nothing is owed when the mutex is free. -/
abbrev Settled : Registry → Prop := Owes []

/-- The presence invariant at each point of the critical section. -/
abbrev PresenceAt (t : Task) : Registry → Prop := Owes t.owed

/-- The next statement does not register a tab over an emptied vector. -/
def NoEmptied (t : Task) (r : Registry) : Prop :=
  ∀ u c, t = .access (.register u c) → r.connections.lookup u ≠ some []

section Owes

variable {owed : List ServerMessage} {m : ServerMessage} {r r' : Registry} {u : UserId}

theorem settled_iff : Settled r ↔ Shows r.announced (· ∈ r.connections) := by
  rw [Settled, Owes, List.append_nil]

theorem Owes.frame (h : SamePresence r r') (hs : Owes owed r) : Owes owed r' := by
  unfold Owes
  rw [h.announced]
  exact hs.congr h.entries

theorem Owes.announce (h : Owes [m] r) : Settled { r with announced := r.announced ++ [m] } :=
  settled_iff.mpr h

/-- An entry is removed, and the broadcast that the user is offline is owed. -/
theorem Owes.erase (hs : Settled r) (hu : u ∈ r.connections) :
    Owes [.userOffline u] { r with connections := r.connections.erase u } :=
  (settled_iff.mp hs).offline hu fun _ => AList.mem_erase

/-- The first connection of a user owes the broadcast that they are online, a
further one owes nothing. -/
theorem presenceAt_register {c : WsConnection} (hs : Settled r)
    (hne : r.connections.lookup u ≠ some []) :
    PresenceAt (.authOk u c.sender (r.register u c).1) (r.register u c).2 := by
  cases hcame : (r.register u c).1 with
  | true =>
      have hu : u ∉ r.connections := ((r.register_cameOnline u c).mp hcame).resolve_right hne
      exact (settled_iff.mp hs).online hu (r.mem_register u c)
  | false =>
      have hu : u ∈ r.connections := by
        by_contra hcon
        rw [(r.register_cameOnline u c).mpr (.inl hcon)] at hcame
        cases hcame
      refine Shows.congr hs fun v => (r.mem_register u c v).trans ⟨?_, .inr⟩
      rintro (rfl | hv)
      · exact hu
      · exact hv

end Owes

section Statements

variable {sharding : Sharding} {t : Task} {r : Registry} {u : UserId}

/-- The presence invariant after a statement. -/
abbrev PresenceAfter (sharding : Sharding) (t : Task) (r : Registry) : Prop :=
  (wsMachine sharding).Asserts Settled PresenceAt (t.next sharding r).1 (t.next sharding r).2

theorem after_remove (hs : Settled r) : PresenceAfter sharding (.access (.remove u)) r := by
  simp only [PresenceAfter, Task.next, Registry.remove]
  cases hl : r.connections.lookup u with
  | none => exact hs.frame (r.samePresence_erase u (AList.lookup_eq_none.mp hl))
  | some senders => exact hs.erase (AList.lookup_isSome.mp (by rw [hl]; rfl))

theorem after_removeIf (hs : Settled r) : PresenceAfter sharding (.removeIf u) r := by
  simp only [PresenceAfter, Task.next]
  rcases r.removeIfEmpty_cases u with ⟨hl, heq⟩ | heq
  · rw [heq]
    exact hs.erase (AList.lookup_isSome.mp (by rw [hl]; rfl))
  · rw [heq]
    exact hs

theorem after_authOk {sender : Tx} {cameOnline : Bool}
    (h : PresenceAt (.authOk u sender cameOnline) r) :
    PresenceAfter sharding (.authOk u sender cameOnline) r := by
  have hframe := r.samePresence_enqueue sender (.server (.authOk u))
  cases cameOnline with
  | true => exact h.frame hframe
  | false => exact h.frame hframe

theorem after_broadcast {m : Message} {shard : Nat} {answer : Option Bool} (hs : Settled r) :
    PresenceAfter sharding (.broadcast m shard (some answer)) r := by
  simp only [PresenceAfter, Task.next]
  split
  · exact hs.frame (r.samePresence_broadcastShard sharding shard m)
  · exact hs

/-- Inside the critical section, one case for each statement. -/
theorem after_inside (hi : t.inside = true) (hQ : NoEmptied t r) (ht : PresenceAt t r) :
    PresenceAfter sharding t r := by
  cases t with
  | done _ | lock _ | sendToUser _ _ => cases hi
  | access first =>
      cases first with
      | register u c => exact presenceAt_register ht (hQ u c rfl)
      | retain u sender => exact ht.frame (r.samePresence_retainOther u sender)
      | remove u => exact after_remove ht
  | authOk u sender cameOnline => exact after_authOk ht
  | removeIf u => exact after_removeIf ht
  | disconnect senders u =>
      cases senders with
      | nil => exact ht
      | cons c senders => exact ht.frame (r.samePresence_sendReplace c.disconnect)
  | announce m answer => exact ht.announce
  | broadcast m shard caller =>
      cases caller with
      | none => cases hi
      | some answer => exact after_broadcast ht
  | unlock answer => exact ht

/-- Outside the critical section only sends run, which keep every entry. -/
theorem samePresence_outside (ha : t.acquires = false) (hi : t.inside = false) :
    SamePresence r (t.next sharding r).2 := by
  cases t with
  | done _ => exact .refl r
  | sendToUser u json => exact r.samePresence_sendToUser u (.text json)
  | lock _ => cases ha
  | broadcast m shard caller =>
      cases caller with
      | some _ => cases hi
      | none =>
          simp only [Task.next]
          split
          · exact r.samePresence_broadcastShard sharding shard m
          · exact .refl r
  | _ => cases hi

end Statements

/-- **Every statement keeps the presence invariant**, a registration over an
emptied vector apart. -/
theorem keeps_presence (sharding : Sharding) :
    Keeps (wsMachine sharding) NoEmptied Settled PresenceAt where
  acquire t r ha _ hs := by
    cases t with
    | lock first => cases first <;> exact hs
    | _ => cases ha
  inside _ _ hi hQ ht := after_inside hi hQ ht
  outside_free _ _ ha hi hs := hs.frame (samePresence_outside ha hi)
  outside_held _ _ _ ha hi ht := ht.frame (samePresence_outside ha hi)
  env_free e r hs := hs.frame (r.samePresence_apply e)
  env_held e r _ ht := ht.frame (r.samePresence_apply e)

/-! ### A repeated broadcast stays -/

/-- What was broadcast and what is owed do not alternate for `u`. -/
abbrev Broken (u : UserId) (owed : List ServerMessage) (r : Registry) : Prop :=
  ¬ Alternates u (r.announced ++ owed)

theorem Broken.frame {u : UserId} {owed : List ServerMessage} {r r' : Registry}
    (h : SamePresence r r') (hb : Broken u owed r) : Broken u owed r' := by
  rw [Broken, h.announced]
  exact hb

/-- The owner only adds to what was broadcast and is owed. -/
theorem told_grows (sharding : Sharding) {t : Task} (r : Registry) (hi : t.inside = true) :
    ∃ told, (t.next sharding r).2.announced ++ (t.next sharding r).1.owed =
      r.announced ++ t.owed ++ told := by
  cases t with
  | done _ | lock _ | sendToUser _ _ => cases hi
  | access first =>
      cases first with
      | register u c => exact ⟨_, by rw [List.append_assoc]; rfl⟩
      | retain u sender =>
          refine ⟨[], ?_⟩
          simp [Task.next, Task.owed, (r.samePresence_retainOther u sender).announced]
      | remove u =>
          simp only [Task.next, Registry.remove]
          cases r.connections.lookup u with
          | none => exact ⟨[], by simp [Task.owed]⟩
          | some senders => exact ⟨_, by rw [List.append_assoc]; rfl⟩
  | authOk u sender cameOnline => cases cameOnline <;> exact ⟨[], (List.append_nil _).symm⟩
  | removeIf u =>
      simp only [Task.next]
      -- `user_offline` is owed exactly when the entry was removed
      rcases r.removeIfEmpty_cases u with ⟨-, heq⟩ | heq
      · rw [heq]
        exact ⟨_, by rw [List.append_assoc]; rfl⟩
      · rw [heq]
        exact ⟨[], (List.append_nil _).symm⟩
  | disconnect senders u => cases senders <;> exact ⟨[], (List.append_nil _).symm⟩
  | announce m answer => exact ⟨[], by simp [Task.next, Task.owed]⟩
  | broadcast m shard caller =>
      cases caller with
      | none => cases hi
      | some answer =>
          simp only [Task.next]
          split
          · exact ⟨[], by
              simp [Task.owed, (r.samePresence_broadcastShard sharding shard m).announced]⟩
          · exact ⟨[], by simp [Task.owed]⟩
  | unlock answer => exact ⟨[], (List.append_nil _).symm⟩

theorem owed_outside {t : Task} (h : t.inside = false) : t.owed = [] := by
  cases t <;> first | rfl | cases h

/-- **A repeated broadcast is never made up for.** -/
theorem keeps_broken (sharding : Sharding) (u : UserId) :
    Keeps (wsMachine sharding) (fun _ _ => True) (Broken u []) fun t => Broken u t.owed where
  acquire t r ha _ hb := by
    cases t with
    | lock first => cases first <;> exact hb
    | _ => cases ha
  inside t r hi _ hb := by
    obtain ⟨told, htold⟩ := told_grows sharding r hi
    have hnext : Broken u ((wsMachine sharding).next t r).1.owed
        ((wsMachine sharding).next t r).2 := fun h => hb (Alternates.of_append (htold ▸ h))
    unfold Machine.Asserts
    split
    · exact hnext
    · rename_i hout
      rwa [owed_outside (Bool.eq_false_iff.mpr hout)] at hnext
  outside_free _ _ ha hi hb := hb.frame (samePresence_outside ha hi)
  outside_held _ _ _ ha hi hb := hb.frame (samePresence_outside ha hi)
  env_free e r hb := hb.frame (r.samePresence_apply e)
  env_held e r _ hb := hb.frame (r.samePresence_apply e)

/-! ### Runs -/

section Runs

variable {ι : Type} [DecidableEq ι] {sharding : Sharding} {s : System Registry Task ι}

/-- No call registers a tab over an emptied vector in this step. -/
def NoEmptiedStep (l : Label Call Event ι) (s : System Registry Task ι) : Prop :=
  ∀ i, l = .advance i → NoEmptied (s.tasks i) s.shared

omit [DecidableEq ι] in
theorem guarded_freshRegistry :
    Guarded (wsMachine sharding) Settled PresenceAt (freshRegistry : System Registry Task ι) :=
  guarded_start rfl (shows_nil.congr fun _ => by simp [Registry.new])

theorem guarded_of_reachable
    (h : ReachableBy NoEmptiedStep (wsMachine sharding).step freshRegistry s) :
    Guarded (wsMachine sharding) Settled PresenceAt s :=
  guarded_of_reachableBy (wsMachine_lawful sharding) (keeps_presence sharding) (fun _ _ hP => hP) h
    guarded_freshRegistry

/-- **Presence broadcasts alternate.** In every run in which no connection is
registered over an emptied vector, the broadcasts about each user are
`user_online`, `user_offline`, `user_online`, …. -/
theorem presence_alternates
    (h : ReachableBy NoEmptiedStep (wsMachine sharding).step freshRegistry s) (u : UserId) :
    Alternates u s.shared.announced := by
  have hg := guarded_of_reachable h
  cases ho : s.owner with
  | none => exact ((hg.free ho) u).1.of_append
  | some i => exact ((hg.held i ho) u).1.of_append

/-- **A registration over an emptied vector breaks the alternation for good**: once
its broadcast is made, the broadcasts about the user no longer alternate. -/
theorem emptied_repeats (h : ReachableBy NoEmptiedStep (wsMachine sharding).step freshRegistry s)
    {i : ι} {u : UserId} {c : WsConnection} (hi : s.tasks i = .access (.register u c))
    (hempty : s.shared.connections.lookup u = some []) {s₁ s₂ : System Registry Task ι}
    (hstep : (wsMachine sharding).step (.advance i) s = some s₁)
    (hlater : Reachable (wsMachine sharding).step s₁ s₂) (hfree : s₂.owner = none) :
    ¬ Alternates u s₂.shared.announced := by
  have hg := guarded_of_reachable h
  have howner : s.owner = some i := (hg.inside_iff i).mp (by rw [hi]; rfl)
  have hsettled : Settled s.shared := by
    have hheld := hg.held i howner
    rw [hi] at hheld
    exact hheld
  have hcame : (s.shared.register u c).1 = true :=
    (s.shared.register_cameOnline u c).mpr (.inr hempty)
  have hmem : u ∈ s.shared.connections := AList.lookup_isSome.mp (by rw [hempty]; rfl)
  -- the map shows `u` online, and the call owes the same broadcast again
  have hbroken : Guarded (wsMachine sharding) (Broken u []) (fun t => Broken u t.owed) s₁ := by
    obtain ⟨-, rfl⟩ := (wsMachine sharding).step_advance hstep
    refine hg.own (.inr howner) (fun _ => .inl (by rw [hi]; rfl)) ?_
    rw [hi]
    change Broken u (Task.authOk u c.sender (s.shared.register u c).1).owed _
    rw [hcame]
    exact (settled_iff.mp hsettled).not_alternates hmem
  have hend := hlater.invariant (fun _ _ _ hI hstep =>
    hI.step (wsMachine_lawful sharding) (keeps_broken sharding u) (fun _ _ => trivial) hstep)
    hbroken
  intro hal
  exact hend.free hfree (by rwa [List.append_nil])

end Runs

/-! ### Runs of one user's tabs -/

/-- The map in one shard. -/
def oneShard : Sharding := ⟨1, fun _ => 0⟩

/-- One task makes the calls one after another, each in so many statements. -/
def inTurn (calls : List (Call × Nat)) : List (Label Call Event Unit) :=
  calls.flatMap fun (call, statements) =>
    .call () call :: List.replicate statements (.advance ())

/-- The next statement passes `NoEmptied`. -/
def checkNoEmptied (l : Label Call Event Unit) (s : System Registry Task Unit) : Bool :=
  match l, s.tasks () with
  | .advance _, .access (.register u _) => s.shared.connections.lookup u != some []
  | _, _ => true

theorem noEmptiedStep_of_check (l : Label Call Event Unit) (s : System Registry Task Unit)
    (h : checkNoEmptied l s = true) : NoEmptiedStep l s := by
  rintro ⟨⟩ rfl u c hi
  simpa [checkNoEmptied, hi] using h

/-- Two tabs of 7 open and close, and 7 comes back. -/
def comeAndGo : List (Label Call Event Unit) :=
  inTurn [(.registerAuthenticatedConnection 1 1 7, 7), (.registerAuthenticatedConnection 2 2 7, 4),
    (.unregisterAuthenticatedConnection 1 7, 4), (.unregisterAuthenticatedConnection 2 7, 7),
    (.registerAuthenticatedConnection 3 3 7, 7)]

theorem presence_alternates_comeAndGo :
    ∃ s : System Registry Task Unit, s.tasks () = .done none ∧
      s.shared.announced = [.userOnline 7, .userOffline 7, .userOnline 7] ∧
        Alternates 7 s.shared.announced := by
  have hrun : ((replay (fun l s =>
      if checkNoEmptied l s then (wsMachine oneShard).step l s else none)
        freshRegistry comeAndGo).map fun s => (s.tasks (), s.shared.announced)) =
          some (.done none, [.userOnline 7, .userOffline 7, .userOnline 7]) := by decide
  obtain ⟨s, hs, hend⟩ := Option.map_eq_some_iff.mp hrun
  obtain ⟨hdone, hannounced⟩ := Prod.mk.inj hend
  exact ⟨s, hdone, hannounced, presence_alternates (.of_replay noEmptiedStep_of_check hs .refl) 7⟩

/-- The first tab of 7 dies, a message finds its queue closed, and the second tab
opens before the first one is unregistered. -/
def deadTab : List (Label Call Event Unit) :=
  inTurn [(.registerAuthenticatedConnection 1 1 7, 7)] ++ [.env (.close 1)] ++
    inTurn [(.sendToUser 7 "hi", 1), (.registerAuthenticatedConnection 2 2 7, 7)]

theorem deadTab_reachable : ∃ s : System Registry Task Unit,
    Reachable (wsMachine oneShard).step freshRegistry s ∧
      s.shared.announced = [.userOnline 7, .userOnline 7] :=
  exists_reachable_of_replay deadTab (fun s : System Registry Task Unit => s.shared.announced)
    (by decide)

/-- 7 is announced online twice in a row. -/
theorem presence_repeated : ¬ ∀ (s : System Registry Task Unit) (u : UserId),
    Reachable (wsMachine oneShard).step freshRegistry s → Alternates u s.shared.announced := by
  intro hclaim
  obtain ⟨s, hs, hannounced⟩ := deadTab_reachable
  obtain ⟨-, hchain⟩ := hclaim s 7 hs
  rw [hannounced] at hchain
  revert hchain
  decide

end DevbitBackend.Ws
