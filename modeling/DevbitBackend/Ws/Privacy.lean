import DevbitBackend.Lib.Noninterference
import DevbitBackend.Ws.Alike
import DevbitBackend.Ws.Snapshot

/-!
# Ws.Privacy

What a viewer learns about a user who is not a friend. The presence endpoint never
mentions this user; the presence broadcasts go to everyone, and they remove the
connections whose receiver is gone, which may be those of a friend.

Two runs that differ in the user's own sockets only are indistinguishable for the
viewer when no presence broadcast about the user is delivered to the viewer or
removes a connection (`presence_private`).
-/

namespace DevbitBackend.Ws

open Social (UserId SocialError)
open Monitor Transition

/-! ### The steps of the server -/

section Node

variable {ι κ : Type} [DecidableEq ι] [DecidableEq κ] {sharding : Sharding} {s s' : Node ι κ}

/-- What each move does to the server. -/
inductive Node.Steps (sharding : Sharding) (s : Node ι κ) : Node.Move ι κ → Node ι κ → Prop
  | call (i : ι) (c : Call) :
      Steps sharding s (.ws (.call i c)) { s with
        registry := { s.registry with tasks := Function.update s.registry.tasks i c.code } }
  | advance (i : ι) (owner : Option ι) :
      Steps sharding s (.ws (.advance i)) { s with
        registry := ⟨((s.registry.tasks i).next sharding s.registry.shared).2,
          Function.update s.registry.tasks i
            ((s.registry.tasks i).next sharding s.registry.shared).1, owner⟩ }
  | env (e : Event) : Steps sharding s (.ws (.env e)) (s.store (e.apply s.registry.shared))
  | request {k : κ} (db : Social.Db) (viewer : UserId) (userIds : Option String) :
      s.queries k = .idle →
      Steps sharding s (.request k db viewer userIds) (s.answer k (presence db viewer userIds))
  | read {k : κ} {viewer : UserId} {rest : List UserId} {users : List PresenceEntry}
      {target : UserId} : s.queries k = .reading viewer rest users → target ∈ rest →
      Steps sharding s (.read k target) (s.answer k (.reading viewer (rest.erase target)
        (users ++ [s.registry.shared.entry target])))
  | respond {k : κ} {viewer : UserId} {users : List PresenceEntry} (now : Nat) :
      s.queries k = .reading viewer [] users →
      Steps sharding s (.respond k now) (s.answer k (.answered viewer
        (.ok ⟨users.insertionSort fun a b => a.userId ≤ b.userId, now⟩)))

theorem Node.steps_of_step {l : Node.Move ι κ} (h : Node.step sharding l s = some s') :
    Node.Steps sharding s l s' := by
  cases l with
  | ws l =>
      obtain ⟨registry, hreg, rfl⟩ := Option.map_eq_some_iff.mp h
      cases l with
      | call i c =>
          simp only [Machine.step, Option.ite_none_right_eq_some, Option.some.injEq] at hreg
          obtain ⟨-, rfl⟩ := hreg
          exact .call i c
      | advance i =>
          obtain ⟨-, rfl⟩ := Machine.step_advance hreg
          exact .advance i _
      | env e =>
          obtain rfl := Option.some.inj hreg
          exact .env e
  | request k db viewer userIds =>
      simp only [Node.step] at h
      split at h
      · obtain rfl := Option.some.inj h
        exact .request db viewer userIds ‹_›
      · cases h
  | read k target =>
      simp only [Node.step] at h
      split at h
      · simp only [Option.ite_none_right_eq_some, Option.some.injEq] at h
        obtain ⟨ht, rfl⟩ := h
        exact .read ‹_› ht
      · cases h
  | respond k now =>
      simp only [Node.step] at h
      split at h
      · obtain rfl := Option.some.inj h
        exact .respond now ‹_›
      · cases h

/-! ### Two runs -/

/-- The moves of `u`'s sockets. `own` holds the tasks that run for them. -/
def Node.Move.isOwn (user : Tx → UserId) (own : ι → Bool) (u : UserId) : Node.Move ι κ → Bool
  | .ws (.call i _) | .ws (.advance i) => own i
  | .ws (.env e) => user e.sender == u
  | _ => false

/-- Every socket is used for its user, the calls about `u`'s coming and going run
on `u`'s tasks, and `u` is no friend of the viewer `w` when `w` asks. -/
def Node.Move.Attributed (user : Tx → UserId) (own : ι → Bool) (u w : UserId) :
    Node.Move ι κ → Prop
  | .ws (.call i c) => (own i = true ↔ c.user = some u) ∧ c.Owned user
  | .request _ db viewer _ => viewer = w → Social.SchemaOk db ∧ db.areFriends w u = false
  | _ => True

/-- When a broadcast about `u` comes to a shard, the users other than `u` have no
connection there whose receiver is gone, and the viewer has none with room in its
queue. -/
def Node.Unseen (sharding : Sharding) (own : ι → Bool) (u w : UserId) (l : Node.Move ι κ)
    (s : Node ι κ) : Prop :=
  match l with
  | .ws (.advance i) =>
      own i = true → (s.registry.tasks i).Unseen sharding u w s.registry.shared
  | _ => True

/-- What a user receives. -/
structure Received (κ : Type) where
  /-- The presence responses. -/
  snapshots : κ → Option (Except SocialError PresenceSnapshot)
  /-- The frames put on each socket, in order. -/
  frames : Tx → List Message

def Query.response (w : UserId) : Query → Option (Except SocialError PresenceSnapshot)
  | .answered viewer answer => if viewer = w then some answer else none
  | _ => none

/-- A request of another user. -/
theorem Query.response_of_ne {q : Query} {w : UserId} (h : q.viewer ≠ some w) :
    q.response w = none := by
  cases q with
  | answered viewer answer =>
      have hne : viewer ≠ w := fun heq => h (congrArg some heq)
      simp [Query.response, hne]
  | _ => rfl

def Node.received (user : Tx → UserId) (w : UserId) (s : Node ι κ) : Received κ where
  snapshots k := (s.queries k).response w
  frames x := if user x = w then (s.registry.shared.channels x).put else []

/-! ### What does not change -/

variable {user : Tx → UserId} {own : ι → Bool} {u w : UserId}

/-- The sockets are used for their users, and `u` is not among the targets of the
viewer. -/
structure Node.Attributions (user : Tx → UserId) (own : ι → Bool) (u w : UserId)
    (s : Node ι κ) : Prop where
  tasks : ∀ i, (s.registry.tasks i).Of user u (own i = true)
  connections : s.registry.shared.Owned user
  targets : ∀ k rest users, s.queries k = .reading w rest users → u ∉ rest

namespace Node.Attributions

omit [DecidableEq ι] [DecidableEq κ] in
theorem start : Attributions user own u w (Node.start : Node ι κ) where
  tasks _ := trivial
  connections _ _ hl := by cases hl
  targets _ _ _ hk := by cases hk

omit [DecidableEq ι] in
/-- The request `k` goes on. -/
theorem answer (h : Attributions user own u w s) {k : κ} {query : Query}
    (hq : ∀ rest users, query = .reading w rest users → u ∉ rest) :
    Attributions user own u w (s.answer k query) where
  tasks := h.tasks
  connections := h.connections
  targets k' rest users hk' := by
    by_cases hkk : k' = k
    · subst hkk
      exact hq rest users (by simpa [Node.answer] using hk')
    · exact h.targets k' rest users (by simpa [Node.answer, hkk] using hk')

theorem step (hwu : w ≠ u) {l : Node.Move ι κ} (h : Attributions user own u w s)
    (hl : l.Attributed user own u w) (hstep : Node.step sharding l s = some s') :
    Attributions user own u w s' := by
  cases Node.steps_of_step hstep with
  | call i c =>
      refine ⟨fun j => ?_, h.connections, h.targets⟩
      by_cases hj : j = i
      · subst hj
        simpa using Task.of_code hl.1 hl.2
      · simpa [hj] using h.tasks j
  | advance i owner =>
      refine ⟨fun j => ?_, h.connections.next (h.tasks i), h.targets⟩
      by_cases hj : j = i
      · subst hj
        simpa using (h.tasks j).next s.registry.shared
      · simpa [hj] using h.tasks j
  | env e => exact ⟨h.tasks, h.connections.of_prunes (Registry.prunes_apply _ e), h.targets⟩
  | request db viewer userIds hk =>
      refine h.answer fun rest users hq hu => ?_
      obtain rfl : viewer = w := by
        unfold presence at hq
        split at hq
        · cases hq
        · cases hq
          rfl
      obtain ⟨hs, hfriends⟩ := hl rfl
      -- the handler asks for the viewer and for friends only
      rcases presence_shows hs hq hu with rfl | hfriend
      · exact hwu rfl
      · rw [hfriends] at hfriend
        cases hfriend
  | read hk ht =>
      refine h.answer fun rest users hq hu => ?_
      cases hq
      exact h.targets _ _ _ hk (List.mem_of_mem_erase hu)
  | respond now hk => exact h.answer fun rest users hq => by cases hq

end Node.Attributions

/-! ### Servers that look alike -/

/-- The requests of the viewer are in the same state. -/
structure Query.Alike (w : UserId) (q q' : Query) : Prop where
  viewer : q.viewer = q'.viewer
  state : q.viewer = some w → q = q'

theorem Query.Alike.refl (q : Query) : q.Alike w q := ⟨rfl, fun _ => rfl⟩

/-- The viewer cannot tell the two servers apart. -/
structure Node.Indistinguishable (user : Tx → UserId) (own : ι → Bool) (u w : UserId)
    (s s' : Node ι κ) : Prop where
  left : Attributions user own u w s
  right : Attributions user own u w s'
  registry : Ws.Alike user u w s.registry.shared s'.registry.shared
  tasks : ∀ i, own i = false → s.registry.tasks i = s'.registry.tasks i
  queries : ∀ k, (s.queries k).Alike w (s'.queries k)

omit [DecidableEq ι] in
/-- A request goes on alike on both sides. -/
theorem Query.Alike.answer (h : ∀ k, (s.queries k).Alike w (s'.queries k)) {k : κ}
    {q q' : Query} (hq : q.Alike w q') :
    ∀ k', ((s.answer k q).queries k').Alike w ((s'.answer k q').queries k') := by
  intro k'
  by_cases hk : k' = k
  · subst hk
    simpa [Node.answer] using hq
  · simpa [Node.answer, hk] using h k'

/-- The viewer reads the same status of everyone but `u`. -/
theorem Alike.entry {r r' : Registry} (h : Alike user u w r r') {target : UserId}
    (ht : target ≠ u) : r.entry target = r'.entry target := by
  rw [Registry.entry, Registry.entry, Registry.isOnline, Registry.isOnline, h.lookup target ht]

namespace Node.Indistinguishable

variable {s₁ s₁' : Node ι κ} {l : Node.Move ι κ}

omit [DecidableEq ι] [DecidableEq κ] in
theorem symm (h : Indistinguishable user own u w s s') : Indistinguishable user own u w s' s where
  left := h.right
  right := h.left
  registry := h.registry.symm
  tasks i hi := (h.tasks i hi).symm
  queries k := ⟨(h.queries k).viewer.symm,
    fun hv => ((h.queries k).state ((h.queries k).viewer.trans hv)).symm⟩

omit [DecidableEq ι] [DecidableEq κ] in
theorem start : Indistinguishable user own u w (Node.start : Node ι κ) Node.start where
  left := .start
  right := .start
  registry := .refl _
  tasks _ _ := rfl
  queries _ := .refl _

/-- A move of `u`'s sockets changes nothing for the viewer. -/
theorem ignores (hwu : w ≠ u) (hown : l.isOwn user own u = true)
    (hl : l.Attributed user own u w) (hunseen : Node.Unseen sharding own u w l s)
    (hstep : Node.step sharding l s = some s₁) (h : Indistinguishable user own u w s s') :
    Indistinguishable user own u w s₁ s' := by
  have hleft : Attributions user own u w s₁ := h.left.step hwu hl hstep
  -- tasks of others are not touched
  have hother : ∀ {i j : ι} {t : Task}, own i = true → own j = false →
      Function.update s.registry.tasks i t j = s'.registry.tasks j := by
    intro i j t hi hj
    have hne : j ≠ i := by
      rintro rfl
      rw [hi] at hj
      cases hj
    rw [Function.update_of_ne hne, h.tasks j hj]
  cases Node.steps_of_step hstep with
  | call i c => exact ⟨hleft, h.right, h.registry, fun j hj => hother hown hj, h.queries⟩
  | advance i owner =>
      -- a statement of `u`'s own: `Unseen` keeps its broadcasts from everybody
      have hnext := Alike.next_own hwu h.left.connections (h.left.tasks i) hown (hunseen hown)
      exact ⟨hleft, h.right, hnext.trans h.registry, fun j hj => hother hown hj, h.queries⟩
  | env e =>
      have happly : Ws.Alike user u w (e.apply s.registry.shared) s.registry.shared := by
        cases e with
        | close x => exact .update_self hwu (beq_iff_eq.mp hown) _
        | forward x => exact .update_self hwu (beq_iff_eq.mp hown) _
        | frame x message => exact .update_self hwu (beq_iff_eq.mp hown) _
      exact ⟨hleft, h.right, happly.trans h.registry, h.tasks, h.queries⟩
  | request db viewer userIds hk => cases hown
  | read hk ht => cases hown
  | respond now hk => cases hown

/-- Any other move, made on both sides. -/
theorem agrees (hwu : w ≠ u) (hown : l.isOwn user own u = false)
    (hl : l.Attributed user own u w) (hstep : Node.step sharding l s = some s₁)
    (hstep' : Node.step sharding l s' = some s₁') (h : Indistinguishable user own u w s s') :
    Indistinguishable user own u w s₁ s₁' := by
  have hleft : Attributions user own u w s₁ := h.left.step hwu hl hstep
  have hright : Attributions user own u w s₁' := h.right.step hwu hl hstep'
  have hother : ∀ {i : ι} {t t' : Task}, t = t' → ∀ j, own j = false →
      Function.update s.registry.tasks i t j = Function.update s'.registry.tasks i t' j := by
    intro i t t' ht j hj
    by_cases hji : j = i
    · subst hji
      rw [Function.update_self, Function.update_self, ht]
    · rw [Function.update_of_ne hji, Function.update_of_ne hji, h.tasks j hj]
  cases Node.steps_of_step hstep with
  | call i c =>
      cases Node.steps_of_step hstep' with
      | call => exact ⟨hleft, hright, h.registry, hother rfl, h.queries⟩
  | advance i owner =>
      cases Node.steps_of_step hstep' with
      | advance _ owner' =>
          have hi : ¬ own i = true := by simpa [Node.Move.isOwn] using hown
          obtain ⟨htask, hshared⟩ := h.registry.next sharding hwu h.left.connections
            h.right.connections (h.left.tasks i) hi
          rw [h.tasks i hown] at htask hshared hleft ⊢
          exact ⟨hleft, hright, hshared, hother htask, h.queries⟩
  | env e =>
      cases Node.steps_of_step hstep' with
      | env => exact ⟨hleft, hright, h.registry.apply e, h.tasks, h.queries⟩
  | request db viewer userIds hk =>
      cases Node.steps_of_step hstep' with
      | request _ _ _ hk' =>
          exact ⟨hleft, hright, h.registry, h.tasks, Query.Alike.answer h.queries (.refl _)⟩
  | @read k viewer rest users target hk ht =>
      cases Node.steps_of_step hstep' with
      | @read _ viewer' rest' users' _ hk' ht' =>
          refine ⟨hleft, hright, h.registry, h.tasks, Query.Alike.answer h.queries ?_⟩
          obtain ⟨hviewer, hstate⟩ := h.queries k
          rw [hk, hk'] at hviewer hstate
          obtain rfl := Option.some.inj hviewer
          refine ⟨rfl, fun hw => ?_⟩
          obtain rfl := Option.some.inj hw
          cases hstate rfl
          -- the viewer is no friend of `u`, so `u` is not among the targets
          have htarget : target ≠ u := by
            rintro rfl
            exact h.left.targets k _ _ hk ht
          rw [h.registry.entry htarget]
  | @respond k viewer users now hk =>
      cases Node.steps_of_step hstep' with
      | @respond _ viewer' users' _ hk' =>
          refine ⟨hleft, hright, h.registry, h.tasks, Query.Alike.answer h.queries ?_⟩
          obtain ⟨hviewer, hstate⟩ := h.queries k
          rw [hk, hk'] at hviewer hstate
          obtain rfl := Option.some.inj hviewer
          refine ⟨rfl, fun hw => ?_⟩
          cases hstate hw
          rfl

omit [DecidableEq ι] [DecidableEq κ] in
/-- What the viewer receives does not tell them apart. -/
theorem received (h : Indistinguishable user own u w s s') :
    s.received user w = s'.received user w := by
  have hsnapshots : ∀ k, (s.queries k).response w = (s'.queries k).response w := by
    intro k
    obtain ⟨hviewer, hstate⟩ := h.queries k
    by_cases hw : (s.queries k).viewer = some w
    · rw [hstate hw]
    · rw [Query.response_of_ne hw, Query.response_of_ne (hviewer ▸ hw)]
  have hframes : ∀ x, (if user x = w then (s.registry.shared.channels x).put else []) =
      if user x = w then (s'.registry.shared.channels x).put else [] := by
    intro x
    split
    · rw [h.registry.queue x ‹_›]
    · rfl
  simp only [Node.received, hsnapshots, hframes]

end Node.Indistinguishable

theorem Node.unwinds (hwu : w ≠ u) :
    Unwinds (fun (l : Node.Move ι κ) s =>
        l.Attributed user own u w ∧ Node.Unseen sharding own u w l s)
      (Node.step sharding) (Node.Move.isOwn user own u) (Node.Indistinguishable user own u w) where
  symm h := h.symm
  ignores hown hP hstep h := h.ignores hwu hown hP.1 hP.2 hstep
  agrees hown hP _ hstep hstep' h := h.agrees hwu hown hP.1 hstep hstep'

/-- **Presence is private as long as it is not broadcast.** Take two runs that
differ in the moves of `u`'s own sockets, where `w` is another user and no friend
of `u`. If every broadcast about `u` passes by the viewer and by connections whose
receiver is gone, then `w` receives the same presence responses and the same
frames in both. -/
theorem presence_private (hwu : w ≠ u) {ls ls' : List (Node.Move ι κ)}
    (hrun : RunBy (Node.Unseen sharding own u w) (Node.step sharding) Node.start ls s)
    (hrun' : RunBy (Node.Unseen sharding own u w) (Node.step sharding) Node.start ls' s')
    (hls : ∀ l ∈ ls, l.Attributed user own u w) (hls' : ∀ l ∈ ls', l.Attributed user own u w)
    (hsame : ls.filter (fun l => !l.isOwn user own u) = ls'.filter fun l => !l.isOwn user own u) :
    s.received user w = s'.received user w := by
  have hend : Node.Indistinguishable user own u w s s' :=
    (Node.unwinds hwu).runs (hrun.and_labels hls) (hrun'.and_labels hls') hsame .start
  exact hend.received

/-- **What `Unseen` leaves out reaches the defect**: it is a move of `u`'s own sockets
after which the viewer has been sent another frame, or the connections of a third user
are not those of before. -/
theorem seen_noticed (hwu : w ≠ u)
    (h : ReachableBy (fun l _ => l.Attributed user own u w) (Node.step sharding) Node.start s)
    {l : Node.Move ι κ} (hseen : ¬ Node.Unseen sharding own u w l s)
    (hstep : Node.step sharding l s = some s') :
    l.isOwn user own u = true ∧
      ((∃ v, v ≠ u ∧ s'.registry.shared.connections.lookup v ≠
        s.registry.shared.connections.lookup v) ∨ s'.received user w ≠ s.received user w) := by
  have hatt : Node.Attributions user own u w s :=
    h.invariant (I := Node.Attributions user own u w)
      (fun _ _ _ hI hl hstep => hI.step hwu hl hstep) .start
  cases Node.steps_of_step hstep with
  | advance i owner =>
      simp only [Node.Unseen, Classical.not_imp] at hseen
      obtain ⟨hown, hseen⟩ := hseen
      refine ⟨hown, ?_⟩
      cases ht : s.registry.tasks i with
      | broadcast message shard caller =>
          rw [ht] at hseen
          -- only a broadcast that still has a shard to go can be seen
          have hshard : shard < sharding.count := by
            simp only [Task.Unseen, not_forall] at hseen
            obtain ⟨v, -, -, rfl, -⟩ := hseen
            exact (sharding.of v).isLt
          have hnext : ((Task.broadcast message shard caller).next sharding
              s.registry.shared).2 = s.registry.shared.broadcastShard sharding shard message := by
            simp only [Task.next, if_pos hshard]
          dsimp only
          rw [hnext]
          refine (hatt.connections.seen hseen).imp_right ?_
          rintro ⟨x, rfl, hmore⟩ hsame
          -- a longer list of frames is another one
          have hframes := congrFun (congrArg Received.frames hsame) x
          simp only [Node.received, if_true] at hframes
          exact absurd (congrArg List.length hframes) (Nat.ne_of_gt hmore)
      | _ =>
          rw [ht] at hseen
          exact absurd trivial hseen
  | _ => exact absurd trivial hseen

end Node

/-! 1 is no friend of 2, and 3 is. The tasks of 1's socket 0 run as `true`. -/

def tabs (x : Tx) : UserId := if x = 0 then 1 else if x = 3 then 3 else 2

def friendsDb : Social.Db where
  users := [⟨1, "Ada", none⟩, ⟨2, "Bob", none⟩, ⟨3, "Eve", none⟩]
  requests := []
  friendships := [⟨2, 3, 0⟩]
  blocks := []
  preferences := []
  messages := []

theorem friendsDb_schemaOk : Social.SchemaOk friendsDb := by
  constructor <;> decide

/-- A call that runs `statements` statements. -/
def nodeCall (i : Bool) (call : Call) (statements : Nat) : List (Node.Move Bool Unit) :=
  .ws (.call i call) :: List.replicate statements (.ws (.advance i))

theorem nodeCall_attributed {i : Bool} {call : Call} {statements : Nat}
    (hown : i = true ↔ call.user = some 1) (howned : call.Owned tabs) :
    ∀ l ∈ nodeCall i call statements, l.Attributed tabs id 1 2 := by
  intro l hl
  rcases List.mem_cons.mp hl with rfl | hl
  · exact ⟨hown, howned⟩
  · obtain rfl := List.eq_of_mem_replicate hl
    trivial

/-- 2 connects. -/
def connected : List (Node.Move Bool Unit) :=
  nodeCall false (.registerAuthenticatedConnection 1 1 2) 7

/-- 1 comes online. -/
def comesOnline : List (Node.Move Bool Unit) :=
  nodeCall true (.registerAuthenticatedConnection 0 0 1) 7

theorem connected_attributed : ∀ l ∈ connected, l.Attributed tabs id 1 2 :=
  nodeCall_attributed (by decide) rfl

theorem comesOnline_attributed : ∀ l ∈ comesOnline, l.Attributed tabs id 1 2 :=
  nodeCall_attributed (by decide) rfl

/-- 2 receives the `user_online` of 1, who is no friend. -/
theorem presence_leaks : ¬ ∀ (ls ls' : List (Node.Move Bool Unit)) (s s' : Node Bool Unit),
    Run (Node.step oneShard) Node.start ls s → Run (Node.step oneShard) Node.start ls' s' →
    (∀ l ∈ ls, l.Attributed tabs id 1 2) → (∀ l ∈ ls', l.Attributed tabs id 1 2) →
    ls.filter (fun l => !l.isOwn tabs id 1) = ls'.filter (fun l => !l.isOwn tabs id 1) →
      s.received tabs 2 = s'.received tabs 2 := by
  intro hclaim
  have hrun : ((replay (Node.step oneShard) (Node.start : Node Bool Unit)
      (connected ++ comesOnline)).map fun s => (s.received tabs 2).frames 1) =
        some [.server (.authOk 2), .server (.userOnline 2), .server (.userOnline 1)] := by
    decide
  have hrun' : ((replay (Node.step oneShard) (Node.start : Node Bool Unit) connected).map
      fun s => (s.received tabs 2).frames 1) =
        some [.server (.authOk 2), .server (.userOnline 2)] := by
    decide
  obtain ⟨s, hs, hframes⟩ := Option.map_eq_some_iff.mp hrun
  obtain ⟨s', hs', hframes'⟩ := Option.map_eq_some_iff.mp hrun'
  have hsame := hclaim (connected ++ comesOnline) connected s s' (run_of_replay hs)
    (run_of_replay hs') (List.forall_mem_append.mpr ⟨connected_attributed, comesOnline_attributed⟩)
    connected_attributed rfl
  rw [hsame, hframes'] at hframes
  exact absurd hframes (by decide)

/-! 3, a friend of 2, is connected; 1 comes and goes, and only then 2 connects and
asks for 1 and 3. -/

def friendConnected : List (Node.Move Bool Unit) :=
  nodeCall false (.registerAuthenticatedConnection 3 3 3) 7

def goesOffline : List (Node.Move Bool Unit) :=
  nodeCall true (.unregisterAuthenticatedConnection 0 1) 7

def asks : List (Node.Move Bool Unit) :=
  connected ++ [.request () friendsDb 2 (some "1,3"), .read () 3, .respond () 9]

/-- The next statement is not a broadcast that `Node.Unseen` rules out. -/
def checkUnseen (l : Node.Move Bool Unit) (s : Node Bool Unit) : Bool :=
  match l with
  | .ws (.advance true) =>
      match s.registry.tasks true with
      | .broadcast _ _ _ => s.registry.shared.connections.entries.all fun e =>
          e.1 == 1 || e.2.all fun c =>
            (s.registry.shared.channels c.sender).isOpen && e.1 != 2
      | _ => true
  | _ => true

theorem unseen_of_check (l : Node.Move Bool Unit) (s : Node Bool Unit)
    (h : checkUnseen l s = true) : Node.Unseen oneShard id 1 2 l s := by
  cases l with
  | ws l =>
      cases l with
      | advance i =>
          rintro rfl
          simp only [checkUnseen] at h
          cases ht : s.registry.tasks true with
          | broadcast message shard caller =>
              rw [ht] at h
              intro v senders hv _ hl c hc
              have hmem := AList.mem_lookup_iff.mp hl
              have hv' := List.all_eq_true.mp h _ hmem
              simp only [Bool.or_eq_true, beq_iff_eq, hv, false_or, List.all_eq_true,
                Bool.and_eq_true, bne_iff_ne] at hv'
              obtain ⟨hopen, hne⟩ := hv' c hc
              exact ⟨hopen, fun heq => absurd heq hne⟩
          | _ => trivial
      | _ => trivial
  | _ => trivial

theorem asks_attributed : ∀ l ∈ asks, l.Attributed tabs id 1 2 := by
  refine List.forall_mem_append.mpr ⟨connected_attributed, ?_⟩
  simp only [List.forall_mem_cons]
  exact ⟨fun _ => ⟨friendsDb_schemaOk, by decide⟩, trivial, trivial, List.forall_mem_nil _⟩

theorem friendConnected_attributed : ∀ l ∈ friendConnected, l.Attributed tabs id 1 2 :=
  nodeCall_attributed (by decide) rfl

/-- 2 learns that 3 is online, and nothing of 1. -/
theorem presence_private_demo : ∃ s s' : Node Bool Unit,
    ((s.received tabs 2).frames 1, (s.received tabs 2).snapshots ()) =
      ([.server (.authOk 2), .server (.userOnline 2)], some (.ok ⟨[⟨3, .online⟩], 9⟩)) ∧
    s.received tabs 2 = s'.received tabs 2 := by
  have hrun : ((replay (fun l s => if checkUnseen l s then Node.step oneShard l s else none)
      Node.start (friendConnected ++ (comesOnline ++ goesOffline) ++ asks)).map fun s =>
        ((s.received tabs 2).frames 1, (s.received tabs 2).snapshots ())) =
          some ([.server (.authOk 2), .server (.userOnline 2)],
            some (.ok ⟨[⟨3, .online⟩], 9⟩)) := by
    decide
  have hrun' : ((replay (fun l s => if checkUnseen l s then Node.step oneShard l s else none)
      Node.start (friendConnected ++ asks)).map fun _ => true) = some true := by
    decide
  obtain ⟨s, hs, hreceived⟩ := Option.map_eq_some_iff.mp hrun
  obtain ⟨s', hs', -⟩ := Option.map_eq_some_iff.mp hrun'
  have hgoes : ∀ l ∈ goesOffline, l.Attributed tabs id 1 2 :=
    nodeCall_attributed (by decide) trivial
  refine ⟨s, s', hreceived, presence_private (by decide) (.of_replay unseen_of_check hs)
    (.of_replay unseen_of_check hs') ?_ ?_ rfl⟩
  · exact List.forall_mem_append.mpr ⟨List.forall_mem_append.mpr ⟨friendConnected_attributed,
      List.forall_mem_append.mpr ⟨comesOnline_attributed, hgoes⟩⟩, asks_attributed⟩
  · exact List.forall_mem_append.mpr ⟨friendConnected_attributed, asks_attributed⟩

end DevbitBackend.Ws
