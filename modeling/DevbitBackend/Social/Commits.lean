import DevbitBackend.Lib.Serial
import DevbitBackend.Social.Invariant
import DevbitBackend.Social.Handlers

/-!
# Social.Commits

What each handler commits, as one atomic change of the tables it finds
(`Commits`), and why such a change keeps the invariant, loses no row and stays
inside what the locks of the transaction protect (`Commits.sound`).

A transaction is a list of single writes. Each single write is a `Change` of its
pair, changes compose, and what is left for a whole transaction is the state of
the pair at its end.
-/

namespace DevbitBackend.Social

open Txn

/-! ### Changes of one pair -/

/-- A change of the pair `v`, `t` by a transaction that holds the locks `H`. -/
structure Change (seq : Nat) (v t : UserId) (H : List Lock) (db db' : Db) : Prop where
  local_to : LocalTo v t db db'
  grows : Grows db db'
  schema : SchemaOk db'
  ids : ∀ r ∈ db'.requests, 0 < r.id ∧ r.id ≤ seq
  rows : ∀ id, Lock.request id ∉ H → Kept (.request id) db db'

namespace Change

variable {seq : Nat} {v t : UserId} {H : List Lock} {db db' db'' : Db} {σ : State}

theorem refl (h : Consistent σ) : Change σ.seq v t H σ.db σ.db where
  local_to := .refl v t _
  grows := .refl _
  schema := h.schema
  ids := h.ids
  rows id _ := .refl (.request id) _

theorem trans (h : Change seq v t H db db') (h' : Change seq v t H db' db'') :
    Change seq v t H db db'' where
  local_to := h.local_to.trans h'.local_to
  grows := h.grows.trans h'.grows
  schema := h'.schema
  ids := h'.ids
  rows id hid := (h.rows id hid).trans (h'.rows id hid)

/-- A change of a pair whose lock is held, and whose invariants hold at the end,
is one the other transactions expect. -/
theorem sound (ws : List Write) (h : Change σ.seq v t H σ.db (engine.applyAll ws σ.db))
    (hH : pairKey v t ∈ H) (hp : PairOk (engine.applyAll ws σ.db) v t) (hinv : Consistent σ) :
    Consistent (σ.write ws) ∧ discipline.Base σ (σ.write ws) ∧
      ∀ l, l ∉ H → discipline.Keeps l σ (σ.write ws) := by
  refine ⟨⟨h.schema, h.ids, h.local_to.pairOk hinv.pairs hp⟩, ⟨le_rfl, h.grows⟩, ?_⟩
  intro l hl
  cases l with
  | pair low high => exact h.local_to.kept fun heq => hl (heq ▸ hH)
  | request id => exact h.rows id hl

end Change

/-! ### Single writes -/

section Writes

variable {seq : Nat} {v t : UserId} {H : List Lock} {db : Db}

/-- The `INSERT` of a pending request with a fresh, locked id. -/
theorem change_insertRequest {row : RequestRow} (hs : SchemaOk db)
    (hids : ∀ r ∈ db.requests, 0 < r.id ∧ r.id ≤ seq)
    (hbetween : row.between v t = true) (hne : row.sender ≠ row.recipient)
    (hsender : db.userExists row.sender = true) (hrecipient : db.userExists row.recipient = true)
    (hpos : 0 < row.id) (hle : row.id ≤ seq) (hfresh : ∀ r ∈ db.requests, r.id ≠ row.id)
    (hlock : Lock.request row.id ∈ H) :
    Change seq v t H db (Write.apply (.insertRequest row) db) where
  local_to := localTo_insertRequest hbetween
  grows := ⟨rfl, fun r hr => ⟨r, List.mem_append_left _ hr, .refl r⟩⟩
  schema :=
    { hs with
      requestKeys := Serial.nodup_keys_append hs.requestKeys hfresh
      requestParties := by
        intro r hr
        rcases List.mem_append.mp hr with h | h
        · exact hs.requestParties r h
        · obtain rfl : r = row := by simpa using h
          exact ⟨hne, hsender, hrecipient⟩ }
  ids := by
    intro r hr
    rcases List.mem_append.mp hr with h | h
    · exact hids r h
    · obtain rfl : r = row := by simpa using h
      exact ⟨hpos, hle⟩
  -- the new id is locked, so a row with another one was there before
  rows := by
    intro id hid r hr hrid
    rcases List.mem_append.mp hr with h | h
    · exact ⟨r, h, hrid, rfl, rfl⟩
    · obtain rfl : r = row := by simpa using h
      exact absurd (hrid ▸ hlock) hid

/-- An `UPDATE` of pending requests of the pair. -/
theorem change_setStatus {ids : List RequestId} {st : RequestStatus} {now : Nat}
    (hs : SchemaOk db) (hids : ∀ r ∈ db.requests, 0 < r.id ∧ r.id ≤ seq)
    (h : ∀ r ∈ db.requests, r.id ∈ ids → r.between v t = true ∧ r.isPending = true) :
    Change seq v t H db (Write.apply (.setStatus ids st now) db) where
  local_to := localTo_setStatus fun r hr hid => (h r hr hid).1
  grows := by
    refine ⟨rfl, fun r hr => ⟨_, List.mem_map_of_mem hr, ?_⟩⟩
    by_cases hid : r.id ∈ ids
    · rw [if_pos hid]
      exact RequestRow.evolves_settle (h r hr hid).2 st now
    · rw [if_neg hid]
      exact .refl r
  schema :=
    { hs with
      -- an update leaves every key as it is
      requestKeys := by
        have hkeys : (fun r : RequestRow => r.id) ∘
            (fun r => if r.id ∈ ids then r.settle st now else r) = fun r => r.id := by
          funext r
          simp only [Function.comp_apply]
          split <;> rfl
        simp only [Write.apply, List.map_map, hkeys]
        exact hs.requestKeys
      requestParties := by
        intro r' hr'
        obtain ⟨r, hr, rfl⟩ := List.mem_map.mp hr'
        have := hs.requestParties r hr
        split <;> exact this }
  ids := by
    intro r' hr'
    obtain ⟨r, hr, rfl⟩ := List.mem_map.mp hr'
    have := hids r hr
    split <;> exact this
  rows := by
    intro id _ r' hr' hid
    obtain ⟨r, hr, rfl⟩ := List.mem_map.mp hr'
    refine ⟨r, hr, ?_⟩
    split at hid <;> exact ⟨hid, by split <;> exact ⟨rfl, rfl⟩⟩

/-- What leaves the requests and the users alone. -/
theorem Change.of_requests_eq {db' : Db} (hloc : LocalTo v t db db') (hs : SchemaOk db')
    (hids : ∀ r ∈ db.requests, 0 < r.id ∧ r.id ≤ seq) (hr : db'.requests = db.requests)
    (hu : db'.users = db.users) : Change seq v t H db db' where
  local_to := hloc
  grows := ⟨hu, fun r h => ⟨r, hr ▸ h, .refl r⟩⟩
  schema := hs
  ids := by rw [hr]; exact hids
  rows id _ r h hid := ⟨r, hr ▸ h, hid, rfl, rfl⟩

theorem change_insertFriendship {now : Nat} (hs : SchemaOk db)
    (hids : ∀ r ∈ db.requests, 0 < r.id ∧ r.id ≤ seq) (hne : v ≠ t)
    (hv : db.userExists v = true) (ht : db.userExists t = true)
    (hf : db.areFriends v t = false) :
    Change seq v t H db (Write.apply (.insertFriendship ⟨min v t, max v t, now⟩) db) := by
  refine .of_requests_eq (localTo_insertFriendship rfl rfl) ?_ hids rfl rfl
  have hnew : ∀ f ∈ db.friendships, (f.userLow, f.userHigh) ≠ (min v t, max v t) := by
    intro f hf' heq
    have hno : f.isOf v t = false := by simpa using List.any_eq_false.mp hf f hf'
    simp [FriendshipRow.isOf, (Prod.mk.inj heq).1, (Prod.mk.inj heq).2] at hno
  refine { hs with
    friendshipKeys := Serial.nodup_keys_append hs.friendshipKeys hnew
    friendshipParties := ?_ }
  intro f hf'
  rcases List.mem_append.mp hf' with h | h
  · exact hs.friendshipParties f h
  · obtain rfl : f = ⟨min v t, max v t, now⟩ := by simpa using h
    rcases lt_or_gt_of_ne hne with hlt | hlt
    · simp only [min_eq_left hlt.le, max_eq_right hlt.le]
      exact ⟨hlt, hv, ht⟩
    · simp only [min_eq_right hlt.le, max_eq_left hlt.le]
      exact ⟨hlt, ht, hv⟩

theorem change_deleteFriendship (hs : SchemaOk db)
    (hids : ∀ r ∈ db.requests, 0 < r.id ∧ r.id ≤ seq) :
    Change seq v t H db (Write.apply (.deleteFriendship (min v t) (max v t)) db) := by
  refine .of_requests_eq (localTo_deleteFriendship v t db) ?_ hids rfl rfl
  exact { hs with
    friendshipKeys := hs.friendshipKeys.sublist (List.filter_sublist.map _)
    friendshipParties := fun f hf => hs.friendshipParties f (List.mem_of_mem_filter hf) }

theorem change_insertBlock {now : Nat} (hs : SchemaOk db)
    (hids : ∀ r ∈ db.requests, 0 < r.id ∧ r.id ≤ seq) (hne : v ≠ t)
    (hv : db.userExists v = true) (ht : db.userExists t = true)
    (hb : ∀ k ∈ db.blocks, (k.user, k.blocked) ≠ (v, t)) :
    Change seq v t H db (Write.apply (.insertBlock ⟨v, t, now⟩) db) := by
  refine .of_requests_eq (localTo_insertBlock (by simp [BlockRow.between])) ?_ hids rfl rfl
  refine { hs with
    blockKeys := Serial.nodup_keys_append hs.blockKeys hb
    blockParties := ?_ }
  intro k hk
  rcases List.mem_append.mp hk with h | h
  · exact hs.blockParties k h
  · obtain rfl : k = ⟨v, t, now⟩ := by simpa using h
    exact ⟨hne, hv, ht⟩

end Writes

/-! ### The pair after the writes -/

/-- An `UPDATE` to a final status takes the rows it matches out of the pending
ones. -/
theorem pendingBetween_setStatus {db : Db} {ids : List RequestId} {st : RequestStatus} {now : Nat}
    (hst : st ≠ .pending) (a b : UserId) :
    (Write.apply (.setStatus ids st now) db).pendingBetween a b =
      (db.pendingBetween a b).filter fun r => decide (r.id ∉ ids) := by
  have key : ∀ rows : List RequestRow,
      ((rows.map fun r => if r.id ∈ ids then r.settle st now else r).filter
        (RequestRow.between a b)).filter RequestRow.isPending =
      ((rows.filter (RequestRow.between a b)).filter RequestRow.isPending).filter
        fun r => decide (r.id ∉ ids) := by
    intro rows
    induction rows with
    | nil => rfl
    | cons r rows ih =>
        have hpend : (st == RequestStatus.pending) = false := by simpa using hst
        by_cases hid : r.id ∈ ids
        · cases hb : r.between a b <;> cases hp : r.isPending <;>
            simp [hid, hb, hp, hpend, ih]
        · cases hb : r.between a b <;> cases hp : r.isPending <;>
            simp [hid, hb, hp, ih]
  exact key db.requests

/-- With a single pending request, settling it leaves none. -/
theorem pendingBetween_settled {db : Db} {a b : UserId} {r : RequestRow} {st : RequestStatus}
    (now : Nat) (hst : st ≠ .pending) (hp : PairOk db a b) (hr : r ∈ db.pendingBetween a b) :
    (Write.apply (.setStatus [r.id] st now) db).pendingBetween a b = [] := by
  rw [pendingBetween_setStatus hst, List.filter_eq_nil_iff]
  intro r' hr'
  obtain rfl : r' = r := by
    have hlen := hp.onePending
    match hl : db.pendingBetween a b with
    | [] => rw [hl] at hr; exact absurd hr List.not_mem_nil
    | [x] =>
        rw [hl] at hr hr'
        rw [List.mem_singleton.mp hr, List.mem_singleton.mp hr']
    | x :: y :: rest => rw [hl] at hlen; simp at hlen
  simp

/-- No pending request: nothing is left to check for the pair. -/
theorem pairOk_of_nil {db : Db} {a b : UserId} (h : db.pendingBetween a b = []) : PairOk db a b :=
  ⟨by simp [h], fun _ => h, fun _ => h⟩

/-! ### What each call commits -/

/-- The row a `create_request` of `v` to `t` inserts. -/
structure NewRequest (σ : State) (H : List Lock) (v t : UserId) (row : RequestRow) : Prop where
  sender : row.sender = v
  recipient : row.recipient = t
  pending : row.isPending = true
  ne : v ≠ t
  senderExists : Db.userExists σ.db v = true
  recipientExists : Db.userExists σ.db t = true
  notFriends : Db.areFriends σ.db v t = false
  notBlocked : Db.blockExists σ.db v t = false
  noPending : Db.pendingBetween σ.db v t = []
  pos : 0 < row.id
  drawn : row.id ≤ σ.seq
  fresh : ∀ r ∈ Db.requests σ.db, r.id ≠ row.id
  locked : Lock.request row.id ∈ H

/-- The pending request `r` of the pair `v`, `t` that a call on `id` settles. -/
structure Pending (σ : State) (v t : UserId) (id : RequestId) (r : RequestRow) : Prop where
  mem : r ∈ Db.pendingBetween σ.db v t
  id : r.id = id

/-- `Commits σ H now c v t ws`: the transaction of the call `c` by `v`, about the
pair `v`, `t`, begun at `now` and holding the locks `H`, makes the writes `ws`
visible in the state `σ`. -/
inductive Commits (σ : State) (H : List Lock) (now : Nat) :
    Call → UserId → UserId → List Write → Prop
  /-- The request was already pending. -/
  | repeated {v t rid msg} : Commits σ H now (.createRequest (some v) rid msg) v t []
  | created {v t rid msg row} : NewRequest σ H v t row →
      Commits σ H now (.createRequest (some v) rid msg) v t [.insertRequest row]
  | accepted {v t id r} : Pending σ v t id r → r.recipient = v → r.sender = t →
      Db.areFriends σ.db v t = false →
      Commits σ H now (.acceptRequest (some v) id) v t
        [.insertFriendship ⟨min v t, max v t, now⟩, .setStatus [id] .accepted now]
  | rejected {v t id r} : Pending σ v t id r → r.recipient = v → r.sender = t →
      Commits σ H now (.rejectRequest (some v) id) v t [.setStatus [id] .rejected now]
  | cancelled {v t id r} : Pending σ v t id r → r.sender = v → r.recipient = t →
      Commits σ H now (.cancelRequest (some v) id) v t [.setStatus [id] .cancelled now]
  | removed {v t ws} :
      ws = (if Db.areFriends σ.db v t then [.deleteFriendship (min v t) (max v t)] else []) →
      Commits σ H now (.removeFriend (some v) t) v t ws
  | blocked {v t ws} : v ≠ t → Db.userExists σ.db v = true → Db.userExists σ.db t = true →
      ws = [] ∨ ws = [.insertBlock ⟨v, t, now⟩] ∧
        (∀ k ∈ Db.blocks σ.db, (k.user, k.blocked) ≠ (v, t)) →
      Commits σ H now (.blockUser (some v) t) v t
        (ws ++ settleRows (Db.pendingBetween σ.db v t) .cancelled now)

/-- The row `p` that `update_preferences` of `v` stores: a column that is not given keeps its
value, which is `everyone` when nothing is stored yet. -/
structure Merges (db : Db) (v : UserId) (messagePolicy friendRequestPolicy : Option String)
    (p : PreferencesRow) : Prop where
  user : p.user = v
  messagePolicy : p.messagePolicy = messagePolicy.getD
    (((db.preferencesOf v).map (·.messagePolicy)).getD "everyone")
  friendRequestPolicy : p.friendRequestPolicy = friendRequestPolicy.getD
    (((db.preferencesOf v).map (·.friendRequestPolicy)).getD "everyone")

/-- The row of the `INSERT ... ON CONFLICT DO UPDATE` is such a row. -/
theorem merges_upsert (db : Db) (v : UserId) (messagePolicy friendRequestPolicy : Option String) :
    let old := (db.preferencesOf v).getD
      { user := v, messagePolicy := "everyone", friendRequestPolicy := "everyone" }
    Merges db v messagePolicy friendRequestPolicy
      { user := v, messagePolicy := messagePolicy.getD old.messagePolicy,
        friendRequestPolicy := friendRequestPolicy.getD old.friendRequestPolicy } := by
  refine ⟨rfl, ?_, ?_⟩
  · cases db.preferencesOf v <;> rfl
  · cases db.preferencesOf v <;> rfl

/-- What an autocommit statement of a call makes visible. -/
inductive Autos (σ : State) : Call → List Write → Prop
  | read {c} : Autos σ c []
  | unblocked {v t} : Autos σ (.unblockUser (some v) t) [.deleteBlock v t]
  | preferred {v m f p} : Merges σ.db v m f p → p.wellFormed = true →
      Db.userExists σ.db p.user = true →
      Autos σ (.updatePreferences (some v) m f) [.setPreferences p]
  | messaged {v t text m} : m.sender = v → m.recipient = t →
      Autos σ (.sendMessage (some v) t text) [.insertMessage m]

section Sound

variable {σ : State} {H : List Lock} {now : Nat} {v t : UserId} {c : Call} {ws : List Write}

theorem Pending.parties {id : RequestId} {r : RequestRow} (h : Pending σ v t id r)
    (hinv : Consistent σ) :
    v ≠ t ∧ Db.userExists σ.db v = true ∧ Db.userExists σ.db t = true := by
  obtain ⟨hmem, hbt, -⟩ := Db.mem_pendingBetween.mp h.mem
  obtain ⟨hne, hs, hr⟩ := hinv.schema.requestParties r hmem
  rcases RequestRow.between_iff.mp hbt with ⟨rfl, rfl⟩ | ⟨rfl, rfl⟩
  · exact ⟨hne, hs, hr⟩
  · exact ⟨hne.symm, hr, hs⟩

/-- The rows with the id of a pending request of the pair are that request. -/
theorem Pending.only {id : RequestId} {r : RequestRow} (h : Pending σ v t id r)
    (hinv : Consistent σ) : ∀ r' ∈ Db.requests σ.db, r'.id = id → r' = r := by
  intro r' hr' hid
  exact List.inj_on_of_nodup_map hinv.schema.requestKeys hr'
    (Db.mem_pendingBetween.mp h.mem).1 (hid.trans h.id.symm)

/-- Settling one pending request is a change of its pair. -/
theorem Pending.change {id : RequestId} {r : RequestRow} (h : Pending σ v t id r)
    (hinv : Consistent σ) (st : RequestStatus) :
    Change σ.seq v t H σ.db (Write.apply (.setStatus [id] st now) σ.db) := by
  refine change_setStatus hinv.schema hinv.ids fun r' hr' hid => ?_
  obtain rfl := h.only hinv r' hr' (List.mem_singleton.mp hid)
  exact (Db.mem_pendingBetween.mp h.mem).2

theorem Pending.settled {id : RequestId} {r : RequestRow} (h : Pending σ v t id r)
    (hinv : Consistent σ) (now : Nat) {st : RequestStatus} (hst : st ≠ .pending) :
    (Write.apply (.setStatus [id] st now) σ.db).pendingBetween v t = [] := by
  have hsettled := pendingBetween_settled now hst (hinv.pairs v t) h.mem
  rwa [h.id] at hsettled

/-- Settling requests blocks nobody and unblocks nobody. -/
theorem blocks_settleRows (rows : List RequestRow) (st : RequestStatus) (now : Nat) (db : Db) :
    Db.blocks (engine.applyAll (settleRows rows st now) db) = db.blocks := by
  unfold settleRows
  split
  · rfl
  · rfl

/-- Cancelling the pending requests of the pair is a change of the pair that
leaves none. -/
theorem change_settleRows (v t : UserId) (now : Nat) {db : Db} (hs : SchemaOk db)
    (hids : ∀ r ∈ db.requests, 0 < r.id ∧ r.id ≤ σ.seq) :
    Change σ.seq v t H db (engine.applyAll (settleRows (db.pendingBetween v t) .cancelled now) db) ∧
      Db.pendingBetween
        (engine.applyAll (settleRows (db.pendingBetween v t) .cancelled now) db) v t = [] := by
  unfold settleRows
  split
  · rename_i hnil
    exact ⟨⟨.refl v t db, .refl db, hs, hids, fun id _ => .refl (.request id) db⟩,
      List.isEmpty_iff.mp hnil⟩
  · constructor
    · refine change_setStatus hs hids fun r hr hid => ?_
      obtain ⟨r', hr', hid'⟩ := List.mem_map.mp hid
      obtain ⟨hmem, hbt, hp⟩ := Db.mem_pendingBetween.mp hr'
      obtain rfl := List.inj_on_of_nodup_map hs.requestKeys hmem hr hid'
      exact ⟨hbt, hp⟩
    · change (Write.apply (.setStatus ((db.pendingBetween v t).map (·.id)) .cancelled now)
        db).pendingBetween v t = []
      rw [pendingBetween_setStatus (by decide), List.filter_eq_nil_iff]
      intro r hr
      simp only [decide_not, Bool.not_eq_true', decide_eq_false_iff_not, not_not]
      exact List.mem_map_of_mem hr

/-- **A committed transaction is one the others expect**: it keeps the
invariant, loses no row, and touches only what its locks protect. -/
theorem Commits.sound (h : Commits σ H now c v t ws) (hH : pairKey v t ∈ H)
    (hinv : Consistent σ) :
    Consistent (σ.write ws) ∧ discipline.Base σ (σ.write ws) ∧
      ∀ l, l ∉ H → discipline.Keeps l σ (σ.write ws) := by
  have hpair := hinv.pairs v t
  cases h with
  | repeated => exact Change.sound [] (.refl hinv) hH hpair hinv
  | @created _ _ _ _ row hn =>
      have hbt : row.between v t = true := by simp [RequestRow.between, hn.sender, hn.recipient]
      refine Change.sound [.insertRequest row]
        (change_insertRequest hinv.schema hinv.ids hbt
          (by rw [hn.sender, hn.recipient]; exact hn.ne)
          (by rw [hn.sender]; exact hn.senderExists)
          (by rw [hn.recipient]; exact hn.recipientExists)
          hn.pos hn.drawn hn.fresh hn.locked) hH ?_ hinv
      have hone : Db.pendingBetween (engine.applyAll [.insertRequest row] σ.db) v t = [row] := by
        change (((Db.requests σ.db ++ [row]).filter (RequestRow.between v t)).filter
          RequestRow.isPending) = [row]
        have hnil : ((Db.requests σ.db).filter (RequestRow.between v t)).filter
            RequestRow.isPending = [] := hn.noPending
        rw [List.filter_append, List.filter_append, hnil]
        simp [hbt, hn.pending]
      refine ⟨by rw [hone]; rfl, fun hf => ?_, fun hb => ?_⟩
      · exact absurd (hn.notFriends.symm.trans hf) (by decide)
      · exact absurd (hn.notBlocked.symm.trans hb) (by decide)
  | @accepted _ _ id r hp hrec hsen hf =>
      obtain ⟨hne, hv, ht⟩ := hp.parties hinv
      have hfriend : Change σ.seq v t H σ.db
          (Write.apply (.insertFriendship ⟨min v t, max v t, now⟩) σ.db) :=
        change_insertFriendship hinv.schema hinv.ids hne hv ht hf
      refine Change.sound [.insertFriendship ⟨min v t, max v t, now⟩,
        .setStatus [id] .accepted now] (hfriend.trans ?_) hH ?_ hinv
      · -- the friendship does not touch the requests
        refine change_setStatus hfriend.schema hfriend.ids fun r' hr' hid => ?_
        obtain rfl := hp.only hinv r' hr' (List.mem_singleton.mp hid)
        exact (Db.mem_pendingBetween.mp hp.mem).2
      · exact pairOk_of_nil (hp.settled hinv now (show RequestStatus.accepted ≠ .pending by decide))
  | @rejected _ _ id r hp hrec hsen =>
      exact Change.sound [.setStatus [id] .rejected now] (hp.change hinv .rejected) hH
        (pairOk_of_nil (hp.settled hinv now (by decide))) hinv
  | @cancelled _ _ id r hp hsen hrec =>
      exact Change.sound [.setStatus [id] .cancelled now] (hp.change hinv .cancelled) hH
        (pairOk_of_nil (hp.settled hinv now (by decide))) hinv
  | removed hws =>
      subst hws
      split
      · refine Change.sound [.deleteFriendship (min v t) (max v t)]
          (change_deleteFriendship hinv.schema hinv.ids) hH ?_ hinv
        refine ⟨hpair.onePending, fun hf => hpair.friends ?_, hpair.blocked⟩
        obtain ⟨f, hf, hfvt⟩ := List.any_eq_true.mp hf
        exact List.any_eq_true.mpr ⟨f, List.mem_of_mem_filter hf, hfvt⟩
      · exact Change.sound [] (.refl hinv) hH hpair hinv
  | @blocked _ _ ws hne hv ht hws =>
      have hblock : Change σ.seq v t H σ.db (engine.applyAll ws σ.db) ∧
          (engine.applyAll ws σ.db : Db).pendingBetween v t = Db.pendingBetween σ.db v t := by
        rcases hws with rfl | ⟨rfl, hnew⟩
        · exact ⟨.refl hinv, rfl⟩
        · exact ⟨change_insertBlock hinv.schema hinv.ids hne hv ht hnew, rfl⟩
      obtain ⟨hchange, hsame⟩ := hblock
      obtain ⟨hcancel, hnil⟩ := change_settleRows (H := H) v t now
        hchange.schema hchange.ids
      rw [hsame] at hcancel hnil
      refine Change.sound _ ?_ hH ?_ hinv
      · rw [engine.applyAll_append]
        exact hchange.trans hcancel
      · rw [engine.applyAll_append]
        exact pairOk_of_nil hnil

/-- **An autocommit statement is one the others expect**, and it touches nothing
that a lock protects. -/
theorem Autos.sound (h : Autos σ c ws) (hinv : Consistent σ) :
    Consistent (σ.write ws) ∧ discipline.Base σ (σ.write ws) ∧
      ∀ l, discipline.Keeps l σ (σ.write ws) := by
  cases h with
  | read => exact ⟨hinv, discipline.base_refl σ, fun l => discipline.keeps_refl l σ⟩
  | @unblocked v t =>
      -- blocks are only removed, which no rule about them minds
      have hblocks : ∀ k ∈ Db.blocks (σ.write [.deleteBlock v t]).db, k ∈ Db.blocks σ.db :=
        fun k hk => List.mem_of_mem_filter hk
      refine ⟨⟨?_, hinv.ids, fun a b => ?_⟩, ⟨le_rfl, rfl, fun r hr => ⟨r, hr, .refl r⟩⟩, ?_⟩
      · exact { hinv.schema with
          blockKeys := hinv.schema.blockKeys.sublist (List.filter_sublist.map _)
          blockParties := fun k hk => hinv.schema.blockParties k (hblocks k hk) }
      · refine ⟨(hinv.pairs a b).onePending, (hinv.pairs a b).friends, fun hb => ?_⟩
        obtain ⟨k, hk, hkab⟩ := List.any_eq_true.mp hb
        exact (hinv.pairs a b).blocked (List.any_eq_true.mpr ⟨k, hblocks k hk, hkab⟩)
      · intro l
        cases l with
        | pair low high => exact fun _ => ⟨rfl, rfl, fun k hk _ => hblocks k hk⟩
        | request id => exact fun r hr hid => ⟨r, hr, hid, rfl, rfl⟩
  | @preferred v m f p _ hwf hu =>
      have hpairs (a b : UserId) := hinv.pairs a b
      refine ⟨⟨?_, hinv.ids, fun a b => ⟨(hpairs a b).1, (hpairs a b).2, (hpairs a b).3⟩⟩,
        ⟨le_rfl, rfl, fun r hr => ⟨r, hr, .refl r⟩⟩, fun l => ?_⟩
      -- the row of the caller is replaced by the merged one
      · refine { hinv.schema with
          preferencesKeys := Serial.nodup_keys_append
            (hinv.schema.preferencesKeys.sublist (List.filter_sublist.map _)) ?_
          preferencesChecks := ?_ }
        · intro q hq
          simpa using (List.mem_filter.mp hq).2
        · intro q hq
          rcases List.mem_append.mp hq with h | h
          · exact hinv.schema.preferencesChecks q (List.mem_of_mem_filter h)
          · obtain rfl : q = p := by simpa using h
            exact ⟨hwf, hu⟩
      · cases l with
        | pair low high => exact fun _ => ⟨rfl, rfl, fun k hk _ => hk⟩
        | request id => exact fun r hr hid => ⟨r, hr, hid, rfl, rfl⟩
  | messaged hs ht =>
      refine ⟨⟨{ hinv.schema with }, hinv.ids,
          fun a b => ⟨(hinv.pairs a b).1, (hinv.pairs a b).2, (hinv.pairs a b).3⟩⟩,
        ⟨le_rfl, rfl, fun r hr => ⟨r, hr, .refl r⟩⟩, fun l => ?_⟩
      cases l with
      | pair low high => exact fun _ => ⟨rfl, rfl, fun k hk _ => hk⟩
      | request id => exact fun r hr hid => ⟨r, hr, hid, rfl, rfl⟩

end Sound

end DevbitBackend.Social
