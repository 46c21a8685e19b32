import DevbitBackend.Social.Failures
import DevbitBackend.Social.Friendship
import DevbitBackend.Social.Lifecycle
import DevbitBackend.Social.Listings

/-!
# Social.Blocking

What a block does to a pair of users. While it is in force no request between the
two is sent or accepted and no message is permitted, in either direction. The
friendship stays: over a whole `BlockPeriod`, from the call that puts the first
block on the pair to the call that removes the last one, the two lose it by
`remove_friend` only and cannot become friends (`friends_over_blockPeriod`).
-/

namespace DevbitBackend.Social

open Txn Transition

/-! ### Calls that meet a block -/

section Alone

variable {σ : State} {v t : UserId}

/-- A lone call that changes nothing and does not succeed. -/
def Refused (σ : State) (out : State × Answer) : Prop := out.1 = σ ∧ out.2.isOk = false

theorem refused_fail (σ : State) (e : SocialError) : Refused σ (σ, .error e) := ⟨rfl, rfl⟩

/-- The two sides of a block are different users who exist. -/
theorem SchemaOk.blockParties_of_exists {db : Db} (hs : SchemaOk db)
    (hb : db.blockExists v t = true) :
    v ≠ t ∧ db.userExists v = true ∧ db.userExists t = true := by
  obtain ⟨k, hk, hvt⟩ := List.any_eq_true.mp hb
  obtain ⟨hne, hu, hbl⟩ := hs.blockParties k hk
  rcases BlockRow.between_iff.mp hvt with ⟨rfl, rfl⟩ | ⟨rfl, rfl⟩
  · exact ⟨hne, hu, hbl⟩
  · exact ⟨hne.symm, hbl, hu⟩

/-- A lone call that answers 403 with this message, unless a database call fails, and
changes nothing. -/
def Forbids (σ : State) (fails : Nat → Bool) (message : String) (out : State × Answer) : Prop :=
  out.1 = σ ∧ (out.2 = .error (.forbidden message) ∨
    out.2 = .error .internal ∧ ∃ n, fails n = true)

/-- `create_request` with a valid payload. -/
theorem createRequest_blocked (env : Env) (hs : SchemaOk σ.db)
    (hb : Db.blockExists σ.db v t = true) {rid : Option Int} {msg : Option String} {text : String}
    (hpos : positiveId (rid.getD 0) "recipientId" = .ok t)
    (hmsg : validateOptionalMessage msg maxFriendRequestMessageChars = .ok text)
    (fails : Nat → Bool) (now : Nat) :
    Forbids σ fails "当前关系不允许发送好友申请"
      ((createRequest env (some v) rid msg).solo (.error .internal) fails now 0 none σ) := by
  obtain ⟨hne, hv, ht⟩ := hs.blockParties_of_exists hb
  have hfail : ∀ n, FirstFailure fails n →
      Forbids σ fails "当前关系不允许发送好友申请" (σ, .error .internal) :=
    fun n h => ⟨rfl, .inr ⟨rfl, n, h.1⟩⟩
  refine (show Ends (Forbids σ fails "当前关系不允许发送好友申请") (.error .internal) fails now
    (createRequest env (some v) rid msg) 0 none σ from ?_) (noneBefore_zero fails)
  refine .query_read (fun db => Db.userExists db v) (fun _ _ _ => rfl) rfl (hfail 0) ?_
  simp only [hv, hpos, hmsg, orFail, Bool.not_true, Bool.false_eq_true, if_false, if_neg hne.symm]
  refine .begin (hfail _) (.lock (hfail _) ?_)
  refine .exec_read (fun db => Db.userExists db t) (fun _ _ _ => rfl) rfl (hfail _) ?_
  simp only [ht, Bool.not_true, Bool.false_eq_true, if_false]
  refine .exec_read (fun db => Db.blockExists db v t) (fun _ _ _ => rfl) rfl (hfail _) ?_
  simp only [hb, if_true]
  exact .done fun _ => ⟨rfl, .inl rfl⟩

/-- `accept_request` of a request that is not pending. -/
theorem acceptRequest_notPending (env : Env) (v : UserId) {r : RequestRow}
    (hr : Db.request σ.db r.id = some r) (hp : r.isPending = false) (fails : Nat → Bool)
    (now : Nat) :
    Refused σ ((acceptRequest env (some v) r.id).solo (.error .internal) fails now 0 none σ) := by
  have hst : r.status ≠ .pending := by simpa [RequestRow.isPending] using hp
  have hfail : ∀ n, FirstFailure fails n → Refused σ (σ, .error .internal) :=
    fun _ _ => refused_fail σ _
  refine (show Ends (Refused σ) (.error .internal) fails now (acceptRequest env (some v) r.id) 0
    none σ from ?_) (noneBefore_zero fails)
  refine .query_read (fun db => Db.userExists db v) (fun _ _ _ => rfl) rfl (hfail 0) ?_
  dsimp only
  split
  · exact .done fun _ => refused_fail σ _
  unfold validatePositiveI64
  split
  · exact .done fun _ => refused_fail σ _
  refine .begin (hfail _) ?_
  refine .exec_read (fun db => (Db.request db r.id).map fun r => (r.sender, r.recipient))
    (fun _ _ _ => rfl) rfl (hfail _) ?_
  simp only [hr, Option.map_some]
  -- the status is read again under the lock, and then the call ends
  refine .lock (hfail _) ?_
  refine .exec_read (fun db => (Db.request db r.id).map fun r => (r.sender, r.recipient, r.status))
    (fun _ _ _ => rfl) rfl (hfail _) ?_
  simp only [hr, Option.map_some]
  split
  · exact .done fun _ => refused_fail σ _
  · exact .done fun _ => refused_fail σ _

/-- No request across a block is pending. -/
theorem notPending_of_blocked (hinv : Consistent σ) (hb : Db.blockExists σ.db v t = true)
    {r : RequestRow} (hr : r ∈ Db.requests σ.db) (hbt : r.between v t = true) :
    r.isPending = false := by
  have hnil := (hinv.pairs v t).blocked hb
  rw [Bool.eq_false_iff]
  intro hp
  have hmem : r ∈ Db.pendingBetween σ.db v t := Db.mem_pendingBetween.mpr ⟨hr, hbt, hp⟩
  rw [hnil] at hmem
  cases hmem

theorem messagePermission_blocked {db : Db} (hs : SchemaOk db) (hb : db.blockExists v t = true) :
    db.messagePermission v t = .blocked := by
  rw [Db.messagePermission, if_neg (hs.blockParties_of_exists hb).1, Db.permissionRow, hb]
  rfl

end Alone

/-! ### Friendship while a block is in force -/

section Period

variable {ι : Type} {calls : ι → Call} {a b : UserId}

/-- The entry records a committed `remove_friend` between `a` and `b`. -/
def unfriends (calls : ι → Call) (a b : UserId) : Entry engine ι → Bool
  | .commit i _ _ _ =>
      match calls i with
      | .removeFriend (some v) t => decide (SamePair v t a b)
      | _ => false
  | _ => false

/-- What `remove_friend` writes ends the friendship of its pair, and of no other. -/
theorem areFriends_removed (db : Db) (v t : UserId) :
    Db.areFriends (engine.applyAll (if db.areFriends v t then
        [.deleteFriendship (min v t) (max v t)] else []) db) a b =
      (db.areFriends a b && !decide (SamePair v t a b)) := by
  cases hf : db.areFriends v t with
  | true => exact areFriends_delete db v t
  | false =>
      change db.areFriends a b = _
      by_cases hs : SamePair v t a b
      · simp [hs, hs.areFriends.trans hf]
      · simp [hs]

/-- A friendship is gained only by an accept, which takes a pending request, so
never while a block is in force; it is lost by `remove_friend`. -/
theorem Commits.friends {σ : State} {H : List Lock} {now : Nat} {i : ι} {v t : UserId}
    {ws : List Write} (h : Commits σ H now (calls i) v t ws) (hinv : Consistent σ)
    (hblock : Db.blockExists σ.db a b = true ∨ Db.blockExists (engine.applyAll ws σ.db) a b = true)
    (start : Nat) (notes : List Event) :
    Db.areFriends (engine.applyAll ws σ.db) a b = true ↔
      Db.areFriends σ.db a b = true ∧ unfriends calls a b (.commit i start ws notes) = false := by
  have hentry : unfriends calls a b (.commit i start ws notes) =
      match calls i with
      | .removeFriend (some v) t => decide (SamePair v t a b)
      | _ => false := rfl
  rw [hentry]
  generalize calls i = c at h
  cases h with
  | repeated => exact (and_iff_left rfl).symm
  | created _ => exact (and_iff_left rfl).symm
  | @accepted _ _ id r hp _ _ hf =>
      -- an accept leaves the blocks as they are, so the block was there before
      have hkeep : Db.blockExists σ.db a b = true := hblock.elim (fun h => h) fun h => h
      -- a blocked pair has nothing pending, so this is another pair
      have hother : ¬ SamePair v t a b := by
        intro hs
        have hnil := (hinv.pairs v t).blocked (hs.blockExists ▸ hkeep)
        have hmem := hp.mem
        rw [hnil] at hmem
        cases hmem
      have hsame : Db.areFriends (Write.apply (.insertFriendship ⟨min v t, max v t, now⟩) σ.db)
          a b = Db.areFriends σ.db a b := by
        simp [areFriends_insert, hother]
      exact (iff_of_eq (congrArg (· = true) hsame)).trans (and_iff_left rfl).symm
  | rejected _ _ _ => exact (and_iff_left rfl).symm
  | cancelled _ _ _ => exact (and_iff_left rfl).symm
  | removed hws =>
      subst hws
      rw [areFriends_removed, Bool.and_eq_true, Bool.not_eq_true']
  | @blocked _ _ ws _ _ _ hws =>
      -- `block_user` writes blocks and requests only
      have hsame : Db.areFriends (engine.applyAll (ws ++ settleRows (Db.pendingBetween σ.db v t)
          .cancelled now) σ.db) a b = Db.areFriends σ.db a b := by
        rw [engine.applyAll_append]
        unfold settleRows
        rcases hws with rfl | ⟨rfl, -⟩ <;> split <;> rfl
      simp [hsame]

theorem Autos.friends {σ : State} {c : Call} {ws : List Write} (h : Autos σ c ws) :
    Db.areFriends (engine.applyAll ws σ.db) a b = Db.areFriends σ.db a b := by
  cases h <;> rfl

/-- A committed transaction removes no block. -/
theorem Commits.blocks {σ : State} {H : List Lock} {now : Nat} {c : Call} {v t : UserId}
    {ws : List Write} (h : Commits σ H now c v t ws) (hb : Db.blockExists σ.db a b = true) :
    Db.blockExists (engine.applyAll ws σ.db) a b = true := by
  obtain ⟨k, hk, hab⟩ := List.any_eq_true.mp hb
  refine List.any_eq_true.mpr ⟨k, ?_, hab⟩
  cases h with
  | removed hws =>
      subst hws
      split <;> exact hk
  | blocked _ _ _ hws =>
      rw [engine.applyAll_append]
      unfold settleRows
      rcases hws with rfl | ⟨rfl, -⟩ <;> split <;>
        first | exact hk | exact List.mem_append_left _ hk
  | _ => exact hk

variable [DecidableEq ι] {poolSize : Nat} {faulty : Bool} {σ₀ : State} {s s' : Server ι}
  {l : Label ι}

/-- One step next to a block: the two stay friends unless the step removes the friendship,
and become no friends. -/
theorem friends_of_step (hinv : ServerInv poolSize faulty calls σ₀ s)
    (hstep : serve poolSize faulty calls l s = some s')
    (hblock : Db.blockExists s.db a b = true ∨ Db.blockExists s'.db a b = true) :
    ∃ es, s'.log = s.log ++ es ∧ (Db.areFriends s'.db a b = true ↔
      Db.areFriends s.db a b = true ∧ ∀ e ∈ es, unfriends calls a b e = false) := by
  rcases (move_of_step hstep).log with ⟨i, start, buf, notes, k, hc, hsnap, hlog⟩ | ⟨es, hlog, hes⟩
  · obtain ⟨H, v, t, -, hcommit⟩ := hinv.commits hc
    have hdb : s'.db = engine.applyAll buf s.db := congrArg Snap.db hsnap
    refine ⟨_, hlog, ?_⟩
    rw [hdb] at hblock ⊢
    rw [List.forall_mem_singleton]
    exact hcommit.friends hinv.inv hblock start notes
  · -- nothing is committed
    have hnone : ∀ e ∈ es, unfriends calls a b e = false := by
      intro e he
      cases e with
      | commit j start ws notes =>
          have hj := hes _ he j
          simp [Entry.commitOf] at hj
      | _ => rfl
    have hsame : Db.areFriends s'.db a b = Db.areFriends s.db a b := by
      cases hinv.effect hstep with
      | silent hdb _ => rw [hdb]
      | @commit i start H ws notes k _ _ _ hlog' =>
          have hes' := List.append_cancel_left (hlog.symm.trans hlog')
          have hi := hes (.commit i start ws notes) (by simp [hes']) i
          simp [Entry.commitOf] at hi
      | auto _ _ hc hsnap _ =>
          rw [show s'.db = _ from congrArg Snap.db hsnap]
          exact hc.2.friends
    rw [hsame]
    exact ⟨es, hlog, (and_iff_left hnone).symm⟩

/-- After a step from a state with a block no request of the pair is pending. -/
theorem pending_of_step (hinv : ServerInv poolSize faulty calls σ₀ s)
    (hstep : serve poolSize faulty calls l s = some s') (hb : Db.blockExists s.db a b = true) :
    Db.pendingBetween s'.db a b = [] := by
  have hinv' : ServerInv poolSize faulty calls σ₀ s' := sysInv_step hinv hstep
  have hnil := (hinv.inv.pairs a b).blocked hb
  cases hinv.effect hstep with
  | silent hdb _ => rwa [hdb]
  | commit _ hc hsnap _ =>
      obtain ⟨v, t, -, hcommit⟩ := hc
      refine (hinv'.inv.pairs a b).blocked ?_
      rw [show s'.snap.db = _ from congrArg Snap.db hsnap]
      exact hcommit.blocks hb
  | auto _ _ hc hsnap _ =>
      have hreq : Db.requests s'.db = Db.requests s.db := by
        rw [show s'.db = _ from congrArg Snap.db hsnap]
        exact hc.2.requests
      rw [Db.pendingBetween, Db.requestsBetween, hreq]
      exact hnil

/-- A run from the call that puts the first block on the pair to the call that
removes the last one, with a block in force in between. -/
structure BlockPeriod (poolSize : Nat) (faulty : Bool) (calls : ι → Call) (a b : UserId)
    (s₀ s₁ s₂ s₃ : Server ι) : Prop where
  before : Db.blockExists s₀.db a b = false
  blocks : ∃ l, serve poolSize faulty calls l s₀ = some s₁
  blocked : Db.blockExists s₁.db a b = true
  runs : ReachableBy (fun _ s => Db.blockExists s.db a b = true) (serve poolSize faulty calls) s₁ s₂
  stillBlocked : Db.blockExists s₂.db a b = true
  unblocks : ∃ l, serve poolSize faulty calls l s₂ = some s₃
  after : Db.blockExists s₃.db a b = false

/-- The friendship since `s₀` is what it was, less what was removed. -/
def SameFriends (calls : ι → Call) (a b : UserId) (s₀ s : Server ι) : Prop :=
  ∃ es, s.log = s₀.log ++ es ∧ (Db.areFriends s.db a b = true ↔
    Db.areFriends s₀.db a b = true ∧ ∀ e ∈ es, unfriends calls a b e = false)

omit [DecidableEq ι] in
theorem SameFriends.trans {s₀ s₁ s₂ : Server ι} (h : SameFriends calls a b s₀ s₁)
    (h' : SameFriends calls a b s₁ s₂) : SameFriends calls a b s₀ s₂ := by
  obtain ⟨es, hlog, hfr⟩ := h
  obtain ⟨es', hlog', hfr'⟩ := h'
  refine ⟨es ++ es', by rw [hlog', hlog, List.append_assoc], ?_⟩
  rw [hfr', hfr, List.forall_mem_append, and_assoc]

/-- **A block leaves the friendship as it is.** Over a block period the two lose
their friendship by `remove_friend` only, and at its end nothing is pending. -/
theorem friends_over_blockPeriod {s₀ s₁ s₂ s₃ : Server ι}
    (hinv : ServerInv poolSize faulty calls σ₀ s₀)
    (h : BlockPeriod poolSize faulty calls a b s₀ s₁ s₂ s₃) :
    SameFriends calls a b s₀ s₃ ∧ Db.pendingBetween s₃.db a b = [] := by
  obtain ⟨l, hfirst⟩ := h.blocks
  obtain ⟨l', hlast⟩ := h.unblocks
  have hbegin : SameFriends calls a b s₀ s₁ := friends_of_step hinv hfirst (.inr h.blocked)
  have hmid : ServerInv poolSize faulty calls σ₀ s₂ ∧ SameFriends calls a b s₀ s₂ :=
    h.runs.invariant
      (I := fun s => ServerInv poolSize faulty calls σ₀ s ∧ SameFriends calls a b s₀ s)
      (fun l s s' hI hb hstep => ⟨sysInv_step hI.1 hstep,
        hI.2.trans (friends_of_step hI.1 hstep (.inl hb))⟩) ⟨sysInv_step hinv hfirst, hbegin⟩
  exact ⟨hmid.2.trans (friends_of_step hmid.1 hlast (.inl h.stillBlocked)),
    pending_of_step hmid.1 hlast h.stillBlocked⟩

end Period

end DevbitBackend.Social
