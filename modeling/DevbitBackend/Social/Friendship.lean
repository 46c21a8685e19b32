import DevbitBackend.Social.Runs

/-!
# Social.Friendship

Friendship needs consent, and no consent is lost: in every run the accepted
requests of a pair are as many as its committed removals, plus one while the two
are friends (`accepted_eq_removed`). The law is an induction over the recorded
transactions, each taken as the atomic change `Commits` says it is.
-/

namespace DevbitBackend.Social

open Txn Transition

/-- The accepted requests between `a` and `b`. -/
def Db.acceptedBetween (db : Db) (a b : UserId) : Nat :=
  (db.requestsBetween a b).countP fun r => r.status == .accepted

/-- 1 while `a` and `b` are friends. -/
def Db.friendCount (db : Db) (a b : UserId) : Nat := (db.areFriends a b).toNat

/-- The entry records a committed `remove_friend` that deleted the friendship of
`a` and `b`. -/
def removes {ι : Type} (calls : ι → Call) (a b : UserId) : Entry engine ι → Bool
  | .commit i _ ws _ =>
      match calls i with
      | .removeFriend _ _ => ws.contains (Write.deleteFriendship (min a b) (max a b))
      | _ => false
  | _ => false

/-- How many committed removals deleted the friendship of `a` and `b`. -/
def removals {ι : Type} (calls : ι → Call) (log : List (Entry engine ι)) (a b : UserId) : Nat :=
  log.countP (removes calls a b)

/-! ### Counting accepted requests -/

section Counting

variable {db : Db} {a b : UserId}

theorem acceptedBetween_eq (db : Db) (a b : UserId) :
    db.acceptedBetween a b =
      db.requests.countP fun r => r.status == .accepted && r.between a b := by
  rw [Db.acceptedBetween, Db.requestsBetween, List.countP_filter]

/-- A new request is not an accepted one. -/
theorem acceptedBetween_insertRequest {row : RequestRow} (hp : row.isPending = true) :
    (Write.apply (.insertRequest row) db).acceptedBetween a b = db.acceptedBetween a b := by
  have hst : row.status = .pending := by simpa [RequestRow.isPending] using hp
  rw [acceptedBetween_eq, acceptedBetween_eq]
  simp [Write.apply, hst]

/-- Settling pending requests otherwise than by accepting them. -/
theorem acceptedBetween_setStatus (db : Db) (ids : List RequestId) (now : Nat)
    {st : RequestStatus} (hst : st ≠ .accepted)
    (h : ∀ r ∈ db.requests, r.id ∈ ids → r.isPending = true) :
    (Write.apply (.setStatus ids st now) db).acceptedBetween a b = db.acceptedBetween a b := by
  rw [acceptedBetween_eq, acceptedBetween_eq]
  simp only [Write.apply, List.countP_map]
  refine List.countP_congr fun r hr => ?_
  by_cases hid : r.id ∈ ids
  · have hpend : r.status = .pending := by simpa [RequestRow.isPending] using h r hr hid
    simp [hid, hpend, RequestRow.settle, hst]
  · simp [hid]

/-- Counting two exclusive properties together. -/
theorem countP_or {α : Type} {p q : α → Bool} {xs : List α}
    (h : ∀ x ∈ xs, p x = true → q x = false) :
    xs.countP (fun x => p x || q x) = xs.countP p + xs.countP q := by
  induction xs with
  | nil => rfl
  | cons x xs ih =>
      have ih' := ih fun y hy => h y (List.mem_cons_of_mem _ hy)
      have hx := h x List.mem_cons_self
      cases hp : p x <;> cases hq : q x <;> simp_all <;> omega

/-- Accepting one pending request of the pair counts it. -/
theorem acceptedBetween_accept (db : Db) (now : Nat) {id : RequestId} {r : RequestRow}
    (hfilter : db.requests.filter (·.id == id) = [r]) (hp : r.isPending = true) :
    (Write.apply (.setStatus [id] .accepted now) db).acceptedBetween a b =
      db.acceptedBetween a b + (r.between a b).toNat := by
  have hpending : ∀ x ∈ db.requests, x.id = id → x.status = .pending := by
    intro x hx hid
    have hmem : x ∈ db.requests.filter (·.id == id) := List.mem_filter.mpr ⟨hx, by simp [hid]⟩
    rw [hfilter, List.mem_singleton] at hmem
    rw [hmem]
    simpa [RequestRow.isPending] using hp
  -- the row is the only one of its id, so it counts at most once
  have hone : db.requests.countP (fun x => x.between a b && x.id == id) =
      (r.between a b).toNat := by
    rw [← List.countP_filter, hfilter]
    cases hb : r.between a b <;> simp [hb]
  rw [acceptedBetween_eq, acceptedBetween_eq]
  calc (db.requests.map fun x => if x.id ∈ [id] then x.settle .accepted now else x).countP
        (fun x => x.status == .accepted && x.between a b)
      = db.requests.countP (fun x => (x.status == .accepted && x.between a b) ||
          (x.between a b && x.id == id)) := by
        rw [List.countP_map]
        refine List.countP_congr fun x hx => ?_
        by_cases hid : x.id = id
        · simp [hid, hpending x hx hid, RequestRow.settle, RequestRow.between]
        · simp [hid]
    _ = db.requests.countP (fun x => x.status == .accepted && x.between a b) +
          db.requests.countP (fun x => x.between a b && x.id == id) := by
        refine countP_or fun x hx hacc => ?_
        by_cases hid : x.id = id
        · simp [hpending x hx hid] at hacc
        · simp [hid]
    _ = _ := by rw [hone]

/-! ### Counting friendships -/

/-- A new friendship makes friends of its own two users. -/
theorem areFriends_insert (db : Db) (v t : UserId) (now : Nat) :
    (Write.apply (.insertFriendship ⟨min v t, max v t, now⟩) db).areFriends a b =
      (db.areFriends a b || decide (SamePair v t a b)) := by
  by_cases hs : SamePair v t a b
  · obtain ⟨hmin, hmax⟩ := Lock.pair.inj (pairKey_eq_iff.mpr hs)
    simp [Write.apply, Db.areFriends, FriendshipRow.isOf, hmin, hmax, hs]
  · have hlocal : LocalTo v t db (Write.apply (.insertFriendship ⟨min v t, max v t, now⟩) db) :=
      localTo_insertFriendship rfl rfl
    simp [hlocal.friends a b hs, hs]

/-- A deleted friendship leaves everybody else's. -/
theorem areFriends_delete (db : Db) (v t : UserId) :
    (Write.apply (.deleteFriendship (min v t) (max v t)) db).areFriends a b =
      (db.areFriends a b && !decide (SamePair v t a b)) := by
  by_cases hs : SamePair v t a b
  · obtain ⟨hmin, hmax⟩ := Lock.pair.inj (pairKey_eq_iff.mpr hs)
    have hgone : (Write.apply (.deleteFriendship (min v t) (max v t)) db).areFriends a b =
        false := by
      rw [Db.areFriends, List.any_eq_false]
      intro f hmem hof
      have hnot := (List.mem_filter.mp hmem).2
      simp only [FriendshipRow.isOf, ← hmin, ← hmax] at hof
      rw [hof] at hnot
      cases hnot
    simp [hgone, hs]
  · simp [(localTo_deleteFriendship v t db).friends a b hs, hs]

theorem friendCount_insert (db : Db) (v t : UserId) (now : Nat) (hf : db.areFriends v t = false) :
    (Write.apply (.insertFriendship ⟨min v t, max v t, now⟩) db).friendCount a b =
      db.friendCount a b + (decide (SamePair v t a b)).toNat := by
  rw [Db.friendCount, Db.friendCount, areFriends_insert]
  by_cases hs : SamePair v t a b
  · have hab : db.areFriends a b = false := hs.areFriends.trans hf
    simp [hab, hs]
  · simp [hs]

theorem friendCount_delete (db : Db) (v t : UserId) (hf : db.areFriends v t = true) :
    (Write.apply (.deleteFriendship (min v t) (max v t)) db).friendCount a b +
      (decide (SamePair v t a b)).toNat = db.friendCount a b := by
  rw [Db.friendCount, Db.friendCount, areFriends_delete]
  by_cases hs : SamePair v t a b
  · have hab : db.areFriends a b = true := hs.areFriends.trans hf
    simp [hab, hs]
  · simp [hs]

end Counting

/-! ### The conservation law -/

section Conservation

variable {ι : Type} {calls : ι → Call}

/-- Settling one pending request otherwise than by accepting it. -/
theorem acceptedBetween_settle {σ : State} {v t a b : UserId} {id : RequestId} {r : RequestRow}
    (hp : Pending σ v t id r) (hinv : Consistent σ) (now : Nat) {st : RequestStatus}
    (hst : st ≠ .accepted) :
    Db.acceptedBetween (Write.apply (.setStatus [id] st now) σ.db) a b =
      Db.acceptedBetween σ.db a b := by
  refine acceptedBetween_setStatus σ.db [id] now hst fun r' hr' hid => ?_
  obtain rfl := hp.only hinv r' hr' (List.mem_singleton.mp hid)
  exact (Db.mem_pendingBetween.mp hp.mem).2.2

/-- Cancelling what is pending between two users, after writes that touched no
request. -/
theorem acceptedBetween_cancelPending {σ : State} {db : Db} {v t a b : UserId}
    (hinv : Consistent σ) (hreq : db.requests = Db.requests σ.db) (now : Nat) :
    Db.acceptedBetween (engine.applyAll
        (settleRows (Db.pendingBetween σ.db v t) .cancelled now) db) a b =
      db.acceptedBetween a b := by
  unfold settleRows
  split
  · rfl
  · refine acceptedBetween_setStatus db _ now (by decide) fun r hr hid => ?_
    obtain ⟨r', hr', hid'⟩ := List.mem_map.mp hid
    obtain ⟨hmem, -, hpend⟩ := Db.mem_pendingBetween.mp hr'
    rw [hreq] at hr
    obtain rfl := List.inj_on_of_nodup_map hinv.schema.requestKeys hmem hr hid'
    exact hpend

theorem friendCount_cancelPending (rows : List RequestRow) (now : Nat) (db : Db)
    (a b : UserId) :
    Db.friendCount (engine.applyAll (settleRows rows .cancelled now) db) a b =
      db.friendCount a b := by
  unfold settleRows
  split <;> rfl

/-- An accept of users who are not friends counts once on both sides. -/
theorem conserves_accept {σ : State} {v t a b : UserId} {id : RequestId} {r : RequestRow}
    (hp : Pending σ v t id r) (hinv : Consistent σ) (hf : Db.areFriends σ.db v t = false)
    (now : Nat) (db : Db)
    (hdb : db = Write.apply (.setStatus [id] .accepted now)
      (Write.apply (.insertFriendship ⟨min v t, max v t, now⟩) σ.db)) :
    db.acceptedBetween a b + Db.friendCount σ.db a b =
      Db.acceptedBetween σ.db a b + db.friendCount a b := by
  obtain ⟨hmem, hbt, hpend⟩ := Db.mem_pendingBetween.mp hp.mem
  have hfilter : (Db.requests σ.db).filter (·.id == id) = [r] := by
    rw [← hp.id]
    exact filter_id_eq hinv.schema hmem
  have hsame : r.between a b = decide (SamePair v t a b) := by
    rw [Bool.eq_iff_iff, RequestRow.between_iff, decide_eq_true_iff]
    have hvt := RequestRow.between_iff.mp hbt
    exact ⟨fun h => hvt.symm.trans h, fun h => hvt.trans h⟩
  -- the friendship adds no request, the update no friendship
  have hacc : db.acceptedBetween a b =
      Db.acceptedBetween σ.db a b + (decide (SamePair v t a b)).toNat := by
    rw [hdb, ← hsame]
    exact acceptedBetween_accept _ now hfilter hpend
  have hfr : db.friendCount a b =
      Db.friendCount σ.db a b + (decide (SamePair v t a b)).toNat := by
    rw [hdb]
    exact friendCount_insert σ.db v t now hf
  omega

/-- A removal of a friendship counts once as a removal. -/
theorem conserves_remove (db : Db) {v t : UserId} (a b : UserId)
    (hf : db.areFriends v t = true) :
    db.friendCount a b =
      Db.friendCount (Write.apply (.deleteFriendship (min v t) (max v t)) db) a b +
        ([Write.deleteFriendship (min v t) (max v t)].contains
          (Write.deleteFriendship (min a b) (max a b))).toNat := by
  have hsame : [Write.deleteFriendship (min v t) (max v t)].contains
      (Write.deleteFriendship (min a b) (max a b)) = decide (SamePair v t a b) := by
    rw [Bool.eq_iff_iff, decide_eq_true_iff, ← pairKey_eq_iff]
    simp only [List.contains_cons, List.contains_nil, Bool.or_false, beq_iff_eq,
      Write.deleteFriendship.injEq, pairKey, Lock.pair.injEq]
    exact ⟨fun h => ⟨h.1.symm, h.2.symm⟩, fun h => ⟨h.1.symm, h.2.symm⟩⟩
  rw [hsame]
  exact (friendCount_delete db v t hf).symm

/-- What one committed transaction does to the counts of a pair: the accepted
requests grow by what the friendship grew by, plus what was removed. -/
theorem Commits.conserves {σ : State} {H : List Lock} {now : Nat} {i : ι} {v t : UserId}
    {ws : List Write} (h : Commits σ H now (calls i) v t ws) (hinv : Consistent σ)
    (notes : List Event) (a b : UserId) :
    Db.acceptedBetween (engine.applyAll ws σ.db) a b + Db.friendCount σ.db a b =
      Db.acceptedBetween σ.db a b + Db.friendCount (engine.applyAll ws σ.db) a b +
        (removes calls a b (.commit i now ws notes)).toNat := by
  have hremoves : removes calls a b (.commit i now ws notes) =
      match calls i with
      | .removeFriend _ _ => ws.contains (Write.deleteFriendship (min a b) (max a b))
      | _ => false := rfl
  rw [hremoves]
  generalize calls i = c at h
  cases h with
  | repeated => rfl
  | @created _ _ _ _ row hn =>
      have hacc : Db.acceptedBetween (engine.applyAll [.insertRequest row] σ.db) a b =
          Db.acceptedBetween σ.db a b := acceptedBetween_insertRequest hn.pending
      rw [hacc]
      rfl
  | accepted hp hrec hsen hf => exact conserves_accept hp hinv hf now _ rfl
  | rejected hp hrec hsen =>
      exact congrArg (· + Db.friendCount σ.db a b)
        (acceptedBetween_settle hp hinv now (by decide))
  | cancelled hp hsen hrec =>
      exact congrArg (· + Db.friendCount σ.db a b)
        (acceptedBetween_settle hp hinv now (by decide))
  | removed hws =>
      subst hws
      cases hf : Db.areFriends σ.db v t with
      | false => rfl
      | true =>
          -- the one case in which friends become fewer: the removal is counted
          have hfr := conserves_remove σ.db a b hf
          rw [if_pos rfl]
          change Db.acceptedBetween σ.db a b + Db.friendCount σ.db a b =
            Db.acceptedBetween σ.db a b + Db.friendCount (Write.apply (.deleteFriendship
              (min v t) (max v t)) σ.db) a b + _
          rw [hfr, Nat.add_assoc]
  | @blocked _ _ ws hne hv ht hws =>
      -- a block leaves the counts alone, and the requests it cancels were pending
      have hreq : Db.requests (engine.applyAll ws σ.db) = Db.requests σ.db := by
        rcases hws with rfl | ⟨rfl, -⟩ <;> rfl
      have hfr : Db.friendCount (engine.applyAll ws σ.db) a b = Db.friendCount σ.db a b := by
        rcases hws with rfl | ⟨rfl, -⟩ <;> rfl
      have hacc : Db.acceptedBetween (engine.applyAll ws σ.db) a b =
          Db.acceptedBetween σ.db a b := by
        rw [acceptedBetween_eq, acceptedBetween_eq, hreq]
      rw [engine.applyAll_append, acceptedBetween_cancelPending hinv hreq,
        friendCount_cancelPending, hacc, hfr]
      rfl

theorem removals_append (log : List (Entry engine ι)) (e : Entry engine ι) (a b : UserId) :
    removals calls (log ++ [e]) a b = removals calls log a b + (removes calls a b e).toNat := by
  rw [removals, List.countP_append, removals]
  cases h : removes calls a b e <;> simp [h]

/-- An autocommit statement leaves the counts alone. -/
theorem Autos.conserves {σ : State} {c : Call} {ws : List Write} (h : Autos σ c ws)
    (a b : UserId) :
    Db.acceptedBetween (engine.applyAll ws σ.db) a b = Db.acceptedBetween σ.db a b ∧
      Db.friendCount (engine.applyAll ws σ.db) a b = Db.friendCount σ.db a b := by
  cases h <;> exact ⟨rfl, rfl⟩

/-- The law holds after every recorded event. -/
theorem trace_conserves {target : ι → Option RequestRow} {faulty : Bool} {σ₀ σ : State}
    {log : List (Entry engine ι)}
    (h : Trace (fun i => contract (calls i) (target i)) faulty [] σ₀ log σ) (a b : UserId)
    (h₀ : Db.acceptedBetween σ₀.db a b = Db.friendCount σ₀.db a b) :
    Db.acceptedBetween σ.db a b = removals calls log a b + Db.friendCount σ.db a b := by
  induction h with
  | start => simpa [removals] using h₀
  | bump _ ih => exact ih
  | @commit log σ i start H ws notes _ hinv _ hc ih =>
      obtain ⟨v, t, -, hcommit⟩ := hc
      -- the law of one commit, added to that of the log before it
      have hlaw := hcommit.conserves hinv notes a b
      rw [removals_append]
      change Db.acceptedBetween (engine.applyAll ws σ.db) a b = _ + _ +
        Db.friendCount (engine.applyAll ws σ.db) a b
      omega
  | @auto log σ i at_ H ws _ hinv _ hc ih =>
      obtain ⟨hacc, hfr⟩ := hc.2.conserves a b
      rw [removals_append]
      change Db.acceptedBetween (engine.applyAll ws σ.db) a b = _ + 0 +
        Db.friendCount (engine.applyAll ws σ.db) a b
      omega
  | abort _ _ _ _ ih => rw [removals_append]; exact ih
  | fault _ _ ih => rw [removals_append]; exact ih
  | note _ ih => rw [removals_append]; exact ih

variable [DecidableEq ι] {env : Env} {users : List UserRow} {messages : List MessageRow}
  {seq now poolSize : Nat} {faulty : Bool} {s : Server ι}

/-- A commit of an accept finds the two not friends and makes them friends. -/
theorem accept_befriends {s' : Server ι} {i : ι} {v : Option UserId} {id : Int} {l : Label ι}
    (hinv : ServerInv poolSize faulty calls ⟨seq, freshDb users messages⟩ s)
    (hi : calls i = .acceptRequest v id) (hstep : serve poolSize faulty calls l s = some s')
    (hbefore : committed i s.log = false) (hafter : committed i s'.log = true) :
    ∃ r ∈ Db.requests s.db, r.id = id ∧ Db.areFriends s.db r.sender r.recipient = false ∧
      Db.areFriends s'.db r.sender r.recipient = true := by
  cases hinv.effect hstep with
  | silent _ hlog =>
      rw [hlog i, hbefore] at hafter
      cases hafter
  | auto _ _ _ _ hlog =>
      rw [hlog, committed_append_other rfl, hbefore] at hafter
      cases hafter
  | @commit j start H ws notes k hat hc hsnap hlog =>
      -- the committing call is `i`
      obtain rfl : i = j := by
        rw [hlog, committed_append, hbefore, Bool.false_or] at hafter
        simpa [Entry.commitOf] using hafter
      obtain ⟨v', t, -, hcommit⟩ := hc
      rw [hi] at hcommit
      cases hcommit with
      | @accepted _ _ _ r hp hrec hsen hf =>
          obtain ⟨hmem, -, -⟩ := Db.mem_pendingBetween.mp hp.mem
          subst hrec hsen
          refine ⟨r, hmem, hp.id, by rw [Db.areFriends_comm]; exact hf, ?_⟩
          have hdb : s'.db = _ := congrArg Snap.db hsnap
          rw [hdb, Db.areFriends_comm]
          exact List.any_eq_true.mpr
            ⟨_, List.mem_append_right _ (List.mem_singleton_self _), by simp [FriendshipRow.isOf]⟩

/-- **Friendship needs consent, and none is lost.** In every committed state the
accepted requests of a pair are as many as its committed removals, plus one while
the two are friends; so friends have an accepted request between them, and every
commit of an accept turns two users who are not friends into friends. -/
theorem accepted_eq_removed
    (h : Reachable (serve poolSize faulty calls) (server env (freshDb users messages) seq now calls)
      s) (a b : UserId) :
    Db.acceptedBetween s.db a b =
        removals calls s.log a b + (if Db.areFriends s.db a b then 1 else 0) ∧
      (Db.areFriends s.db a b = true → ∃ r ∈ Db.requestsBetween s.db a b, r.status = .accepted) ∧
      ∀ l s' i v id, serve poolSize faulty calls l s = some s' → calls i = .acceptRequest v id →
        committed i s.log = false → committed i s'.log = true →
          ∃ r ∈ Db.requests s.db, r.id = id ∧ Db.areFriends s.db r.sender r.recipient = false ∧
            Db.areFriends s'.db r.sender r.recipient = true := by
  have hinv := serverInv_reachable h
  have hlaw : Db.acceptedBetween s.db a b = removals calls s.log a b + Db.friendCount s.db a b :=
    trace_conserves hinv.trace a b rfl
  refine ⟨?_, fun hf => ?_, fun l s' i v id hstep hi => accept_befriends hinv hi hstep⟩
  · rw [hlaw, Db.friendCount]
    cases Db.areFriends s.db a b <;> rfl
  · have hpos : 0 < Db.acceptedBetween s.db a b := by
      rw [hlaw, Db.friendCount, hf]
      simp
    obtain ⟨r, hr, hst⟩ := List.countP_pos_iff.mp hpos
    exact ⟨r, hr, by simpa using hst⟩

end Conservation

theorem accepted_eq_removed_demo : ∃ s : Server Bool, Db.areFriends s.db 1 2 = true ∧
    Db.acceptedBetween s.db 1 2 =
      removals demoCalls s.log 1 2 + (if Db.areFriends s.db 1 2 then 1 else 0) := by
  obtain ⟨s, hs, hf⟩ := demo_friends
  exact ⟨s, (Prod.mk.inj hf).1, (accepted_eq_removed hs 1 2).1⟩

end DevbitBackend.Social
