import DevbitBackend.Social.Commits

/-!
# Social.Contracts

Every handler keeps its contract (`Call.safe`): whatever the other calls do
between its statements, its transaction commits only what `Commits` allows, it
answers `Ok` exactly when it has committed, and every row lock it holds is the
lock of a request whose pair lock it holds too (`LocksOk`).

A proof follows the code of its handler statement by statement. What a statement
has read of the pair stays true until the commit, because the pair lock keeps it.
-/

namespace DevbitBackend.Social

open Txn

/-- The row locks of `H` are of requests whose pair lock is in `H`, and the
transaction holds the lock of every row it has inserted. -/
structure LocksOk (H : List Lock) (σ : State) (buf : List Write) : Prop where
  drawn : ∀ id, Lock.request id ∈ H → id ≤ σ.seq
  paired : ∀ id, Lock.request id ∈ H → ∀ r ∈ Db.requests σ.db, r.id = id →
    pairKey r.sender r.recipient ∈ H
  inserted : ∀ row, Write.insertRequest row ∈ buf → Lock.request row.id ∈ H

theorem locksOk_nil (σ : State) : LocksOk [] σ [] :=
  ⟨by simp, by simp, by simp⟩

theorem locksOk_pair (a b : UserId) (σ : State) : LocksOk [pairKey a b] σ [] :=
  ⟨by simp [pairKey], by simp [pairKey], by simp⟩

namespace LocksOk

variable {H : List Lock} {σ σ' : State} {buf ws : List Write}

theorem stable (h : LocksOk H σ buf) (hr : discipline.Rely H σ σ') : LocksOk H σ' buf where
  drawn id hid := (h.drawn id hid).trans (Int.ofNat_le.mpr hr.1.1)
  paired id hid r' hr' hr'id := by
    obtain ⟨r, hmem, hrid, hs, hp⟩ := hr.2 _ hid r' hr' hr'id
    rw [← hs, ← hp]
    exact h.paired id hid r hmem hrid
  inserted := h.inserted

/-- Writes that insert no request. -/
theorem write (h : LocksOk H σ buf) (hws : ∀ row, Write.insertRequest row ∉ ws) :
    LocksOk H σ (buf ++ ws) where
  drawn := h.drawn
  paired := h.paired
  inserted row hrow := by
    rcases List.mem_append.mp hrow with hin | hin
    · exact h.inserted row hin
    · exact absurd hin (hws row)

/-- Locking rows of the pair whose lock is held. -/
theorem append_rows (h : LocksOk H σ buf) (hinv : Consistent σ)
    (rows : List RequestRow) (hrows : ∀ r ∈ rows, r ∈ Db.requests σ.db ∧
      pairKey r.sender r.recipient ∈ H) :
    LocksOk (H ++ rows.map fun r => Lock.request r.id) σ buf where
  drawn id hid := by
    rcases List.mem_append.mp hid with hin | hin
    · exact h.drawn id hin
    · obtain ⟨r, hr, heq⟩ := List.mem_map.mp hin
      obtain rfl : r.id = id := Lock.request.inj heq
      exact (hinv.ids r (hrows r hr).1).2
  paired id hid r' hr' hid' := by
    refine List.mem_append_left _ ?_
    rcases List.mem_append.mp hid with hin | hin
    · exact h.paired id hin r' hr' hid'
    · obtain ⟨r, hr, heq⟩ := List.mem_map.mp hin
      obtain rfl : r.id = id := Lock.request.inj heq
      obtain rfl := List.inj_on_of_nodup_map hinv.schema.requestKeys hr' (hrows r hr).1 hid'
      exact (hrows r' hr).2
  inserted row hrow := List.mem_append_left _ (h.inserted row hrow)

end LocksOk

/-! ### The contract -/

/-- The calls that run a transaction. -/
def Call.transactional : Call → Bool
  | .unblockUser _ _ | .updatePreferences _ _ _ | .sendMessage _ _ _ => false
  | _ => true

/-- The call is one that may settle the request `r`: an accept or a reject by its
recipient, or a cancel by its sender. -/
def Call.entitled (r : RequestRow) : Call → Prop
  | .acceptRequest v id => v = some r.recipient ∧ id = r.id
  | .rejectRequest v id => v = some r.recipient ∧ id = r.id
  | .cancelRequest v id => v = some r.sender ∧ id = r.id
  | _ => False

/-- The answers a call may give. `target` is a request known to exist since the
call arrived, and which the call is entitled to settle. -/
structure Replies (c : Call) (target : Option RequestRow) (committed : Bool) (a : Answer) :
    Prop where
  ok : c.transactional = true → a.isOk = committed
  notPending : target.isSome = true → committed = false → a = .error .requestNotPending

/-- The contract of a call: what it may hold, commit, leave behind and answer. `target` is
the request that it is about, once this is known. -/
def contract (c : Call) (target : Option RequestRow) : Contract discipline Answer where
  known σ := ∀ r ∈ target, ∃ r' ∈ Db.requests σ.db, r.Evolves r'
  inTx _ H σ buf _ := LocksOk H σ buf
  commit start H σ ws _ := ∃ v t, pairKey v t ∈ H ∧ Commits σ H start c v t ws
  abort _ _ _ _ := True
  auto _ H σ ws := H = [] ∧ Autos σ c ws
  reply committed a := Replies c target committed a
  known_stable h hb := by
    intro r hr
    obtain ⟨r', hr', he⟩ := h r hr
    obtain ⟨r'', hr'', he'⟩ := hb.2.rows r' hr'
    exact ⟨r'', hr'', he.trans he'⟩
  inTx_stable h hr _ := h.stable hr
  commit_inv h hinv := by
    obtain ⟨v, t, hH, hc⟩ := h
    exact (hc.sound hH hinv).1
  commit_base h hinv := by
    obtain ⟨v, t, hH, hc⟩ := h
    exact (hc.sound hH hinv).2.1
  commit_keeps h hinv hl := by
    obtain ⟨v, t, hH, hc⟩ := h
    exact (hc.sound hH hinv).2.2 _ hl
  auto_inv h hinv := (h.2.sound hinv).1
  auto_base h hinv := (h.2.sound hinv).2.1
  auto_keeps h hinv _ := (h.2.sound hinv).2.2 _

/-- A checked id is the id itself. -/
theorem positiveId_ok {id : Int} {field : String} {u : UserId} (h : positiveId id field = .ok u) :
    u = id := by
  unfold positiveId at h
  split at h
  · cases h
  · exact (Except.ok.inj h).symm

section Handlers

variable {c : Call} {target : Option RequestRow} {failed : Answer} {σ : State}

/-- Before a commit any error may be answered, when no request is known. -/
theorem reply_error (ht : target = none) (e : SocialError) :
    (contract c target).reply false (.error e) :=
  ⟨fun _ => rfl, fun h => by rw [ht] at h; cases h⟩

/-- After a commit any success may be answered. -/
theorem reply_ok {a : Answer} (ha : a.isOk = true) : (contract c target).reply true a :=
  ⟨fun _ => ha, fun _ h => by cases h⟩

/-- `require_viewer` goes on with a caller that exists, or answers 401. -/
theorem safe_requireViewer {identity : Option UserId} {k : UserId → Code} {committed : Bool}
    (herr : (contract c target).reply committed (.error .unauthenticated) ∨
      ∃ v, identity = some v ∧ ∀ σ', Consistent σ' → (contract c target).known σ' →
        Db.userExists σ'.db v = true)
    (hk : ∀ v σ', identity = some v → Consistent σ' → (contract c target).known σ' →
      discipline.Base σ σ' → Db.userExists σ'.db v = true →
        (contract c target).Safe failed (k v) (.pool σ' committed)) :
    (contract c target).Safe failed (requireViewer identity k) (.pool σ committed) := by
  cases identity with
  | none =>
      rcases herr with herr | ⟨v, hv, -⟩
      · exact herr
      · cases hv
  | some v =>
      refine Contract.Safe.query_read (fun db => Db.userExists db v) (fun _ _ _ => rfl) rfl
        (fun _ _ _ => rfl) (fun _ _ => ⟨rfl, .read⟩) fun σ' hb hi hkn => ?_
      cases hu : Db.userExists σ'.db v with
      | true => exact hk v σ' rfl hi hkn hb hu
      | false =>
          rcases herr with herr | ⟨v', hv', hex⟩
          · exact herr
          · obtain rfl := Option.some.inj hv'
            rw [hex σ' hi hkn] at hu
            cases hu

/-- A call of a caller that exists, about another user. -/
theorem safe_viewerAndOther {identity : Option UserId} {id : Int} {field text : String}
    {k : UserId → UserId → Code} (herr : ∀ e, (contract c target).reply false (.error e))
    (hk : ∀ v t σ', identity = some v → t = id → t ≠ v → Consistent σ' →
      Db.userExists σ'.db v = true → (contract c target).Safe failed (k v t) (.pool σ' false)) :
    (contract c target).Safe failed
      (requireViewer identity fun v => orFail (positiveId id field) fun t =>
        if t = v then fail (.validation field text) else k v t) (.pool σ false) := by
  refine safe_requireViewer (.inl (herr _)) fun v σ' hv hinv _ _ hu => ?_
  cases hpos : positiveId id field with
  | error e => exact herr e
  | ok t =>
      simp only [orFail]
      by_cases htv : t = v
      · rw [if_pos htv]
        exact herr _
      · rw [if_neg htv]
        exact hk v t σ' hv (positiveId_ok hpos) htv hinv hu

/-- The read-back after a commit finds the request. -/
theorem safe_currentFriendRequestView {env : Env} {id : RequestId} {k : FriendRequest → Code}
    (h : ∃ r ∈ Db.requests σ.db, r.id = id)
    (hk : ∀ view σ', (contract c target).Safe failed (k view) (.pool σ' true)) :
    (contract c target).Safe failed (currentFriendRequestView env id k) (.pool σ true) := by
  refine Contract.Safe.query_read (fun db => Db.requestView db id) (fun _ _ _ => rfl) rfl
    (fun _ _ _ => rfl) (fun _ _ => ⟨rfl, .read⟩) fun σ' hb hi _ => ?_
  obtain ⟨r, hr, rfl⟩ := h
  obtain ⟨r', hr', he⟩ := hb.2.rows r hr
  have hview : ∃ row, Db.requestView σ'.db r.id = some row := by
    have hfound : ((Db.requests σ'.db).find? (·.id == r.id)).isSome = true := by
      rw [List.find?_isSome]
      exact ⟨r', hr', by simp [he.id]⟩
    obtain ⟨row, hrow⟩ := Option.isSome_iff_exists.mp hfound
    obtain ⟨-, hs, ht⟩ := hi.schema.requestParties row (List.mem_of_find?_eq_some hrow)
    obtain ⟨s, hs'⟩ := Option.isSome_iff_exists.mp
      (List.find?_isSome.mpr (List.any_eq_true.mp hs))
    obtain ⟨t, ht'⟩ := Option.isSome_iff_exists.mp
      (List.find?_isSome.mpr (List.any_eq_true.mp ht))
    exact ⟨(row, s, t), by simp [Db.requestView, Db.request, Db.loadUser, hrow, hs', ht']⟩
  obtain ⟨row, hrow⟩ := hview
  simp only [hrow]
  exact hk _ σ'

/-- An early return drops the transaction. -/
theorem safe_fail {H : List Lock} {start : Nat} {buf : List Write} {notes : List Event}
    {e : SocialError} (hH : LocksOk H σ buf) (he : (contract c target).reply false (.error e)) :
    (contract c target).Safe failed (fail e) (.tx start H σ buf notes) :=
  ⟨hH, he, fun _ _ _ _ => trivial⟩

/-! ### What the pair lock keeps -/

section Pair

variable {H : List Lock} {σ' : State} {v t : UserId}

theorem rely_requests (hr : discipline.Rely H σ σ') (hH : pairKey v t ∈ H) :
    Db.requestsBetween σ'.db v t = Db.requestsBetween σ.db v t :=
  (kept_pairKey (hr.2 _ hH)).1

theorem rely_pending (hr : discipline.Rely H σ σ') (hH : pairKey v t ∈ H) :
    Db.pendingBetween σ'.db v t = Db.pendingBetween σ.db v t := by
  rw [Db.pendingBetween, rely_requests hr hH, Db.pendingBetween]

theorem rely_friends (hr : discipline.Rely H σ σ') (hH : pairKey v t ∈ H) :
    Db.areFriends σ'.db v t = Db.areFriends σ.db v t :=
  (kept_pairKey (hr.2 _ hH)).2.1

/-- No block appears, from either side. -/
theorem rely_block (hr : discipline.Rely H σ σ') (hH : pairKey v t ∈ H) {k : BlockRow}
    (hk : k ∈ Db.blocks σ'.db) (hb : k.between v t = true) : k ∈ Db.blocks σ.db :=
  (kept_pairKey (hr.2 _ hH)).2.2 k hk hb

theorem rely_notBlocked (hr : discipline.Rely H σ σ') (hH : pairKey v t ∈ H)
    (h : Db.blockExists σ.db v t = false) : Db.blockExists σ'.db v t = false := by
  rw [Db.blockExists, List.any_eq_false] at *
  intro k hk hb
  exact h k (rely_block hr hH hk hb) hb

theorem rely_userExists (hr : discipline.Rely H σ σ') (u : UserId) :
    Db.userExists σ'.db u = Db.userExists σ.db u := hr.1.2.userExists u

end Pair

/-- The pending request of one direction is one of the requests of the pair. -/
theorem pendingFrom_eq {db : Db} (v t : UserId) : db.pendingFrom v t =
    (db.requestsBetween v t).find? fun r => r.sender == v && r.recipient == t && r.isPending := by
  rw [Db.pendingFrom, Db.requestsBetween, List.find?_filter]
  congr 1
  funext r
  by_cases hv : r.sender = v <;> by_cases ht : r.recipient = t <;>
    simp [RequestRow.between, hv, ht]

/-- Nothing is pending between two users when nothing is in either direction. -/
theorem pendingBetween_eq_nil {db : Db} {v t : UserId} (h : db.pendingFrom v t = none)
    (h' : db.pendingFrom t v = none) : db.pendingBetween v t = [] := by
  rw [List.eq_nil_iff_forall_not_mem]
  intro r hr
  obtain ⟨hmem, hbt, hp⟩ := Db.mem_pendingBetween.mp hr
  rw [Db.pendingFrom, List.find?_eq_none] at h h'
  rcases RequestRow.between_iff.mp hbt with ⟨hs, ht⟩ | ⟨hs, ht⟩
  · exact h r hmem (by simp [hs, ht, hp])
  · exact h' r hmem (by simp [hs, ht, hp])

theorem pendingFrom_eq_none {db : Db} {v t : UserId} (h : db.pendingBetween v t = []) :
    db.pendingFrom v t = none := by
  rw [Db.pendingFrom, List.find?_eq_none]
  intro r hr hc
  simp only [Bool.and_eq_true, beq_iff_eq] at hc
  have hmem : r ∈ db.pendingBetween v t :=
    Db.mem_pendingBetween.mpr ⟨hr, RequestRow.between_iff.mpr (.inl hc.1), hc.2⟩
  rw [h] at hmem
  exact List.not_mem_nil hmem

/-! ### `create_request` -/

/-- The `INSERT` of a request goes through when nothing of its direction is
pending: it takes the next id. -/
theorem eval_insertRequest {v t : UserId} {m : String} {db : Db} (hne : v ≠ t)
    (hlen : charCount m ≤ 200) (hstor : storable m = true) (hp : db.pendingFrom v t = none)
    (hv : db.userExists v = true) (ht : db.userExists t = true) (now seq : Nat) :
    eval (.insertRequest v t m) now seq db = some (some (nextval seq), [.insertRequest
      { id := nextval seq, sender := v, recipient := t, message := m, status := .pending,
        createdAt := now, updatedAt := now }]) := by
  have hshort : ¬ 200 < charCount m := Nat.not_lt.mpr hlen
  simp [eval, hne, hstor, hshort, hp, hv, ht]

/-- A NUL character: the column rejects the text. -/
theorem eval_insertRequest_rejected {m : String} (hstor : ¬ storable m = true) (v t : UserId)
    (now seq : Nat) (db : Db) : eval (.insertRequest v t m) now seq db = none := by
  simp [eval, hstor]

/-- The commit of an insert, and the answer after it. -/
theorem safe_insertRequest {env : Env} {rid : Option Int} {msg : Option String} {v t : UserId}
    {m : String} {start : Nat} {k : Option RequestId → Code} (hne : v ≠ t)
    (hfailed : failed.isOk = false) (hm : charCount m ≤ 200)
    (hv : Db.userExists σ.db v = true) (ht : Db.userExists σ.db t = true)
    (hf : Db.areFriends σ.db v t = false) (hb : Db.blockExists σ.db v t = false)
    (hp : Db.pendingBetween σ.db v t = [])
    (hk : ∀ id, k (some id) = .commit (notify t "friend_request_received" (some id) (some v)
      (currentFriendRequestView env id fun view => .done (.request 201 view)))) :
    (contract (.createRequest (some v) rid msg) none).Safe failed
      (exec (.insertRequest v t m) k) (.tx start [pairKey v t] σ [] []) := by
  have hkey : pairKey v t ∈ [pairKey v t] := List.mem_singleton_self _
  refine .exec_result (locksOk_pair _ _ _) fun σ₁ hr₁ hinv₁ _ => ?_
  have hp₁ : Db.pendingBetween σ₁.db v t = [] := (rely_pending hr₁ hkey).trans hp
  have hb₁ : Db.blockExists σ₁.db v t = false := rely_notBlocked hr₁ hkey hb
  by_cases hstor : storable m = true
  · -- the insert goes through, with a fresh id
    have hv₁ : Db.userExists σ₁.db v = true := (rely_userExists hr₁ v).trans hv
    have ht₁ : Db.userExists σ₁.db t = true := (rely_userExists hr₁ t).trans ht
    have heval := eval_insertRequest hne hm hstor (pendingFrom_eq_none hp₁) hv₁ ht₁ start σ₁.seq
    have hlocks : engine.locks (.insertRequest v t m) start σ₁.seq (engine.applyAll [] σ₁.db) =
        [.request (nextval σ₁.seq)] := by
      change rowLocks (.insertRequest v t m) start σ₁.seq σ₁.db = _
      simp [rowLocks, pendingFrom_eq_none hp₁]
    refine .inr ⟨_, _, _, heval, hlocks, ?_⟩
    rw [hk]
    -- the new id is above every committed one
    have hfresh : ∀ r ∈ Db.requests σ₁.db, r.id ≠ nextval σ₁.seq := by
      intro r hr heq
      exact absurd (heq ▸ (hinv₁.ids r hr).2) (Int.not_le.mpr (Int.lt_succ _))
    have hid : ∀ id, Lock.request id ∈ [pairKey v t, .request (nextval σ₁.seq)] →
        id = nextval σ₁.seq := fun id h => by simpa [pairKey] using h
    have hlocked : LocksOk [pairKey v t, .request (nextval σ₁.seq)]
        (σ₁.bump (.insertRequest v t m)) [.insertRequest
          { id := nextval σ₁.seq, sender := v, recipient := t, message := m, status := .pending,
            createdAt := start, updatedAt := start }] :=
      { drawn := fun id h => by rw [hid id h]; exact le_rfl
        paired := fun id h r hr heq => absurd (heq.trans (hid id h)) (hfresh r hr)
        inserted := by simp }
    refine ⟨hlocked, fun σ₂ hr₂ hinv₂ _ => ⟨⟨v, t, by simp, .created ?_⟩, ?_⟩⟩
    · have hkey₂ : pairKey v t ∈ [pairKey v t, .request (nextval σ₁.seq)] := by simp
      exact
        { sender := rfl
          recipient := rfl
          pending := rfl
          ne := hne
          senderExists := (rely_userExists hr₂ v).trans hv₁
          recipientExists := (rely_userExists hr₂ t).trans ht₁
          notFriends := (rely_friends hr₂ hkey₂).trans ((rely_friends hr₁ hkey).trans hf)
          notBlocked := rely_notBlocked hr₂ hkey₂ hb₁
          noPending := (rely_pending hr₂ hkey₂).trans hp₁
          pos := Int.lt_add_one_of_le (Int.natCast_nonneg _)
          drawn := Int.ofNat_le.mpr hr₂.1.1
          fresh := by
            intro r hr heq
            obtain ⟨r₀, hr₀, hid₀, -⟩ := hr₂.2 (.request (nextval σ₁.seq)) (by simp) r hr heq
            exact hfresh r₀ hr₀ hid₀
          locked := by simp }
    · have hview : ∀ view σ', (contract (.createRequest (some v) rid msg) none).Safe failed
          (.done (.request 201 view)) (.pool σ' true) := fun _ _ => reply_ok rfl
      refine safe_currentFriendRequestView ?_ hview
      exact ⟨_, List.mem_append_right (Db.requests σ₂.db) (List.mem_singleton_self _), rfl⟩
  · have heval := eval_insertRequest_rejected hstor v t start σ₁.seq σ₁.db
    exact .inl ⟨heval, trivial, fun _ => hfailed, fun h => by cases h⟩

theorem safe_createRequest (env : Env) (identity : Option UserId) (rid : Option Int)
    (msg : Option String) (hfailed : failed.isOk = false) :
    (contract (.createRequest identity rid msg) none).Safe failed
      (createRequest env identity rid msg) (.pool σ false) := by
  refine safe_viewerAndOther (reply_error rfl) fun v t σ₁ hv _ htv hinv₁ hu₁ => ?_
  subst hv
  cases hmsg : validateOptionalMessage msg maxFriendRequestMessageChars with
  | error e => exact reply_error rfl e
  | ok m =>
      have hm : charCount m ≤ 200 := validateOptionalMessage_le hmsg
      have hkey : pairKey v t ∈ [pairKey v t] := List.mem_singleton_self _
      have hlocks : ∀ σ, LocksOk [pairKey v t] σ [] := locksOk_pair v t
      refine ⟨rfl, fun σ₂ start hb₂ hinv₂ _ => ⟨locksOk_nil σ₂, rfl, fun σ₃ hr₃ hinv₃ _ => ?_⟩⟩
      refine .exec_read (fun db => Db.userExists db t) (fun _ _ _ => rfl) rfl
        (fun _ _ _ => rfl) (hlocks _) fun σ₄ hr₄ hinv₄ _ => ?_
      cases ht : Db.userExists σ₄.db t with
      | false => exact safe_fail (hlocks _) (reply_error rfl _)
      | true =>
      refine .exec_read (fun db => Db.blockExists db v t) (fun _ _ _ => rfl) rfl
        (fun _ _ _ => rfl) (hlocks _) fun σ₅ hr₅ hinv₅ _ => ?_
      cases hblk : Db.blockExists σ₅.db v t with
      | true => exact safe_fail (hlocks _) (reply_error rfl _)
      | false =>
      refine .exec_read (fun db => (Db.preferencesOf db t).map (·.friendRequestPolicy))
        (fun _ _ _ => rfl) rfl (fun _ _ _ => rfl) (hlocks _) fun σ₆ hr₆ hinv₆ _ => ?_
      by_cases hpol : (Db.preferencesOf σ₆.db t).map (·.friendRequestPolicy) = some "nobody"
      · rw [if_pos hpol]
        exact safe_fail (hlocks _) (reply_error rfl _)
      rw [if_neg hpol]
      refine .exec_read (fun db => Db.areFriends db v t) (fun _ _ _ => rfl) rfl
        (fun _ _ _ => rfl) (hlocks _) fun σ₇ hr₇ hinv₇ _ => ?_
      cases hfr : Db.areFriends σ₇.db v t with
      | true => exact safe_fail (hlocks _) (reply_error rfl _)
      | false =>
      refine .exec_read (fun db => (Db.pendingFrom db v t).map (·.id)) (fun _ _ _ => rfl) rfl
        (fun _ _ _ => rfl) (hlocks _) fun σ₈ hr₈ hinv₈ _ => ?_
      cases hpend : Db.pendingFrom σ₈.db v t with
      | some r =>
          -- the request is already there: nothing to write
          refine ⟨hlocks _, fun σ₉ hr₉ hinv₉ _ => ⟨⟨v, t, hkey, .repeated⟩, ?_⟩⟩
          obtain ⟨r', hr', he⟩ := hr₉.1.2.rows r (List.mem_of_find?_eq_some hpend)
          exact safe_currentFriendRequestView ⟨r', hr', he.id⟩ fun view σ' => reply_ok rfl
      | none =>
      refine .exec_read (fun db => (Db.pendingFrom db t v).isSome) (fun _ _ _ => rfl) rfl
        (fun _ _ _ => rfl) (hlocks _) fun σ₉ hr₉ hinv₉ _ => ?_
      cases hrev : Db.pendingFrom σ₉.db t v with
      | some r => exact safe_fail (hlocks _) (reply_error rfl _)
      | none =>
      have hpend₉ : Db.pendingFrom σ₉.db v t = none := by
        rw [pendingFrom_eq, rely_requests hr₉ hkey, ← pendingFrom_eq]
        exact hpend
      -- from the block check on, everything read still holds
      have hr₅₉ : discipline.Rely [pairKey v t] σ₅ σ₉ := hr₆.trans (hr₇.trans (hr₈.trans hr₉))
      have hu₉ : Db.userExists σ₉.db v = true := by
        rw [hr₅₉.1.2.userExists, hr₅.1.2.userExists, hr₄.1.2.userExists, hr₃.1.2.userExists,
          hb₂.2.userExists]
        exact hu₁
      have ht₉ : Db.userExists σ₉.db t = true := by
        rw [hr₅₉.1.2.userExists, hr₅.1.2.userExists]
        exact ht
      exact safe_insertRequest (Ne.symm htv) hfailed hm hu₉ ht₉
        ((rely_friends (hr₈.trans hr₉) hkey).trans hfr) (rely_notBlocked hr₅₉ hkey hblk)
        (pendingBetween_eq_nil hpend₉ hrev) fun _ => rfl

/-! ### `accept_request`, `reject_request`, `cancel_request` -/

/-- The rows with the id of a request are that request alone. -/
theorem filter_id_eq {db : Db} (hs : SchemaOk db) {r : RequestRow} (hr : r ∈ db.requests) :
    db.requests.filter (·.id == r.id) = [r] :=
  Serial.filter_key hs.requestKeys hr

theorem request_eq_some {db : Db} (hs : SchemaOk db) {r : RequestRow} (hr : r ∈ db.requests) :
    db.request r.id = some r := by
  rw [Db.request, ← List.head?_filter, filter_id_eq hs hr]
  rfl

/-- A pending request stays pending as long as its pair lock is held. -/
theorem Pending.stable {H : List Lock} {σ' : State} {v t : UserId} {id : RequestId}
    {r : RequestRow} (h : Pending σ v t id r) (hr : discipline.Rely H σ σ')
    (hH : pairKey v t ∈ H) : Pending σ' v t id r :=
  ⟨by rw [rely_pending hr hH]; exact h.mem, h.id⟩

/-- The `UPDATE` of a pending request: one row, which it locks. -/
theorem eval_setStatus {id : RequestId} {v t : UserId} {r : RequestRow}
    (h : Pending σ v t id r) (hinv : Consistent σ) (db : Db) (hreq : db.requests = Db.requests σ.db)
    (st : RequestStatus) (now seq : Nat) :
    eval (.setStatus id st) now seq db = some ((), [.setStatus [id] st now]) ∧
      rowLocks (.setStatus id st) now seq db = [.request id] := by
  have hfilter : db.requests.filter (·.id == id) = [r] := by
    rw [hreq, ← h.id]
    exact filter_id_eq hinv.schema (Db.mem_pendingBetween.mp h.mem).1
  simp [eval, rowLocks, hfilter, settleRows, h.id]

/-- The third `UPDATE` of an accept matches nothing when no other request of the
pair is pending. -/
theorem eval_cancelOthers {id : RequestId} {a b : UserId} {db : Db}
    (h : db.otherPending id a b = []) (now seq : Nat) :
    eval (.cancelOthers id a b) now seq db = some ((), []) ∧
      rowLocks (.cancelOthers id a b) now seq db = [] := by
  simp [eval, rowLocks, settleRows, h]

/-- Locking a pending request of the pair whose lock is held. -/
theorem LocksOk.append_pending {H : List Lock} {id : RequestId} {v t : UserId} {r : RequestRow}
    {buf : List Write} (hH : LocksOk H σ buf) (h : Pending σ v t id r) (hinv : Consistent σ)
    (hkey : pairKey v t ∈ H) : LocksOk (H ++ [.request id]) σ buf := by
  obtain ⟨hmem, hbt, -⟩ := Db.mem_pendingBetween.mp h.mem
  have hrows := hH.append_rows hinv [r] fun r' hr' => by
    obtain rfl := List.mem_singleton.mp hr'
    exact ⟨hmem, pairKey_eq_iff.mpr (RequestRow.between_iff.mp hbt) ▸ hkey⟩
  simpa [h.id] using hrows

/-- Reading a request for update locks its row, and nothing else. -/
theorem eval_requestForUpdate {r : RequestRow} (hinv : Consistent σ)
    (hr : r ∈ Db.requests σ.db) (now : Nat) :
    eval (.requestForUpdate r.id) now σ.seq σ.db =
        some (some (r.sender, r.recipient, r.status), []) ∧
      rowLocks (.requestForUpdate r.id) now σ.seq σ.db = [.request r.id] := by
  constructor
  · change some ((Db.request σ.db r.id).map _, []) = _
    rw [request_eq_some hinv.schema hr]
    rfl
  · simp [rowLocks, filter_id_eq hinv.schema hr]

/-- A known target is found by its id in any later state. -/
theorem target_found (hinv : Consistent σ) (hkn : (contract c target).known σ) {r₀ : RequestRow}
    (hr₀ : r₀ ∈ target) :
    ∃ r ∈ Db.requests σ.db, r₀.Evolves r ∧ Db.request σ.db r₀.id = some r := by
  obtain ⟨r, hr, he⟩ := hkn r₀ hr₀
  refine ⟨r, hr, he, ?_⟩
  rw [← he.id]
  exact request_eq_some hinv.schema hr

/-- The common part of the three handlers: with a known target and an entitled
caller the only error is 409. -/
theorem safe_withPendingRequest {identity : Option UserId} {requestId : Int} {party : Party}
    {refusal : String} {k : UserId → RequestId → UserId → UserId → Code}
    (hent : ∀ r ∈ target, identity = some (party.of r.sender r.recipient) ∧ requestId = r.id)
    (hk : ∀ v H start σ' r, identity = some v → party.of r.sender r.recipient = v →
      Consistent σ' → Pending σ' r.sender r.recipient requestId r →
      pairKey r.sender r.recipient ∈ H → LocksOk H σ' [] →
        (contract c target).Safe failed (k v requestId r.sender r.recipient)
          (.tx start H σ' [] [])) :
    (contract c target).Safe failed (withPendingRequest identity requestId party refusal k)
      (.pool σ false) := by
  -- the target, in any later state
  have htarget : ∀ σ' : State, Consistent σ' → (contract c target).known σ' → ∀ r₀ ∈ target,
      ∃ r ∈ Db.requests σ'.db, r₀.Evolves r ∧ Db.request σ'.db requestId = some r := by
    intro σ' hinv hkn r₀ hr₀
    rw [(hent r₀ hr₀).2]
    exact target_found hinv hkn hr₀
  -- any other error means that there is no target
  have hnone : ∀ {e : SocialError}, (∀ r₀ ∈ target, False) →
      (contract c target).reply false (.error e) := fun h =>
    reply_error (Option.eq_none_iff_forall_ne_some.mpr fun r₀ hr₀ => h r₀ hr₀) _
  refine safe_requireViewer ?_ fun v σ₁ hv hinv₁ hkn₁ hb₁ hu₁ => ?_
  · cases htg : target with
    | none => exact .inl (reply_error rfl _)
    | some r₀ =>
        refine .inr ⟨_, (hent r₀ htg).1, fun σ' hinv hkn => ?_⟩
        rw [← htg] at hkn
        obtain ⟨r, hr, he, -⟩ := htarget σ' hinv hkn r₀ htg
        obtain ⟨-, hs, hp⟩ := hinv.schema.requestParties r hr
        rw [← he.sender, ← he.recipient]
        cases party with
        | sender => exact hs
        | recipient => exact hp
  by_cases hpos : requestId ≤ 0
  · simp only [validatePositiveI64, if_pos hpos, orFail]
    refine hnone fun r₀ hr₀ => ?_
    obtain ⟨r, hr, he, -⟩ := htarget σ₁ hinv₁ hkn₁ r₀ hr₀
    have hid := (hinv₁.ids r hr).1
    rw [he.id, ← (hent r₀ hr₀).2] at hid
    exact absurd hid (not_lt.mpr hpos)
  simp only [validatePositiveI64, if_neg hpos, orFail]
  refine ⟨rfl, fun σ₂ start hb₂ hinv₂ _ => ?_⟩
  refine .exec_read (fun db => (Db.request db requestId).map fun r => (r.sender, r.recipient))
    (fun _ _ _ => rfl) rfl (fun _ _ _ => rfl) (locksOk_nil _) fun σ₃ hr₃ hinv₃ hkn₃ => ?_
  cases hreq : Db.request σ₃.db requestId with
  | none =>
      refine safe_fail (locksOk_nil _) (hnone fun r₀ hr₀ => ?_)
      obtain ⟨r, -, -, hsome⟩ := htarget σ₃ hinv₃ hkn₃ r₀ hr₀
      rw [hreq] at hsome
      cases hsome
  | some r₁ =>
  refine ⟨locksOk_nil _, rfl, fun σ₄ hr₄ hinv₄ hkn₄ => ?_⟩
  refine .exec_some (locksOk_pair _ _ _) fun σ₅ hr₅ hinv₅ hkn₅ => ?_
  -- the row read under the row lock is the one whose pair is locked
  obtain ⟨r, hr, he⟩ := (hr₄.1.2.trans hr₅.1.2).rows r₁ (List.mem_of_find?_eq_some hreq)
  have hid : r.id = requestId := by
    have hid₁ : r₁.id = requestId := by simpa using List.find?_some hreq
    rw [he.id, hid₁]
  obtain ⟨heval, hlocks⟩ := eval_requestForUpdate hinv₅ hr start
  rw [hid] at heval hlocks
  have hkey : pairKey r.sender r.recipient ∈ [pairKey r₁.sender r₁.recipient] := by
    rw [he.sender, he.recipient]
    exact List.mem_singleton_self _
  have hH : LocksOk ([pairKey r₁.sender r₁.recipient] ++ [Lock.request requestId]) σ₅ [] := by
    have := (locksOk_pair r₁.sender r₁.recipient σ₅).append_rows hinv₅ [r]
      fun r' hr' => by
        obtain rfl := List.mem_singleton.mp hr'
        exact ⟨hr, hkey⟩
    simpa [hid] using this
  refine ⟨_, _, _, heval, hlocks, ?_⟩
  change (contract c target).Safe failed (ite (party.of r.sender r.recipient ≠ v) _ _) _
  by_cases hparty : party.of r.sender r.recipient = v
  · rw [if_neg (not_not.mpr hparty)]
    by_cases hst : r.status = .pending
    · rw [if_neg (not_not.mpr hst)]
      refine hk v _ start σ₅ r hv hparty hinv₅ ⟨?_, hid⟩ (List.mem_append_left _ hkey) hH
      exact Db.mem_pendingBetween.mpr
        ⟨hr, RequestRow.between_iff.mpr (samePair_self _ _), by simp [RequestRow.isPending, hst]⟩
    · rw [if_pos hst]
      exact safe_fail hH ⟨fun _ => rfl, fun _ _ => rfl⟩
  · rw [if_pos hparty]
    refine safe_fail hH (hnone fun r₀ hr₀ => hparty ?_)
    obtain ⟨r', -, he', hsome⟩ := htarget σ₅ hinv₅ hkn₅ r₀ hr₀
    rw [← hid, request_eq_some hinv₅.schema hr] at hsome
    obtain rfl := Option.some.inj hsome
    have := (hent r₀ hr₀).1
    rw [hv] at this
    rw [he'.sender, he'.recipient]
    exact (Option.some.inj this).symm

/-- After its commit a settled request can be read back. -/
theorem request_after {H : List Lock} {start : Nat} {v t : UserId} {ws : List Write}
    {id : RequestId} {r : RequestRow} (h : Commits σ H start c v t ws) (hH : pairKey v t ∈ H)
    (hinv : Consistent σ) (hp : Pending σ v t id r) :
    ∃ r' ∈ Db.requests (σ.write ws).db, r'.id = id := by
  obtain ⟨r', hr', he⟩ := (h.sound hH hinv).2.1.2.rows r (Db.mem_pendingBetween.mp hp.mem).1
  exact ⟨r', hr', he.id.trans hp.id⟩

/-- Settling the request with one `UPDATE`, as reject and cancel do. -/
theorem safe_settle {H : List Lock} {start : Nat} {v t : UserId} {id : RequestId}
    {r : RequestRow} {st : RequestStatus} {k : Code} (hp : Pending σ v t id r)
    (hkey : pairKey v t ∈ H) (hH : LocksOk H σ [])
    (hcommit : ∀ H' σ', Pending σ' v t id r →
      Commits σ' H' start c v t [.setStatus [id] st start])
    (hk : ∀ σ', (∃ r' ∈ Db.requests σ'.db, r'.id = id) →
      (contract c target).Safe failed k (.pool σ' true)) :
    (contract c target).Safe failed (exec (.setStatus id st) fun _ => .commit k)
      (.tx start H σ [] []) := by
  refine .exec_some hH fun σ₁ hr₁ hinv₁ _ => ?_
  have hp₁ := hp.stable hr₁ hkey
  obtain ⟨heval, hlocks⟩ := eval_setStatus hp₁ hinv₁ _ rfl st start σ₁.seq
  refine ⟨(), _, _, heval, hlocks, ?_⟩
  have hH₁ : LocksOk (H ++ [.request id]) σ₁ [.setStatus [id] st start] :=
    ((hH.stable hr₁).append_pending hp₁ hinv₁ hkey).write (by simp)
  have hkey₁ : pairKey v t ∈ H ++ [.request id] := List.mem_append_left _ hkey
  refine ⟨hH₁, fun σ₂ hr₂ hinv₂ _ => ?_⟩
  have hp₂ : Pending σ₂ v t id r := hp₁.stable hr₂ hkey₁
  have hc := hcommit (H ++ [.request id]) σ₂ hp₂
  exact ⟨⟨v, t, hkey₁, hc⟩, hk _ (request_after hc hkey₁ hinv₂ hp₂)⟩

theorem safe_rejectRequest (env : Env) {identity : Option UserId} {id : Int}
    (hent : ∀ r ∈ target, (Call.rejectRequest identity id).entitled r) :
    (contract (.rejectRequest identity id) target).Safe failed (rejectRequest env identity id)
      (.pool σ false) := by
  refine safe_withPendingRequest hent fun v H start σ' r hv hparty hinv hp hkey hH => ?_
  subst hv
  obtain rfl : r.recipient = v := hparty
  rw [pairKey_comm] at hkey
  have hp' : Pending σ' r.recipient r.sender id r :=
    ⟨by rw [Db.pendingBetween_comm]; exact hp.mem, hp.id⟩
  refine safe_settle hp' hkey hH (fun H' σ'' h => .rejected h rfl rfl) fun σ'' hrow => ?_
  have hview : ∀ view σ, (contract (.rejectRequest (some r.recipient) id) target).Safe failed
      (notifyRequestUpdated id r.recipient r.sender r.recipient (.done (.request 200 view)))
      (.pool σ true) := fun _ _ => reply_ok rfl
  exact safe_currentFriendRequestView hrow hview

theorem safe_cancelRequest {identity : Option UserId} {id : Int}
    (hent : ∀ r ∈ target, (Call.cancelRequest identity id).entitled r) :
    (contract (.cancelRequest identity id) target).Safe failed (cancelRequest identity id)
      (.pool σ false) := by
  refine safe_withPendingRequest hent fun v H start σ' r hv hparty hinv hp hkey hH => ?_
  subst hv
  obtain rfl : r.sender = v := hparty
  refine safe_settle hp hkey hH (fun H' σ'' h => .cancelled h rfl rfl) fun σ'' hrow => ?_
  exact reply_ok rfl

theorem safe_acceptRequest (env : Env) {identity : Option UserId} {id : Int}
    (hent : ∀ r ∈ target, (Call.acceptRequest identity id).entitled r) :
    (contract (.acceptRequest identity id) target).Safe failed (acceptRequest env identity id)
      (.pool σ false) := by
  refine safe_withPendingRequest hent fun v H start σ' r hv hparty hinv hp hkey hH => ?_
  subst hv
  obtain rfl : r.recipient = v := hparty
  rw [pairKey_comm] at hkey
  have hp' : Pending σ' r.recipient r.sender id r :=
    ⟨by rw [Db.pendingBetween_comm]; exact hp.mem, hp.id⟩
  -- friends have no pending request, so the insert makes them friends
  have hnotFriends : ∀ {σ : State}, Consistent σ → Pending σ r.recipient r.sender id r →
      Db.areFriends σ.db r.recipient r.sender = false := by
    intro σ hinv h
    rw [Bool.eq_false_iff]
    intro hf
    have hmem := h.mem
    rw [(hinv.pairs _ _).friends hf] at hmem
    exact List.not_mem_nil hmem
  refine .exec_some hH fun σ₁ hr₁ hinv₁ _ => ?_
  have hp₁ := hp'.stable hr₁ hkey
  obtain ⟨hne, hv, ht⟩ := hp₁.parties hinv₁
  refine ⟨(), [.insertFriendship ⟨min r.recipient r.sender, max r.recipient r.sender, start⟩], [],
    ?_, rfl, ?_⟩
  · change eval (.insertFriendship r.recipient r.sender) start σ₁.seq σ₁.db = _
    simp [eval, hne, hnotFriends hinv₁ hp₁, hv, ht]
  have hH₁ : LocksOk (H ++ []) σ₁ [.insertFriendship
      ⟨min r.recipient r.sender, max r.recipient r.sender, start⟩] := by
    rw [List.append_nil]
    exact (hH.stable hr₁).write (by simp)
  have hkey₁ : pairKey r.recipient r.sender ∈ H ++ [] := List.mem_append_left _ hkey
  refine .exec_some hH₁ fun σ₂ hr₂ hinv₂ _ => ?_
  have hp₂ : Pending σ₂ r.recipient r.sender id r := hp₁.stable hr₂ hkey₁
  obtain ⟨heval, hlocks⟩ := eval_setStatus hp₂ hinv₂
    (engine.applyAll [.insertFriendship
      ⟨min r.recipient r.sender, max r.recipient r.sender, start⟩] σ₂.db) rfl .accepted start σ₂.seq
  refine ⟨(), _, _, heval, hlocks, ?_⟩
  have hH₂ : LocksOk (H ++ [] ++ [.request id]) σ₂ ([.insertFriendship
      ⟨min r.recipient r.sender, max r.recipient r.sender, start⟩] ++
      [.setStatus [id] .accepted start]) :=
    ((hH₁.stable hr₂).append_pending hp₂ hinv₂ hkey₁).write (by simp)
  have hkey₂ : pairKey r.recipient r.sender ∈ H ++ [] ++ [.request id] :=
    List.mem_append_left _ hkey₁
  refine .exec_some hH₂ fun σ₃ hr₃ hinv₃ _ => ?_
  have hp₃ : Pending σ₃ r.recipient r.sender id r := hp₂.stable hr₃ hkey₂
  -- the accepted request was the only pending one: the third UPDATE matches nothing
  have hothers : Db.otherPending (engine.applyAll ([.insertFriendship
      ⟨min r.recipient r.sender, max r.recipient r.sender, start⟩] ++
      [.setStatus [id] .accepted start]) σ₃.db) id r.recipient r.sender = [] := by
    have hnil := hp₃.settled hinv₃ start (show RequestStatus.accepted ≠ .pending by decide)
    exact congrArg (List.filter _) hnil
  obtain ⟨heval, hlocks⟩ := eval_cancelOthers hothers start σ₃.seq
  refine ⟨(), [], [], heval, hlocks, ?_⟩
  rw [List.append_nil]
  refine ⟨hH₂.stable hr₃, fun σ₄ hr₄ hinv₄ _ => ?_⟩
  have hp₄ : Pending σ₄ r.recipient r.sender id r := hp₃.stable hr₄ hkey₂
  have hc : Commits σ₄ (H ++ [] ++ [.request id]) start (.acceptRequest (some r.recipient) id)
      r.recipient r.sender [.insertFriendship
        ⟨min r.recipient r.sender, max r.recipient r.sender, start⟩,
        .setStatus [id] .accepted start] := .accepted hp₄ rfl rfl (hnotFriends hinv₄ hp₄)
  refine ⟨⟨_, _, hkey₂, hc⟩, ?_⟩
  have hview : ∀ view σ, (contract (.acceptRequest (some r.recipient) id) target).Safe failed
      (notify r.sender "friend_request_updated" (some id) (some r.recipient) <|
        notify r.sender "friendship_changed" none (some r.recipient) <|
        notify r.recipient "friend_request_updated" (some id) (some r.recipient) <|
        notify r.recipient "friendship_changed" none (some r.sender) <|
        .done (.request 200 view)) (.pool σ true) := fun _ _ => reply_ok rfl
  exact safe_currentFriendRequestView (request_after hc hkey₂ hinv₄ hp₄) hview

/-! ### `remove_friend`, `block_user` -/

theorem safe_removeFriend (identity : Option UserId) (friendId : Int) :
    (contract (.removeFriend identity friendId) none).Safe failed (removeFriend identity friendId)
      (.pool σ false) := by
  refine safe_viewerAndOther (reply_error rfl) fun v t σ₁ hv ht htv hinv₁ hu₁ => ?_
  subst hv ht
  have hkey : pairKey v t ∈ [pairKey v t] ++ [] := List.mem_singleton_self _
  refine ⟨rfl, fun σ₂ start hb₂ hinv₂ _ => ⟨locksOk_nil σ₂, rfl, fun σ₃ hr₃ hinv₃ _ => ?_⟩⟩
  refine .exec_some (locksOk_pair v t _) fun σ₄ hr₄ hinv₄ _ => ⟨(), _, [], rfl, rfl, ?_⟩
  refine ⟨(locksOk_pair v t σ₄).write fun row => by split <;> simp,
    fun σ₅ hr₅ hinv₅ _ => ⟨⟨v, t, hkey, .removed ?_⟩, reply_ok rfl⟩⟩
  have hsame : Db.areFriends σ₅.db v t = Db.areFriends σ₄.db v t := rely_friends hr₅ hkey
  rw [hsame]
  rfl

/-- The writes of the two statements of `block_user`, at its commit. -/
theorem safe_blockWrites {H : List Lock} {start : Nat} {v t : UserId} {k : Code} (hne : v ≠ t)
    (hkey : pairKey v t ∈ H) (hH : LocksOk H σ [])
    (hv : Db.userExists σ.db v = true) (ht : Db.userExists σ.db t = true)
    (hk : ∀ σ', (contract (.blockUser (some v) t) none).Safe failed k (.pool σ' true)) :
    (contract (.blockUser (some v) t) none).Safe failed
      (exec (.insertBlock v t) fun _ => exec (.cancelPending v t) fun _ => .commit k)
      (.tx start H σ [] []) := by
  refine .exec_some hH fun σ₁ hr₁ hinv₁ _ => ?_
  have hv₁ : Db.userExists σ₁.db v = true := (rely_userExists hr₁ v).trans hv
  have ht₁ : Db.userExists σ₁.db t = true := (rely_userExists hr₁ t).trans ht
  -- the insert is skipped when the same block is already there
  have hinsert : ∃ ws : List Write,
      engine.eval (.insertBlock v t) start σ₁.seq (engine.applyAll [] σ₁.db) = some ((), ws) ∧
        (ws = [] ∨ ws = [.insertBlock ⟨v, t, start⟩] ∧
          ∀ k ∈ Db.blocks σ₁.db, (k.user, k.blocked) ≠ (v, t)) := by
    change ∃ ws : List Write, eval (.insertBlock v t) start σ₁.seq σ₁.db = some ((), ws) ∧ _
    cases hany : (Db.blocks σ₁.db).any (fun k => k.user == v && k.blocked == t) with
    | true => exact ⟨[], by simp [eval, hne, hany], .inl rfl⟩
    | false =>
        refine ⟨_, by simp [eval, hne, hany, hv₁, ht₁], .inr ⟨rfl, fun k hk heq => ?_⟩⟩
        have hno := List.any_eq_false.mp hany k hk
        simp [(Prod.mk.inj heq).1, (Prod.mk.inj heq).2] at hno
  obtain ⟨ws, heval, hws⟩ := hinsert
  refine ⟨(), ws, [], heval, rfl, ?_⟩
  rw [List.append_nil, List.nil_append]
  have hH₁ : LocksOk H σ₁ ws := by
    refine (hH.stable hr₁).write fun row hrow => ?_
    rcases hws with rfl | ⟨rfl, -⟩ <;> simp at hrow
  refine .exec_some hH₁ fun σ₂ hr₂ hinv₂ _ => ?_
  have hsame : Db.pendingBetween (engine.applyAll ws σ₂.db) v t = Db.pendingBetween σ₂.db v t := by
    rcases hws with rfl | ⟨rfl, -⟩ <;> rfl
  refine ⟨(), settleRows (Db.pendingBetween σ₂.db v t) .cancelled start,
    (Db.pendingBetween σ₂.db v t).map fun r => .request r.id, ?_, ?_, ?_⟩
  · change eval (.cancelPending v t) start σ₂.seq _ = _
    simp only [eval, hsame]
  · change rowLocks (.cancelPending v t) start σ₂.seq _ = _
    simp only [rowLocks, hsame]
  have hH₂ : LocksOk (H ++ (Db.pendingBetween σ₂.db v t).map fun r => .request r.id) σ₂
      (ws ++ settleRows (Db.pendingBetween σ₂.db v t) .cancelled start) := by
    refine ((LocksOk.stable hH₁ hr₂).append_rows hinv₂ _ fun r hr => ?_).write fun row => ?_
    · obtain ⟨hmem, hbt, -⟩ := Db.mem_pendingBetween.mp hr
      exact ⟨hmem, pairKey_eq_iff.mpr (RequestRow.between_iff.mp hbt) ▸ hkey⟩
    · unfold settleRows
      split <;> simp
  have hkey₂ := List.mem_append_left
    ((Db.pendingBetween σ₂.db v t).map fun r => Lock.request r.id) hkey
  refine ⟨hH₂, fun σ₃ hr₃ hinv₃ _ => ⟨⟨v, t, hkey₂, ?_⟩, hk _⟩⟩
  have hpend : Db.pendingBetween σ₃.db v t = Db.pendingBetween σ₂.db v t := rely_pending hr₃ hkey₂
  rw [← hpend]
  refine .blocked hne ?_ ?_ (hws.imp id fun h => ⟨h.1, fun k hk heq => ?_⟩)
  · exact (rely_userExists hr₃ v).trans ((rely_userExists hr₂ v).trans hv₁)
  · exact (rely_userExists hr₃ t).trans ((rely_userExists hr₂ t).trans ht₁)
  · have hbt : k.between v t = true := by
      simp [BlockRow.between, (Prod.mk.inj heq).1, (Prod.mk.inj heq).2]
    exact h.2 k (rely_block hr₂ hkey (rely_block hr₃ hkey₂ hk hbt) hbt) heq

theorem safe_blockUser (identity : Option UserId) (userId : Int) :
    (contract (.blockUser identity userId) none).Safe failed (blockUser identity userId)
      (.pool σ false) := by
  refine safe_viewerAndOther (reply_error rfl) fun v t σ₁ hv ht htv hinv₁ hu₁ => ?_
  subst hv ht
  refine .query_read (fun db => Db.loadUser db t) (fun _ _ _ => rfl) rfl
    (fun _ _ _ => rfl) (fun _ _ => ⟨rfl, .read⟩) fun σ₂ hb₂ hinv₂ _ => ?_
  cases hload : Db.loadUser σ₂.db t with
  | none => exact reply_error rfl _
  | some u =>
      have ht₂ : Db.userExists σ₂.db t = true := by
        exact List.any_eq_true.mpr
          ⟨u, List.mem_of_find?_eq_some hload, by simpa using List.find?_some hload⟩
      refine ⟨rfl, fun σ₃ start hb₃ hinv₃ _ => ⟨locksOk_nil σ₃, rfl, fun σ₄ hr₄ hinv₄ _ => ?_⟩⟩
      have hb₂₄ : Grows σ₂.db σ₄.db := hb₃.2.trans hr₄.1.2
      refine safe_blockWrites (Ne.symm htv) (List.mem_singleton_self _) (locksOk_pair v t _)
        ?_ ?_ fun σ' => reply_ok rfl
      · rw [hb₂₄.userExists, hb₂.2.userExists]
        exact hu₁
      · rw [hb₂₄.userExists]
        exact ht₂

/-! ### The autocommit calls -/

/-- A call without a transaction promises nothing about its answer. -/
theorem reply_auto {committed : Bool} {a : Answer} (hc : c.transactional = false)
    (ht : target = none) : (contract c target).reply committed a :=
  { ok := fun h => absurd (hc.symm.trans h) (by decide)
    notPending := fun h => by rw [ht] at h; cases h }

theorem safe_unblockUser (identity : Option UserId) (userId : Int) :
    (contract (.unblockUser identity userId) none).Safe failed (unblockUser identity userId)
      (.pool σ false) := by
  refine safe_viewerAndOther (fun _ => reply_auto rfl rfl) fun v t σ₁ hv ht htv hinv₁ hu₁ => ?_
  subst hv ht
  intro σ₂ now hb₂ hinv₂ _
  refine ⟨⟨rfl, ?_⟩, reply_auto rfl rfl⟩
  split
  · exact .unblocked
  · exact .read

theorem safe_updatePreferences (identity : Option UserId) (m f : Option String) :
    (contract (.updatePreferences identity m f) none).Safe failed (updatePreferences identity m f)
      (.pool σ false) := by
  refine safe_requireViewer (.inl (reply_auto rfl rfl)) fun v σ₁ hv hinv₁ _ hb₁ hu₁ => ?_
  subst hv
  split
  · exact reply_auto rfl rfl
  split
  · exact reply_auto rfl rfl
  intro σ₂ now hb₂ hinv₂ _
  split
  · exact reply_auto rfl rfl
  · rename_i r ws heval
    simp only [eval] at heval
    split at heval
    · rename_i hok
      cases heval
      rw [Bool.and_eq_true] at hok
      exact ⟨⟨rfl, .preferred (merges_upsert σ₂.db v m f) hok.2 hok.1⟩, reply_auto rfl rfl⟩
    · cases heval

theorem safe_getCurrentUser {env : Env} {id : UserId} {k : ForumUser → Code} {committed : Bool}
    (herr : (contract c target).reply committed (.failure 401))
    (hk : ∀ u σ', u.id = id → (contract c target).Safe failed (k u) (.pool σ' committed)) :
    (contract c target).Safe failed (getCurrentUser env id k) (.pool σ committed) := by
  refine .query_read (fun db => Db.loadUser db id) (fun _ _ _ => rfl) rfl
    (fun _ _ _ => rfl) (fun _ _ => ⟨rfl, .read⟩) fun σ₁ hb₁ hinv₁ _ => ?_
  cases hs : Db.loadUser σ₁.db id with
  | none => exact herr
  | some u =>
      have hid : u.id = id := by simpa using List.find?_some hs
      exact hk _ σ₁ hid

theorem safe_messagePermission {s t : UserId} {k : MessagePermission → Code} {committed : Bool}
    (hk : ∀ p σ', (contract c target).Safe failed (k p) (.pool σ' committed)) :
    (contract c target).Safe failed (messagePermission s t k) (.pool σ committed) := by
  unfold messagePermission
  split
  · exact hk _ σ
  · exact .query_read (fun db => Db.permissionRow db s t) (fun _ _ _ => rfl) rfl
      (fun _ _ _ => rfl) (fun _ _ => ⟨rfl, .read⟩) fun σ₁ _ _ _ => hk _ σ₁

theorem safe_sendMessage (env : Env) (identity : Option UserId) (recipientId : Int)
    (content : String) :
    (contract (.sendMessage identity recipientId content) none).Safe failed
      (sendMessage env identity recipientId content) (.pool σ false) := by
  cases identity with
  | none => exact reply_auto rfl rfl
  | some v =>
      unfold sendMessage
      refine safe_getCurrentUser (reply_auto rfl rfl) fun sender σ₁ (hv : sender.id = v) => ?_
      by_cases hself : sender.id = recipientId
      · rw [if_pos hself]
        exact reply_auto rfl rfl
      rw [if_neg hself]
      generalize validateContent content maxMessageChars = checked
      cases checked with
      | none => exact reply_auto rfl rfl
      | some text =>
          refine safe_getCurrentUser (reply_auto rfl rfl) fun recipient σ₂ ht => ?_
          refine safe_messagePermission fun permission σ₃ => ?_
          split
          · exact reply_auto rfl rfl
          -- the permission was read before; the `INSERT` is a statement of its own
          intro σ₄ now hb₄ hinv₄ _
          split
          · exact reply_auto rfl rfl
          · rename_i r ws heval
            simp only [eval] at heval
            split at heval
            · cases heval
              exact ⟨⟨rfl, .messaged hv rfl⟩, reply_auto rfl rfl⟩
            · cases heval

/-! ### Every call -/

/-- **Every handler keeps its contract.** A target is only known to the calls
that are entitled to settle it. -/
theorem Call.safe (env : Env) (c : Call) (target : Option RequestRow)
    (hent : ∀ r ∈ target, c.entitled r) :
    (contract c target).Safe c.failed (c.code env) (.pool σ false) := by
  cases c with
  | acceptRequest v id => exact safe_acceptRequest env hent
  | rejectRequest v id => exact safe_rejectRequest env hent
  | cancelRequest v id => exact safe_cancelRequest hent
  | createRequest v rid msg =>
      -- the other calls settle no request of a given id
      obtain rfl : target = none := Option.eq_none_iff_forall_ne_some.mpr hent
      exact safe_createRequest env v rid msg rfl
  | removeFriend v u =>
      obtain rfl : target = none := Option.eq_none_iff_forall_ne_some.mpr hent
      exact safe_removeFriend v u
  | blockUser v u =>
      obtain rfl : target = none := Option.eq_none_iff_forall_ne_some.mpr hent
      exact safe_blockUser v u
  | unblockUser v u =>
      obtain rfl : target = none := Option.eq_none_iff_forall_ne_some.mpr hent
      exact safe_unblockUser v u
  | updatePreferences v m f =>
      obtain rfl : target = none := Option.eq_none_iff_forall_ne_some.mpr hent
      exact safe_updatePreferences v m f
  | sendMessage v u text =>
      obtain rfl : target = none := Option.eq_none_iff_forall_ne_some.mpr hent
      exact safe_sendMessage env v u text

end Handlers

end DevbitBackend.Social
