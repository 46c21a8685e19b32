import DevbitBackend.Social.Runs

/-!
# Social.Lifecycle

The life of a friend request under any interleaving: what never changes, who
settles it, that it is settled once, and what the calls that come too late are
told (`request_lifecycle`).
-/

namespace DevbitBackend.Social

open Txn Transition

/-- The call is an accept, a reject or a cancel of the request `id`, by anyone. -/
def Call.settles (id : RequestId) : Call → Prop
  | .acceptRequest _ id' => id' = id
  | .rejectRequest _ id' => id' = id
  | .cancelRequest _ id' => id' = id
  | _ => False

/-- The calls that may give the request `r` the status `st`. -/
def Call.maySettle (r : RequestRow) (c : Call) : RequestStatus → Prop
  | .pending => False
  | .accepted => c = .acceptRequest (some r.recipient) r.id
  | .rejected => c = .rejectRequest (some r.recipient) r.id
  | .cancelled => c = .cancelRequest (some r.sender) r.id ∨
      c = .blockUser (some r.sender) r.recipient ∨ c = .blockUser (some r.recipient) r.sender

/-! ### One transaction -/

section Commit

variable {σ : State} {H : List Lock} {now : Nat} {v t : UserId} {c : Call} {ws : List Write}

/-- The row of a request after an `UPDATE`. -/
theorem row_setStatus {db : Db} (hkeys : (db.requests.map (·.id)).Nodup) {ids : List RequestId}
    {st : RequestStatus} {r r' : RequestRow} (hr : r ∈ db.requests)
    (hr' : r' ∈ (Write.apply (.setStatus ids st now) db).requests) (hid : r'.id = r.id) :
    r' = if r.id ∈ ids then r.settle st now else r := by
  obtain ⟨r₀, hr₀, rfl⟩ := List.mem_map.mp hr'
  have hid₀ : r₀.id = r.id := by
    rw [← hid]
    split <;> rfl
  obtain rfl := List.inj_on_of_nodup_map hkeys hr₀ hr hid₀
  rfl

/-- A committed transaction changes the status of a request only as its call may. -/
theorem Commits.maySettle (h : Commits σ H now c v t ws) (hinv : Consistent σ)
    {r r' : RequestRow} (hr : r ∈ Db.requests σ.db) (hr' : r' ∈ Db.requests (σ.write ws).db)
    (hid : r'.id = r.id) (hne : r'.status ≠ r.status) : c.maySettle r r'.status := by
  have hkeys := hinv.schema.requestKeys
  -- the same row cannot have two statuses
  have hsame : ¬ r' ∈ Db.requests σ.db := fun hmem =>
    hne (by rw [List.inj_on_of_nodup_map hkeys hmem hr hid])
  -- one pending request is settled: the row with its id
  have hone : ∀ {id : RequestId} {st : RequestStatus} {p : RequestRow},
      Pending σ v t id p → r' = (if r.id ∈ [id] then r.settle st now else r) →
        r.id = id ∧ r = p ∧ r'.status = st := by
    intro id st p hp heq
    by_cases hrid : r.id ∈ [id]
    · rw [if_pos hrid] at heq
      have hrid' := List.mem_singleton.mp hrid
      exact ⟨hrid', hp.only hinv r hr hrid', by rw [heq]; rfl⟩
    · rw [if_neg hrid] at heq
      exact absurd (heq ▸ rfl) hne
  cases h with
  | repeated => exact absurd hr' hsame
  | @created _ _ _ _ row hn =>
      rcases List.mem_append.mp hr' with hmem | hmem
      · exact absurd hmem hsame
      · obtain rfl : r' = row := by simpa using hmem
        exact absurd hid.symm (hn.fresh r hr)
  | @accepted _ _ id p hp hrec hsen hf =>
      obtain ⟨hrid, rfl, hst⟩ := hone hp (row_setStatus hkeys hr hr' hid)
      rw [hst, ← hrid, ← hrec]
      rfl
  | @rejected _ _ id p hp hrec hsen =>
      obtain ⟨hrid, rfl, hst⟩ := hone hp (row_setStatus hkeys hr hr' hid)
      rw [hst, ← hrid, ← hrec]
      rfl
  | @cancelled _ _ id p hp hsen hrec =>
      obtain ⟨hrid, rfl, hst⟩ := hone hp (row_setStatus hkeys hr hr' hid)
      rw [hst, ← hrid, ← hsen]
      exact .inl rfl
  | removed hws =>
      subst hws
      split at hr' <;> exact absurd hr' hsame
  | @blocked _ _ ws hne' hv ht hws =>
      have hreq : Db.requests (engine.applyAll ws σ.db) = Db.requests σ.db := by
        rcases hws with rfl | ⟨rfl, -⟩ <;> rfl
      simp only [Snap.write] at hr'
      rw [engine.applyAll_append] at hr'
      unfold settleRows at hr'
      split at hr'
      · exact absurd (hreq ▸ hr') hsame
      · rw [← hreq] at hkeys hr
        have heq := row_setStatus hkeys hr hr' hid
        by_cases hrid : r.id ∈ (Db.pendingBetween σ.db v t).map (·.id)
        · rw [if_pos hrid] at heq
          obtain ⟨p, hp, hpid⟩ := List.mem_map.mp hrid
          obtain ⟨hmem, hbt, -⟩ := Db.mem_pendingBetween.mp hp
          obtain rfl := List.inj_on_of_nodup_map hkeys (hreq ▸ hmem) hr hpid
          rw [heq]
          rcases RequestRow.between_iff.mp hbt with ⟨rfl, rfl⟩ | ⟨rfl, rfl⟩
          · exact .inr (.inl rfl)
          · exact .inr (.inr rfl)
        · rw [if_neg hrid] at heq
          exact absurd (heq ▸ rfl) hne

/-- A committed transaction adds pending requests only. -/
theorem Commits.newPending (h : Commits σ H now c v t ws)
    {r' : RequestRow} (hr' : r' ∈ Db.requests (σ.write ws).db)
    (hnew : ∀ r ∈ Db.requests σ.db, r.id ≠ r'.id) : r'.status = .pending := by
  rcases mem_requests_applyAll hr' with ⟨r, hr, hid⟩ | ⟨row, hrow, hid⟩
  · exact absurd hid (hnew r hr)
  · cases h with
    | @created _ _ _ _ row' hn =>
        obtain rfl : row = row' := by simpa using hrow
        rcases List.mem_append.mp hr' with hmem | hmem
        · exact absurd rfl (hnew r' hmem)
        · obtain rfl : r' = row := by simpa using hmem
          simpa [RequestRow.isPending] using hn.pending
    | repeated => exact absurd hrow List.not_mem_nil
    | accepted => simp at hrow
    | rejected => simp at hrow
    | cancelled => simp at hrow
    | removed hws =>
        subst hws
        split at hrow <;> simp at hrow
    | @blocked _ _ ws hne' hv ht hws =>
        -- cancelling updates rows and inserts none
        have hsettle : Write.insertRequest row ∉
            settleRows (Db.pendingBetween σ.db v t) .cancelled now := by
          unfold settleRows
          split <;> simp
        rcases hws with rfl | ⟨rfl, -⟩ <;> simp [hsettle] at hrow

/-- A call that settles `id` finds it pending, and its commit leaves it settled. -/
theorem Commits.settled {id : RequestId} (h : Commits σ H now c v t ws) (hc : c.settles id) :
    (∃ p, Pending σ v t id p) ∧
      ∃ r ∈ Db.requests (σ.write ws).db, r.id = id ∧ r.isPending = false := by
  have hmap : ∀ {p : RequestRow} (st : RequestStatus), Pending σ v t id p → st ≠ .pending →
      ∃ r ∈ (Write.apply (.setStatus [id] st now) σ.db).requests, r.id = id ∧
        r.isPending = false := by
    intro p st hp hst
    refine ⟨_, List.mem_map_of_mem (Db.mem_pendingBetween.mp hp.mem).1, ?_⟩
    simp [hp.id, hst]
  cases h with
  | accepted hp =>
      obtain rfl : _ = id := hc
      exact ⟨⟨_, hp⟩, hmap .accepted hp (by decide)⟩
  | rejected hp =>
      obtain rfl : _ = id := hc
      exact ⟨⟨_, hp⟩, hmap .rejected hp (by decide)⟩
  | cancelled hp =>
      obtain rfl : _ = id := hc
      exact ⟨⟨_, hp⟩, hmap .cancelled hp (by decide)⟩
  | _ => exact hc.elim

end Commit

theorem Autos.requests {σ : State} {c : Call} {ws : List Write} (h : Autos σ c ws) :
    Db.requests (engine.applyAll ws σ.db) = Db.requests σ.db := by
  cases h <;> rfl

/-- Outside its transaction a call that settles a request only reads. -/
theorem Autos.eq_nil {σ : State} {c : Call} {ws : List Write} {id : RequestId}
    (h : Autos σ c ws) (hc : c.settles id) : ws = [] := by
  cases h with
  | read => rfl
  | _ => exact hc.elim

/-! ### Whole runs -/

theorem Call.failed_isOk (c : Call) : c.failed.isOk = false := by
  cases c <;> rfl

theorem Call.transactional_of_settles {c : Call} {id : RequestId} (h : c.settles id) :
    c.transactional = true := by
  cases c <;> first | rfl | exact h.elim

/-- A request that is settled stays as it is. -/
theorem settled_of_base {σ σ' : State} {id : RequestId} (hb : discipline.Base σ σ')
    (h : ∃ r ∈ Db.requests σ.db, r.id = id ∧ r.isPending = false) :
    ∃ r ∈ Db.requests σ'.db, r.id = id ∧ r.isPending = false := by
  obtain ⟨r, hr, hid, hp⟩ := h
  obtain ⟨r', hr', he⟩ := hb.2.rows r hr
  obtain rfl := he.final hp
  exact ⟨r', hr', hid, hp⟩

section Runs

variable {ι : Type} [DecidableEq ι] {calls : ι → Call}

/-- After every recorded event, a request that a call has settled is not pending,
and no two calls have settled it. -/
theorem trace_settled {faulty : Bool} {σ₀ σ : State} {log : List (Entry engine ι)}
    (h : Trace (fun i => contract (calls i) none) faulty [] σ₀ log σ) {id : RequestId} :
    (∀ i, (calls i).settles id → committed i log = true →
      ∃ r ∈ Db.requests σ.db, r.id = id ∧ r.isPending = false) ∧
    ∀ i j, (calls i).settles id → (calls j).settles id → committed i log = true →
      committed j log = true → i = j := by
  induction h with
  | start => simp [committed]
  | bump _ ih => exact ih
  | @commit log σ k start H ws notes _ hinv _ hc ih =>
      obtain ⟨hrow, huniq⟩ := ih
      obtain ⟨v, t, hH, hcommit⟩ := hc
      -- who has committed now, had before or is `k`
      have hcases : ∀ i, committed i (log ++ [.commit k start ws notes]) = true →
          committed i log = true ∨ i = k := by
        intro i hi
        rw [committed_append, Bool.or_eq_true] at hi
        simpa [Entry.commitOf] using hi
      -- `k` finds its request pending, so nobody has settled it
      have hfirst : (calls k).settles id → ∀ i, (calls i).settles id → committed i log = false := by
        intro hk i hi
        by_contra hcon
        obtain ⟨r, hr, hid, hp⟩ := hrow i hi (by simpa using hcon)
        obtain ⟨p, hpend⟩ := (hcommit.settled hk).1
        obtain rfl := hpend.only hinv r hr hid
        rw [(Db.mem_pendingBetween.mp hpend.mem).2.2] at hp
        cases hp
      constructor
      · intro i hi hci
        rcases hcases i hci with hci | rfl
        · exact settled_of_base (hcommit.sound hH hinv).2.1 (hrow i hi hci)
        · exact (hcommit.settled hi).2
      · intro i j hi hj hci hcj
        rcases hcases i hci with hi' | rfl <;> rcases hcases j hcj with hj' | rfl
        · exact huniq i j hi hj hi' hj'
        · exact absurd hi' (by simp [hfirst hj i hi])
        · exact absurd hj' (by simp [hfirst hi j hj])
        · rfl
  | @auto log σ k at_ H ws _ hinv _ hc ih =>
      obtain ⟨hrow, huniq⟩ := ih
      have hsame : ∀ i, committed i (log ++ [.auto k at_ ws]) = committed i log :=
        fun i => committed_append_other rfl
      simp only [hsame]
      exact ⟨fun i hi hci => settled_of_base (hc.2.sound hinv).2.1 (hrow i hi hci), huniq⟩
  | abort _ _ _ _ ih => simpa [committed_append, Entry.commitOf] using ih
  | fault _ _ ih => simpa [committed_append, Entry.commitOf] using ih
  | note _ ih => simpa [committed_append, Entry.commitOf] using ih

variable {env : Env} {users : List UserRow} {messages : List MessageRow}
  {seq now poolSize : Nat} {faulty : Bool} {s s' : Server ι} {σ₀ : State}

/-- The rows of a request at two moments of a run. -/
theorem evolves_of_reachable (hinv : ServerInv poolSize faulty calls σ₀ s)
    (hr : Reachable (serve poolSize faulty calls) s s') {r : RequestRow}
    (hmem : r ∈ Db.requests s.db) :
    (∃ r' ∈ Db.requests s'.db, r'.id = r.id) ∧
      ∀ r' ∈ Db.requests s'.db, r'.id = r.id → r.Evolves r' := by
  obtain ⟨r₁, hr₁, he⟩ := (hinv.base_of_reachable hr).2.rows r hmem
  refine ⟨⟨r₁, hr₁, he.id⟩, fun r' hr' hid => ?_⟩
  have hkeys := (sysInv_reachable hr hinv).inv.schema.requestKeys
  obtain rfl := List.inj_on_of_nodup_map hkeys hr' hr₁ (hid.trans he.id.symm)
  exact he

/-- One move: a row is as it was, is settled by a call that may, or is a new
pending one. -/
theorem status_of_step {l : Label ι} (hinv : ServerInv poolSize faulty calls σ₀ s)
    (hstep : serve poolSize faulty calls l s = some s') {r' : RequestRow}
    (hr' : r' ∈ Db.requests s'.db) :
    (∃ r ∈ Db.requests s.db, r.id = r'.id ∧ (r'.status = r.status ∨
        ∃ i, l = .run i ∧ (calls i).maySettle r r'.status)) ∨
      (∀ r ∈ Db.requests s.db, r.id ≠ r'.id) ∧ r'.status = .pending := by
  by_cases hold : ∃ r ∈ Db.requests s.db, r.id = r'.id
  · obtain ⟨r, hr, hid⟩ := hold
    refine .inl ⟨r, hr, hid, ?_⟩
    by_contra hcon
    obtain ⟨hne, hnot⟩ := not_or.mp hcon
    -- ids are unique, so the same table holds the same row under this id
    have hunchanged : Db.requests s'.db = Db.requests s.db → False := fun heq => hne (by
      rw [List.inj_on_of_nodup_map hinv.inv.schema.requestKeys (heq ▸ hr') hr hid.symm])
    cases hinv.effect hstep with
    | silent hdb _ => exact hunchanged (congrArg Db.requests hdb)
    | @auto i st H k res ws _ _ hc hsnap _ =>
        have hreq : Db.requests s'.db = Db.requests (engine.applyAll ws s.db) :=
          congrArg Db.requests (congrArg Snap.db hsnap)
        exact hunchanged (hreq.trans hc.2.requests)
    | @commit i start H ws notes k _ hc hsnap _ =>
        obtain ⟨v, t, -, hcommit⟩ := hc
        have hdb : s'.db = (s.snap.write ws).db := congrArg Snap.db hsnap
        exact hnot ⟨i, rfl, hcommit.maySettle hinv.inv hr (hdb ▸ hr') hid.symm hne⟩
  · have hnew : ∀ r ∈ Db.requests s.db, r.id ≠ r'.id := fun r hr hid => hold ⟨r, hr, hid⟩
    refine .inr ⟨hnew, ?_⟩
    cases hinv.effect hstep with
    | silent hdb _ => exact absurd rfl (hnew r' (hdb ▸ hr'))
    | @auto i st H k res ws _ _ hc hsnap _ =>
        have hreq : Db.requests s'.db = Db.requests (engine.applyAll ws s.db) :=
          congrArg Db.requests (congrArg Snap.db hsnap)
        exact absurd rfl (hnew r' (hc.2.requests ▸ hreq ▸ hr'))
    | @commit i start H ws notes k _ hc hsnap _ =>
        obtain ⟨v, t, -, hcommit⟩ := hc
        have hdb : s'.db = (s.snap.write ws).db := congrArg Snap.db hsnap
        exact hcommit.newPending (hdb ▸ hr') hnew

/-- A call that has not committed has changed nothing. -/
theorem unchanged_of_step {l : Label ι} {j : ι} {id : RequestId}
    (hinv : ServerInv poolSize faulty calls σ₀ s) (hj : (calls j).settles id)
    (hstep : serve poolSize faulty calls l s = some s') (hl : l = .run j ∨ l = .fail j)
    (hc : committed j s'.log = false) : s'.db = s.db := by
  cases hinv.effect hstep with
  | silent hdb _ => exact hdb
  | @auto i st H k res ws _ _ hauto hsnap _ =>
      obtain rfl : i = j := by simpa using hl
      have hdb : s'.db = engine.applyAll ws s.db := congrArg Snap.db hsnap
      rw [hdb, hauto.2.eq_nil hj]
      rfl
  | @commit i start H ws notes k _ _ _ hlog =>
      obtain rfl : i = j := by simpa using hl
      rw [hlog, committed_append] at hc
      simp [Entry.commitOf] at hc

/-- A call that has answered without committing answered an error. -/
theorem failed_of_done {j : ι} {id : RequestId} {a : Answer}
    (hinv : ServerInv poolSize faulty calls σ₀ s) (hj : (calls j).settles id)
    (hd : s.calls j = .done a) (hc : committed j s.log = false) : a.isOk = false := by
  have hok := hinv.calls j
  rw [hd] at hok
  rcases hok.2 with hreply | ⟨-, rfl⟩
  · rw [hreply.ok (Call.transactional_of_settles hj), hc]
  · exact (calls j).failed_isOk

/-- An entitled party that comes too late is told that the request is not
pending. -/
theorem notPending_of_done {j : ι} {p : Code} {r : RequestRow} {a : Answer}
    (hinv : ServerInv poolSize false calls σ₀ s) (hidle : s.calls j = .idle p)
    (hp : p = (calls j).code env) (hr : r ∈ Db.requests s.db) (hj : (calls j).entitled r)
    (hreach : Reachable (serve poolSize false calls) s s') (hd : s'.calls j = .done a)
    (hc : committed j s'.log = false) : a = .error .requestNotPending := by
  have hknown : (contract (calls j) (some r)).known s.snap := by
    intro r' hr'
    obtain rfl := Option.some.inj hr'
    exact ⟨r, hr, .refl r⟩
  have hsafe := (calls j).safe env (some r) (σ := s.snap) fun r' hr' => by
    obtain rfl := Option.some.inj hr'
    exact hj
  subst hp
  have hok := (sysInv_reachable hreach (hinv.rebase hidle hknown hsafe)).calls j
  rw [hd, Function.update_self] at hok
  rcases hok.2 with hreply | ⟨hf, -⟩
  · rw [hc] at hreply
    exact hreply.notPending rfl rfl
  · cases hf

/-- **The life of a friend request.** From any moment of a run on, every request
keeps its row, its parties, its message and its creation time, and once it is not
pending it keeps everything. A move that changes a status is one of a call that
may, and new requests are pending. Of the calls that accept, reject or cancel one
request at most one commits; the others change nothing and answer an error, which
is `REQUEST_NOT_PENDING` for an entitled party whose call arrives while the
request exists. -/
theorem request_lifecycle
    (h : Reachable (serve poolSize faulty calls) (server env (freshDb users messages) seq now calls)
      s) :
    (∀ s', Reachable (serve poolSize faulty calls) s s' → ∀ r ∈ Db.requests s.db,
      (∃ r' ∈ Db.requests s'.db, r'.id = r.id) ∧
        ∀ r' ∈ Db.requests s'.db, r'.id = r.id → r.Evolves r') ∧
    (∀ l s', serve poolSize faulty calls l s = some s' → ∀ r' ∈ Db.requests s'.db,
      (∃ r ∈ Db.requests s.db, r.id = r'.id ∧ (r'.status = r.status ∨
          ∃ i, l = .run i ∧ (calls i).maySettle r r'.status)) ∨
        (∀ r ∈ Db.requests s.db, r.id ≠ r'.id) ∧ r'.status = .pending) ∧
    (∀ id i j, (calls i).settles id → (calls j).settles id → i ≠ j → committed i s.log = true →
      committed j s.log = false) ∧
    (∀ id j, (calls j).settles id →
      (∀ a, s.calls j = .done a → committed j s.log = false → a.isOk = false) ∧
      ∀ l s', serve poolSize faulty calls l s = some s' → l = .run j ∨ l = .fail j →
        committed j s'.log = false → s'.db = s.db) ∧
    (∀ r j, r ∈ Db.requests s.db → (calls j).entitled r →
      s.calls j = .idle ((calls j).code env) → faulty = false →
        ∀ s' a, Reachable (serve poolSize faulty calls) s s' → s'.calls j = .done a →
          committed j s'.log = false → a = .error .requestNotPending) := by
  have hinv := serverInv_reachable h
  refine ⟨fun s' hs' r hr => evolves_of_reachable hinv hs' hr,
    fun l s' hstep r' hr' => status_of_step hinv hstep hr', fun id i j hi hj hij hci => ?_,
    fun id j hj => ⟨fun a hd hc => failed_of_done hinv hj hd hc,
      fun l s' hstep hl hc => unchanged_of_step hinv hj hstep hl hc⟩, ?_⟩
  · by_contra hcj
    exact hij ((trace_settled hinv.trace).2 i j hi hj hci (by simpa using hcj))
  · rintro r j hr hj hidle rfl s' a hreach hd hc
    exact notPending_of_done hinv hidle rfl hr hj hreach hd hc

end Runs

/-! A race: 2 accepts the request of 1 while 1 takes it back. -/

inductive Racer
  | create
  | accept
  | cancel
  deriving DecidableEq

def raceCalls : Racer → Call
  | .create => .createRequest (some 1) (some 2) none
  | .accept => .acceptRequest (some 2) 1
  | .cancel => .cancelRequest (some 1) 1

/-- The accept is through its transaction before the cancel gets the pair lock. -/
def raceRun : List (Label Racer) :=
  List.replicate 13 (.run .create) ++ List.replicate 5 (.run .accept) ++
    List.replicate 4 (.run .cancel) ++ List.replicate 6 (.run .accept)

theorem race_reachable : ∃ s, Reachable (serve 3 false raceCalls)
    (server demoEnv (freshDb demoUsers []) 0 0 raceCalls) s ∧
      (committed .accept s.log, Db.areFriends s.db 1 2) = (true, true) :=
  exists_reachable_of_replay raceRun
    (fun s : Server Racer => (committed .accept s.log, Db.areFriends s.db 1 2)) (by decide)

/-- The cancel of the race cannot commit any more. -/
theorem request_lifecycle_race : ∃ s : Server Racer, committed .accept s.log = true ∧
    committed .cancel s.log = false := by
  obtain ⟨s, hs, hc⟩ := race_reachable
  exact ⟨s, (Prod.mk.inj hc).1, (request_lifecycle hs).2.2.1 1 .accept .cancel rfl rfl (by decide)
    (Prod.mk.inj hc).1⟩

end DevbitBackend.Social
