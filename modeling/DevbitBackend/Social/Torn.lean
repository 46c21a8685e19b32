import DevbitBackend.Lib.Snapshot
import DevbitBackend.Social.Mirror

/-!
# Social.Torn

`RelationshipContext::load` while other calls run. Its four queries are statements of
their own on the pool, so transactions may commit between them, and the context may
mix several states. What is shown of a target is that of one committed state as long as
no commit changes what is still to be read about the pair while what has been read is
outdated (`load_not_torn`).
-/

namespace DevbitBackend.Social

open Txn Transition Snapshot

/-! ### The load, query by query -/

/-- The queries of `RelationshipContext::load`. -/
inductive ContextQuery
  | friends
  | blocks
  | requests
  | policies
  deriving DecidableEq, Repr

namespace ContextQuery

/-- The queries in the order in which they run. -/
def all : List ContextQuery := [.friends, .blocks, .requests, .policies]

theorem mem_all (q : ContextQuery) : q ∈ all := by cases q <;> decide

/-- Run the query on `db` and put its rows into the context. -/
def run (viewer : UserId) (targets : List UserId) (db : Db) (ctx : RelationshipContext) :
    ContextQuery → RelationshipContext
  | .friends => { ctx with friends := db.contextFriends viewer targets }
  | .blocks => (db.contextBlocks viewer targets).foldl (.addBlock viewer) ctx
  | .requests => (db.contextRequests viewer targets).foldl (.addRequest viewer) ctx
  | .policies => (db.contextPolicies targets).foldl .addPolicy ctx

/-- Nothing has been put into the context by the query. -/
def Blank (ctx : RelationshipContext) : ContextQuery → Prop
  | .friends => True
  | .blocks => ctx.blockedByMe = [] ∧ ctx.blockingMe = []
  | .requests => ctx.outgoing = [] ∧ ctx.incoming = []
  | .policies => ctx.policies = []

end ContextQuery

/-! ### What a query reads about one target -/

/-- What is known of a viewer and a target from one of the tables. -/
inductive PairFact
  | friend (areFriends : Bool)
  | blocks (byViewer byTarget : Bool)
  | requests (outgoing incoming : Option RequestId)
  | policy (policy : MessagePolicy)
  deriving DecidableEq

/-- What the table of the query holds about the pair. -/
def Db.pairFact (db : Db) (viewer target : UserId) : ContextQuery → PairFact
  | .friends => .friend (db.areFriends viewer target)
  | .blocks =>
      .blocks (db.blocks.any fun k => k.user == viewer && k.blocked == target)
        (db.blocks.any fun k => k.user == target && k.blocked == viewer)
  | .requests =>
      .requests ((db.pendingFrom viewer target).map (·.id))
        ((db.pendingFrom target viewer).map (·.id))
  | .policies =>
      .policy (((db.preferencesOf target).map fun p => .fromDb p.messagePolicy).getD .everyone)

namespace RelationshipContext

/-- What the context holds about a target, as far as it comes from the query. -/
def finding (ctx : RelationshipContext) (target : UserId) : ContextQuery → PairFact
  | .friends => .friend (ctx.friends.contains target)
  | .blocks => .blocks (ctx.blockedByMe.contains target) (ctx.blockingMe.contains target)
  | .requests => .requests (ctx.outgoing.lookup target) (ctx.incoming.lookup target)
  | .policies => .policy ((ctx.policies.lookup target).getD .everyone)

/-- The relationship, the request id and `canMessage` that are shown of a target. -/
def shown (ctx : RelationshipContext) (viewer target : UserId) :
    (Relationship × Option RequestId) × Bool :=
  (ctx.relationship target, ctx.canMessage viewer target)

section Findings

variable {viewer target : UserId} {targets : List UserId} {ctx ctx' : RelationshipContext} {db : Db}
  {q q' : ContextQuery}

/-- What is shown is made of the findings. -/
theorem shown_congr (h : ∀ q, ctx.finding target q = ctx'.finding target q) :
    ctx.shown viewer target = ctx'.shown viewer target := by
  have hfriends := PairFact.friend.inj (h .friends)
  have hblocks := PairFact.blocks.inj (h .blocks)
  have hrequests := PairFact.requests.inj (h .requests)
  have hpolicies := PairFact.policy.inj (h .policies)
  simp only [shown, relationship, canMessage, hfriends, hblocks, hrequests, hpolicies]

/-- `load` runs all queries on one state. -/
theorem load_eq_run (h : target ∈ targets) :
    load db viewer targets =
      ContextQuery.all.foldl (fun ctx q => q.run viewer targets db ctx) default := by
  have hne : targets.isEmpty = false := by
    rw [List.isEmpty_eq_false_iff]
    exact List.ne_nil_of_mem h
  simp [load, hne, ContextQuery.all, ContextQuery.run, ofRows]

/-- A query finds what it finds in a load. -/
theorem finding_run (h : target ∈ targets) (hblank : q.Blank ctx) :
    (q.run viewer targets db ctx).finding target q = (load db viewer targets).finding target q := by
  rw [load_eq h]
  cases q with
  | friends => rfl
  | blocks => simp [ContextQuery.run, foldl_addBlock, finding, hblank.1, hblank.2]
  | requests => simp [ContextQuery.run, foldl_addRequest, finding, hblank.1, hblank.2]
  | policies =>
      have hnil : ctx.policies = [] := hblank
      simp [ContextQuery.run, foldl_addPolicy, finding, hnil]

/-- It does not touch what comes from the others. -/
theorem run_ne (target : UserId) (h : q' ≠ q) :
    (q.run viewer targets db ctx).finding target q' = ctx.finding target q' ∧
      (q'.Blank (q.run viewer targets db ctx) ↔ q'.Blank ctx) := by
  cases q with
  | friends => cases q' <;> first | exact absurd rfl h | exact ⟨rfl, .rfl⟩
  | blocks =>
      rw [ContextQuery.run, foldl_addBlock]
      cases q' <;> first | exact absurd rfl h | exact ⟨rfl, .rfl⟩
  | requests =>
      rw [ContextQuery.run, foldl_addRequest]
      cases q' <;> first | exact absurd rfl h | exact ⟨rfl, .rfl⟩
  | policies =>
      rw [ContextQuery.run, foldl_addPolicy]
      cases q' <;> first | exact absurd rfl h | exact ⟨rfl, .rfl⟩

/-- A look-up that can find one value only. -/
theorem lookup_eq_some_iff {l : List (UserId × RequestId)} {P : RequestId → Prop}
    (hmem : ∀ id, (target, id) ∈ l ↔ P id) (hunique : ∀ id id', P id → P id' → id = id')
    {id : RequestId} : l.lookup target = some id ↔ P id := by
  constructor
  · intro h
    exact (hmem id).mp (mem_of_lookup h)
  · intro h
    cases hl : l.lookup target with
    | none => exact absurd ((hmem id).mpr h) (not_mem_of_lookup hl id)
    | some id' => rw [hunique id id' h ((hmem id').mp (mem_of_lookup hl))]

end Findings

section Load

variable {viewer target : UserId} {targets : List UserId} {db : Db}

/-- `mem_blockingMe` and `mem_incoming`, for a viewer that is the target too. -/
theorem not_mem_self (h : target ∈ targets) :
    target ∉ (load db target targets).blockingMe ∧
      ∀ id, (target, id) ∉ (load db target targets).incoming := by
  rw [load_eq h]
  constructor
  · simp
  · simp

theorem blocks_load (hs : SchemaOk db) (h : target ∈ targets) :
    (load db viewer targets).finding target .blocks = db.pairFact viewer target .blocks := by
  have hme : (load db viewer targets).blockedByMe.contains target =
      db.blocks.any fun k => k.user == viewer && k.blocked == target := by
    rw [Bool.eq_iff_iff, List.contains_iff_mem, mem_blockedByMe h]
    simp
  have hother : (load db viewer targets).blockingMe.contains target =
      db.blocks.any fun k => k.user == target && k.blocked == viewer := by
    rw [Bool.eq_iff_iff, List.contains_iff_mem]
    by_cases hne : viewer = target
    · subst hne
      refine iff_of_false (not_mem_self h).1 ?_
      simp only [List.any_eq_true, Bool.and_eq_true, beq_iff_eq, not_exists, not_and]
      intro k hk huser hblocked
      exact (hs.blockParties k hk).1 (huser.trans hblocked.symm)
    · rw [mem_blockingMe h hne]
      simp
  simp only [finding, Db.pairFact, hme, hother]

/-- The pending request of one direction. -/
theorem pendingFrom_eq_some_iff {a b : UserId} (hp : PairOk db a b) {id : RequestId} :
    (db.pendingFrom a b).map (·.id) = some id ↔ db.Pending id a b := by
  have hrow : ∀ r, db.pendingFrom a b = some r → db.Pending r.id a b := by
    intro r hr
    have hwhere := List.find?_some hr
    simp only [Bool.and_eq_true, beq_iff_eq] at hwhere
    exact ⟨r, List.mem_of_find?_eq_some hr, rfl, hwhere.2, hwhere.1.1, hwhere.1.2⟩
  constructor
  · intro h
    obtain ⟨r, hr, rfl⟩ := Option.map_eq_some_iff.mp h
    exact hrow r hr
  · intro h
    cases hfrom : db.pendingFrom a b with
    | some r => rw [Option.map_some, (hrow r hfrom).unique hp h]
    | none =>
        obtain ⟨r, hr, -, hpending, hs, ht⟩ := h
        have hnone := List.find?_eq_none.mp hfrom r hr
        simp [hpending, hs, ht] at hnone

theorem requests_load (hs : SchemaOk db) (hp : PairOk db viewer target) (h : target ∈ targets) :
    (load db viewer targets).finding target .requests = db.pairFact viewer target .requests := by
  have hout : (load db viewer targets).outgoing.lookup target =
      (db.pendingFrom viewer target).map (·.id) := by
    refine Option.ext fun id => ?_
    rw [pendingFrom_eq_some_iff hp]
    exact lookup_eq_some_iff (P := fun id => db.Pending id viewer target)
      (fun id => mem_outgoing h) fun id id' hid hid' => hid.unique hp hid'
  have hin : (load db viewer targets).incoming.lookup target =
      (db.pendingFrom target viewer).map (·.id) := by
    refine Option.ext fun id => ?_
    rw [pendingFrom_eq_some_iff hp.comm]
    refine lookup_eq_some_iff (P := fun id => db.Pending id target viewer) (fun id => ?_)
      fun id id' hid hid' => hid.unique hp.comm hid'
    by_cases hne : viewer = target
    · subst hne
      refine iff_of_false ((not_mem_self h).2 id) ?_
      rintro ⟨r, hr, -, -, hsender, hrecipient⟩
      exact (hs.requestParties r hr).1 (hsender.trans hrecipient.symm)
    · exact mem_incoming h hne
  simp only [finding, Db.pairFact, hout, hin]

/-- **A load on one state** finds what its tables hold about the pair. -/
theorem finding_load (hs : SchemaOk db) (hp : PairOk db viewer target) (h : target ∈ targets) :
    (load db viewer targets).finding target = db.pairFact viewer target := by
  funext q
  cases q with
  | friends =>
      have hfriends : (load db viewer targets).friends.contains target =
          db.areFriends viewer target := by
        rw [Bool.eq_iff_iff, List.contains_iff_mem]
        exact friends_load hs h
      simp only [finding, Db.pairFact, hfriends]
  | blocks => exact blocks_load hs h
  | requests => exact requests_load hs hp h
  | policies => simp only [finding, Db.pairFact, policies_load hs h]

end Load

end RelationshipContext

/-! ### The load among other calls -/

/-- A load on its way: the context so far, and the queries to come. -/
structure Loader where
  context : RelationshipContext
  pending : List ContextQuery

def Loader.start : Loader := ⟨.default, ContextQuery.all⟩

/-- A server on which a context is loaded. Only the statements and the proofs look at
`readAt` and `held`. -/
structure Loading (ι : Type) where
  server : Server ι
  loader : Loader
  /-- The committed state in which a query has run. -/
  readAt : ContextQuery → Db
  /-- The committed states from the first query up to the last. -/
  held : List Db

def Loading.start {ι : Type} (s : Server ι) : Loading ι := ⟨s, .start, fun _ => s.db, [s.db]⟩

/-- A move of the server, or the next query of the load. -/
inductive LoadLabel (ι : Type)
  | serve (l : Label ι)
  | query

/-- The states held when `db` has become the committed state. -/
def holdMore (pending : List ContextQuery) (held : List Db) (db : Db) : List Db :=
  if pending = ContextQuery.all then [db] else if pending = [] then held else held ++ [db]

theorem mem_holdMore {pending : List ContextQuery} {held : List Db} {d db : Db}
    (h : d ∈ holdMore pending held db) : d ∈ held ∨ d = db := by
  unfold holdMore at h
  split at h
  · exact .inr (List.mem_singleton.mp h)
  · split at h
    · exact .inl h
    · simpa using h

/-- The states held stay whole when `db` becomes the committed state. -/
theorem whole_holdMore {F : Type} {part : ContextQuery → Db → F} {got : ContextQuery → F}
    {pending : List ContextQuery} {held : List Db} {now db : Db}
    (h : Whole part got pending held now)
    (hsteady : Outdated part got pending db → ∀ q ∈ pending, part q db = part q now) :
    Whole part got pending (holdMore pending held db) db := by
  unfold holdMore
  split
  · rename_i hall
    rw [hall]
    exact .start ContextQuery.mem_all
  · split
    · rename_i hnil
      rw [hnil] at h ⊢
      exact h.later
    · exact h.change hsteady

section Runs

variable {ι : Type} [DecidableEq ι]

/-- One step of a server on which the context of `targets` is loaded for `viewer`. -/
def loadStep (poolSize : Nat) (faulty : Bool) (calls : ι → Call) (viewer : UserId)
    (targets : List UserId) : LoadLabel ι → Loading ι → Option (Loading ι)
  | .serve l, s => (serve poolSize faulty calls l s.server).map fun server =>
      { s with server := server, held := holdMore s.loader.pending s.held server.db }
  | .query, s =>
      match s.loader.pending with
      | [] => none
      | q :: pending =>
          some { s with
            loader := ⟨q.run viewer targets s.server.db s.loader.context, pending⟩
            readAt := Function.update s.readAt q s.server.db }

/-- A table of the pair, at one moment. -/
abbrev factOf (viewer target : UserId) (q : ContextQuery) (db : Db) : PairFact :=
  db.pairFact viewer target q

/-- **The condition.** After the move, what has been read about the pair is up to date, or
what is still to be read about it is as it was before the move. -/
def Steady (poolSize : Nat) (faulty : Bool) (calls : ι → Call) (viewer target : UserId) :
    LoadLabel ι → Loading ι → Prop
  | .query, _ => True
  | .serve l, s => ∀ server, serve poolSize faulty calls l s.server = some server →
      Outdated (factOf viewer target) (fun q => factOf viewer target q (s.readAt q))
          s.loader.pending server.db →
        ∀ q ∈ s.loader.pending,
          factOf viewer target q server.db = factOf viewer target q s.server.db

variable {env : Env} {db : Db} {seq now : Nat} {poolSize : Nat} {faulty : Bool} {calls : ι → Call}
  {viewer target : UserId} {targets : List UserId} {s s' : Loading ι} {l : LoadLabel ι} {σ₀ : State}

/-- What holds of a load whatever the others do. -/
structure Loads (poolSize : Nat) (faulty : Bool) (calls : ι → Call) (σ₀ : State)
    (viewer target : UserId) (targets : List UserId) (s : Loading ι) : Prop where
  inv : ServerInv poolSize faulty calls σ₀ s.server
  nodup : s.loader.pending.Nodup
  blank : ∀ q ∈ s.loader.pending, q.Blank s.loader.context
  /-- The context holds what the queries have read. -/
  context : ∀ q, q ∉ s.loader.pending →
    s.loader.context.finding target q = factOf viewer target q (s.readAt q)
  held : ∀ d ∈ s.held, (RelationshipContext.load d viewer targets).finding target =
    d.pairFact viewer target

/-- What has been read about the pair, and what is still to be read, is that of a state
held. -/
def Fits (viewer target : UserId) (s : Loading ι) : Prop :=
  Whole (factOf viewer target) (fun q => factOf viewer target q (s.readAt q)) s.loader.pending
    s.held s.server.db

/-- What holds of a load all along, when every move is steady. -/
structure LoadOk (poolSize : Nat) (faulty : Bool) (calls : ι → Call) (σ₀ : State)
    (viewer target : UserId) (targets : List UserId) (s : Loading ι) : Prop
    extends Loads poolSize faulty calls σ₀ viewer target targets s where
  fits : Fits viewer target s

/-- A load on the committed state, as if it were one statement. -/
theorem finding_now {server : Server ι} (h : ServerInv poolSize faulty calls σ₀ server)
    (ht : target ∈ targets) :
    (RelationshipContext.load server.db viewer targets).finding target =
      Db.pairFact server.db viewer target :=
  RelationshipContext.finding_load h.inv.schema (h.inv.pairs viewer target) ht

theorem Loads.start {server : Server ι} (h : ServerInv poolSize faulty calls σ₀ server)
    (ht : target ∈ targets) :
    Loads poolSize faulty calls σ₀ viewer target targets (.start server) where
  inv := h
  nodup := by
    change ContextQuery.all.Nodup
    decide
  blank q _ := by
    cases q <;> simp [Loading.start, Loader.start, ContextQuery.Blank, RelationshipContext.default]
  context q hq := absurd q.mem_all hq
  held d hd := by
    obtain rfl : d = server.db := List.mem_singleton.mp hd
    exact finding_now h ht

/-- A move of the server next to the load: what has been read may be out of date now, but
it was once true. -/
theorem Loads.serve (h : Loads poolSize faulty calls σ₀ viewer target targets s)
    (ht : target ∈ targets) {l : Label ι} {server : Server ι}
    (hserve : Social.serve poolSize faulty calls l s.server = some server) :
    Loads poolSize faulty calls σ₀ viewer target targets
      { s with server := server, held := holdMore s.loader.pending s.held server.db } := by
  have hinv := sysInv_step h.inv hserve
  refine ⟨hinv, h.nodup, h.blank, h.context, fun d hd => ?_⟩
  rcases mem_holdMore hd with hd | rfl
  · exact h.held d hd
  · exact finding_now hinv ht

/-- The next query of the load: what it finds is what the tables hold at this moment. -/
theorem Loads.query (h : Loads poolSize faulty calls σ₀ viewer target targets s)
    (ht : target ∈ targets) {q : ContextQuery} {pending : List ContextQuery}
    (hpending : s.loader.pending = q :: pending) :
    Loads poolSize faulty calls σ₀ viewer target targets
      { s with
        loader := ⟨q.run viewer targets s.server.db s.loader.context, pending⟩
        readAt := Function.update s.readAt q s.server.db } := by
  obtain ⟨hinv, hnodup, hblank, hcontext, hheld⟩ := h
  rw [hpending] at hnodup hblank hcontext
  obtain ⟨hq, hrest⟩ := List.nodup_cons.mp hnodup
  refine ⟨hinv, hrest, fun q' hq' => ?_, fun q' hq' => ?_, hheld⟩
  · exact (RelationshipContext.run_ne target (ne_of_mem_of_not_mem hq' hq)).2.mpr
      (hblank q' (List.mem_cons_of_mem q hq'))
  -- the query just run finds what the tables hold now, the others keep their find
  · by_cases heq : q' = q
    · subst heq
      have hfound := @RelationshipContext.finding_run viewer target targets s.loader.context
        s.server.db q' ht (hblank q' List.mem_cons_self)
      rw [finding_now hinv ht] at hfound
      simpa using hfound
    · have hread : Function.update s.readAt q s.server.db q' = s.readAt q' :=
        Function.update_of_ne heq _ _
      have hold := hcontext q' (List.not_mem_cons_of_ne_of_not_mem heq hq')
      exact (RelationshipContext.run_ne target heq).1.trans
        (hold.trans (congrArg (factOf viewer target q') hread.symm))

/-- A query takes the next part. -/
theorem loadStep_query (hstep : loadStep poolSize faulty calls viewer targets .query s = some s') :
    ∃ q pending, s.loader.pending = q :: pending ∧
      s' = { s with
        loader := ⟨q.run viewer targets s.server.db s.loader.context, pending⟩
        readAt := Function.update s.readAt q s.server.db } := by
  simp only [loadStep] at hstep
  cases hpending : s.loader.pending with
  | nil => simp [hpending] at hstep
  | cons q pending =>
      rw [hpending] at hstep
      exact ⟨q, pending, rfl, (Option.some.inj hstep).symm⟩

theorem Loads.step (h : Loads poolSize faulty calls σ₀ viewer target targets s)
    (ht : target ∈ targets)
    (hstep : loadStep poolSize faulty calls viewer targets l s = some s') :
    Loads poolSize faulty calls σ₀ viewer target targets s' := by
  cases l with
  | serve l =>
      obtain ⟨server, hserve, rfl⟩ := Option.map_eq_some_iff.mp hstep
      exact h.serve ht hserve
  | query =>
      obtain ⟨q, pending, hpending, rfl⟩ := loadStep_query hstep
      exact h.query ht hpending

/-- A steady step leaves a state that fits. -/
theorem Fits.step (h : Fits viewer target s)
    (hsteady : Steady poolSize faulty calls viewer target l s)
    (hstep : loadStep poolSize faulty calls viewer targets l s = some s') :
    Fits viewer target s' := by
  cases l with
  | serve l =>
      obtain ⟨server, hserve, rfl⟩ := Option.map_eq_some_iff.mp hstep
      exact whole_holdMore h (hsteady server hserve)
  | query =>
      obtain ⟨q, pending, hpending, rfl⟩ := loadStep_query hstep
      rw [Fits, hpending] at h
      refine h.read ?_ fun q' hne => ?_
      · simp
      · simp [Function.update_of_ne hne]

theorem LoadOk.step (h : LoadOk poolSize faulty calls σ₀ viewer target targets s)
    (ht : target ∈ targets) (hsteady : Steady poolSize faulty calls viewer target l s)
    (hstep : loadStep poolSize faulty calls viewer targets l s = some s') :
    LoadOk poolSize faulty calls σ₀ viewer target targets s' :=
  ⟨h.toLoads.step ht hstep, h.fits.step hsteady hstep⟩

/-- **No torn relationship.** Other calls run while the context of some targets is loaded for
a viewer. In a run in which no commit changes what is still to be read about the viewer and
one of them while what has been read is outdated, the relationship, the request id and
`canMessage` shown of it are those of a committed state that held between the first query and
the last. -/
theorem load_not_torn (hdb : Consistent ⟨seq, db⟩) (ht : target ∈ targets)
    (h : ReachableBy (Steady poolSize faulty calls viewer target)
      (loadStep poolSize faulty calls viewer targets) (.start (server env db seq now calls)) s)
    (hloaded : s.loader.pending = []) :
    ∃ d ∈ s.held, s.loader.context.shown viewer target =
      (RelationshipContext.load d viewer targets).shown viewer target := by
  have hinv : ServerInv poolSize faulty calls ⟨seq, db⟩ (server env db seq now calls) :=
    serverInv_of_consistent hdb (.refl _)
  have hok := h.invariant (I := LoadOk poolSize faulty calls ⟨seq, db⟩ viewer target targets)
    (fun _ _ _ hI hP hstep => hI.step ht hP hstep)
    ⟨.start hinv ht, .start ContextQuery.mem_all⟩
  have hwhole := hok.fits
  rw [Fits, hloaded] at hwhole
  obtain ⟨d, hd, hread⟩ := hwhole.complete
  refine ⟨d, hd, RelationshipContext.shown_congr fun q => ?_⟩
  rw [hok.context q (by simp [hloaded]), hok.held d hd]
  exact hread q

/-- The rest of the queries, with no other move in between. -/
theorem read_of_queries {s₁ s₂ : Loading ι} (h : ReachableBy (fun l _ => l = .query)
    (loadStep poolSize faulty calls viewer targets) s₁ s₂) :
    s₂.server = s₁.server ∧ s₂.held = s₁.held ∧ s₂.loader.pending ⊆ s₁.loader.pending ∧
      ∀ q, q ∉ s₂.loader.pending →
        s₂.readAt q = if q ∈ s₁.loader.pending then s₁.server.db else s₁.readAt q := by
  induction h with
  | refl => exact ⟨rfl, rfl, List.Subset.refl _, fun q hq => (if_neg hq).symm⟩
  | tail _ hquery hstep ih =>
      subst hquery
      obtain ⟨hserver, hheld, hsub, hread⟩ := ih
      obtain ⟨q, pending, hpending, rfl⟩ := loadStep_query hstep
      rw [hpending] at hsub hread
      refine ⟨hserver, hheld, fun q' hq' => hsub (List.mem_cons_of_mem q hq'), fun q' hq' => ?_⟩
      by_cases heq : q' = q
      · subst heq
        rw [if_pos (hsub List.mem_cons_self), ← hserver]
        exact Function.update_self _ _ _
      · rw [← hread q' (List.not_mem_cons_of_ne_of_not_mem heq hq')]
        exact Function.update_of_ne heq _ _

/-- **What `Steady` leaves out reaches the defect.** The move changes for the first time
what is still to be read about the pair, and what has been read is outdated; if the other
queries run right then, what the context holds about the target is that of no state held. -/
theorem unsteady_torn (hdb : Consistent ⟨seq, db⟩) (ht : target ∈ targets)
    (h : Reachable (loadStep poolSize faulty calls viewer targets)
      (.start (server env db seq now calls)) s)
    (hfirst : ∀ d ∈ s.held, ∀ q ∈ s.loader.pending,
      factOf viewer target q d = factOf viewer target q s.server.db)
    (hunsteady : ¬ Steady poolSize faulty calls viewer target l s) {s₁ s₂ : Loading ι}
    (hstep : loadStep poolSize faulty calls viewer targets l s = some s₁)
    (hrest : ReachableBy (fun l _ => l = .query) (loadStep poolSize faulty calls viewer targets)
      s₁ s₂) (hloaded : s₂.loader.pending = []) :
    ∀ d ∈ s₂.held, s₂.loader.context.finding target ≠
      (RelationshipContext.load d viewer targets).finding target := by
  have hinv : ServerInv poolSize faulty calls ⟨seq, db⟩ (server env db seq now calls) :=
    serverInv_of_consistent hdb (.refl _)
  have hloads : Loads poolSize faulty calls ⟨seq, db⟩ viewer target targets s :=
    h.invariant (I := Loads poolSize faulty calls ⟨seq, db⟩ viewer target targets)
      (fun _ _ _ hI hstep => hI.step ht hstep) (.start hinv ht)
  have hloads₁ := hloads.step ht hstep
  have hloads₂ := hrest.invariant (I := Loads poolSize faulty calls ⟨seq, db⟩ viewer target targets)
    (fun _ _ _ hI _ hstep => hI.step ht hstep) hloads₁
  obtain ⟨-, hheld, -, hread⟩ := read_of_queries hrest
  -- the move leaves no state that fits
  have hbroken : ¬ Fits viewer target s₁ := by
    cases l with
    | query => exact absurd trivial hunsteady
    | serve l =>
        simp only [Steady, not_forall] at hunsteady
        obtain ⟨server, hserve, hout, q, hq, hchange⟩ := hunsteady
        obtain ⟨server', hserve', rfl⟩ := Option.map_eq_some_iff.mp hstep
        obtain rfl := Option.some.inj (hserve.symm.trans hserve')
        obtain ⟨q', hq', -⟩ := id hout
        have hmore : holdMore s.loader.pending s.held server.db = s.held ++ [server.db] := by
          unfold holdMore
          rw [if_neg fun hall : s.loader.pending = _ => hq' (hall ▸ q'.mem_all),
            if_neg fun hnil : s.loader.pending = [] => List.not_mem_nil (hnil ▸ hq)]
        rw [Fits]
        dsimp only
        rw [hmore]
        exact Whole.broken hfirst hout hq hchange
  intro d hd hshown
  have hdone : ∀ q, q ∉ s₂.loader.pending := by simp [hloaded]
  refine hbroken ((whole_iff_finished (fun q hq => ?_) fun q hq => ?_).mpr
    ⟨d, hheld ▸ hd, fun q => ((hloads₂.context q (hdone q)).symm.trans
      (congrFun hshown q)).trans (congrFun (hloads₂.held d hd) q)⟩)
  · exact congrArg (factOf viewer target q) ((hread q (hdone q)).trans (if_neg hq))
  · exact congrArg (factOf viewer target q) ((hread q (hdone q)).trans (if_pos hq))

end Runs

/-! 1 asks 2 to be friends, and 2 accepts. The profile of 2 is loaded for 1. -/

def demoServer : Server Bool := server demoEnv (freshDb demoUsers []) 0 0 demoCalls

/-- One step of a load of 2 for 1. -/
def demoLoad : LoadLabel Bool → Loading Bool → Option (Loading Bool) :=
  loadStep 2 false demoCalls 1 [2]

/-- A check that implies the condition. -/
def steadyCheck (l : LoadLabel Bool) (s : Loading Bool) : Bool :=
  match l with
  | .query => true
  | .serve l =>
      (serve 2 false demoCalls l s.server).all fun server =>
        (ContextQuery.all.all fun q => s.loader.pending.contains q ||
          factOf 1 2 q (s.readAt q) == factOf 1 2 q server.db) ||
        s.loader.pending.all fun q => factOf 1 2 q server.db == factOf 1 2 q s.server.db

theorem steady_of_check (l : LoadLabel Bool) (s : Loading Bool) (h : steadyCheck l s = true) :
    Steady 2 false demoCalls 1 2 l s := by
  cases l with
  | query => trivial
  | serve l =>
      intro server hserve hout
      simp only [steadyCheck, hserve, Option.all_some, Bool.or_eq_true, List.all_eq_true,
        List.contains_iff_mem, beq_iff_eq] at h
      rcases h with hup | hsame
      · obtain ⟨q, hq, hne⟩ := hout
        exact absurd ((hup q q.mem_all).resolve_left hq) hne
      · exact hsame

/-- The first query, the request of 1, and the other queries. -/
def requestLoad : List (LoadLabel Bool) :=
  .query :: List.replicate 13 (.serve (.run false)) ++ List.replicate 3 .query

/-- The request is shown. -/
theorem load_not_torn_request : ∃ s : Loading Bool,
    s.loader.context.shown 1 2 = ((.outgoingPending, some 1), true) ∧
      ∃ d ∈ s.held, s.loader.context.shown 1 2 =
        (RelationshipContext.load d 1 [2]).shown 1 2 := by
  have hrun : (replay (fun l s => if steadyCheck l s then demoLoad l s else none)
      (.start demoServer) requestLoad).map
        (fun s => (s.loader.pending, s.loader.context.shown 1 2)) =
          some ([], ((.outgoingPending, some 1), true)) := by
    decide
  obtain ⟨s, hs, hf⟩ := Option.map_eq_some_iff.mp hrun
  obtain ⟨hpending, hshown⟩ := Prod.mk.inj hf
  exact ⟨s, hshown, load_not_torn (freshDb_consistent demoUsers [] 0) (by decide)
    (.of_replay steady_of_check hs .refl) hpending⟩

/-- The request of 1, the first query, the answer of 2, and the other queries. -/
def acceptLoad : List (LoadLabel Bool) :=
  List.replicate 13 (.serve (.run false)) ++ .query ::
    List.replicate 11 (.serve (.run true)) ++ List.replicate 3 .query

/-- What has been loaded, and whether a state that was held shows the same. -/
def acceptView (s : Loading Bool) :
    List ContextQuery × ((Relationship × Option RequestId) × Bool) × Bool :=
  (s.loader.pending, s.loader.context.shown 1 2, s.held.any fun d =>
    s.loader.context.shown 1 2 == (RelationshipContext.load d 1 [2]).shown 1 2)

theorem acceptLoad_reachable : ∃ s, Reachable demoLoad (.start demoServer) s ∧
    acceptView s = ([], ((.none, none), true), false) :=
  exists_reachable_of_replay acceptLoad acceptView (by decide)

/-- 2 is shown as a stranger, which it was at no time. -/
theorem torn_by_accept : ¬ ∀ s : Loading Bool, Reachable demoLoad (.start demoServer) s →
    s.loader.pending = [] → ∃ d ∈ s.held, s.loader.context.shown 1 2 =
      (RelationshipContext.load d 1 [2]).shown 1 2 := by
  intro hclaim
  obtain ⟨s, hs, hview⟩ := acceptLoad_reachable
  obtain ⟨hpending, hrest⟩ := Prod.mk.inj hview
  obtain ⟨-, hnone⟩ := Prod.mk.inj hrest
  obtain ⟨d, hd, heq⟩ := hclaim s hs hpending
  exact List.any_eq_false.mp hnone d hd (beq_iff_eq.mpr heq)

end DevbitBackend.Social
