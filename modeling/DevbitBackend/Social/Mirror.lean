import DevbitBackend.Social.Relationship
import DevbitBackend.Social.Runs

/-!
# Social.Mirror

The relationship of two users, seen from both sides. `relationship` asks four
collections in a fixed order, so the two views agree only because the tables
never hold two facts about one pair that it would rank differently: `PairOk`.
-/

namespace DevbitBackend.Social

open Txn Transition

/-- `a` blocks `b`. -/
def Db.Blocks (db : Db) (a b : UserId) : Prop := ∃ k ∈ db.blocks, k.user = a ∧ k.blocked = b

/-- `id` is a pending request from `a` to `b`. -/
def Db.Pending (db : Db) (id : RequestId) (a b : UserId) : Prop :=
  ∃ r ∈ db.requests, r.id = id ∧ r.isPending = true ∧ r.sender = a ∧ r.recipient = b

/-- How `viewer` sees `target`: the relationship of a context loaded for one user. -/
def Db.relationship (db : Db) (viewer target : UserId) : Relationship × Option RequestId :=
  (RelationshipContext.load db viewer [target]).relationship target

/-- The views `a` has of `b` and `b` has of `a`, when neither blocks the other. -/
inductive Mirror (db : Db) (a b : UserId) :
    Relationship × Option RequestId → Relationship × Option RequestId → Prop
  | none : Mirror db a b (.none, .none) (.none, .none)
  | friends : Mirror db a b (.friends, .none) (.friends, .none)
  | outgoing {id : RequestId} :
      db.Pending id a b → Mirror db a b (.outgoingPending, some id) (.incomingPending, some id)
  | incoming {id : RequestId} :
      db.Pending id b a → Mirror db a b (.incomingPending, some id) (.outgoingPending, some id)

/-! ### What a loaded context knows of the requests -/

namespace RelationshipContext

variable {db : Db} {viewer target : UserId} {targets : List UserId} {id : RequestId}

theorem mem_outgoing (h : target ∈ targets) :
    (target, id) ∈ (load db viewer targets).outgoing ↔ db.Pending id viewer target := by
  rw [load_eq h]
  simp only [Db.contextRequests, List.mem_reverse, List.mem_map, List.mem_filter]
  constructor
  · rintro ⟨row, ⟨⟨r, ⟨hr, hwhere⟩, rfl⟩, hs⟩, heq⟩
    obtain ⟨rfl, rfl⟩ := Prod.mk.inj heq
    exact ⟨r, hr, rfl, (Bool.and_eq_true_iff.mp hwhere).1, beq_iff_eq.mp hs, rfl⟩
  · rintro ⟨r, hr, rfl, hp, rfl, rfl⟩
    exact ⟨_, ⟨⟨r, ⟨hr, by simp [hp, h]⟩, rfl⟩, by simp⟩, rfl⟩

theorem mem_incoming (h : target ∈ targets) (hne : viewer ≠ target) :
    (target, id) ∈ (load db viewer targets).incoming ↔ db.Pending id target viewer := by
  rw [load_eq h]
  simp only [Db.contextRequests, List.mem_reverse, List.mem_map, List.mem_filter]
  constructor
  · rintro ⟨row, ⟨⟨r, ⟨hr, hwhere⟩, rfl⟩, hs⟩, heq⟩
    obtain ⟨rfl, rfl⟩ := Prod.mk.inj heq
    have hnot : r.sender ≠ viewer := by simpa using hs
    obtain ⟨hp, hside⟩ := Bool.and_eq_true_iff.mp hwhere
    have hto : r.recipient = viewer := by
      simp only [Bool.or_eq_true, Bool.and_eq_true, beq_iff_eq] at hside
      exact (hside.resolve_left fun hcon => hnot hcon.1).1
    exact ⟨r, hr, rfl, hp, rfl, hto⟩
  · rintro ⟨r, hr, rfl, hp, rfl, rfl⟩
    exact ⟨_, ⟨⟨r, ⟨hr, by simp [hp, h]⟩, rfl⟩, by simpa using Ne.symm hne⟩, rfl⟩

theorem mem_of_lookup {l : List (UserId × RequestId)} {k : UserId} {b : RequestId}
    (h : l.lookup k = some b) : (k, b) ∈ l := by
  obtain ⟨l₁, l₂, rfl, -⟩ := List.lookup_eq_some_iff.mp h
  simp

theorem not_mem_of_lookup {l : List (UserId × RequestId)} {k : UserId}
    (h : l.lookup k = none) (b : RequestId) : (k, b) ∉ l := by
  intro hmem
  simpa using List.lookup_eq_none_iff.mp h _ hmem

end RelationshipContext

/-! ### One view -/

section View

variable {db : Db} {a b : UserId} {id : RequestId}

theorem Db.Pending.mem_pendingBetween (h : db.Pending id a b) :
    ∃ r ∈ db.pendingBetween a b, r.id = id ∧ r.sender = a ∧ r.recipient = b := by
  obtain ⟨r, hr, rfl, hp, rfl, rfl⟩ := h
  exact ⟨r, Db.mem_pendingBetween.mpr
    ⟨hr, RequestRow.between_iff.mpr (samePair_self _ _), hp⟩, rfl, rfl, rfl⟩

/-- A pair has one pending request at most. -/
theorem PairOk.unique (hp : PairOk db a b) {r r' : RequestRow} (hr : r ∈ db.pendingBetween a b)
    (hr' : r' ∈ db.pendingBetween a b) : r = r' := by
  have hlen := hp.onePending
  cases hl : db.pendingBetween a b with
  | nil =>
      rw [hl] at hr
      cases hr
  | cons r₀ rest =>
      rw [hl] at hlen hr hr'
      obtain rfl : rest = [] := by simpa using hlen
      exact (List.mem_singleton.mp hr).trans (List.mem_singleton.mp hr').symm

/-- Two pending requests of a pair are one request. -/
theorem Db.Pending.unique (hp : PairOk db a b) {id' : RequestId} (h : db.Pending id a b)
    (h' : db.Pending id' a b) : id = id' := by
  obtain ⟨r, hr, rfl, -⟩ := h.mem_pendingBetween
  obtain ⟨r', hr', rfl, -⟩ := h'.mem_pendingBetween
  rw [hp.unique hr hr']

/-- No two users have a request pending in both directions. -/
theorem Db.Pending.not_opposite (hne : a ≠ b) (hp : PairOk db a b) {id' : RequestId}
    (h : db.Pending id a b) : ¬ db.Pending id' b a := by
  intro h'
  obtain ⟨r, hr, -, hs, -⟩ := h.mem_pendingBetween
  obtain ⟨r', hr', -, hs', -⟩ := h'.mem_pendingBetween
  rw [db.pendingBetween_comm] at hr'
  obtain rfl := hp.unique hr hr'
  exact hne (hs.symm.trans hs')

/-- What `relationship` answers, with the facts that make it. -/
inductive Seen (db : Db) (a b : UserId) : Relationship × Option RequestId → Prop
  | blocked : db.Blocks a b → Seen db a b (.blocked, .none)
  | friends : ¬ db.Blocks a b → db.areFriends a b = true → Seen db a b (.friends, .none)
  | outgoing {id : RequestId} : ¬ db.Blocks a b → db.areFriends a b = false →
      db.Pending id a b → Seen db a b (.outgoingPending, some id)
  | incoming {id : RequestId} : ¬ db.Blocks a b → db.areFriends a b = false →
      (∀ id', ¬ db.Pending id' a b) → db.Pending id b a → Seen db a b (.incomingPending, some id)
  | none : ¬ db.Blocks a b → db.areFriends a b = false → (∀ id', ¬ db.Pending id' a b) →
      (∀ id', ¬ db.Pending id' b a) → Seen db a b (.none, .none)

theorem seen_relationship (hs : SchemaOk db) (hne : a ≠ b) :
    Seen db a b (db.relationship a b) := by
  have hb : b ∈ [b] := List.mem_singleton.mpr rfl
  simp only [Db.relationship, RelationshipContext.relationship, List.contains_iff_mem,
    RelationshipContext.mem_blockedByMe hb, RelationshipContext.friends_load hs hb]
  split
  -- the order of the tests is that of the source: a block hides all that follows
  · rename_i hblocks
    exact .blocked hblocks
  · rename_i hblocks
    split
    · rename_i hfriends
      exact .friends hblocks hfriends
    · rename_i hfriends
      rw [Bool.not_eq_true] at hfriends
      split
      · rename_i id hid
        exact .outgoing hblocks hfriends
          ((RelationshipContext.mem_outgoing hb).mp (RelationshipContext.mem_of_lookup hid))
      · rename_i hout
        have hnone : ∀ id, ¬ db.Pending id a b := by
          intro id h
          exact RelationshipContext.not_mem_of_lookup hout id
            ((RelationshipContext.mem_outgoing hb).mpr h)
        split
        · rename_i id hid
          exact .incoming hblocks hfriends hnone ((RelationshipContext.mem_incoming hb hne).mp
            (RelationshipContext.mem_of_lookup hid))
        · rename_i hin
          exact .none hblocks hfriends hnone fun id h =>
            RelationshipContext.not_mem_of_lookup hin id
              ((RelationshipContext.mem_incoming hb hne).mpr h)

/-- `Blocked` is shown to the one who blocks. -/
theorem relationship_blocked_iff (hs : SchemaOk db) (hne : a ≠ b) :
    (db.relationship a b).1 = .blocked ↔ db.Blocks a b := by
  have h := seen_relationship hs hne
  generalize db.relationship a b = view at h
  cases h with
  | blocked hb => simp [hb]
  | friends hb _ => simp [hb]
  | outgoing hb _ _ => simp [hb]
  | incoming hb _ _ _ => simp [hb]
  | none hb _ _ _ => simp [hb]

/-- A request id comes with the two pending relationships, and with no other. -/
theorem relationship_requestId_iff (hs : SchemaOk db) (hne : a ≠ b) :
    (db.relationship a b).2.isSome = true ↔
      (db.relationship a b).1 = .outgoingPending ∨ (db.relationship a b).1 = .incomingPending := by
  have h := seen_relationship hs hne
  generalize db.relationship a b = view at h
  cases h <;> simp

/-- Without a block the two views mirror each other. -/
theorem mirror_relationship (hs : SchemaOk db) (hp : PairOk db a b) (hne : a ≠ b)
    (hab : ¬ db.Blocks a b) (hba : ¬ db.Blocks b a) :
    Mirror db a b (db.relationship a b) (db.relationship b a) := by
  have h := seen_relationship hs hne
  have h' := seen_relationship hs hne.symm
  generalize db.relationship a b = view at h
  generalize db.relationship b a = view' at h'
  cases h with
  | blocked hb => exact absurd hb hab
  | friends _ hf =>
      have hf' : db.areFriends b a = true := db.areFriends_comm b a ▸ hf
      cases h' with
      | blocked hb => exact absurd hb hba
      | friends _ _ => exact .friends
      | outgoing _ hnf _ => simp [hf'] at hnf
      | incoming _ hnf _ _ => simp [hf'] at hnf
      | none _ hnf _ _ => simp [hf'] at hnf
  | outgoing _ hnf hid =>
      cases h' with
      | blocked hb => exact absurd hb hba
      | friends _ hf =>
          rw [db.areFriends_comm, hnf] at hf
          cases hf
      | outgoing _ _ hid' => exact absurd hid' (hid.not_opposite hne hp)
      | incoming _ _ _ hid' =>
          -- one pending request of the pair, seen from both of its ends
          obtain rfl := hid.unique hp hid'
          exact .outgoing hid
      | none _ _ _ hnone => exact absurd hid (hnone _)
  | incoming _ hnf _ hid =>
      cases h' with
      | blocked hb => exact absurd hb hba
      | friends _ hf =>
          rw [db.areFriends_comm, hnf] at hf
          cases hf
      | outgoing _ _ hid' =>
          obtain rfl := hid.unique hp.comm hid'
          exact .incoming hid
      | incoming _ _ hnone _ => exact absurd hid (hnone _)
      | none _ _ hnone _ => exact absurd hid (hnone _)
  | none _ hnf hout hin =>
      cases h' with
      | blocked hb => exact absurd hb hba
      | friends _ hf =>
          rw [db.areFriends_comm, hnf] at hf
          cases hf
      | outgoing _ _ hid => exact absurd hid (hin _)
      | incoming _ _ _ hid => exact absurd hid (hout _)
      | none _ _ _ _ => exact .none

end View

/-! ### Every reachable state -/

/-- **The two sides of a relationship mirror each other**, in every committed state
of every run. -/
theorem reachable_mirror {ι : Type} [DecidableEq ι] {env : Env} {users : List UserRow}
    {messages : List MessageRow} {seq now poolSize : Nat} {faulty : Bool} {calls : ι → Call}
    {s : Server ι}
    (h : Reachable (serve poolSize faulty calls) (server env (freshDb users messages) seq now calls)
      s) {a b : UserId} (hne : a ≠ b) :
    (¬ Db.Blocks s.db a b → ¬ Db.Blocks s.db b a →
      Mirror s.db a b (Db.relationship s.db a b) (Db.relationship s.db b a)) ∧
    ((Db.relationship s.db a b).1 = .blocked ↔ Db.Blocks s.db a b) ∧
    ((Db.relationship s.db a b).2.isSome = true ↔
      (Db.relationship s.db a b).1 = .outgoingPending ∨
      (Db.relationship s.db a b).1 = .incomingPending) := by
  have hinv := (serverInv_reachable h).inv
  exact ⟨mirror_relationship hinv.schema (hinv.pairs a b) hne,
    relationship_blocked_iff hinv.schema hne, relationship_requestId_iff hinv.schema hne⟩

/-! A run: 1 asks 2 to be friends, and nothing else happens. -/

theorem demo_pending : ∃ s, Reachable (serve 1 false demoCalls)
    (server demoEnv (freshDb demoUsers []) 0 0 demoCalls) s ∧
      (Db.blocks s.db, Db.relationship s.db 1 2, Db.relationship s.db 2 1) =
        ([], (.outgoingPending, some 1), (.incomingPending, some 1)) :=
  exists_reachable_of_replay (List.replicate 13 (.run false))
    (fun s : Server Bool =>
      (Db.blocks s.db, Db.relationship s.db 1 2, Db.relationship s.db 2 1)) (by decide)

theorem reachable_mirror_demo : ∃ s : Server Bool,
    Db.relationship s.db 1 2 = (.outgoingPending, some 1) ∧
      Mirror s.db 1 2 (Db.relationship s.db 1 2) (Db.relationship s.db 2 1) := by
  obtain ⟨s, hs, heq⟩ := demo_pending
  obtain ⟨hblocks, hview⟩ := Prod.mk.inj heq
  have hno : ∀ x y, ¬ Db.Blocks s.db x y := by
    intro x y hxy
    obtain ⟨k, hk, -⟩ := hxy
    rw [hblocks] at hk
    cases hk
  exact ⟨s, (Prod.mk.inj hview).1, (reachable_mirror hs (by decide)).1 (hno 1 2) (hno 2 1)⟩

end DevbitBackend.Social
