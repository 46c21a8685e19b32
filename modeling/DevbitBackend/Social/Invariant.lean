import DevbitBackend.Lib.TxnLogic
import DevbitBackend.Social.Pairs

/-!
# Social.Invariant

What the transactions of the social handlers may rely on, as a `Txn.Discipline`:
the invariant of the committed tables (`Consistent`), how the tables of one
moment become those of a later one whoever acts (`Grows`), and what the holder of
a lock keeps to itself (`Kept`). The pair lock freezes the requests and the
friendship of its pair, while blocks of the pair may still disappear, because
`unblock_user` takes no lock.
-/

namespace DevbitBackend.Social

open Txn

/-- The shared state of the social tables. -/
abbrev State := Snap engine

/-- The constraints of the migrations on the social tables. -/
structure SchemaOk (db : Db) : Prop where
  requestKeys : (db.requests.map (·.id)).Nodup
  requestParties : ∀ r ∈ db.requests, r.sender ≠ r.recipient ∧
    db.userExists r.sender = true ∧ db.userExists r.recipient = true
  friendshipKeys : (db.friendships.map fun f => (f.userLow, f.userHigh)).Nodup
  friendshipParties : ∀ f ∈ db.friendships, f.userLow < f.userHigh ∧
    db.userExists f.userLow = true ∧ db.userExists f.userHigh = true
  blockKeys : (db.blocks.map fun k => (k.user, k.blocked)).Nodup
  blockParties : ∀ k ∈ db.blocks, k.user ≠ k.blocked ∧
    db.userExists k.user = true ∧ db.userExists k.blocked = true
  preferencesKeys : (db.preferences.map (·.user)).Nodup
  preferencesChecks : ∀ p ∈ db.preferences, p.wellFormed = true ∧ db.userExists p.user = true

/-- The invariant of the committed tables: the schema, ids the sequence has
given out, and the invariants of every pair. -/
structure Consistent (σ : State) : Prop where
  schema : SchemaOk σ.db
  ids : ∀ r ∈ Db.requests σ.db, 0 < r.id ∧ r.id ≤ σ.seq
  pairs : ∀ a b, PairOk σ.db a b

/-! ### How tables change -/

/-- `r'` is the row `r` at a later moment: only the status of a pending request
and its `updated_at` may have changed. -/
structure RequestRow.Evolves (r r' : RequestRow) : Prop where
  id : r'.id = r.id
  sender : r'.sender = r.sender
  recipient : r'.recipient = r.recipient
  message : r'.message = r.message
  createdAt : r'.createdAt = r.createdAt
  final : r.isPending = false → r' = r

theorem RequestRow.Evolves.refl (r : RequestRow) : r.Evolves r :=
  ⟨rfl, rfl, rfl, rfl, rfl, fun _ => rfl⟩

theorem RequestRow.Evolves.trans {r₁ r₂ r₃ : RequestRow} (h : r₁.Evolves r₂)
    (h' : r₂.Evolves r₃) : r₁.Evolves r₃ where
  id := h'.id.trans h.id
  sender := h'.sender.trans h.sender
  recipient := h'.recipient.trans h.recipient
  message := h'.message.trans h.message
  createdAt := h'.createdAt.trans h.createdAt
  final hp := by
    obtain rfl := h.final hp
    exact h'.final hp

theorem RequestRow.evolves_settle {r : RequestRow} (h : r.isPending = true) (st : RequestStatus)
    (t : Nat) : r.Evolves (r.settle st t) where
  id := rfl
  sender := rfl
  recipient := rfl
  message := rfl
  createdAt := rfl
  final hp := by rw [h] at hp; cases hp

/-- Every request of `db` is still there in `db'`, and no user has gone. -/
structure Grows (db db' : Db) : Prop where
  users : db'.users = db.users
  rows : ∀ r ∈ db.requests, ∃ r' ∈ db'.requests, r.Evolves r'

theorem Grows.refl (db : Db) : Grows db db :=
  ⟨rfl, fun r hr => ⟨r, hr, .refl r⟩⟩

theorem Grows.trans {db₁ db₂ db₃ : Db} (h : Grows db₁ db₂) (h' : Grows db₂ db₃) :
    Grows db₁ db₃ where
  users := h'.users.trans h.users
  rows r hr := by
    obtain ⟨r₂, hr₂, e₂⟩ := h.rows r hr
    obtain ⟨r₃, hr₃, e₃⟩ := h'.rows r₂ hr₂
    exact ⟨r₃, hr₃, e₂.trans e₃⟩

theorem Grows.userExists {db db' : Db} (h : Grows db db') (u : UserId) :
    db'.userExists u = db.userExists u := by
  rw [Db.userExists, h.users, Db.userExists]

/-- What the holder of a lock may rely on between two moments. -/
def Kept : Lock → Db → Db → Prop
  | .pair low high, db, db' => low ≤ high →
      db'.requestsBetween low high = db.requestsBetween low high ∧
      db'.areFriends low high = db.areFriends low high ∧
      ∀ k ∈ db'.blocks, k.between low high = true → k ∈ db.blocks
  | .request id, db, db' => ∀ r' ∈ db'.requests, r'.id = id →
      ∃ r ∈ db.requests, r.id = id ∧ r.sender = r'.sender ∧ r.recipient = r'.recipient

theorem Kept.refl (l : Lock) (db : Db) : Kept l db db := by
  cases l with
  | pair low high => exact fun _ => ⟨rfl, rfl, fun _ hk _ => hk⟩
  | request id => exact fun r hr hid => ⟨r, hr, hid, rfl, rfl⟩

theorem Kept.trans {l : Lock} {db₁ db₂ db₃ : Db} (h : Kept l db₁ db₂) (h' : Kept l db₂ db₃) :
    Kept l db₁ db₃ := by
  cases l with
  | pair low high =>
      intro hle
      obtain ⟨hr, hf, hb⟩ := h hle
      obtain ⟨hr', hf', hb'⟩ := h' hle
      exact ⟨hr'.trans hr, hf'.trans hf, fun k hk hbt => hb k (hb' k hk hbt) hbt⟩
  | request id =>
      intro r₃ hr₃ hid
      obtain ⟨r₂, hr₂, hid₂, hs₂, hp₂⟩ := h' r₃ hr₃ hid
      obtain ⟨r₁, hr₁, hid₁, hs₁, hp₁⟩ := h r₂ hr₂ hid₂
      exact ⟨r₁, hr₁, hid₁, hs₁.trans hs₂, hp₁.trans hp₂⟩

/-- What the pair lock of `v` and `t` keeps, for the pair in any order. -/
theorem kept_pairKey {v t : UserId} {db db' : Db} (h : Kept (pairKey v t) db db') :
    db'.requestsBetween v t = db.requestsBetween v t ∧ db'.areFriends v t = db.areFriends v t ∧
      ∀ k ∈ db'.blocks, k.between v t = true → k ∈ db.blocks := by
  rcases le_total v t with hle | hle
  · rw [pairKey_of_le hle] at h
    exact h hle
  · rw [pairKey_comm, pairKey_of_le hle] at h
    rw [db'.requestsBetween_comm, db.requestsBetween_comm, db'.areFriends_comm,
      db.areFriends_comm, BlockRow.between_comm]
    exact h hle

/-- A change of one pair keeps what the locks of the other pairs protect. -/
theorem LocalTo.kept {v t : UserId} {db db' : Db} (h : LocalTo v t db db') {low high : UserId}
    (hl : Lock.pair low high ≠ pairKey v t) : Kept (.pair low high) db db' := by
  intro hle
  have hs : ¬ SamePair v t low high := by
    intro hs
    rw [← pairKey_of_le hle, ne_eq, pairKey_eq_iff] at hl
    exact hl hs.symm
  refine ⟨h.requests _ _ hs, h.friends _ _ hs, fun k hk hb => h.blocks k hk ?_⟩
  rw [Bool.eq_false_iff]
  intro hvt
  rw [BlockRow.between_iff] at hb hvt
  exact hs (hvt.symm.trans hb)

/-- **What the social transactions may rely on.** -/
def discipline : Discipline engine where
  Inv := Consistent
  Base σ σ' := σ.seq ≤ σ'.seq ∧ Grows σ.db σ'.db
  Keeps l σ σ' := Kept l σ.db σ'.db
  base_refl σ := ⟨le_rfl, .refl _⟩
  base_trans h h' := ⟨h.1.trans h'.1, h.2.trans h'.2⟩
  keeps_refl l σ := .refl l _
  keeps_trans h h' := h.trans h'
  inv_bump {σ st} h := by
    exact ⟨h.schema, fun r hr => ⟨(h.ids r hr).1,
      (h.ids r hr).2.trans (Int.ofNat_le.mpr (σ.seq_le_bump st))⟩, h.pairs⟩
  base_bump σ st := ⟨σ.seq_le_bump st, .refl _⟩
  keeps_bump l σ st := .refl l _

end DevbitBackend.Social
