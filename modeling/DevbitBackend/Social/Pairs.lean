import Mathlib.Order.MinMax
import Mathlib.Data.Int.Order.Basic
import Mathlib.Data.List.Nodup
import DevbitBackend.Social.Tables

/-!
# Social.Pairs

The relationship of two users is a matter of the **unordered pair**: requests
and blocks are read in both directions, a friendship is stored once as
`(low, high)`, and the advisory lock has the same key from both sides. This
module says what the part of the database that belongs to one pair is, and when
a change of the database touches only one pair.
-/

namespace DevbitBackend.Social

/-- `a` and `b` are `c` and `d`, in some order. -/
def SamePair (a b c d : UserId) : Prop := (a = c ∧ b = d) ∨ (a = d ∧ b = c)

instance (a b c d : UserId) : Decidable (SamePair a b c d) :=
  inferInstanceAs (Decidable ((a = c ∧ b = d) ∨ (a = d ∧ b = c)))

theorem samePair_self (a b : UserId) : SamePair a b a b := .inl ⟨rfl, rfl⟩

theorem SamePair.symm {a b c d : UserId} (h : SamePair a b c d) : SamePair c d a b := by
  rcases h with ⟨rfl, rfl⟩ | ⟨rfl, rfl⟩
  · exact .inl ⟨rfl, rfl⟩
  · exact .inr ⟨rfl, rfl⟩

theorem SamePair.trans {a b c d e f : UserId} (h : SamePair a b c d) (h' : SamePair c d e f) :
    SamePair a b e f := by
  rcases h with ⟨rfl, rfl⟩ | ⟨rfl, rfl⟩
  · exact h'
  · rcases h' with ⟨rfl, rfl⟩ | ⟨rfl, rfl⟩
    · exact .inr ⟨rfl, rfl⟩
    · exact .inl ⟨rfl, rfl⟩

theorem samePair_minmax (a b : UserId) : SamePair a b (min a b) (max a b) := by
  rcases le_total a b with h | h
  · exact .inl ⟨(min_eq_left h).symm, (max_eq_right h).symm⟩
  · exact .inr ⟨(max_eq_left h).symm, (min_eq_right h).symm⟩

/-- The lock of a pair does not depend on who asks. -/
theorem pairKey_comm (a b : UserId) : pairKey a b = pairKey b a := by
  unfold pairKey
  rw [min_comm, max_comm]

/-- Different pairs have different locks, and the order of the two users does not matter. -/
theorem pairKey_eq_iff {a b c d : UserId} : pairKey a b = pairKey c d ↔ SamePair a b c d := by
  constructor
  · intro h
    obtain ⟨hmin, hmax⟩ := Lock.pair.inj h
    have hab := samePair_minmax a b
    rw [hmin, hmax] at hab
    exact hab.trans (samePair_minmax c d).symm
  · rintro (⟨rfl, rfl⟩ | ⟨rfl, rfl⟩)
    · rfl
    · exact pairKey_comm a b

theorem pairKey_of_le {low high : UserId} (h : low ≤ high) : pairKey low high = .pair low high := by
  simp [pairKey, min_eq_left h, max_eq_right h]

/-! ### The rows of a pair -/

theorem RequestRow.between_iff {a b : UserId} {r : RequestRow} :
    r.between a b = true ↔ SamePair r.sender r.recipient a b := by
  simp [RequestRow.between, SamePair]

theorem BlockRow.between_iff {a b : UserId} {k : BlockRow} :
    k.between a b = true ↔ SamePair k.user k.blocked a b := by
  simp [BlockRow.between, SamePair]

theorem RequestRow.between_comm (a b : UserId) :
    RequestRow.between a b = RequestRow.between b a := by
  funext r
  simp [RequestRow.between, Bool.or_comm]

theorem BlockRow.between_comm (a b : UserId) : BlockRow.between a b = BlockRow.between b a := by
  funext k
  simp [BlockRow.between, Bool.or_comm]

theorem FriendshipRow.isOf_comm (a b : UserId) :
    FriendshipRow.isOf a b = FriendshipRow.isOf b a := by
  funext f
  simp [FriendshipRow.isOf, min_comm, max_comm]

/-- A row of one pair is a row of no other pair. -/
theorem RequestRow.not_between {a b c d : UserId} {r : RequestRow} (hr : r.between a b = true)
    (h : ¬ SamePair a b c d) : r.between c d = false := by
  rw [Bool.eq_false_iff]
  intro hc
  rw [RequestRow.between_iff] at hr hc
  exact h (hr.symm.trans hc)

@[simp] theorem RequestRow.settle_between (a b : UserId) (st : RequestStatus) (t : Nat)
    (r : RequestRow) : (r.settle st t).between a b = r.between a b := rfl

@[simp] theorem RequestRow.settle_isPending (st : RequestStatus) (t : Nat) (r : RequestRow) :
    (r.settle st t).isPending = (st == .pending) := rfl

@[simp] theorem RequestRow.settle_id (st : RequestStatus) (t : Nat) (r : RequestRow) :
    (r.settle st t).id = r.id := rfl

namespace Db

theorem requestsBetween_comm (db : Db) (a b : UserId) :
    db.requestsBetween a b = db.requestsBetween b a := by
  rw [requestsBetween, RequestRow.between_comm, requestsBetween]

theorem pendingBetween_comm (db : Db) (a b : UserId) :
    db.pendingBetween a b = db.pendingBetween b a := by
  rw [pendingBetween, requestsBetween_comm, pendingBetween]

theorem areFriends_comm (db : Db) (a b : UserId) : db.areFriends a b = db.areFriends b a := by
  rw [areFriends, FriendshipRow.isOf_comm, areFriends]

theorem blockExists_comm (db : Db) (a b : UserId) : db.blockExists a b = db.blockExists b a := by
  rw [blockExists, BlockRow.between_comm, blockExists]

theorem mem_pendingBetween {db : Db} {a b : UserId} {r : RequestRow} :
    r ∈ db.pendingBetween a b ↔ r ∈ db.requests ∧ r.between a b = true ∧ r.isPending = true := by
  simp [pendingBetween, requestsBetween, and_comm]

end Db

theorem SamePair.areFriends {db : Db} {a b c d : UserId} (h : SamePair a b c d) :
    db.areFriends c d = db.areFriends a b := by
  rcases h with ⟨rfl, rfl⟩ | ⟨rfl, rfl⟩
  · rfl
  · exact db.areFriends_comm _ _

theorem SamePair.blockExists {db : Db} {a b c d : UserId} (h : SamePair a b c d) :
    db.blockExists c d = db.blockExists a b := by
  rcases h with ⟨rfl, rfl⟩ | ⟨rfl, rfl⟩
  · rfl
  · exact db.blockExists_comm _ _

/-- What holds of every pair: at most one pending request, and
none between friends or across a block. -/
structure PairOk (db : Db) (a b : UserId) : Prop where
  onePending : (db.pendingBetween a b).length ≤ 1
  friends : db.areFriends a b = true → db.pendingBetween a b = []
  blocked : db.blockExists a b = true → db.pendingBetween a b = []

theorem PairOk.comm {db : Db} {a b : UserId} (h : PairOk db a b) : PairOk db b a := by
  constructor
  · rw [db.pendingBetween_comm]; exact h.onePending
  · rw [db.pendingBetween_comm, db.areFriends_comm]; exact h.friends
  · rw [db.pendingBetween_comm, db.blockExists_comm]; exact h.blocked

theorem PairOk.of_samePair {db : Db} {a b c d : UserId} (h : PairOk db a b)
    (hs : SamePair a b c d) : PairOk db c d := by
  rcases hs with ⟨rfl, rfl⟩ | ⟨rfl, rfl⟩
  · exact h
  · exact h.comm

/-! ### Changes that touch one pair -/

/-- Outside the pair `v`, `t` the change from `db` to `db'` only removes
blocks. -/
structure LocalTo (v t : UserId) (db db' : Db) : Prop where
  requests : ∀ a b, ¬ SamePair v t a b → db'.requestsBetween a b = db.requestsBetween a b
  friends : ∀ a b, ¬ SamePair v t a b → db'.areFriends a b = db.areFriends a b
  blocks : ∀ k ∈ db'.blocks, k.between v t = false → k ∈ db.blocks

namespace LocalTo

variable {v t : UserId} {db db' db'' : Db}

theorem refl (v t : UserId) (db : Db) : LocalTo v t db db :=
  ⟨fun _ _ _ => rfl, fun _ _ _ => rfl, fun _ hk _ => hk⟩

theorem trans (h : LocalTo v t db db') (h' : LocalTo v t db' db'') : LocalTo v t db db'' where
  requests a b hs := (h'.requests a b hs).trans (h.requests a b hs)
  friends a b hs := (h'.friends a b hs).trans (h.friends a b hs)
  blocks k hk hb := h.blocks k (h'.blocks k hk hb) hb

theorem pending (h : LocalTo v t db db') {a b : UserId} (hs : ¬ SamePair v t a b) :
    db'.pendingBetween a b = db.pendingBetween a b := by
  rw [Db.pendingBetween, h.requests a b hs, Db.pendingBetween]

theorem blockExists (h : LocalTo v t db db') {a b : UserId} (hs : ¬ SamePair v t a b)
    (hb : db'.blockExists a b = true) : db.blockExists a b = true := by
  obtain ⟨k, hk, hkab⟩ := List.any_eq_true.mp hb
  refine List.any_eq_true.mpr ⟨k, h.blocks k hk ?_, hkab⟩
  rw [Bool.eq_false_iff]
  intro hvt
  rw [BlockRow.between_iff] at hkab hvt
  exact hs (hvt.symm.trans hkab)

/-- A change of one pair keeps the invariants of all pairs when it keeps those
of that pair. -/
theorem pairOk (h : LocalTo v t db db') (hall : ∀ a b, PairOk db a b) (hvt : PairOk db' v t)
    (a b : UserId) : PairOk db' a b := by
  by_cases hs : SamePair v t a b
  · exact hvt.of_samePair hs
  · constructor
    · rw [h.pending hs]; exact (hall a b).onePending
    · rw [h.pending hs, h.friends a b hs]; exact (hall a b).friends
    · rw [h.pending hs]; exact fun hb => (hall a b).blocked (h.blockExists hs hb)

end LocalTo

/-! ### The writes -/

section Writes

variable {v t : UserId} {db : Db}

theorem localTo_insertRequest {r : RequestRow} (hr : r.between v t = true) :
    LocalTo v t db (Write.apply (.insertRequest r) db) where
  requests a b hs := by
    simp [Write.apply, Db.requestsBetween, List.filter_append, r.not_between hr hs]
  friends _ _ _ := rfl
  blocks _ hk _ := hk

theorem localTo_setStatus {ids : List RequestId} {st : RequestStatus} {now : Nat}
    (h : ∀ r ∈ db.requests, r.id ∈ ids → r.between v t = true) :
    LocalTo v t db (Write.apply (.setStatus ids st now) db) where
  requests a b hs := by
    simp only [Write.apply, Db.requestsBetween, List.filter_map]
    -- the rows that change are of the pair, so they are filtered out on both sides
    have hout : ∀ r ∈ db.requests.filter (RequestRow.between a b), r.id ∉ ids := by
      intro r hr hid
      obtain ⟨hmem, hab⟩ := List.mem_filter.mp hr
      rw [r.not_between (h r hmem hid) hs] at hab
      cases hab
    have hcomp : (RequestRow.between a b ∘ fun r => if r.id ∈ ids then r.settle st now else r) =
        RequestRow.between a b := by
      funext r
      simp only [Function.comp_apply]
      split <;> rfl
    rw [hcomp]
    calc (db.requests.filter (RequestRow.between a b)).map
          (fun r => if r.id ∈ ids then r.settle st now else r)
        = (db.requests.filter (RequestRow.between a b)).map id :=
          List.map_congr_left fun r hr => if_neg (hout r hr)
      _ = _ := List.map_id _
  friends _ _ _ := rfl
  blocks _ hk _ := hk

theorem localTo_insertFriendship {f : FriendshipRow} (hlow : f.userLow = min v t)
    (hhigh : f.userHigh = max v t) : LocalTo v t db (Write.apply (.insertFriendship f) db) where
  requests _ _ _ := rfl
  friends a b hs := by
    have hne : FriendshipRow.isOf a b f = false := by
      rw [Bool.eq_false_iff]
      intro hab
      simp only [FriendshipRow.isOf, hlow, hhigh, Bool.and_eq_true, beq_iff_eq] at hab
      exact hs (pairKey_eq_iff.mp (by rw [pairKey, pairKey, hab.1, hab.2]))
    simp [Write.apply, Db.areFriends, hne]
  blocks _ hk _ := hk

theorem localTo_deleteFriendship (v t : UserId) (db : Db) :
    LocalTo v t db (Write.apply (.deleteFriendship (min v t) (max v t)) db) where
  requests _ _ _ := rfl
  friends a b hs := by
    simp only [Write.apply, Db.areFriends, List.any_filter]
    congr 1
    funext f
    rw [Bool.eq_iff_iff]
    simp only [FriendshipRow.isOf, Bool.and_eq_true, beq_iff_eq, Bool.not_eq_true',
      Bool.and_eq_false_iff, beq_eq_false_iff_ne]
    constructor
    · intro h
      exact h.2
    · refine fun h => ⟨?_, h⟩
      by_contra hcon
      obtain ⟨hlow, hhigh⟩ := not_or.mp hcon
      rw [not_not] at hlow hhigh
      exact hs (pairKey_eq_iff.mp (by rw [pairKey, pairKey, ← hlow, ← hhigh, h.1, h.2]))
  blocks _ hk _ := hk

theorem localTo_insertBlock {k : BlockRow} (hk : k.between v t = true) :
    LocalTo v t db (Write.apply (.insertBlock k) db) where
  requests _ _ _ := rfl
  friends _ _ _ := rfl
  blocks k' hk' hb := by
    rcases List.mem_append.mp hk' with h | h
    · exact h
    · obtain rfl : k' = k := by simpa using h
      rw [hk] at hb
      cases hb

end Writes

end DevbitBackend.Social
