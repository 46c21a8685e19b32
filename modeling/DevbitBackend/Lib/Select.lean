import Mathlib.Data.List.Forall2

/-!
# Select

What a query lists: `SELECT .. FROM rows JOIN .. WHERE .. ORDER BY ..`. The answer shows
each row of the table that satisfies the condition exactly once, and in the order
(`Lists`). A join keeps that when it finds one partner for every row (`lists_join`); a
condition on the joined rows and a change of what is shown keep it as well
(`Lists.filter`, `Lists.map`).
-/

namespace Select

variable {ρ κ τ υ : Type*}

/-- `items` lists the rows that satisfy `where_`, as `shows` says: each of them once, and
in the order `before`. -/
structure Lists (rows : List ρ) (where_ : ρ → Prop) [DecidablePred where_]
    (before : ρ → ρ → Prop) (shows : ρ → τ → Prop) (items : List τ) : Prop where
  exact : ∃ chosen : List ρ, chosen.Perm (rows.filter fun r => where_ r) ∧
    chosen.Pairwise before ∧ List.Forall₂ shows chosen items

variable {rows rows' : List ρ} {p q : ρ → Prop} [DecidablePred p] [DecidablePred q]
  {before before' : ρ → ρ → Prop} {shows : ρ → τ → Prop} {items : List τ}

/-- The same rows under the same condition. -/
theorem Lists.congr (h : Lists rows p before shows items) (hrows : rows.Perm rows')
    (hpq : ∀ r ∈ rows, p r ↔ q r) : Lists rows' q before shows items := by
  obtain ⟨chosen, hperm, horder, hshows⟩ := h.exact
  refine ⟨chosen, hperm.trans ?_, horder, hshows⟩
  rw [List.filter_congr fun r hr => decide_eq_decide.mpr (hpq r hr)]
  exact hrows.filter _

/-- What is shown of the rows changes. -/
theorem Lists.map {shows' : ρ → υ → Prop} (h : Lists rows p before shows items) {f : τ → υ}
    (hf : ∀ r x, shows r x → shows' r (f x)) : Lists rows p before shows' (items.map f) := by
  obtain ⟨chosen, hperm, horder, hshows⟩ := h.exact
  exact ⟨chosen, hperm, horder, List.forall₂_map_right_iff.mpr (hshows.imp hf)⟩

/-- Some of the rows only. -/
theorem Lists.filter (h : Lists rows p before shows items) {g : τ → Bool}
    (hg : ∀ r x, shows r x → (g x = true ↔ q r)) :
    Lists rows (fun r => p r ∧ q r) before shows (items.filter g) := by
  obtain ⟨chosen, hperm, horder, hshows⟩ := h.exact
  refine ⟨chosen.filter fun r => q r, ?_, horder.filter _, ?_⟩
  · refine (hperm.filter _).trans (.of_eq ?_)
    rw [List.filter_filter]
    refine List.filter_congr fun r _ => ?_
    rw [Bool.decide_and, Bool.and_comm]
  · refine List.rel_filter ?_ hshows
    intro r x hrx
    exact decide_eq_true_iff.trans (hg r x hrx).symm

/-- A join that finds one partner for each row. -/
theorem flatMap_join {join : ρ → List κ} {base : κ → ρ}
    (hjoin : ∀ r ∈ rows, ∃ k, join r = [k] ∧ base k = r) :
    (rows.flatMap join).map base = rows := by
  induction rows with
  | nil => rfl
  | cons r rows ih =>
      obtain ⟨⟨k, hk, hbase⟩, hrest⟩ := List.forall_mem_cons.mp hjoin
      rw [List.flatMap_cons, List.map_append, ih hrest, hk, List.map_singleton, hbase]
      rfl

/-- **The query**: the rows that satisfy the condition, joined with one partner each, and
sorted. -/
theorem lists_join {g : ρ → Bool} {join : ρ → List κ} {base : κ → ρ} {le : κ → κ → Bool}
    (hjoin : ∀ r ∈ rows, ∃ k, join r = [k] ∧ base k = r)
    (htrans : ∀ a b c, le a b = true → le b c = true → le a c = true)
    (htotal : ∀ a b, (le a b || le b a) = true)
    (hbefore : ∀ a b, le a b = true → before (base a) (base b)) :
    Lists rows (fun r => g r = true) before (fun r k => r ∈ rows ∧ join r = [k] ∧ base k = r)
      (((rows.filter g).flatMap join).mergeSort le) := by
  have hchosen : ∀ r ∈ rows.filter g, ∃ k, join r = [k] ∧ base k = r :=
    fun r hr => hjoin r (List.mem_of_mem_filter hr)
  refine ⟨(((rows.filter g).flatMap join).mergeSort le).map base, ?_, ?_, ?_⟩
  · refine ((List.mergeSort_perm _ _).map base).trans (.of_eq ?_)
    rw [flatMap_join hchosen]
    exact List.filter_congr fun r _ => Bool.decide_eq_true.symm
  · exact List.pairwise_map.mpr ((List.pairwise_mergeSort htrans htotal _).imp (hbefore _ _))
  · refine List.forall₂_map_left_iff.mpr (List.forall₂_same.mpr fun k hk => ?_)
    obtain ⟨r, hr, hkr⟩ := List.mem_flatMap.mp (List.mem_mergeSort.mp hk)
    obtain ⟨k', hk', rfl⟩ := hchosen r hr
    obtain rfl : k = k' := List.mem_singleton.mp (hk' ▸ hkr)
    exact ⟨List.mem_of_mem_filter hr, hk', rfl⟩

end Select
