import Mathlib.Data.List.AList
import Mathlib.Order.Basic

/-!
# SlidingWindow

Logs of times that are only looked at through a **window** that ends now. A
stored log may lose its stale times at any moment: as long as it loses nothing
else, it answers every later question as the whole history does (`Covers`).
-/

namespace SlidingWindow

/-- Which times are too old to count: `stale now t`. What is stale stays stale,
and so was everything before it. -/
structure Window (τ : Type*) [Preorder τ] where
  stale : τ → τ → Bool
  later : ∀ {now now' t}, now ≤ now' → stale now t = true → stale now' t = true
  older : ∀ {now t t'}, t' ≤ t → stale now t = true → stale now t' = true

namespace Window

variable {τ : Type*} [Preorder τ] (w : Window τ)

/-- The times that count. -/
def live (now : τ) (ts : List τ) : List τ := ts.filter fun t => !w.stale now t

/-- Stale times are taken off the front. -/
def trim (now : τ) (ts : List τ) : List τ := ts.dropWhile (w.stale now)

variable {w} {now now' : τ} {ts stored history : List τ}

theorem live_nil : w.live now [] = [] := rfl

theorem live_append (ts ts' : List τ) : w.live now (ts ++ ts') = w.live now ts ++ w.live now ts' :=
  List.filter_append ..

/-- What was dropped earlier does not count later. -/
theorem live_live (h : now ≤ now') : w.live now' (w.live now ts) = w.live now' ts := by
  unfold live
  rw [List.filter_filter]
  refine List.filter_congr fun t _ => ?_
  cases hs : w.stale now t with
  | true => simp [w.later h hs]
  | false => simp

/-- In a sorted log the stale times stand in front. -/
theorem trim_eq_live (hs : ts.Pairwise (· ≤ ·)) : w.trim now ts = w.live now ts := by
  induction ts with
  | nil => rfl
  | cons t ts ih =>
      obtain ⟨ht, hts⟩ := List.pairwise_cons.mp hs
      cases hst : w.stale now t with
      | true =>
          have hl : w.live now (t :: ts) = w.live now ts := by simp [live, hst]
          have hr : w.trim now (t :: ts) = w.trim now ts := by simp [trim, hst]
          rw [hl, hr, ih hts]
      | false =>
          -- the first time that counts is older than all that follow
          have hall : ∀ x ∈ t :: ts, (!w.stale now x) = true := by
            intro x hx
            rw [Bool.not_eq_true']
            by_contra hcon
            have hxs : w.stale now x = true := by simpa using hcon
            have htx : t ≤ x := by
              rcases List.mem_cons.mp hx with rfl | hx
              · exact le_rfl
              · exact ht x hx
            rw [w.older htx hxs] at hst
            cases hst
          unfold live trim
          rw [List.filter_eq_self.mpr hall, List.dropWhile_cons_of_neg (by simp [hst])]

/-- What is taken off the front does not count later. -/
theorem live_trim (h : now ≤ now') : w.live now' (w.trim now ts) = w.live now' ts := by
  induction ts with
  | nil => rfl
  | cons t ts ih =>
      cases hs : w.stale now t with
      | false => rw [trim, List.dropWhile_cons_of_neg (by simp [hs])]
      | true =>
          have hcons : w.live now' (t :: ts) = w.live now' ts := by simp [live, w.later h hs]
          rw [trim, List.dropWhile_cons_of_pos hs, hcons]
          exact ih

/-- A count that sees no stale times is the same before and after. -/
theorem countP_live {q : τ → Bool} (hq : ∀ t, q t = true → w.stale now t = false) :
    (w.live now ts).countP q = ts.countP q := by
  rw [live, List.countP_filter]
  refine List.countP_congr fun t _ => ?_
  simpa using hq t

theorem countP_trim {q : τ → Bool} (hq : ∀ t, q t = true → w.stale now t = false) :
    (w.trim now ts).countP q = ts.countP q := by
  have hlive : (w.live now (w.trim now ts)).countP q = (w.trim now ts).countP q := countP_live hq
  rw [← hlive, live_trim le_rfl, countP_live hq]

variable (w) in
/-- From `now` on, the stored log answers as the history does. -/
structure Covers (now : τ) (stored history : List τ) : Prop where
  sorted : stored.Pairwise (· ≤ ·)
  past : ∀ t ∈ stored, t ≤ now
  agrees : ∀ now', now ≤ now' → w.live now' stored = w.live now' history

namespace Covers

theorem nil : w.Covers now [] [] := ⟨.nil, by simp, fun _ _ => rfl⟩

theorem later (hc : w.Covers now stored history) (h : now ≤ now') :
    w.Covers now' stored history where
  sorted := hc.sorted
  past t ht := (hc.past t ht).trans h
  agrees now'' h' := hc.agrees now'' (h.trans h')

/-- A sweep keeps what counts: it drops stale times only. -/
theorem live (hc : w.Covers now stored history) : w.Covers now (w.live now stored) history where
  sorted := hc.sorted.sublist List.filter_sublist
  past t ht := hc.past t (List.mem_of_mem_filter ht)
  agrees now' h := by rw [live_live h, hc.agrees now' h]

theorem trim (hc : w.Covers now stored history) : w.Covers now (w.trim now stored) history := by
  rw [trim_eq_live hc.sorted]
  exact hc.live

/-- After trimming, the stored log is what counts of the history. -/
theorem trim_eq (hc : w.Covers now stored history) : w.trim now stored = w.live now history := by
  rw [trim_eq_live hc.sorted, hc.agrees now le_rfl]

/-- The present time is logged. -/
theorem push (hc : w.Covers now stored history) :
    w.Covers now (stored ++ [now]) (history ++ [now]) where
  sorted := by
    rw [List.pairwise_append]
    refine ⟨hc.sorted, List.pairwise_singleton _ _, ?_⟩
    intro t ht t' ht'
    rw [List.mem_singleton.mp ht']
    exact hc.past t ht
  past t ht := by
    rcases List.mem_append.mp ht with ht | ht
    · exact hc.past t ht
    · exact (List.mem_singleton.mp ht).le
  agrees now' h := by rw [live_append, live_append, hc.agrees now' h]

end Covers

end Window

/-! ### Tables of logs -/

section Retain

variable {α : Type*} {β : α → Type*}

/-- The entries that `f` keeps, changed by it. -/
def retainEntries (f : ∀ a, β a → Option (β a)) (entries : List (Sigma β)) : List (Sigma β) :=
  entries.filterMap fun e => (f e.1 e.2).map (Sigma.mk e.1)

theorem keys_retainEntries (f : ∀ a, β a → Option (β a)) (entries : List (Sigma β)) :
    (retainEntries f entries).keys.Sublist entries.keys := by
  induction entries with
  | nil => exact .slnil
  | cons e entries ih =>
      unfold retainEntries at ih ⊢
      cases hf : f e.1 e.2 with
      | none => simpa [List.filterMap_cons, hf] using ih.cons e.1
      | some b => simpa [List.filterMap_cons, hf] using ih.cons_cons e.1

/-- Each entry of a table is changed by `f`, or dropped. -/
def retain (f : ∀ a, β a → Option (β a)) (m : AList β) : AList β :=
  ⟨retainEntries f m.entries, (keys_retainEntries f m.entries).nodup m.nodupKeys⟩

variable [DecidableEq α]

theorem dlookup_retainEntries (f : ∀ a, β a → Option (β a)) {entries : List (Sigma β)}
    (h : entries.NodupKeys) (a : α) :
    (retainEntries f entries).dlookup a = (entries.dlookup a).bind (f a) := by
  induction entries with
  | nil => rfl
  | cons e entries ih =>
      obtain ⟨a', b⟩ := e
      obtain ⟨hnot, hrest⟩ := List.nodupKeys_cons.mp h
      have hcons : retainEntries f (⟨a', b⟩ :: entries) =
          ((f a' b).map (Sigma.mk a')).toList ++ retainEntries f entries := by
        unfold retainEntries
        cases hf : f a' b <;> simp [hf]
      rw [hcons]
      by_cases ha : a = a'
      · subst ha
        have hnone : (retainEntries f entries).dlookup a = none :=
          List.dlookup_eq_none.mpr fun hmem => hnot ((keys_retainEntries f entries).subset hmem)
        rw [List.dlookup_cons_eq, Option.bind_some]
        cases hf : f a b with
        | none => simpa using hnone
        | some b' => simp
      · rw [List.dlookup_cons_ne _ _ ha, ← ih hrest]
        cases hf : f a' b with
        | none => simp
        | some b' => exact List.dlookup_cons_ne _ ⟨a', b'⟩ ha

theorem lookup_retain (f : ∀ a, β a → Option (β a)) (m : AList β) (a : α) :
    (retain f m).lookup a = (m.lookup a).bind (f a) :=
  dlookup_retainEntries f m.nodupKeys a

end Retain

end SlidingWindow
