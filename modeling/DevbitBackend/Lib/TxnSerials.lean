import DevbitBackend.Lib.TxnWrites
import Mathlib.Data.Int.Order.Basic
import Mathlib.Data.List.Nodup
import Mathlib.Data.List.Perm.Subperm

/-!
# TxnSerials

Keys that are drawn from the sequence of the engine (`Serials`) are unique in every state
of every run. A key is drawn when its statement runs, and may be in the private writes of a
transaction for a long time before it is in the tables, or never get there. So the
invariant (`Unique`) is about all the places where a key may be: the tables, and the
transactions that are open.
-/

namespace Txn

open Transition

variable {E : Engine} {α κ : Type}

/-- Keys that an engine draws from its sequence. -/
structure Serials (E : Engine) (κ : Type) where
  /-- The keys in the tables. -/
  keys : E.Db → List κ
  /-- The keys that a write brings in. -/
  drawn : E.Write → List κ
  /-- The value of the sequence that a key is made of. -/
  value : κ → Int
  keys_apply : ∀ w db, (keys (E.apply w db)).Subperm (keys db ++ drawn w)
  drawn_eval : ∀ {st now seq db r ws}, E.eval st now seq db = some (r, ws) →
    (ws.flatMap drawn).Nodup ∧ ∀ k ∈ ws.flatMap drawn, E.draws st = true ∧ value k = seq + 1

/-- The writes of the open transaction. -/
def Phase.buffer : Phase E α → List E.Write
  | .tx _ buf _ _ => buf
  | _ => []

variable {c : Serials E κ}

theorem nodup_of_subperm {l l' : List κ} (h : l.Subperm l') (hn : l'.Nodup) : l.Nodup := by
  obtain ⟨l₀, hperm, hsub⟩ := h
  exact hperm.nodup_iff.mp (hn.sublist hsub)

/-- Many writes bring in what each of them does. -/
theorem Serials.keys_applyAll (c : Serials E κ) (ws : List E.Write) (db : E.Db) :
    (c.keys (E.applyAll ws db)).Subperm (c.keys db ++ ws.flatMap c.drawn) := by
  induction ws generalizing db with
  | nil => simpa using List.Subperm.refl _
  | cons w ws ih =>
      rw [Engine.applyAll_cons, List.flatMap_cons, ← List.append_assoc]
      exact (ih _).trans ((List.subperm_append_right _).mpr (c.keys_apply w db))

section Runs

variable {ι : Type} [DecidableEq ι] [DecidableEq E.Lock] {cfg : Config ι α} {s s' : Sys E ι α}
  {l : Label ι}

/-- The keys in one place: in the tables, or in the transaction of a request. -/
def Serials.held (c : Serials E κ) (s : Sys E ι α) : Option ι → List κ
  | none => c.keys s.db
  | some i => (s.calls i).buffer.flatMap c.drawn

/-- No key is twice in a place or in two places, and the sequence has given all of them
out. -/
structure Serials.Unique (c : Serials E κ) (s : Sys E ι α) : Prop where
  nodup : ∀ o, (c.held s o).Nodup
  apart : ∀ {o o'}, o ≠ o' → (c.held s o).Disjoint (c.held s o')
  drawn : ∀ o, ∀ k ∈ c.held s o, c.value k ≤ s.seq

omit [DecidableEq ι] [DecidableEq E.Lock] in
/-- Every place keeps some of its keys. -/
theorem Serials.Unique.shrink (h : c.Unique s) (hheld : ∀ o, (c.held s' o).Subperm (c.held s o))
    (hseq : s.seq ≤ s'.seq) : c.Unique s' where
  nodup o := nodup_of_subperm (hheld o) (h.nodup o)
  apart hne _ hk hk' := h.apart hne ((hheld _).subset hk) ((hheld _).subset hk')
  drawn o k hk := Int.le_trans (h.drawn o k ((hheld o).subset hk)) (Int.ofNat_le.mpr hseq)

omit [DecidableEq ι] [DecidableEq E.Lock] in
/-- One place gets keys that have just been drawn. -/
theorem Serials.Unique.grow {o : Option ι} {new : List κ} (h : c.Unique s)
    (hheld : (c.held s' o).Subperm (c.held s o ++ new))
    (hothers : ∀ o', o' ≠ o → (c.held s' o').Subperm (c.held s o')) (hnodup : new.Nodup)
    (hnew : ∀ k ∈ new, c.value k = s.seq + 1 ∧ s'.seq = s.seq + 1) (hseq : s.seq ≤ s'.seq) :
    c.Unique s' := by
  -- keys held before were drawn before, so they are smaller
  have hfresh : ∀ o', ∀ k ∈ new, k ∉ c.held s o' := by
    intro o' k hk hmem
    have hold := h.drawn o' k hmem
    have hvalue := (hnew k hk).1
    omega
  have hsubset : ∀ o', ∀ k ∈ c.held s' o', k ∈ c.held s o' ∨ o' = o ∧ k ∈ new := by
    intro o' k hk
    by_cases ho : o' = o
    · subst ho
      exact (List.mem_append.mp (hheld.subset hk)).imp_right fun hk => ⟨rfl, hk⟩
    · exact .inl ((hothers o' ho).subset hk)
  refine ⟨fun o' => ?_, ?_, ?_⟩
  · by_cases ho : o' = o
    · subst ho
      refine nodup_of_subperm hheld (List.nodup_append'.mpr ⟨h.nodup o', hnodup, ?_⟩)
      exact fun k hk hk' => hfresh o' k hk' hk
    · exact nodup_of_subperm (hothers o' ho) (h.nodup o')
  · intro o₁ o₂ hne k hk hk'
    rcases hsubset o₁ k hk with hold | ⟨rfl, hk⟩ <;> rcases hsubset o₂ k hk' with hold' | ⟨rfl, hk'⟩
    · exact h.apart hne hold hold'
    · exact hfresh o₁ k hk' hold
    · exact hfresh o₂ k hk hold'
    · exact hne rfl
  · intro o' k hk
    rcases hsubset o' k hk with hold | ⟨-, hk⟩
    · exact Int.le_trans (h.drawn o' k hold) (Int.ofNat_le.mpr hseq)
    · obtain ⟨hvalue, hnext⟩ := hnew k hk
      omega

omit [DecidableEq ι] [DecidableEq E.Lock] in
/-- The keys of a transaction get into the tables. -/
theorem Serials.Unique.publish {i : ι} (h : c.Unique s)
    (hdb : (c.keys s'.db).Subperm (c.keys s.db ++ c.held s (some i)))
    (hend : c.held s' (some i) = [])
    (hothers : ∀ j, j ≠ i → c.held s' (some j) = c.held s (some j)) (hseq : s'.seq = s.seq) :
    c.Unique s' := by
  have hmem : ∀ k ∈ c.keys s'.db, k ∈ c.held s none ∨ k ∈ c.held s (some i) :=
    fun k hk => List.mem_append.mp (hdb.subset hk)
  have hother : ∀ j k, k ∈ c.held s' (some j) → j ≠ i ∧ k ∈ c.held s (some j) := by
    intro j k hk
    by_cases hj : j = i
    · rw [hj, hend] at hk
      cases hk
    · exact ⟨hj, hothers j hj ▸ hk⟩
  -- what the tables got was held by the transaction that is over
  have htables : ∀ j k, k ∈ c.keys s'.db → k ∉ c.held s' (some j) := by
    intro j k hk hk'
    obtain ⟨hj, hk'⟩ := hother j k hk'
    rcases hmem k hk with hk | hk
    · have happart : (c.held s none).Disjoint (c.held s (some j)) := h.apart (by simp)
      exact happart hk hk'
    · exact h.apart (fun heq => hj (Option.some.inj heq).symm) hk hk'
  refine ⟨fun o => ?_, ?_, fun o k hk => ?_⟩
  · cases o with
    | none =>
        have happart : (c.held s none).Disjoint (c.held s (some i)) := h.apart (by simp)
        exact nodup_of_subperm hdb (List.nodup_append'.mpr ⟨h.nodup none, h.nodup _, happart⟩)
    | some j =>
        by_cases hj : j = i
        · rw [hj, hend]
          exact List.nodup_nil
        · rw [hothers j hj]
          exact h.nodup _
  · intro o o' hne k hk hk'
    cases o with
    | none =>
        cases o' with
        | none => exact hne rfl
        | some j => exact htables j k hk hk'
    | some j =>
        cases o' with
        | none => exact htables j k hk' hk
        | some j' => exact h.apart hne (hother j k hk).2 (hother j' k hk').2
  · rw [hseq]
    cases o with
    | none => exact (hmem k hk).elim (h.drawn none k) (h.drawn (some i) k)
    | some j => exact h.drawn _ k (hother j k hk).2

omit [DecidableEq E.Lock] in
/-- A request moves on with fewer private writes, or with the same. -/
theorem Serials.Unique.goto {i : ι} {ph : Phase E α} (h : c.Unique s)
    (hcalls : s'.calls = Function.update s.calls i ph) (hdb : s'.db = s.db) (hseq : s'.seq = s.seq)
    (hbuffer : ph.buffer = [] ∨ ph.buffer = (s.calls i).buffer) : c.Unique s' := by
  refine h.shrink (fun o => ?_) (Nat.le_of_eq hseq.symm)
  cases o with
  | none =>
      rw [Serials.held, Serials.held, hdb]
  | some j =>
      rw [Serials.held, Serials.held, hcalls]
      by_cases hj : j = i
      · subst hj
        rw [Function.update_self]
        rcases hbuffer with hnil | hsame
        · rw [hnil]
          exact List.nil_subperm
        · rw [hsame]
      · rw [Function.update_of_ne hj]

/-- **Every move keeps the keys unique**, in the tables and in the buffers of the open
transactions. -/
theorem Serials.Unique.step (h : c.Unique s) (hstep : step cfg l s = some s') : c.Unique s' := by
  cases move_of_step hstep with
  | arrive _ | acquire _ _ | clock _ | note _ | answer _ | autoRejected _ _ | rejected _ _
  | rollback _ | leave _ | failPool _ _ | failConn _ _ | failTx _ _ | failRollback _ _
  | begin _ _ => exact h.goto rfl rfl rfl (.inl rfl)
  | lock hc _ | txClock hc | txNote hc => exact h.goto rfl rfl rfl (.inr (by rw [hc]; rfl))
  | tick => exact h.shrink (fun o => by cases o <;> exact .refl _) (Nat.le_refl _)
  | @auto i st k r ws hc he _ =>
      obtain ⟨hnodup, hnew⟩ := c.drawn_eval he
      have hbump : ∀ k ∈ ws.flatMap c.drawn, c.value k = s.seq + 1 ∧
          (if E.draws st then s.seq + 1 else s.seq) = s.seq + 1 := by
        intro k hk
        obtain ⟨hdraws, hvalue⟩ := hnew k hk
        exact ⟨hvalue, if_pos hdraws⟩
      -- an autocommit statement puts its keys into the tables at once
      refine h.grow (o := none) (c.keys_applyAll ws s.db) (fun o' ho => ?_) hnodup hbump ?_
      · obtain ⟨j, rfl⟩ := Option.ne_none_iff_exists'.mp ho
        simp only [Serials.held, Sys.goto]
        by_cases hj : j = i
        · subst hj
          rw [Function.update_self]
          exact List.nil_subperm
        · rw [Function.update_of_ne hj]
          exact .refl _
      · exact Snap.seq_le_bump ⟨s.seq, s.db⟩ st
  | @exec i start buf notes st k r ws hc he _ =>
      obtain ⟨hnodup, hnew⟩ := c.drawn_eval he
      have hbump : ∀ k ∈ ws.flatMap c.drawn, c.value k = s.seq + 1 ∧
          (if E.draws st then s.seq + 1 else s.seq) = s.seq + 1 := by
        intro k hk
        obtain ⟨hdraws, hvalue⟩ := hnew k hk
        exact ⟨hvalue, if_pos hdraws⟩
      -- in a transaction they stay in its buffer
      refine h.grow (o := some i) ?_ (fun o' ho => ?_) hnodup hbump ?_
      · simp only [Serials.held, Sys.goto, Function.update_self, Phase.buffer, hc,
          List.flatMap_append]
        exact .refl _
      · cases o' with
        | none => exact .refl _
        | some j =>
            have hj : j ≠ i := fun hj => ho (congrArg some hj)
            simp only [Serials.held, Sys.goto]
            rw [Function.update_of_ne hj]
            exact .refl _
      · exact Snap.seq_le_bump ⟨s.seq, s.db⟩ st
  | @commit i start buf notes k hc =>
      refine h.publish (i := i) ?_ ?_ (fun j hj => ?_) rfl
      · have hkeys := c.keys_applyAll buf s.db
        simp only [Serials.held, hc, Phase.buffer]
        exact hkeys
      · simp [Serials.held, Sys.goto, Phase.buffer]
      · simp only [Serials.held, Sys.goto]
        rw [Function.update_of_ne hj]
        rfl

end Runs

end Txn
