import DevbitBackend.Lib.Transition

/-!
# Noninterference

Two runs that fire the same labels, apart from **hidden** ones. The unwinding rule
(`Unwinds.runs`) says when they end in related states: a hidden label alone keeps
the relation, and so does a visible label fired on both sides.

A label may be disabled in one run and enabled in the other, so the rule compares
two runs that exist, and does not construct one from the other.
-/

namespace Transition

variable {σ ℓ : Type*} {step : ℓ → σ → Option σ}

/-- A run each of whose steps meets the condition `P`, with its labels. -/
inductive RunBy (P : ℓ → σ → Prop) (step : ℓ → σ → Option σ) : σ → List ℓ → σ → Prop
  | nil (s : σ) : RunBy P step s [] s
  | cons {s s' s'' : σ} {l : ℓ} {ls : List ℓ} :
      P l s → step l s = some s' → RunBy P step s' ls s'' → RunBy P step s (l :: ls) s''

namespace RunBy

variable {P Q : ℓ → σ → Prop} {s s' : σ} {ls : List ℓ}

/-- A condition on the labels holds at every step. -/
theorem and_labels {L : ℓ → Prop} (h : RunBy P step s ls s') (hL : ∀ l ∈ ls, L l) :
    RunBy (fun l s => L l ∧ P l s) step s ls s' := by
  induction h with
  | nil s => exact .nil s
  | cons hP hstep _ ih =>
      obtain ⟨hl, hrest⟩ := List.forall_mem_cons.mp hL
      exact .cons ⟨hl, hP⟩ hstep (ih hrest)

/-- A run splits where its labels do. -/
theorem append_inv {ls' : List ℓ} (h : RunBy P step s (ls ++ ls') s') :
    ∃ s₁, RunBy P step s ls s₁ ∧ RunBy P step s₁ ls' s' := by
  induction ls generalizing s with
  | nil => exact ⟨s, .nil s, h⟩
  | cons l ls ih =>
      cases h with
      | cons hP hstep hrest =>
          obtain ⟨s₁, hfirst, hlast⟩ := ih hrest
          exact ⟨s₁, .cons hP hstep hfirst, hlast⟩

/-- A replay in which every step passes a check that implies the condition. -/
theorem of_replay {check : ℓ → σ → Bool} (hcheck : ∀ l s, check l s = true → P l s)
    (h : replay (fun l s => if check l s then step l s else none) s ls = some s') :
    RunBy P step s ls s' := by
  induction ls generalizing s with
  | nil =>
      obtain rfl : s = s' := by simpa [replay] using h
      exact .nil s
  | cons l ls ih =>
      obtain ⟨s₁, hstep, hrest⟩ := Option.bind_eq_some_iff.mp h
      dsimp only at hstep
      split at hstep
      · rename_i hc
        exact .cons (hcheck l s hc) hstep (ih hrest)
      · cases hstep

end RunBy

/-- The unwinding conditions of the relation `R`. -/
structure Unwinds (P : ℓ → σ → Prop) (step : ℓ → σ → Option σ) (hidden : ℓ → Bool)
    (R : σ → σ → Prop) : Prop where
  symm : ∀ {s s'}, R s s' → R s' s
  ignores : ∀ {l s s' s₁}, hidden l = true → P l s → step l s = some s₁ → R s s' → R s₁ s'
  agrees : ∀ {l s s' s₁ s₁'}, hidden l = false → P l s → P l s' → step l s = some s₁ →
    step l s' = some s₁' → R s s' → R s₁ s₁'

namespace Unwinds

variable {P : ℓ → σ → Prop} {hidden : ℓ → Bool} {R : σ → σ → Prop} {s s' t t' : σ} {ls ls' : List ℓ}

/-- A run of hidden labels on the right. -/
theorem hidden_run (h : Unwinds P step hidden R) (hrun : RunBy P step s' ls' t')
    (hls : ∀ l ∈ ls', hidden l = true) (hR : R s s') : R s t' := by
  induction hrun with
  | nil => exact hR
  | cons hP hstep _ ih =>
      obtain ⟨hl, hrest⟩ := List.forall_mem_cons.mp hls
      exact ih hrest (h.symm (h.ignores hl hP hstep (h.symm hR)))

/-- **The unwinding rule.** Runs with the same visible labels end in related states. -/
theorem runs (h : Unwinds P step hidden R) (hrun : RunBy P step s ls t)
    (hrun' : RunBy P step s' ls' t')
    (hls : ls.filter (fun l => !hidden l) = ls'.filter fun l => !hidden l) (hR : R s s') :
    R t t' := by
  induction hrun generalizing s' ls' with
  | nil =>
      have hall : ∀ l ∈ ls', hidden l = true := by
        simpa using List.filter_eq_nil_iff.mp hls.symm
      exact h.hidden_run hrun' hall hR
  | @cons s s₁ t l ls hP hstep _ ih =>
      cases hl : hidden l with
      | true =>
          rw [List.filter_cons_of_neg (by simp [hl])] at hls
          exact ih hrun' hls (h.ignores hl hP hstep hR)
      | false =>
          rw [List.filter_cons_of_pos (by simp [hl])] at hls
          -- hidden labels of the other run come before its `l`
          obtain ⟨before, after, rfl, hbefore, -, hafter⟩ := List.filter_eq_cons_iff.mp hls.symm
          obtain ⟨s₂, hfirst, hrest⟩ := hrun'.append_inv
          have hR' : R s s₂ := h.hidden_run hfirst (by simpa using hbefore) hR
          cases hrest with
          | cons hP' hstep' hlast =>
              exact ih hlast hafter.symm (h.agrees hl hP hP' hstep hstep' hR')

end Unwinds

end Transition
