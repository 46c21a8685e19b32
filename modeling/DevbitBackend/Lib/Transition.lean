import Mathlib.Logic.Relation

/-!
# Transition

Labelled transition systems whose step is a **partial function of the label**:
`step l s = some s'` when the label `l` is enabled in `s`. The scheduler's
choices, the environment's moves and the injected faults are all labels, so one
run is a list of labels and every run can be replayed by evaluation.

Two rules carry every result over whole runs: `Run.invariant` (a predicate kept
by each step holds at the end) and `Run.rel` (a reflexive and transitive
relation kept by each step relates the two ends).
-/

namespace Transition

variable {σ ℓ : Type*} {step : ℓ → σ → Option σ}

/-- `Run step s ls s'`: firing the labels `ls` one after another leads from `s`
to `s'`. -/
inductive Run (step : ℓ → σ → Option σ) : σ → List ℓ → σ → Prop
  | nil (s : σ) : Run step s [] s
  | cons {s s' s'' : σ} {l : ℓ} {ls : List ℓ} :
      step l s = some s' → Run step s' ls s'' → Run step s (l :: ls) s''

/-- Replay a list of labels. -/
def replay (step : ℓ → σ → Option σ) : σ → List ℓ → Option σ
  | s, [] => some s
  | s, l :: ls => (step l s).bind fun s' => replay step s' ls

/-- `s` is reached from `s₀` by some run. -/
def Reachable (step : ℓ → σ → Option σ) (s₀ s : σ) : Prop :=
  ∃ ls, Run step s₀ ls s

theorem run_of_replay {s s' : σ} {ls : List ℓ} (h : replay step s ls = some s') :
    Run step s ls s' := by
  induction ls generalizing s with
  | nil =>
      obtain rfl : s = s' := by simpa [replay] using h
      exact .nil s
  | cons l ls ih =>
      obtain ⟨s₁, hstep, hrest⟩ := Option.bind_eq_some_iff.mp h
      exact .cons hstep (ih hrest)

theorem Run.append {s s' s'' : σ} {ls ls' : List ℓ} (h : Run step s ls s')
    (h' : Run step s' ls' s'') : Run step s (ls ++ ls') s'' := by
  induction h with
  | nil => exact h'
  | cons hstep _ ih => exact .cons hstep (ih h')

/-- A predicate kept by every step of a run holds at its end. -/
theorem Run.invariant {I : σ → Prop} (hI : ∀ l s s', I s → step l s = some s' → I s')
    {s s' : σ} {ls : List ℓ} (h : Run step s ls s') (hs : I s) : I s' := by
  induction h with
  | nil => exact hs
  | cons hstep _ ih => exact ih (hI _ _ _ hs hstep)

/-- An invariant may look at the labels fired so far. -/
theorem Run.invariant_labels {I : List ℓ → σ → Prop}
    (hI : ∀ before l s s', I before s → step l s = some s' → I (before ++ [l]) s')
    {s s' : σ} {before ls : List ℓ} (h : Run step s ls s') (hs : I before s) :
    I (before ++ ls) s' := by
  induction h generalizing before with
  | nil => simpa using hs
  | cons hstep _ ih => simpa using ih (hI _ _ _ _ hs hstep)

/-- Under an invariant, a reflexive and transitive relation kept by every step
relates the two ends of a run. -/
theorem Run.rel {I : σ → Prop} {R : σ → σ → Prop}
    (hI : ∀ l s s', I s → step l s = some s' → I s') (hrefl : ∀ s, R s s)
    (htrans : ∀ s₁ s₂ s₃, R s₁ s₂ → R s₂ s₃ → R s₁ s₃)
    (hR : ∀ l s s', I s → step l s = some s' → R s s')
    {s s' : σ} {ls : List ℓ} (h : Run step s ls s') (hs : I s) : R s s' := by
  induction h with
  | nil => exact hrefl _
  | cons hstep _ ih => exact htrans _ _ _ (hR _ _ _ hs hstep) (ih (hI _ _ _ hs hstep))

theorem Reachable.refl (s : σ) : Reachable step s s := ⟨[], .nil s⟩

theorem Reachable.trans {s₁ s₂ s₃ : σ} (h : Reachable step s₁ s₂) (h' : Reachable step s₂ s₃) :
    Reachable step s₁ s₃ := by
  obtain ⟨ls, hr⟩ := h
  obtain ⟨ls', hr'⟩ := h'
  exact ⟨ls ++ ls', hr.append hr'⟩

theorem Reachable.tail {s₀ s s' : σ} {l : ℓ} (h : Reachable step s₀ s)
    (hstep : step l s = some s') : Reachable step s₀ s' :=
  h.trans ⟨[l], .cons hstep (.nil s')⟩

theorem reachable_of_replay {s s' : σ} {ls : List ℓ} (h : replay step s ls = some s') :
    Reachable step s s' :=
  ⟨ls, run_of_replay h⟩

/-- A replay that is observed to end somewhere. -/
theorem exists_reachable_of_replay {β : Type*} (ls : List ℓ) (f : σ → β) {b : β} {s : σ}
    (h : (replay step s ls).map f = some b) : ∃ s', Reachable step s s' ∧ f s' = b := by
  obtain ⟨s', hs', hb⟩ := Option.map_eq_some_iff.mp h
  exact ⟨s', reachable_of_replay hs', hb⟩

/-- The induction rule for safety: an inductive invariant of the initial state
holds in every reachable state. -/
theorem Reachable.invariant {I : σ → Prop} (hI : ∀ l s s', I s → step l s = some s' → I s')
    {s₀ s : σ} (h : Reachable step s₀ s) (h₀ : I s₀) : I s := by
  obtain ⟨ls, hr⟩ := h
  exact hr.invariant hI h₀

/-! ### Counting steps -/

/-- How many steps of the run from `s` meet the check `P`, which looks at the label
and at the state before the step. -/
def countSteps (step : ℓ → σ → Option σ) (P : ℓ → σ → Bool) : σ → List ℓ → Nat
  | _, [] => 0
  | s, l :: ls =>
      match step l s with
      | none => 0
      | some s' => (P l s).toNat + countSteps step P s' ls

/-- An invariant may look at the number of steps so far that meet the check. -/
theorem Run.invariant_count {P : ℓ → σ → Bool} {I : Nat → σ → Prop}
    (hI : ∀ m l s s', I m s → step l s = some s' → I (m + (P l s).toNat) s')
    {m : Nat} {s s' : σ} {ls : List ℓ} (h : Run step s ls s') (hs : I m s) :
    I (m + countSteps step P s ls) s' := by
  induction h generalizing m with
  | nil => simpa [countSteps] using hs
  | @cons s s₁ s' l ls hstep _ ih =>
      have hrest := ih (hI m l s s₁ hs hstep)
      simpa only [countSteps, hstep, Nat.add_assoc] using hrest

/-! ### Runs under a condition -/

/-- `s` is reached from `s₀` by a run each of whose steps meets the condition
`P`, which may look at the label and at the state before the step. -/
inductive ReachableBy (P : ℓ → σ → Prop) (step : ℓ → σ → Option σ) (s₀ : σ) : σ → Prop
  | refl : ReachableBy P step s₀ s₀
  | tail {s s' : σ} {l : ℓ} :
      ReachableBy P step s₀ s → P l s → step l s = some s' → ReachableBy P step s₀ s'

namespace ReachableBy

variable {P : ℓ → σ → Prop} {s₀ s : σ}

/-- A run under a stronger condition. -/
theorem mono {Q : ℓ → σ → Prop} (hPQ : ∀ l s, P l s → Q l s) (h : ReachableBy P step s₀ s) :
    ReachableBy Q step s₀ s := by
  induction h with
  | refl => exact .refl
  | tail _ hP hstep ih => exact .tail ih (hPQ _ _ hP) hstep

/-- An invariant that needs the condition only has to be kept by the steps that
meet it. -/
theorem invariant {I : σ → Prop} (hI : ∀ l s s', I s → P l s → step l s = some s' → I s')
    (h : ReachableBy P step s₀ s) (h₀ : I s₀) : I s := by
  induction h with
  | refl => exact h₀
  | tail _ hP hstep ih => exact hI _ _ _ ih hP hstep

/-- A replay in which every step passes a check that implies the condition. -/
theorem of_replay {check : ℓ → σ → Bool} (hcheck : ∀ l s, check l s = true → P l s) {s' : σ}
    {ls : List ℓ} (h : replay (fun l s => if check l s then step l s else none) s ls = some s')
    (hs : ReachableBy P step s₀ s) : ReachableBy P step s₀ s' := by
  induction ls generalizing s with
  | nil =>
      obtain rfl : s = s' := by simpa [replay] using h
      exact hs
  | cons l ls ih =>
      obtain ⟨s₁, hstep, hrest⟩ := Option.bind_eq_some_iff.mp h
      dsimp only at hstep
      split at hstep
      · rename_i hc
        exact ih hrest (hs.tail (hcheck l s hc) hstep)
      · cases hstep

end ReachableBy

/-! ### Total steps -/

/-- Take the steps one after another. -/
def runAll (step : ℓ → σ → σ) (ls : List ℓ) (s : σ) : σ := ls.foldl (fun s l => step l s) s

theorem runAll_append (step : ℓ → σ → σ) (ls ls' : List ℓ) (s : σ) :
    runAll step (ls ++ ls') s = runAll step ls' (runAll step ls s) :=
  List.foldl_append

section Total

variable {step : ℓ → σ → σ} {I J : σ → Prop} {bad : ℓ → σ → Prop} {ls : List ℓ} {s : σ}

/-- An invariant of the steps of a list. -/
theorem runAll_invariant (hJ : ∀ l ∈ ls, ∀ s, J s → J (step l s)) (hs : J s) :
    J (runAll step ls s) := by
  induction ls generalizing s with
  | nil => exact hs
  | cons l ls ih =>
      exact ih (fun l' hl' => hJ l' (List.mem_cons_of_mem l hl'))
        (hJ l List.mem_cons_self s hs)

/-- **A property that only bad steps break holds along a run exactly when no step of it is
bad.** -/
theorem forall_prefix_iff (hJ : ∀ l ∈ ls, ∀ s, J s → J (step l s))
    (hI : ∀ l ∈ ls, ∀ s, J s → I s → (I (step l s) ↔ ¬ bad l s)) (hJs : J s) (hIs : I s) :
    (∀ before after, ls = before ++ after → I (runAll step before s)) ↔
      ∀ before l after, ls = before ++ l :: after → ¬ bad l (runAll step before s) := by
  induction ls generalizing s with
  | nil =>
      refine iff_of_true (fun before after h => ?_) (fun before l after h => ?_)
      · rw [(List.append_eq_nil_iff.mp h.symm).1]
        exact hIs
      · cases (List.append_eq_nil_iff.mp h.symm).2
  | cons l ls ih =>
      have hstep := hI l List.mem_cons_self s hJs hIs
      have hrest := fun hIs' => ih (fun l' hl' => hJ l' (List.mem_cons_of_mem l hl'))
        (fun l' hl' => hI l' (List.mem_cons_of_mem l hl')) (hJ l List.mem_cons_self s hJs) hIs'
      constructor
      · intro hall before l' after h
        -- the property holds after the first step, which is not bad then
        have hnext : I (step l s) := hall [l] ls rfl
        cases before with
        | nil =>
            obtain ⟨rfl, -⟩ := List.cons.inj h
            exact hstep.mp hnext
        | cons l₁ before =>
            obtain ⟨rfl, htail⟩ := List.cons.inj h
            refine (hrest hnext).mp (fun before' after' h' => ?_) before l' after htail
            exact hall (l :: before') after' (congrArg (l :: ·) h')
      · intro hnone before after h
        -- the first step is not bad, so the property holds after it
        have hnext : I (step l s) := hstep.mpr (hnone [] l ls rfl)
        cases before with
        | nil => exact hIs
        | cons l₁ before =>
            obtain ⟨rfl, htail⟩ := List.cons.inj h
            refine (hrest hnext).mpr (fun before' l' after' h' => ?_) before after htail
            exact hnone (l :: before') l' after' (congrArg (l :: ·) h')

end Total

end Transition
