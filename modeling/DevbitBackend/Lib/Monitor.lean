import DevbitBackend.Lib.Transition
import Mathlib.Logic.Function.Basic

/-!
# Monitor

Tasks that share a state and one **mutex**. A task is the code it still has to
run, and each step runs its next atomic statement, whole. Some statements lie
inside the critical section of the mutex, others outside, and the environment
may change the shared state between any two statements.

The lock invariant rule (`Guarded`, `ReachableBy.guarded`): a predicate of the
shared state that holds when the mutex is free, and one for every point of the
critical section that holds when the owner stands there, only have to be kept by
the owner's own statements and by what runs without the mutex.
-/

namespace Monitor

open Transition

/-- The code of the tasks. `C` are the calls, `E` the moves of the environment. -/
structure Machine (S T C E : Type) where
  /-- The code that a call runs. -/
  code : C → T
  /-- The call has returned. -/
  isDone : T → Bool
  /-- The next statement takes the mutex. -/
  acquires : T → Bool
  /-- The next statement runs with the mutex held. -/
  inside : T → Bool
  /-- Run the next statement. -/
  next : T → S → T × S
  env : E → S → S

/-- The mutex is taken before the critical section, and only there. -/
structure Machine.Lawful {S T C E : Type} (M : Machine S T C E) : Prop where
  code_outside : ∀ c, M.inside (M.code c) = false
  done_outside : ∀ t, M.isDone t = true → M.inside t = false
  acquires_outside : ∀ t, M.acquires t = true → M.inside t = false
  next_outside : ∀ t s, M.acquires t = false → M.inside t = false →
    M.inside (M.next t s).1 = false

structure System (S T ι : Type) where
  shared : S
  tasks : ι → T
  /-- Who holds the mutex. -/
  owner : Option ι

inductive Label (C E ι : Type)
  /-- A task that is done starts the call `c`. -/
  | call (i : ι) (c : C)
  /-- A task runs its next statement. -/
  | advance (i : ι)
  | env (e : E)

variable {S T C E ι : Type} [DecidableEq ι]

/-- The owner of the mutex after a statement that leads from `t` to `t'`. -/
def Machine.ownerAfter (M : Machine S T C E) (i : ι) (t t' : T) (owner : Option ι) : Option ι :=
  if M.inside t' then some i else if M.inside t then none else owner

/-- One step of the system; a statement that takes the mutex waits until it is
free. -/
def Machine.step (M : Machine S T C E) : Label C E ι → System S T ι → Option (System S T ι)
  | .call i c, s =>
      if M.isDone (s.tasks i) then
        some { s with tasks := Function.update s.tasks i (M.code c) }
      else none
  | .advance i, s =>
      if M.isDone (s.tasks i) || (M.acquires (s.tasks i) && s.owner.isSome) then none
      else
        let r := M.next (s.tasks i) s.shared
        some { shared := r.2
               tasks := Function.update s.tasks i r.1
               owner := M.ownerAfter i (s.tasks i) r.1 s.owner }
  | .env e, s => some { s with shared := M.env e s.shared }

/-- What a task's step does: one statement, and the mutex is free if it takes it. -/
theorem Machine.step_advance {M : Machine S T C E} {i : ι} {s s' : System S T ι}
    (h : M.step (.advance i) s = some s') :
    (M.acquires (s.tasks i) = true → s.owner = none) ∧
      s' = ⟨(M.next (s.tasks i) s.shared).2,
        Function.update s.tasks i (M.next (s.tasks i) s.shared).1,
        M.ownerAfter i (s.tasks i) (M.next (s.tasks i) s.shared).1 s.owner⟩ := by
  simp only [Machine.step, Option.ite_none_left_eq_some, Option.some.injEq] at h
  obtain ⟨hrun, rfl⟩ := h
  refine ⟨fun ha => ?_, rfl⟩
  rw [ha, Bool.true_and, Bool.or_eq_true, not_or] at hrun
  simpa using hrun.2

/-- All tasks are idle. -/
def start (t : T) (s : S) : System S T ι := ⟨s, fun _ => t, none⟩

/-! ### The lock invariant -/

variable {M : Machine S T C E} {free : S → Prop} {held : T → S → Prop}

/-- What holds of the shared state where the last statement led to `t`. -/
def Machine.Asserts (M : Machine S T C E) (free : S → Prop) (held : T → S → Prop) (t : T)
    (s : S) : Prop :=
  if M.inside t then held t s else free s

/-- Each statement that meets `Q` keeps the assertions. -/
structure Keeps (M : Machine S T C E) (Q : T → S → Prop) (free : S → Prop)
    (held : T → S → Prop) : Prop where
  acquire : ∀ t s, M.acquires t = true → Q t s → free s →
    M.Asserts free held (M.next t s).1 (M.next t s).2
  inside : ∀ t s, M.inside t = true → Q t s → held t s →
    M.Asserts free held (M.next t s).1 (M.next t s).2
  outside_free : ∀ t s, M.acquires t = false → M.inside t = false → free s →
    free (M.next t s).2
  outside_held : ∀ t s t', M.acquires t = false → M.inside t = false → held t' s →
    held t' (M.next t s).2
  env_free : ∀ e s, free s → free (M.env e s)
  env_held : ∀ e s t, held t s → held t (M.env e s)

/-- The owner is the one task inside the critical section, and the shared state
meets the assertion of where it stands. -/
structure Guarded (M : Machine S T C E) (free : S → Prop) (held : T → S → Prop)
    (s : System S T ι) : Prop where
  inside_iff : ∀ i, M.inside (s.tasks i) = true ↔ s.owner = some i
  free : s.owner = none → free s.shared
  held : ∀ i, s.owner = some i → held (s.tasks i) s.shared

omit [DecidableEq ι] in
theorem guarded_start {t : T} {s : S} (ht : M.inside t = false) (hs : free s) :
    Guarded M free held (start t s : System S T ι) where
  inside_iff := by simp [start, ht]
  free := fun _ => hs
  held := fun _ h => by cases h

namespace Guarded

variable {s : System S T ι} {i : ι} {t : T}

/-- A task other than `i` is not moved by a statement of `i`. -/
theorem inside_update {j : ι} (hj : j ≠ i) :
    M.inside (Function.update s.tasks i t j) = M.inside (s.tasks j) := by
  rw [Function.update_of_ne hj]

/-- A call starts outside the critical section. -/
theorem call (hM : M.Lawful) (h : Guarded M free held s) (hdone : M.isDone (s.tasks i) = true)
    (c : C) : Guarded M free held { s with tasks := Function.update s.tasks i (M.code c) } := by
  have hi : s.owner ≠ some i := by
    intro ho
    have hin := (h.inside_iff i).mpr ho
    rw [hM.done_outside _ hdone] at hin
    cases hin
  refine ⟨fun j => ?_, h.free, fun j hj => ?_⟩
  · by_cases hj : j = i
    · subst hj
      simp [hM.code_outside, hi]
    · rw [inside_update hj]
      exact h.inside_iff j
  · have hne : j ≠ i := fun he => hi (he ▸ hj)
    simpa only [Function.update_of_ne hne] using h.held j hj

/-- The owner's statement, or one that takes the free mutex, may establish a new
assertion. -/
theorem own {s' : S} {free' : S → Prop} {held' : T → S → Prop} (h : Guarded M free held s)
    (howner : s.owner = none ∨ s.owner = some i)
    (hin : M.inside t = false → M.inside (s.tasks i) = true ∨ s.owner = none)
    (ht : M.Asserts free' held' t s') :
    Guarded M free' held' ⟨s', Function.update s.tasks i t,
      M.ownerAfter i (s.tasks i) t s.owner⟩ := by
  -- nobody else is inside while this task owns the mutex, or while it is free
  have hother : ∀ {j : ι}, j ≠ i → M.inside (s.tasks j) = false := by
    intro j hj
    by_contra hcon
    have hjo := (h.inside_iff j).mp (by simpa using hcon)
    rcases howner with ho | ho <;> rw [hjo] at ho
    · cases ho
    · exact hj (Option.some.inj ho)
  unfold Machine.Asserts at ht
  cases hti : M.inside t with
  | true =>
      -- the task stays inside: it owns the mutex from now on
      have howned : M.ownerAfter i (s.tasks i) t s.owner = some i := by
        simp [Machine.ownerAfter, hti]
      rw [hti, if_pos rfl] at ht
      refine ⟨fun j => ?_, fun ho => ?_, fun j hj => ?_⟩
      · by_cases hj : j = i
        · subst hj
          simp [hti, howned]
        · rw [inside_update hj, hother hj, howned]
          simp [Ne.symm hj]
      · rw [howned] at ho
        cases ho
      · rw [howned] at hj
        obtain rfl := Option.some.inj hj
        simpa using ht
  | false =>
      -- it leaves: the mutex is free, and the free assertion has to hold
      have hfree : M.ownerAfter i (s.tasks i) t s.owner = none := by
        rcases hin hti with hi | ho
        · simp [Machine.ownerAfter, hti, hi]
        · simp [Machine.ownerAfter, hti, ho]
      rw [hti, if_neg Bool.false_ne_true] at ht
      refine ⟨fun j => ?_, fun _ => ht, fun j hj => ?_⟩
      · rw [hfree]
        by_cases hj : j = i
        · subst hj
          simp [hti]
        · simp [inside_update hj, hother hj]
      · rw [hfree] at hj
        cases hj

/-- A statement outside the critical section: the assertion of whoever owns the mutex has
to survive it. -/
theorem other {Q : T → S → Prop} (hM : M.Lawful) (hK : Keeps M Q free held)
    (h : Guarded M free held s) (ha : M.acquires (s.tasks i) = false)
    (hi : M.inside (s.tasks i) = false) :
    Guarded M free held ⟨(M.next (s.tasks i) s.shared).2,
      Function.update s.tasks i (M.next (s.tasks i) s.shared).1,
      M.ownerAfter i (s.tasks i) (M.next (s.tasks i) s.shared).1 s.owner⟩ := by
  have hnext := hM.next_outside _ s.shared ha hi
  have howner : M.ownerAfter i (s.tasks i) (M.next (s.tasks i) s.shared).1 s.owner = s.owner := by
    simp [Machine.ownerAfter, hnext, hi]
  have hne : s.owner ≠ some i := by
    intro ho
    have hin := (h.inside_iff i).mpr ho
    rw [hi] at hin
    cases hin
  rw [howner]
  refine ⟨fun j => ?_, fun ho => hK.outside_free _ _ ha hi (h.free ho), fun j hj => ?_⟩
  · by_cases hj : j = i
    · subst hj
      simp [hnext, hne]
    · rw [inside_update hj]
      exact h.inside_iff j
  · have hji : j ≠ i := fun he => hne (he ▸ hj)
    simpa only [Function.update_of_ne hji] using hK.outside_held _ _ _ ha hi (h.held j hj)

/-- **One step keeps the lock invariant**, be it a call, a statement of a task or a move
of the environment. -/
theorem step {Q : T → S → Prop} (hM : M.Lawful) (hK : Keeps M Q free held) {l : Label C E ι}
    {s' : System S T ι} (hQ : ∀ i, l = .advance i → Q (s.tasks i) s.shared)
    (h : Guarded M free held s) (hstep : M.step l s = some s') : Guarded M free held s' := by
  cases l with
  | call i c =>
      simp only [Machine.step, Option.ite_none_right_eq_some, Option.some.injEq] at hstep
      obtain ⟨hdone, rfl⟩ := hstep
      exact h.call hM hdone c
  | env e =>
      obtain rfl := Option.some.inj hstep
      exact ⟨h.inside_iff, fun ho => hK.env_free e _ (h.free ho),
        fun i hi => hK.env_held e _ _ (h.held i hi)⟩
  | advance i =>
      obtain ⟨hmutex, rfl⟩ := M.step_advance hstep
      -- a statement acquires the mutex, is made inside it, or has nothing to do with it
      have hq := hQ i rfl
      cases ha : M.acquires (s.tasks i) with
      | true =>
          have hfree := hmutex ha
          exact h.own (.inl hfree) (fun _ => .inr hfree)
            (hK.acquire _ _ ha hq (h.free hfree))
      | false =>
          cases hi : M.inside (s.tasks i) with
          | true =>
              have howner := (h.inside_iff i).mp hi
              exact h.own (.inr howner) (fun _ => .inl hi) (hK.inside _ _ hi hq (h.held i howner))
          | false => exact h.other hM hK ha hi

end Guarded

/-- **The lock invariant rule**, for runs whose statements all meet `Q`. -/
theorem guarded_of_reachableBy {Q : T → S → Prop} (hM : M.Lawful) (hK : Keeps M Q free held)
    {P : Label C E ι → System S T ι → Prop}
    (hP : ∀ l s, P l s → ∀ i, l = .advance i → Q (s.tasks i) s.shared)
    {s₀ s : System S T ι} (h : ReachableBy P M.step s₀ s) (h₀ : Guarded M free held s₀) :
    Guarded M free held s :=
  h.invariant (fun l s _ hI hl hstep => hI.step hM hK (hP l s hl) hstep) h₀

/-! ### Histories -/

section Recording

variable {H : Type} {note : T → S → H → H}

/-- The machine with a history beside its shared state: the next statement of `t`
notes there what it does, and no statement reads it. -/
def Machine.recording (M : Machine S T C E) (note : T → S → H → H) : Machine (S × H) T C E where
  code := M.code
  isDone := M.isDone
  acquires := M.acquires
  inside := M.inside
  next t s := ((M.next t s.1).1, (M.next t s.1).2, note t s.1 s.2)
  env e s := (M.env e s.1, s.2)

/-- The system without its history. -/
def System.forget (s : System (S × H) T ι) : System S T ι := ⟨s.shared.1, s.tasks, s.owner⟩

omit [DecidableEq ι] in
theorem Machine.Lawful.recording (hM : M.Lawful) : (M.recording note).Lawful where
  code_outside := hM.code_outside
  done_outside := hM.done_outside
  acquires_outside := hM.acquires_outside
  next_outside t s := hM.next_outside t s.1

/-- A history neither allows nor forbids a step. -/
theorem recording_step (note : T → S → H → H) (l : Label C E ι) (s : System (S × H) T ι) :
    ((M.recording note).step l s).map System.forget = M.step l s.forget := by
  cases l with
  | call i c =>
      change Option.map _ (if M.isDone (s.tasks i) then _ else _) =
        if M.isDone (s.tasks i) then _ else _
      split <;> rfl
  | advance i =>
      change Option.map _ (if M.isDone (s.tasks i) || M.acquires (s.tasks i) && s.owner.isSome
        then _ else _) =
          if M.isDone (s.tasks i) || M.acquires (s.tasks i) && s.owner.isSome then _ else _
      split <;> rfl
  | env e => rfl

/-- The runs of the machine are those of the recording one, without the history. -/
theorem reachable_recording_iff {s₀ : System (S × H) T ι} {s : System S T ι} :
    Reachable M.step s₀.forget s ↔
      ∃ s', Reachable (M.recording note).step s₀ s' ∧ s'.forget = s := by
  constructor
  · rintro ⟨ls, hrun⟩
    generalize hs₀ : s₀.forget = s₁ at hrun
    induction hrun generalizing s₀ with
    | nil => exact ⟨s₀, .refl s₀, hs₀⟩
    | @cons s₁ s₂ s₃ l ls hstep _ ih =>
        subst hs₀
        rw [← recording_step note] at hstep
        obtain ⟨s', hs', hforget⟩ := Option.map_eq_some_iff.mp hstep
        obtain ⟨s'', hreach, hend⟩ := ih hforget
        exact ⟨s'', (Reachable.refl s₀).tail hs' |>.trans hreach, hend⟩
  · rintro ⟨s', ⟨ls, hrun⟩, rfl⟩
    induction hrun with
    | nil => exact .refl _
    | cons hstep _ ih =>
        have hstep' := congrArg (Option.map System.forget) hstep
        rw [recording_step] at hstep'
        exact ((Reachable.refl _).tail hstep').trans ih

end Recording

end Monitor
