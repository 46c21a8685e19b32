import DevbitBackend.Lib.TxnEmbed

/-!
# TxnAnswers

What a program can say at all, whatever its statements return: its answers
(`Prog.Answers`) and its statements (`Prog.Issues`). Every `done` and every statement in
the text of the program is looked at once, so a handler whose checks have been passed is
judged without following its run.
-/

namespace Txn

variable {E F : Engine} {α β : Type} {Q : α → Prop} {failed : α} {fails : Nat → Bool} {now n : Nat}
  {tx : Option (List E.Write)} {σ : Snap E}

/-- Every answer in the text of the program satisfies `Q`. -/
inductive Prog.Answers (Q : α → Prop) : Prog E α → Prop
  | query {st k} : (∀ r, (k r).Answers Q) → Answers Q (.query st k)
  | begin {k} : k.Answers Q → Answers Q (.begin k)
  | lock {l k} : k.Answers Q → Answers Q (.lock l k)
  | exec {st k} : (∀ r, (k r).Answers Q) → Answers Q (.exec st k)
  | commit {k} : k.Answers Q → Answers Q (.commit k)
  | rollback {k} : (∀ done, (k done).Answers Q) → Answers Q (.rollback k)
  | clock {k} : (∀ time, (k time).Answers Q) → Answers Q (.clock k)
  | emit {m k} : k.Answers Q → Answers Q (.emit m k)
  | done {a} : Q a → Answers Q (.done a)

theorem Prog.Answers.ite {c : Prop} [Decidable c] {p q : Prog E α} (hp : p.Answers Q)
    (hq : q.Answers Q) : (if c then p else q).Answers Q := by
  split
  · exact hp
  · exact hq

/-- So does the answer of a lone run, if the answer to a failure does. -/
theorem Prog.Answers.solo {p : Prog E α} (h : p.Answers Q) (hfailed : Q failed) :
    Q (p.solo failed fails now n tx σ).2 := by
  induction h generalizing n tx σ with
  | query _ ih =>
      cases tx with
      | some buf => exact hfailed
      | none =>
          simp only [Prog.solo]
          split
          · exact hfailed
          split
          · exact hfailed
          · exact ih _
  | begin _ ih =>
      cases tx with
      | some buf => exact hfailed
      | none =>
          rw [solo_begin]
          split
          · exact hfailed
          · exact ih
  | lock _ ih =>
      cases tx with
      | none => exact hfailed
      | some buf =>
          rw [solo_lock]
          split
          · exact hfailed
          · exact ih
  | exec _ ih =>
      cases tx with
      | none => exact hfailed
      | some buf =>
          simp only [Prog.solo]
          split
          · exact hfailed
          split
          · exact hfailed
          · exact ih _
  | commit _ ih =>
      cases tx with
      | none => exact hfailed
      | some buf =>
          rw [solo_commit]
          split
          · exact hfailed
          · exact ih
  | rollback _ ih =>
      cases tx with
      | none => exact hfailed
      | some buf => exact ih _
  | clock _ ih => cases tx <;> exact ih _
  | emit _ ih => cases tx <;> exact ih
  | done ha => cases tx <;> exact ha

/-- Every statement in the text of the program satisfies `P`. -/
def Prog.Issues (P : E.Stmt → Prop) : Prog E α → Prop
  | .query st k => P st ∧ ∀ r, (k r).Issues P
  | .begin k => k.Issues P
  | .lock _ k => k.Issues P
  | .exec st k => P st ∧ ∀ r, (k r).Issues P
  | .commit k => k.Issues P
  | .rollback k => ∀ done, (k done).Issues P
  | .clock k => ∀ time, (k time).Issues P
  | .emit _ k => k.Issues P
  | .done _ => True

theorem Prog.Issues.ite {P : E.Stmt → Prop} {c : Prop} [Decidable c] {p q : Prog E α}
    (hp : p.Issues P) (hq : q.Issues P) : (if c then p else q).Issues P := by
  split
  · exact hp
  · exact hq

theorem issues_of_all {P : E.Stmt → Prop} (hP : ∀ st, P st) (p : Prog E α) : p.Issues P := by
  induction p with
  | query st k ih => exact ⟨hP st, ih⟩
  | begin k ih => exact ih
  | lock l k ih => exact ih
  | exec st k ih => exact ⟨hP st, ih⟩
  | commit k ih => exact ih
  | rollback k ih => exact ih
  | clock k ih => exact ih
  | emit m k ih => exact ih
  | done a => exact trivial

/-- The statements of a component's program, in the whole. -/
theorem issues_embed {h : Embedding E F} {f : α → β} {P : F.Stmt → Prop} (p : Prog E α) :
    (p.embed h f).Issues P ↔ p.Issues fun st => P (h.stmt st) := by
  induction p with
  | query st k ih =>
      refine and_congr_right fun _ => ⟨fun hall r => ?_, fun hall r => (ih _).mpr (hall _)⟩
      have hr := (ih _).mp (hall (h.into st r))
      rwa [h.out_into] at hr
  | begin k ih => exact ih
  | lock l k ih => exact ih
  | exec st k ih =>
      refine and_congr_right fun _ => ⟨fun hall r => ?_, fun hall r => (ih _).mpr (hall _)⟩
      have hr := (ih _).mp (hall (h.into st r))
      rwa [h.out_into] at hr
  | commit k ih => exact ih
  | rollback k ih => exact forall_congr' ih
  | clock k ih => exact forall_congr' ih
  | emit m k ih => exact ih
  | done a => exact Iff.rfl

/-! ### Statements along a run -/

/-- Every statement that a request has before it satisfies `P`. -/
def Phase.Issues (P : E.Stmt → Prop) : Phase E α → Prop
  | .idle p | .pool p | .tx _ _ _ p => p.Issues P
  | .conn st k => P st ∧ ∀ r, (k r).Issues P
  | .done _ => True

section Runs

variable {ι : Type} [DecidableEq ι] [DecidableEq E.Lock] {cfg : Config ι α} {s s' : Sys E ι α}
  {l : Label ι} {P : E.Stmt → Prop}

omit [DecidableEq E.Lock] in
theorem issues_goto {i : ι} {ph : Phase E α} (h : ph.Issues P) :
    ((s.goto i ph).calls i).Issues P := by
  have hcalls : (s.goto i ph).calls i = ph := by simp [Sys.goto]
  rw [hcalls]
  exact h

/-- The statements of a request are those of its code. -/
theorem Move.issues (h : Move cfg s l s') {i : ι} (hi : (s.calls i).Issues P) :
    (s'.calls i).Issues P := by
  by_cases hl : l = .run i ∨ l = .fail i
  · have own : ∀ {j ph}, l = .run j ∨ l = .fail j → s.calls j = ph → i = j ∧ ph.Issues P := by
      intro j ph hj hc
      have hij : i = j := by
        rcases hj with rfl | rfl <;> rcases hl with hl | hl <;> cases hl <;> rfl
      exact ⟨hij, hc ▸ hij ▸ hi⟩
    cases h with
    | tick => rcases hl with hl | hl <;> cases hl
    | arrive hc =>
        obtain ⟨rfl, hown⟩ := own (.inl rfl) hc
        exact issues_goto hown
    | acquire hc _ =>
        obtain ⟨rfl, hown⟩ := own (.inl rfl) hc
        exact issues_goto hown
    | begin hc _ =>
        obtain ⟨rfl, hown⟩ := own (.inl rfl) hc
        exact issues_goto hown
    | clock hc =>
        obtain ⟨rfl, hown⟩ := own (.inl rfl) hc
        exact issues_goto (hown _)
    | note hc =>
        obtain ⟨rfl, hown⟩ := own (.inl rfl) hc
        exact issues_goto hown
    | auto hc _ _ =>
        obtain ⟨rfl, hown⟩ := own (.inl rfl) hc
        exact issues_goto (hown.2 _)
    | exec hc _ _ =>
        obtain ⟨rfl, hown⟩ := own (.inl rfl) hc
        exact issues_goto (hown.2 _)
    | lock hc _ =>
        obtain ⟨rfl, hown⟩ := own (.inl rfl) hc
        exact issues_goto hown
    | commit hc =>
        obtain ⟨rfl, hown⟩ := own (.inl rfl) hc
        exact issues_goto hown
    | rollback hc =>
        obtain ⟨rfl, hown⟩ := own (.inl rfl) hc
        exact issues_goto (hown true)
    | txClock hc =>
        obtain ⟨rfl, hown⟩ := own (.inl rfl) hc
        exact issues_goto (hown _)
    | txNote hc =>
        obtain ⟨rfl, hown⟩ := own (.inl rfl) hc
        exact issues_goto hown
    | failRollback hc _ =>
        obtain ⟨rfl, hown⟩ := own (.inr rfl) hc
        exact issues_goto (hown false)
    | failPool hc _ | failConn hc _ | failTx hc _ =>
        obtain ⟨rfl, -⟩ := own (.inr rfl) hc
        exact issues_goto trivial
    | answer hc | autoRejected hc _ | rejected hc _ | leave hc =>
        obtain ⟨rfl, -⟩ := own (.inl rfl) hc
        exact issues_goto trivial
  · obtain ⟨hrun, hfail⟩ := not_or.mp hl
    rw [h.calls_other hrun hfail]
    exact hi

end Runs

end Txn
