import Mathlib.Data.List.Basic
import Mathlib.Order.Lattice
import Mathlib.Data.Int.Order.Basic
import Mathlib.Logic.Function.Basic

/-!
# Clearing

A log that its viewer can clear, one scope at a time, without deleting anything.
The reference semantics (`visible`) is about the history: an entry is visible when
its scope has not been cleared since. The implementation (`shown`) keeps a
watermark for each scope and shows the entries above it. `Tracks` says that the
two agree, and is kept by an entry with a fresh id (`Tracks.added`) and by raising
a watermark to the greatest id of its scope (`Tracks.cleared`).
-/

namespace Clearing

variable {ε κ : Type} [DecidableEq κ]

/-- How a viewer sees the entries: their ids, and the scope of each that concerns
it. -/
structure View (ε κ : Type) where
  id : ε → Int
  scope : ε → Option κ

inductive Event (ε κ : Type)
  | added (e : ε)
  | cleared (k : κ)
  deriving DecidableEq

/-- The scope is cleared at some point of the history. -/
def clears (k : κ) (h : List (Event ε κ)) : Bool :=
  h.any fun
    | .added _ => false
    | .cleared k' => k' == k

/-- The entry concerns the viewer, and its scope is not cleared in `h`. -/
def survives (c : View ε κ) (e : ε) (h : List (Event ε κ)) : Bool :=
  (c.scope e).any fun k => !clears k h

/-- The entries whose scope has not been cleared since they were added. -/
def visible (c : View ε κ) : List (Event ε κ) → List ε
  | [] => []
  | .added e :: h => if survives c e h then e :: visible c h else visible c h
  | .cleared _ :: h => visible c h

/-- The entries above the watermark of their scope. -/
def shown (c : View ε κ) (mark : κ → Int) (es : List ε) : List ε :=
  es.filter fun e => (c.scope e).any fun k => mark k < c.id e

variable {c : View ε κ} {mark : κ → Int} {es : List ε} {h h' : List (Event ε κ)} {e : ε} {k : κ}

/-! ### The history goes on -/

@[simp] theorem clears_append : clears k (h ++ h') = (clears k h || clears k h') := by
  simp [clears]

theorem survives_append : survives c e (h ++ h') = (survives c e h && survives c e h') := by
  unfold survives
  cases c.scope e with
  | none => rfl
  | some k => simp

/-- What is added is visible, and hides nothing. -/
theorem visible_added (h : List (Event ε κ)) (e : ε) :
    visible c (h ++ [.added e]) = visible c h ++ [e].filter fun e => (c.scope e).isSome := by
  have hkeep : ∀ e', survives c e' [.added e] = (c.scope e').isSome := by
    intro e'
    unfold survives
    cases c.scope e' <;> rfl
  induction h with
  | nil =>
      have hnow : survives c e [] = (c.scope e).isSome := by
        unfold survives
        cases c.scope e <;> rfl
      simp [visible, hnow, List.filter_cons]
  | cons ev h ih =>
      cases ev with
      | cleared k => exact ih
      | added e' =>
          have hsame : survives c e' (h ++ [.added e]) = survives c e' h := by
            rw [survives_append, hkeep]
            unfold survives
            cases c.scope e' <;> simp
          rw [List.cons_append, visible, visible, hsame, ih]
          split <;> rfl

/-- A clear hides what its scope has so far, and nothing that comes after it. -/
theorem visible_cleared (h : List (Event ε κ)) (k : κ) :
    visible c (h ++ [.cleared k]) = (visible c h).filter fun e => c.scope e ≠ some k := by
  induction h with
  | nil => rfl
  | cons ev h ih =>
      cases ev with
      | cleared k' => exact ih
      | added e =>
          have hlast : survives c e [.cleared k] = ((c.scope e).isSome && c.scope e ≠ some k) := by
            unfold survives
            cases c.scope e with
            | none => rfl
            | some k' => simp [clears, eq_comm, Bool.beq_eq_decide_eq]
          rw [List.cons_append, visible, visible, survives_append, hlast, ih]
          cases hs : survives c e h with
          | false => simp
          | true =>
              have hsome : (c.scope e).isSome = true := by
                unfold survives at hs
                cases hscope : c.scope e with
                | none => simp [hscope] at hs
                | some k' => rfl
              by_cases hk : c.scope e = some k <;> simp [hk, hsome]

/-! ### The watermarks follow -/

/-- The watermarks show what the history leaves visible. -/
def Tracks (c : View ε κ) (mark : κ → Int) (es : List ε) (h : List (Event ε κ)) : Prop :=
  shown c mark es = visible c h

theorem tracks_nil (c : View ε κ) (mark : κ → Int) : Tracks c mark [] [] := rfl

/-- A new entry with an id above every watermark. -/
theorem Tracks.added (ht : Tracks c mark es h) (hnew : ∀ k, mark k < c.id e) :
    Tracks c mark (es ++ [e]) (h ++ [.added e]) := by
  unfold Tracks shown at ht ⊢
  rw [List.filter_append, ht, visible_added]
  congr 1
  refine List.filter_congr fun e' he' => ?_
  rw [List.mem_singleton.mp he']
  cases c.scope e with
  | none => rfl
  | some k => simpa using hnew k

/-- A clear raises the watermark of its scope to at least the greatest id there. -/
theorem Tracks.cleared {mark' : κ → Int} (ht : Tracks c mark es h)
    (hother : ∀ k', k' ≠ k → mark' k' = mark k')
    (hmax : ∀ e ∈ es, c.scope e = some k → c.id e ≤ mark' k) :
    Tracks c mark' es (h ++ [.cleared k]) := by
  unfold Tracks shown at ht ⊢
  rw [visible_cleared, ← ht, List.filter_filter]
  refine List.filter_congr fun e he => ?_
  cases hscope : c.scope e with
  | none => simp
  | some k' =>
      by_cases hk : k' = k
      · subst hk
        have hle := hmax e he hscope
        simpa using hle
      · simp [hk, hother k' hk]

end Clearing
