import Mathlib.Data.List.Basic

/-!
# Snapshot

Reading a changing state part by part, without a snapshot. What has been read may be
outdated by the time the rest is read. The parts still fit together if no change of an
unread part comes once a read one is outdated: the rule is `Whole`, with one lemma for
each thing that can happen.
-/

namespace Snapshot

variable {D Q : Type*} {V : Q → Type*}

/-- A part that has been read is not what it is now. -/
def Outdated (part : (q : Q) → D → V q) (got : (q : Q) → V q) (pending : List Q) (now : D) : Prop :=
  ∃ q, q ∉ pending ∧ got q ≠ part q now

/-- What has been read is one of the states held, and what is pending has not changed
since. -/
def Whole (part : (q : Q) → D → V q) (got : (q : Q) → V q) (pending : List Q) (held : List D)
    (now : D) : Prop :=
  ∃ d ∈ held, (∀ q, q ∉ pending → got q = part q d) ∧ ∀ q ∈ pending, part q now = part q d

variable {part : (q : Q) → D → V q} {got got' : (q : Q) → V q} {pending : List Q} {q : Q}
  {held : List D} {now now' : D}

/-- Nothing has been read, so the reads so far agree with the state of now. -/
theorem Whole.start (h : ∀ q, q ∈ pending) : Whole part got pending [now] now :=
  ⟨now, List.mem_singleton.mpr rfl, fun q hq => absurd (h q) hq, fun _ _ => rfl⟩

/-- The next part is read. -/
theorem Whole.read (h : Whole part got (q :: pending) held now) (hnew : got' q = part q now)
    (hold : ∀ q', q' ≠ q → got' q' = got q') : Whole part got' pending held now := by
  obtain ⟨d, hd, hgot, hpending⟩ := h
  refine ⟨d, hd, fun q' hq' => ?_, fun q' hq' => hpending q' (List.mem_cons_of_mem q hq')⟩
  by_cases heq : q' = q
  · subst heq
    exact hnew.trans (hpending q' List.mem_cons_self)
  · rw [hold q' heq]
    exact hgot q' (List.not_mem_cons_of_ne_of_not_mem heq hq')

/-- The state changes. If what has been read is still up to date, it is one of the new
state. -/
theorem Whole.change (h : Whole part got pending held now)
    (hsteady : Outdated part got pending now' → ∀ q ∈ pending, part q now' = part q now) :
    Whole part got pending (held ++ [now']) now' := by
  by_cases hout : Outdated part got pending now'
  · obtain ⟨d, hd, hgot, hpending⟩ := h
    exact ⟨d, List.mem_append_left _ hd, hgot, fun q hq =>
      (hsteady hout q hq).trans (hpending q hq)⟩
  · refine ⟨now', by simp, fun q hq => ?_, fun _ _ => rfl⟩
    by_contra hne
    exact hout ⟨q, hq, hne⟩

/-- Everything has been read, so one of the states held has all the parts. -/
theorem Whole.complete (h : Whole part got [] held now) : ∃ d ∈ held, ∀ q, got q = part q d := by
  obtain ⟨d, hd, hgot, -⟩ := h
  exact ⟨d, hd, fun q => hgot q List.not_mem_nil⟩

/-- **The rule is exact**: when the rest is read at once, everything read is one of the
states held if and only if `Whole` holds. -/
theorem whole_iff_finished (hread : ∀ q, q ∉ pending → got' q = got q)
    (hrest : ∀ q ∈ pending, got' q = part q now) :
    Whole part got pending held now ↔ ∃ d ∈ held, ∀ q, got' q = part q d := by
  constructor
  · rintro ⟨d, hd, hgot, hpending⟩
    refine ⟨d, hd, fun q => ?_⟩
    by_cases hq : q ∈ pending
    · exact (hrest q hq).trans (hpending q hq)
    · exact (hread q hq).trans (hgot q hq)
  · rintro ⟨d, hd, hsame⟩
    exact ⟨d, hd, fun q hq => (hread q hq).symm.trans (hsame q),
      fun q hq => (hrest q hq).symm.trans (hsame q)⟩

/-- The first change of an unread part, once a read one is outdated, leaves no state that
fits. -/
theorem Whole.broken (hunread : ∀ d ∈ held, ∀ q ∈ pending, part q d = part q now)
    (hout : Outdated part got pending now') (hq : q ∈ pending)
    (hchange : part q now' ≠ part q now) : ¬ Whole part got pending (held ++ [now']) now' := by
  rintro ⟨d, hd, hgot, hpending⟩
  rcases List.mem_append.mp hd with hd | hd
  · exact hchange ((hpending q hq).trans (hunread d hd q hq))
  · obtain rfl := List.mem_singleton.mp hd
    obtain ⟨q', hq', hne⟩ := hout
    exact hne (hgot q' hq')

/-- After that the state does not matter. -/
theorem Whole.later (h : Whole part got [] held now) : Whole part got [] held now' := by
  obtain ⟨d, hd, hgot, -⟩ := h
  exact ⟨d, hd, hgot, by simp⟩

end Snapshot
