import Mathlib.Data.List.Infix

/-!
# Like

Patterns of SQL `LIKE ... ESCAPE '\'`. `%` stands for any characters, `_` for one,
and a character after the escape for itself. An escaped text matches itself only, so
between two `%` it finds the strings that contain it (`likes_contains`), and before
one the strings that start with it (`likes_startsWith`).

`like` is the operator, which rejects a pattern that ends with an escape.
-/

namespace Like

/-- The text matches the pattern. A pattern that ends with the escape matches nothing. -/
def likes : (pattern text : List Char) → Bool
  | [], text => text.isEmpty
  | '%' :: pattern, text => text.tails.any fun rest => likes pattern rest
  | '_' :: pattern, text =>
      match text with
      | [] => false
      | _ :: rest => likes pattern rest
  | ['\\'], _ => false
  | '\\' :: c :: pattern, text =>
      match text with
      | [] => false
      | d :: rest => c == d && likes pattern rest
  | c :: pattern, text =>
      match text with
      | [] => false
      | d :: rest => c == d && likes pattern rest

/-- The pattern ends with an escape that no character follows. -/
def dangling : (pattern : List Char) → Bool
  | [] => false
  | ['\\'] => true
  | '\\' :: _ :: pattern => dangling pattern
  | _ :: pattern => dangling pattern

/-- Why `LIKE` fails. -/
inductive Malformed
  | endsWithEscape
  deriving DecidableEq, Repr

/-- `text LIKE pattern ESCAPE '\'`. -/
def like (pattern text : List Char) : Except Malformed Bool :=
  if dangling pattern then .error .endsWithEscape else .ok (likes pattern text)

/-- The characters that are not for themselves in a pattern. -/
def Special (c : Char) : Prop := c = '%' ∨ c = '_' ∨ c = '\\'

instance (c : Char) : Decidable (Special c) := inferInstanceAs (Decidable (_ ∨ _))

/-- A text with the escape before each special character. -/
def escape (text : List Char) : List Char :=
  text.flatMap fun c => if Special c then ['\\', c] else [c]

section Character

variable {c : Char} {pattern text : List Char}

/-- A character after the escape. -/
theorem likes_escaped : likes ('\\' :: c :: pattern) text = true ↔
    ∃ rest, text = c :: rest ∧ likes pattern rest = true := by
  cases text with
  | nil => simp [likes]
  | cons d rest => grind [likes]

/-- A character that needs no escape. -/
theorem likes_ordinary (hc : ¬ Special c) : likes (c :: pattern) text = true ↔
    ∃ rest, text = c :: rest ∧ likes pattern rest = true := by
  simp only [Special, not_or] at hc
  cases text with
  | nil => simp [likes, hc]
  | cons d rest =>
      have hstep : likes (c :: pattern) (d :: rest) = (c == d && likes pattern rest) := by
        simp [likes, hc]
      grind

theorem dangling_escape_cons : dangling (escape [c] ++ pattern) = dangling pattern := by
  by_cases hc : Special c
  · simp [escape, hc, dangling]
  · have hescape : c ≠ '\\' := fun h => hc (.inr (.inr h))
    simp [escape, hc, dangling, hescape]

theorem likes_escape_cons : likes (escape [c] ++ pattern) text = true ↔
    ∃ rest, text = c :: rest ∧ likes pattern rest = true := by
  by_cases hc : Special c
  · simpa [escape, hc] using likes_escaped
  · simpa [escape, hc] using likes_ordinary hc

end Character

theorem escape_cons (c : Char) (part : List Char) :
    escape (c :: part) = escape [c] ++ escape part := by
  simp [escape]

/-- What follows an escaped text decides whether the pattern is malformed. -/
theorem dangling_escape (part pattern : List Char) :
    dangling (escape part ++ pattern) = dangling pattern := by
  induction part with
  | nil => rfl
  | cons c part ih => rw [escape_cons, List.append_assoc, dangling_escape_cons, ih]

/-- An escaped text stands for itself: the pattern matches where the text begins with it,
and what is left matches the rest. -/
theorem likes_escape (part pattern text : List Char) :
    likes (escape part ++ pattern) text = true ↔
      ∃ rest, text = part ++ rest ∧ likes pattern rest = true := by
  induction part generalizing text with
  | nil => simp [escape]
  | cons c part ih =>
      rw [escape_cons, List.append_assoc, likes_escape_cons]
      constructor
      · rintro ⟨rest, rfl, hrest⟩
        obtain ⟨rest', rfl, hrest'⟩ := (ih rest).mp hrest
        exact ⟨rest', rfl, hrest'⟩
      · rintro ⟨rest, rfl, hrest⟩
        exact ⟨part ++ rest, rfl, (ih _).mpr ⟨rest, rfl, hrest⟩⟩

/-- The last `%` matches whatever is left. -/
theorem likes_percent (text : List Char) : likes ['%'] text = true := by
  have hnil : [] ∈ text.tails := by simp
  exact List.any_eq_true.mpr ⟨[], hnil, rfl⟩

/-- **Contains.** Between two wildcards an escaped text matches just the texts that
contain it. -/
theorem likes_contains (part text : List Char) :
    likes ('%' :: (escape part ++ ['%'])) text = true ↔ part <:+: text := by
  constructor
  · intro h
    obtain ⟨rest, hrest, hmatch⟩ := List.any_eq_true.mp h
    obtain ⟨after, rfl, -⟩ := (likes_escape part ['%'] rest).mp hmatch
    obtain ⟨before, rfl⟩ := (List.mem_tails _ _).mp hrest
    exact ⟨before, after, by simp⟩
  · rintro ⟨before, after, rfl⟩
    refine List.any_eq_true.mpr ⟨part ++ after, (List.mem_tails _ _).mpr ⟨before, by simp⟩, ?_⟩
    exact (likes_escape part ['%'] _).mpr ⟨after, rfl, likes_percent after⟩

/-- **Starts with.** Before a wildcard it matches just the texts that begin with it. -/
theorem likes_startsWith (part text : List Char) :
    likes (escape part ++ ['%']) text = true ↔ part <+: text := by
  rw [likes_escape]
  constructor
  · rintro ⟨rest, rfl, -⟩
    exact List.prefix_append part rest
  · rintro ⟨rest, rfl⟩
    exact ⟨rest, rfl, likes_percent rest⟩

/-- A pattern that is not malformed. -/
theorem like_eq_ok {pattern text : List Char} {p : Prop} [Decidable p]
    (hformed : dangling pattern = false) (hlikes : likes pattern text = true ↔ p) :
    like pattern text = .ok (decide p) := by
  rw [like, hformed, if_neg Bool.false_ne_true]
  exact congrArg Except.ok (Bool.eq_iff_iff.mpr (hlikes.trans decide_eq_true_iff.symm))

theorem like_contains (part text : List Char) :
    like ('%' :: (escape part ++ ['%'])) text = .ok (decide (part <:+: text)) :=
  like_eq_ok (dangling_escape part ['%']) (likes_contains part text)

theorem like_startsWith (part text : List Char) :
    like (escape part ++ ['%']) text = .ok (decide (part <+: text)) :=
  like_eq_ok (dangling_escape part ['%']) (likes_startsWith part text)

end Like
