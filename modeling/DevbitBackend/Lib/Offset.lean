import Mathlib.Algebra.Order.BigOperators.Group.Finset
import DevbitBackend.Lib.Keyset

/-!
# Offset

Paging by offset. A request says how many rows to skip and how many to return, and
the answer says how many to skip in the next one. The rows do not change.

An endpoint may refuse an offset above a bound. Clients that follow its cursors get
everything if they are never given such an offset (`Serves.complete`), and only then
(`Serves.le_bound`).
-/

namespace Offset

open Keyset (Followed)

variable {α γ ε : Type*} {rows : List α} {offset limit bound n : ℕ} {limits : ℕ → ℕ}

/-- A page, and the offset to go on from if there are more rows. The rows are fetched up
to one more than the page holds. -/
def fetch (offset limit : ℕ) (rows : List α) : List α × Option ℕ :=
  let found := (rows.drop offset).take (limit + 1)
  (found.take limit, if limit < found.length then some (offset + limit) else none)

theorem fetch_eq : fetch offset limit rows = ((rows.drop offset).take limit,
    if offset + limit < rows.length then some (offset + limit) else none) := by
  have hmore : limit < ((rows.drop offset).take (limit + 1)).length ↔
      offset + limit < rows.length := by
    rw [List.length_take, List.length_drop]
    omega
  simp only [fetch, hmore, List.take_take]
  rw [Nat.min_eq_left (Nat.le_succ limit)]

theorem fetch_map {β : Type*} (f : α → β) : fetch offset limit (rows.map f) =
    ((fetch offset limit rows).1.map f, (fetch offset limit rows).2) := by
  simp [fetch_eq, List.map_take, List.map_drop]

/-- The offset of the request `n`, for the limits of the requests before it. -/
def start (limits : ℕ → ℕ) (n : ℕ) : ℕ := ∑ m ∈ Finset.range n, limits m

@[simp] theorem start_zero : start limits 0 = 0 := rfl

theorem start_succ (limits : ℕ → ℕ) (n : ℕ) : start limits (n + 1) = start limits n + limits n :=
  Finset.sum_range_succ _ _

theorem start_mono (limits : ℕ → ℕ) : Monotone (start limits) := fun _ _ h =>
  Finset.sum_le_sum_of_subset (Finset.range_mono h)

theorem le_start (h : ∀ n, 0 < limits n) (n : ℕ) : n ≤ start limits n := by
  induction n with
  | zero => exact Nat.zero_le _
  | succ n ih =>
      have hpos := h n
      rw [start_succ]
      omega

/-- The pages of `n` requests are what comes before the next offset. -/
theorem take_start (rows : List α) (limits : ℕ → ℕ) (n : ℕ) :
    rows.take (start limits n) ++ (fetch (start limits n) (limits n) rows).1 =
      rows.take (start limits (n + 1)) := by
  rw [fetch_eq, start_succ, List.take_add]

/-! ### A traversal -/

/-- **Law of paging by offset.** The client gets all rows, in their order. -/
structure Complete (rows : List α) (get : ℕ → Option γ → Except ε (List α × Option γ)) :
    Prop where
  /-- Every request is answered with a page. -/
  answered : ∀ {n text shown}, Followed get n text shown → ∃ page, get n text = .ok page
  /-- The pages so far are the first rows. -/
  ordered : ∀ {n text shown page}, Followed get n text shown → get n text = .ok page →
    shown ++ page.1 <+: rows
  /-- At the end all the rows have come. -/
  whole : ∀ {n text shown page}, Followed get n text shown → get n text = .ok page →
    page.2 = none → shown ++ page.1 = rows
  ends : ∃ n text shown page, Followed get n text shown ∧ get n text = .ok page ∧ page.2 = none

/-- What is sent of a page. -/
def answer (encode : ℕ → γ) (page : List α × Option ℕ) : List α × Option γ :=
  (page.1, page.2.map encode)

/-- What an endpoint does on behalf of such a client: `encode` writes an offset, and the
request with that text goes on from there, up to the bound. -/
structure Serves (rows : List α) (encode : ℕ → γ) (bound : ℕ) (limits : ℕ → ℕ)
    (get : ℕ → Option γ → Except ε (List α × Option γ)) : Prop where
  limit : ∀ n, 0 < limits n
  first : get 0 none = .ok (answer encode (fetch 0 (limits 0) rows))
  rest : ∀ n offset, offset ≤ bound →
    get n (some (encode offset)) = .ok (answer encode (fetch offset (limits n) rows))
  /-- Anything above the bound is refused. No request is further above it than one page. -/
  refused : ∀ n m offset, bound < offset → offset ≤ bound + limits m →
    ∃ e, get n (some (encode offset)) = .error e

/-- The text of the request `n`. -/
def cursorAt (encode : ℕ → γ) (limits : ℕ → ℕ) (n : ℕ) : Option γ :=
  if n = 0 then none else some (encode (start limits n))

section Serves

variable {encode : ℕ → γ} {get : ℕ → Option γ → Except ε (List α × Option γ)}
  {text : Option γ} {shown : List α}

/-- The answer to the request `n`. -/
theorem Serves.reply (h : Serves rows encode bound limits get) (hle : start limits n ≤ bound) :
    get n (cursorAt encode limits n) =
      .ok (answer encode (fetch (start limits n) (limits n) rows)) := by
  cases n with
  | zero => exact h.first
  | succ n => exact h.rest _ _ hle

/-- The next offset, if there are more rows. -/
theorem answer_next : (answer encode (fetch (start limits n) (limits n) rows)).2 =
    if start limits (n + 1) < rows.length then cursorAt encode limits (n + 1) else none := by
  rw [answer, fetch_eq, ← start_succ]
  dsimp only
  split
  · simp [cursorAt]
  · rfl

/-- A client whose offsets have been accepted has got what comes before the next. -/
theorem Serves.reached (h : Serves rows encode bound limits get)
    (hmore : n = 0 ∨ start limits n < rows.length) (hle : ∀ m < n, start limits m ≤ bound) :
    Followed get n (cursorAt encode limits n) (rows.take (start limits n)) := by
  induction n with
  | zero => exact .start
  | succ n ih =>
      have hlen : start limits (n + 1) < rows.length := by simpa using hmore
      have hbefore : start limits n < rows.length := by
        rw [start_succ] at hlen
        omega
      have hf := ih (.inr hbefore) fun m hm => hle m (hm.trans n.lt_succ_self)
      have hget := h.reply (hle n n.lt_succ_self)
      have hnext := @answer_next α γ rows n limits encode
      rw [if_pos hlen] at hnext
      have hpage : get n (cursorAt encode limits n) =
          .ok ((fetch (start limits n) (limits n) rows).1,
            some (encode (start limits (n + 1)))) := by
        rw [hget]
        exact congrArg Except.ok (Prod.ext rfl hnext)
      have hfollowed := hf.next hpage
      rw [take_start] at hfollowed
      exact hfollowed

/-- If no offset is refused, that is all that a client can have got. -/
theorem Serves.followed (h : Serves rows encode bound limits get)
    (hle : ∀ n, start limits n < rows.length → start limits n ≤ bound)
    (hf : Followed get n text shown) :
    text = cursorAt encode limits n ∧ shown = rows.take (start limits n) ∧
      start limits n ≤ bound := by
  induction hf with
  | start => exact ⟨rfl, rfl, Nat.zero_le _⟩
  | @next n text shown page text' _ hget ih =>
      obtain ⟨rfl, rfl, hn⟩ := ih
      have hanswer := Except.ok.inj (hget.symm.trans (h.reply hn))
      obtain ⟨hpage, hnext⟩ := Prod.mk.inj hanswer
      have htext := hnext.trans answer_next
      split at htext
      · rename_i hlen
        refine ⟨htext, ?_, hle _ hlen⟩
        rw [hpage]
        exact take_start rows limits n
      · cases htext

/-- An endpoint that answers all requests has given no offset above the bound. -/
theorem Serves.le_bound (h : Serves rows encode bound limits get)
    (hanswered : ∀ {n text shown}, Followed get n text shown → ∃ page, get n text = .ok page)
    (hmore : start limits n < rows.length) : start limits n ≤ bound := by
  induction n using Nat.strong_induction_on with
  | _ n ih =>
      cases n with
      | zero => exact Nat.zero_le _
      | succ n =>
          by_contra habove
          have hle : ∀ m < n + 1, start limits m ≤ bound := fun m hm =>
            ih m hm (lt_of_le_of_lt (start_mono limits hm.le) hmore)
          obtain ⟨page, hpage⟩ := hanswered (h.reached (.inr hmore) hle)
          have hnear : start limits (n + 1) ≤ bound + limits n := by
            have hlast := hle n n.lt_succ_self
            rw [start_succ]
            omega
          obtain ⟨e, he⟩ := h.refused (n + 1) n _ (Nat.not_le.mp habove) hnear
          have hcursor : cursorAt encode limits (n + 1) =
              some (encode (start limits (n + 1))) := by
            rfl
          rw [hcursor, he] at hpage
          cases hpage

/-- **An endpoint that gives no offset above the bound is complete.** -/
theorem Serves.complete (h : Serves rows encode bound limits get)
    (hle : ∀ n, start limits n < rows.length → start limits n ≤ bound) : Complete rows get := by
  refine ⟨fun hf => ?_, fun hf hget => ?_, fun hf hget hend => ?_, ?_⟩
  · obtain ⟨rfl, -, hn⟩ := h.followed hle hf
    exact ⟨_, h.reply hn⟩
  · obtain ⟨rfl, rfl, hn⟩ := h.followed hle hf
    obtain rfl := Except.ok.inj (hget.symm.trans (h.reply hn))
    exact take_start rows limits _ ▸ List.take_prefix _ _
  · obtain ⟨rfl, rfl, hn⟩ := h.followed hle hf
    obtain rfl := Except.ok.inj (hget.symm.trans (h.reply hn))
    rw [answer_next] at hend
    split at hend
    · cases hend
    · rename_i hlen
      exact (take_start rows limits _).trans (List.take_of_length_le (Nat.not_lt.mp hlen))
  -- every page is a row long at least, so one of them reaches the end
  · have hend : ∃ n, rows.length ≤ start limits (n + 1) := by
      have hfar := le_start h.limit (rows.length + 1)
      exact ⟨rows.length, by omega⟩
    classical
    -- the first such page: the offsets before it are inside the table
    obtain ⟨n, hlen, hbefore⟩ := Nat.findX hend
    have hmore : n = 0 ∨ start limits n < rows.length := by
      cases n with
      | zero => exact .inl rfl
      | succ n => exact .inr (Nat.not_le.mp (hbefore n n.lt_succ_self))
    have hn : ∀ m ≤ n, start limits m ≤ bound := by
      intro m hm
      rcases hmore with rfl | hmore
      · simp [Nat.le_zero.mp hm]
      · exact hle m (lt_of_le_of_lt (start_mono limits hm) hmore)
    refine ⟨n, _, _, _, h.reached hmore fun m hm => hn m hm.le, h.reply (hn n le_rfl), ?_⟩
    rw [answer_next, if_neg (Nat.not_lt.mpr hlen)]

end Serves

end Offset
