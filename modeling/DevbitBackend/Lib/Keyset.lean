import Mathlib.Data.List.Sort
import Mathlib.Order.Basic

/-!
# Keyset

Paging by key. A request names the key of the last row it has got and a limit, and
gets the next rows in descending order of their keys. Rows may come and go between
the requests.

`Followed` is the traversal by a client that follows the cursors, `Progress` what it
has got so far, and `Faithful` the law of such a traversal.
-/

namespace Keyset

variable {α κ : Type*} [LinearOrder κ] {key : α → κ} {cursor : Option κ} {limit : Nat}
  {rows : List α} {r : α} {k : κ}

/-- The key comes after the cursor in descending order. -/
def After (cursor : Option κ) (k : κ) : Prop := ∀ c, cursor = some c → k < c

instance (cursor : Option κ) (k : κ) : Decidable (After cursor k) :=
  match cursor with
  | none => isTrue nofun
  | some c => decidable_of_iff (k < c) (by simp [After])

/-- The rows after the cursor, in descending order. -/
def remaining (key : α → κ) (cursor : Option κ) (rows : List α) : List α :=
  (rows.filter fun r => After cursor (key r)).mergeSort fun a b => key b ≤ key a

/-- A page, and the key to go on from if there are more rows. -/
structure Fetched (α κ : Type*) where
  shown : List α
  next : Option κ

/-- The answer to a request: the rows are fetched up to one more than the page holds. -/
def fetch (key : α → κ) (cursor : Option κ) (limit : Nat) (rows : List α) : Fetched α κ :=
  let found := (remaining key cursor rows).take (limit + 1)
  let page := found.take limit
  ⟨page, if limit < found.length then page.getLast?.map key else none⟩

/-! ### One page -/

theorem mem_remaining : r ∈ remaining key cursor rows ↔ r ∈ rows ∧ After cursor (key r) := by
  simp [remaining, List.mem_filter]

/-- The keys descend strictly, because no two rows have the same one. -/
theorem remaining_descending (cursor : Option κ) (hkeys : (rows.map key).Nodup) :
    (remaining key cursor rows).Pairwise fun a b => key b < key a := by
  have hsorted : (remaining key cursor rows).Pairwise fun a b => key b ≤ key a := by
    have h : (remaining key cursor rows).Pairwise fun a b => decide (key b ≤ key a) = true :=
      List.pairwise_mergeSort
        (fun a b c hab hbc => by
          simp only [decide_eq_true_eq] at hab hbc ⊢
          exact hbc.trans hab)
        (fun a b => by simpa using le_total (key b) (key a)) _
    simpa using h
  have hperm : (remaining key cursor rows).Perm (rows.filter fun r => After cursor (key r)) :=
    List.mergeSort_perm _ _
  have hnodup : ((remaining key cursor rows).map key).Nodup :=
    (hperm.map key).nodup_iff.mpr (hkeys.sublist (List.filter_sublist.map key))
  have hne : (remaining key cursor rows).Pairwise fun a b => key a ≠ key b :=
    List.pairwise_map.mp hnodup
  exact (hsorted.and hne).imp fun h => lt_of_le_of_ne h.1 (Ne.symm h.2)

theorem fetch_shown :
    (fetch key cursor limit rows).shown = (remaining key cursor rows).take limit := by
  simp [fetch, List.take_take]

theorem mem_shown (h : r ∈ (fetch key cursor limit rows).shown) :
    r ∈ rows ∧ After cursor (key r) := by
  rw [fetch_shown] at h
  exact mem_remaining.mp (List.mem_of_mem_take h)

/-- A row after the cursor is on the page, or after all of it. -/
theorem mem_shown_or (limit : ℕ) (hkeys : (rows.map key).Nodup) (hr : r ∈ rows)
    (hafter : After cursor (key r)) :
    r ∈ (fetch key cursor limit rows).shown ∨
      r ∈ (remaining key cursor rows).drop limit ∧
        ∀ s ∈ (fetch key cursor limit rows).shown, key r < key s := by
  have hmem := mem_remaining.mpr ⟨hr, hafter⟩
  have hdesc := remaining_descending cursor hkeys
  rw [fetch_shown]
  rw [← List.take_append_drop limit (remaining key cursor rows)] at hmem hdesc
  rcases List.mem_append.mp hmem with htake | hdrop
  · exact .inl htake
  · exact .inr ⟨hdrop, fun s hs => (List.pairwise_append.mp hdesc).2.2 s hs r hdrop⟩

theorem fetch_next : (fetch key cursor limit rows).next =
    if limit < (remaining key cursor rows).length then
      (fetch key cursor limit rows).shown.getLast?.map key
    else none := by
  have hlen : limit < ((remaining key cursor rows).take (limit + 1)).length ↔
      limit < (remaining key cursor rows).length := by
    rw [List.length_take]
    omega
  simp only [fetch, hlen]

theorem next_eq_none_iff (hlimit : 0 < limit) :
    (fetch key cursor limit rows).next = none ↔ (remaining key cursor rows).length ≤ limit := by
  rw [fetch_next]
  split
  · rename_i hmore
    have hne : (fetch key cursor limit rows).shown ≠ [] := by
      rw [fetch_shown, Ne, List.take_eq_nil_iff]
      rintro (h | h)
      · omega
      · simp [h] at hmore
    simp only [Option.map_eq_none_iff, List.getLast?_eq_none_iff, hne, false_iff, not_le]
    exact hmore
  · rename_i hall
    exact iff_of_true rfl (Nat.not_lt.mp hall)

/-- The next cursor is the key of the last row of the page. -/
theorem next_eq_some (h : (fetch key cursor limit rows).next = some k) :
    limit < (remaining key cursor rows).length ∧
      ∃ last, (fetch key cursor limit rows).shown.getLast? = some last ∧ key last = k := by
  rw [fetch_next] at h
  split at h
  · rename_i hmore
    obtain ⟨last, hlast, hkey⟩ := Option.map_eq_some_iff.mp h
    exact ⟨hmore, last, hlast, hkey⟩
  · cases h

/-! ### A traversal -/

/-- What the client has got in `n` requests, with the cursor to go on from. The tables
held `rows m` at the request `m`. -/
structure Progress (key : α → κ) (rows : ℕ → List α) (n : ℕ) (cursor : Option κ)
    (shown : List α) : Prop where
  /-- Keys descend, so none comes twice. -/
  descending : shown.Pairwise fun a b => key b < key a
  /-- The cursor is the key of the last row. -/
  last : cursor = shown.getLast?.map key
  source : ∀ r ∈ shown, ∃ m < n, r ∈ rows m
  /-- A key that was there at every request is shown, or is still to come. -/
  covered : ∀ k, (∀ m < n, k ∈ (rows m).map key) → k ∈ shown.map key ∨ After cursor k

variable {tables : ℕ → List α} {n : ℕ} {shown : List α}

theorem Progress.start : Progress key tables 0 none [] :=
  ⟨.nil, rfl, nofun, fun _ _ => .inr nofun⟩

/-- What comes after the cursor comes after all that has been shown. -/
theorem Progress.after_iff (h : Progress key tables n cursor shown) :
    After cursor k ↔ ∀ s ∈ shown, k < key s := by
  rcases List.eq_nil_or_concat' shown with rfl | ⟨before, last, rfl⟩
  · simp [h.last, After]
  · have hlast : cursor = some (key last) := by simp [h.last]
    have hdesc := (List.pairwise_append.mp h.descending).2.2
    simp only [hlast, After, Option.some.injEq, forall_eq', List.mem_append, List.mem_singleton]
    constructor
    · rintro hk s (hs | rfl)
      · exact hk.trans (hdesc s hs last (List.mem_singleton.mpr rfl))
      · exact hk
    · intro hall
      exact hall last (.inr rfl)

section Page

variable (h : Progress key tables n cursor shown) (hkeys : ((tables n).map key).Nodup)
include h hkeys

/-- The keys go on descending over the end of the page, since the next page starts below
its last key. -/
theorem Progress.page_descending (limit : ℕ) :
    (shown ++ (fetch key cursor limit (tables n)).shown).Pairwise fun a b => key b < key a := by
  refine List.pairwise_append.mpr ⟨h.descending, ?_, fun a ha b hb => ?_⟩
  · rw [fetch_shown]
    exact (remaining_descending cursor hkeys).sublist (List.take_sublist _ _)
  · exact h.after_iff.mp (mem_shown hb).2 a ha

/-- A key that has been there all the time is shown on this page at the latest, or is
after all of it. -/
theorem Progress.page_covered (limit : ℕ) (hk : ∀ m ≤ n, k ∈ (tables m).map key) :
    k ∈ (shown ++ (fetch key cursor limit (tables n)).shown).map key ∨
      ∃ r ∈ (remaining key cursor (tables n)).drop limit, key r = k ∧
        ∀ s ∈ (fetch key cursor limit (tables n)).shown, k < key s := by
  rw [List.map_append]
  rcases h.covered k (fun m hm => hk m hm.le) with hshown | hafter
  · exact .inl (List.mem_append.mpr (.inl hshown))
  · obtain ⟨r, hr, rfl⟩ := List.mem_map.mp (hk n le_rfl)
    rcases mem_shown_or limit hkeys hr hafter with hpage | ⟨hdrop, hbelow⟩
    · exact .inl (List.mem_append.mpr (.inr (List.mem_map_of_mem hpage)))
    · exact .inr ⟨r, hdrop, rfl, hbelow⟩

/-- Everything that has been there all the time is shown when there is no next cursor,
and once only. -/
theorem Progress.page_complete (hlimit : 0 < limit)
    (hnext : (fetch key cursor limit (tables n)).next = none)
    (hk : ∀ m ≤ n, k ∈ (tables m).map key) :
    ((shown ++ (fetch key cursor limit (tables n)).shown).map key).count k = 1 := by
  have hnodup : ((shown ++ (fetch key cursor limit (tables n)).shown).map key).Nodup :=
    List.pairwise_map.mpr ((h.page_descending hkeys limit).imp fun hlt => (ne_of_lt hlt).symm)
  rw [List.count_eq_one_of_mem hnodup]
  rcases h.page_covered hkeys limit hk with hmem | ⟨r, hdrop, -⟩
  · exact hmem
  · have hnil := List.drop_eq_nil_of_le ((next_eq_none_iff hlimit).mp hnext)
    rw [hnil] at hdrop
    cases hdrop

/-- There is a next cursor exactly when some row is after all that has been shown. -/
theorem Progress.page_more (hlimit : 0 < limit) :
    (fetch key cursor limit (tables n)).next ≠ none ↔
      ∃ r ∈ tables n, ∀ s ∈ shown ++ (fetch key cursor limit (tables n)).shown, key r < key s := by
  rw [Ne, next_eq_none_iff hlimit, Nat.not_le]
  constructor
  · intro hmore
    have hne := mt List.drop_eq_nil_iff.mp (Nat.not_le.mpr hmore)
    obtain ⟨r, hdrop⟩ := List.exists_mem_of_ne_nil _ hne
    have hmem := mem_remaining.mp (List.mem_of_mem_drop hdrop)
    refine ⟨r, hmem.1, fun s hs => ?_⟩
    rcases List.mem_append.mp hs with hs | hs
    · exact h.after_iff.mp hmem.2 s hs
    · have hdesc := remaining_descending cursor hkeys
      rw [← List.take_append_drop limit (remaining key cursor (tables n))] at hdesc
      rw [fetch_shown] at hs
      exact (List.pairwise_append.mp hdesc).2.2 s hs r hdrop
  · rintro ⟨r, hr, hbelow⟩
    by_contra hall
    have hafter : After cursor (key r) :=
      h.after_iff.mpr fun s hs => hbelow s (List.mem_append_left _ hs)
    have hmem := mem_remaining.mpr ⟨hr, hafter⟩
    rw [← List.take_of_length_le (Nat.not_lt.mp hall), ← fetch_shown] at hmem
    exact lt_irrefl _ (hbelow r (List.mem_append_right _ hmem))

/-- The next request goes on from there. -/
theorem Progress.step (hnext : (fetch key cursor limit (tables n)).next = some k) :
    Progress key tables (n + 1) (some k) (shown ++ (fetch key cursor limit (tables n)).shown) := by
  obtain ⟨-, last, hlast, rfl⟩ := next_eq_some hnext
  refine ⟨h.page_descending hkeys limit, ?_, fun r hr => ?_, fun k hk => ?_⟩
  · rw [List.getLast?_append, hlast]
    rfl
  · rcases List.mem_append.mp hr with hr | hr
    · obtain ⟨m, hm, hmem⟩ := h.source r hr
      exact ⟨m, hm.trans n.lt_succ_self, hmem⟩
    · exact ⟨n, n.lt_succ_self, (mem_shown hr).1⟩
  · rcases h.page_covered hkeys limit fun m hm => hk m (Nat.lt_succ_of_le hm) with
      hmem | ⟨r, -, rfl, hbelow⟩
    · exact .inl hmem
    · refine .inr fun c hc => ?_
      obtain rfl := Option.some.inj hc
      exact hbelow last (List.mem_of_getLast? hlast)

end Page

/-! ### The law of an endpoint -/

section Endpoint

variable {ε γ : Type*} {get : ℕ → Option γ → Except ε (List α × Option γ)} {text : Option γ}
  {page : List α × Option γ}

/-- A client makes its first request without a cursor and goes on with the one it has
been given. `get n text` answers the request `n`, with the rows of the page and the
text of the next cursor. The client has got `shown` and is about to send `text`. -/
inductive Followed (get : ℕ → Option γ → Except ε (List α × Option γ)) :
    ℕ → Option γ → List α → Prop
  | start : Followed get 0 none []
  | next {n : ℕ} {text : Option γ} {shown page : List α} {text' : γ} :
      Followed get n text shown → get n text = .ok (page, some text') →
        Followed get (n + 1) (some text') (shown ++ page)

/-- **Law of paging by key.** The table of the request `n` is `tables n`. -/
structure Faithful (key : α → κ) (tables : ℕ → List α)
    (get : ℕ → Option γ → Except ε (List α × Option γ)) : Prop where
  /-- Every request is answered with a page. -/
  answered : ∀ {n text shown}, Followed get n text shown → ∃ page, get n text = .ok page
  /-- The keys descend over all pages, so none comes twice. -/
  descending : ∀ {n text shown page}, Followed get n text shown → get n text = .ok page →
    (shown ++ page.1).Pairwise fun a b => key b < key a
  /-- At the end every key that has been there all the time has come exactly once. -/
  complete : ∀ {n text shown page}, Followed get n text shown → get n text = .ok page →
    page.2 = none → ∀ k, (∀ m ≤ n, k ∈ (tables m).map key) →
      ((shown ++ page.1).map key).count k = 1
  /-- There is a next cursor exactly when some row is after all that has come. -/
  more : ∀ {n text shown page}, Followed get n text shown → get n text = .ok page →
    (page.2 ≠ none ↔ ∃ r ∈ tables n, ∀ s ∈ shown ++ page.1, key r < key s)
  /-- If the table does not change the traversal ends, with all the rows. -/
  ends : (∀ n, tables n = tables 0) → ∃ n text shown page, Followed get n text shown ∧
    get n text = .ok page ∧ page.2 = none ∧ (shown ++ page.1).Perm (tables 0)

/-- The answer that an endpoint makes of what it has fetched. -/
def Fetched.answer (encode : κ → γ) (fetched : Fetched α κ) : List α × Option γ :=
  (fetched.shown, fetched.next.map encode)

/-- What an endpoint does on behalf of such a client: `encode` writes a cursor, and the
request with that text goes on after its key. -/
structure Serves (key : α → κ) (encode : κ → γ) (limits : ℕ → ℕ) (tables : ℕ → List α)
    (get : ℕ → Option γ → Except ε (List α × Option γ)) : Prop where
  limit : ∀ n, 0 < limits n
  keys : ∀ n, ((tables n).map key).Nodup
  first : get 0 none = .ok ((fetch key none (limits 0) (tables 0)).answer encode)
  rest : ∀ n m, ∀ r ∈ tables m, get n (some (encode (key r))) =
    .ok ((fetch key (some (key r)) (limits n) (tables n)).answer encode)

variable {encode : κ → γ} {limits : ℕ → ℕ}

/-- The client has made progress, and its next request is answered. -/
theorem Serves.followed (h : Serves key encode limits tables get) (hf : Followed get n text shown) :
    ∃ cursor, Progress key tables n cursor shown ∧
      get n text = .ok ((fetch key cursor (limits n) (tables n)).answer encode) ∧
        text = cursor.map encode := by
  induction hf with
  | start => exact ⟨none, .start, h.first, rfl⟩
  | @next n text shown page text' _ hget ih =>
      obtain ⟨cursor, hprogress, hanswer, -⟩ := ih
      obtain ⟨hpage, hnext⟩ := Prod.mk.inj (Except.ok.inj (hget.symm.trans hanswer))
      obtain ⟨k, hk, rfl⟩ := Option.map_eq_some_iff.mp hnext.symm
      have hstep := hprogress.step (h.keys n) hk
      rw [← hpage] at hstep
      refine ⟨some k, hstep, ?_, rfl⟩
      obtain ⟨last, hlast, rfl⟩ := Option.map_eq_some_iff.mp hstep.last.symm
      obtain ⟨m, -, hmem⟩ := hstep.source last (List.mem_of_getLast? hlast)
      exact h.rest (n + 1) m last hmem

/-- A cursor that is the key of a row leaves less to come. -/
theorem remaining_lt {last : α} (hlast : last ∈ rows) (hafter : After cursor (key last)) :
    (remaining key (some (key last)) rows).length < (remaining key cursor rows).length := by
  have hsub : (rows.filter fun r => After (some (key last)) (key r)) =
      (rows.filter fun r => After cursor (key r)).filter fun r =>
        After (some (key last)) (key r) := by
    rw [List.filter_filter]
    refine List.filter_congr fun r _ => ?_
    rw [Bool.eq_iff_iff, Bool.and_eq_true, decide_eq_true_eq, decide_eq_true_eq]
    refine (and_iff_left_of_imp fun hr c hc => ?_).symm
    exact (hr _ rfl).trans (hafter c hc)
  rw [remaining, remaining, List.length_mergeSort, List.length_mergeSort, hsub,
    List.length_filter_lt_length_iff_exists]
  refine ⟨last, List.mem_filter.mpr ⟨hlast, decide_eq_true hafter⟩, fun h => ?_⟩
  exact lt_irrefl _ (of_decide_eq_true h _ rfl)

/-- If the table has not changed and there is no next cursor, all its rows have come. -/
theorem Progress.perm (h : Progress key tables n cursor shown)
    (hkeys : ∀ n, ((tables n).map key).Nodup) (hsame : ∀ n, tables n = tables 0)
    (hlimit : 0 < limit) (hnext : (fetch key cursor limit (tables n)).next = none) :
    (shown ++ (fetch key cursor limit (tables n)).shown).Perm (tables 0) := by
  have hdesc := h.page_descending (hkeys n) limit
  refine (List.perm_ext_iff_of_nodup (hdesc.imp fun hlt heq => ?_) (hkeys 0).of_map).mpr
    fun r => ⟨fun hr => ?_, fun hr => ?_⟩
  · exact lt_irrefl _ (heq ▸ hlt)
  · rcases List.mem_append.mp hr with hr | hr
    · obtain ⟨m, -, hmem⟩ := h.source r hr
      exact hsame m ▸ hmem
    · exact hsame n ▸ (mem_shown hr).1
  -- a row that is there all along has come once
  · have hthere : ∀ m ≤ n, key r ∈ (tables m).map key := by
      intro m _
      rw [hsame m]
      exact List.mem_map_of_mem hr
    have hcount := h.page_complete (hkeys n) hlimit hnext hthere
    have hpos : 0 < ((shown ++ (fetch key cursor limit (tables n)).shown).map key).count (key r) :=
      hcount ▸ Nat.one_pos
    obtain ⟨s, hs, hkey⟩ := List.mem_map.mp (List.count_pos_iff.mp hpos)
    have hmem : s ∈ tables 0 := by
      rcases List.mem_append.mp hs with hs | hs
      · obtain ⟨m, -, hmem⟩ := h.source s hs
        exact hsame m ▸ hmem
      · exact hsame n ▸ (mem_shown hs).1
    exact List.inj_on_of_nodup_map (hkeys 0) hmem hr hkey ▸ hs

/-- If the table does not change, the traversal ends. -/
theorem Serves.ends (h : Serves key encode limits tables get) (hsame : ∀ n, tables n = tables 0) :
    ∃ n text shown page, Followed get n text shown ∧ get n text = .ok page ∧ page.2 = none ∧
      (shown ++ page.1).Perm (tables 0) := by
  -- by induction on the number of rows that are still to come
  have hends : ∀ len n text shown, Followed get n text shown →
      (remaining key (shown.getLast?.map key) (tables 0)).length = len →
        ∃ n text shown page, Followed get n text shown ∧ get n text = .ok page ∧ page.2 = none ∧
          (shown ++ page.1).Perm (tables 0) := by
    intro len
    induction len using Nat.strong_induction_on with
    | _ len ih =>
        intro n text shown hf hlen
        obtain ⟨cursor, hprogress, hget, -⟩ := h.followed hf
        cases hnext : (fetch key cursor (limits n) (tables n)).next with
        | none =>
            refine ⟨n, text, shown, _, hf, hget, ?_, hprogress.perm h.keys hsame (h.limit n) hnext⟩
            simp [Fetched.answer, hnext]
        | some k =>
            obtain ⟨-, last, hlast, rfl⟩ := next_eq_some hnext
            have hmem := mem_shown (List.mem_of_getLast? hlast)
            rw [Fetched.answer, hnext] at hget
            refine ih _ ?_ (n + 1) _ _ (hf.next hget) rfl
            rw [List.getLast?_append, hlast, ← hlen, ← hprogress.last]
            exact remaining_lt (hsame n ▸ hmem.1) hmem.2
  exact hends _ 0 none [] .start rfl

/-- **An endpoint that serves its clients so is faithful.** -/
theorem Serves.faithful (h : Serves key encode limits tables get) : Faithful key tables get where
  answered hf := by
    obtain ⟨cursor, -, hget, -⟩ := h.followed hf
    exact ⟨_, hget⟩
  descending {n text shown page} hf hget := by
    obtain ⟨cursor, hprogress, hanswer, -⟩ := h.followed hf
    obtain rfl := Except.ok.inj (hget.symm.trans hanswer)
    exact hprogress.page_descending (h.keys n) _
  complete {n text shown page} hf hget hend k hk := by
    obtain ⟨cursor, hprogress, hanswer, -⟩ := h.followed hf
    obtain rfl := Except.ok.inj (hget.symm.trans hanswer)
    exact hprogress.page_complete (h.keys n) (h.limit n) (Option.map_eq_none_iff.mp hend) hk
  more {n text shown page} hf hget := by
    obtain ⟨cursor, hprogress, hanswer, -⟩ := h.followed hf
    obtain rfl := Except.ok.inj (hget.symm.trans hanswer)
    exact (not_congr Option.map_eq_none_iff).trans (hprogress.page_more (h.keys n) (h.limit n))
  ends := h.ends

/-- **An endpoint whose first page holds everything is faithful**, whatever it does
afterwards. -/
theorem faithful_of_first {limit : ℕ} (hlimit : 0 < limit) (hkeys : ((tables 0).map key).Nodup)
    (hfirst : get 0 none = .ok ((fetch key none limit (tables 0)).answer encode))
    (hnext : (fetch key none limit (tables 0)).next = none) : Faithful key tables get := by
  -- without a next cursor nothing is followed
  have honly : ∀ {n text shown}, Followed get n text shown → n = 0 ∧ text = none ∧ shown = [] := by
    intro n text shown hf
    induction hf with
    | start => exact ⟨rfl, rfl, rfl⟩
    | next _ hget ih =>
        obtain ⟨rfl, rfl, rfl⟩ := ih
        have hmore := (Prod.mk.inj (Except.ok.inj (hget.symm.trans hfirst))).2
        rw [hnext] at hmore
        cases hmore
  have hprogress : Progress key tables 0 none [] := .start
  constructor
  case answered =>
    intro n text shown hf
    obtain ⟨rfl, rfl, rfl⟩ := honly hf
    exact ⟨_, hfirst⟩
  case descending =>
    intro n text shown page hf hget
    obtain ⟨rfl, rfl, rfl⟩ := honly hf
    obtain rfl := Except.ok.inj (hget.symm.trans hfirst)
    exact hprogress.page_descending hkeys _
  case complete =>
    intro n text shown page hf hget _ k hk
    obtain ⟨rfl, rfl, rfl⟩ := honly hf
    obtain rfl := Except.ok.inj (hget.symm.trans hfirst)
    exact hprogress.page_complete hkeys hlimit hnext hk
  case more =>
    intro n text shown page hf hget
    obtain ⟨rfl, rfl, rfl⟩ := honly hf
    obtain rfl := Except.ok.inj (hget.symm.trans hfirst)
    exact (not_congr Option.map_eq_none_iff).trans (hprogress.page_more hkeys hlimit)
  case ends =>
    intro hsame
    have hall : ∀ n, ((tables n).map key).Nodup := fun n => hsame n ▸ hkeys
    refine ⟨0, none, [], _, .start, hfirst, ?_, hprogress.perm hall hsame hlimit hnext⟩
    simp [Fetched.answer, hnext]

end Endpoint

end Keyset
