import Mathlib.Data.Fintype.Lattice
import DevbitBackend.Lib.TxnEmbed
import DevbitBackend.Lib.TxnProgress

/-!
# TxnOrder

Deadlock freedom of `Txn` by a **lock order**. Every lock has a rank, and a program is
`Ordered` when it asks for a lock only while all the locks that it holds have a smaller
rank, or while it holds that lock already. Whoever waits then waits for a lock of
higher rank than its own, so somebody at the top of the order can move
(`progress_of_order`).

Unlike the rule of `TxnProgress`, this one lets a request wait for a row while it holds
others, and asks nothing of the data: what a statement locks is taken from the
statement alone, whatever tables it finds.
-/

namespace Txn

open Locks Transition

variable {E F : Engine} {ι α β : Type}

/-- While `H` is held, the locks `ls` may be asked for. -/
def InOrder (rank : E.Lock → Nat) (H ls : List E.Lock) : Prop :=
  ∀ l ∈ ls, l ∈ H ∨ ∀ l' ∈ H, rank l' < rank l

/-- The program asks for its locks in order. It holds `H` inside a transaction, and it
is outside of one when that is `none`. -/
inductive Prog.Ordered (rank : E.Lock → Nat) : Option (List E.Lock) → Prog E α → Prop
  | query {st k} : (∀ r, (k r).Ordered rank none) → Ordered rank none (.query st k)
  | begin {k} : k.Ordered rank (some []) → Ordered rank none (.begin k)
  | lock {H l k} : InOrder rank H [l] → k.Ordered rank (some (H ++ [l])) →
      Ordered rank (some H) (.lock l k)
  | exec {H st k} :
      (∀ now seq db r ws, E.eval st now seq db = some (r, ws) →
        InOrder rank H (E.locks st now seq db)) →
      (∀ now seq db r ws, E.eval st now seq db = some (r, ws) →
        (k r).Ordered rank (some (H ++ E.locks st now seq db))) →
      Ordered rank (some H) (.exec st k)
  | commit {H k} : k.Ordered rank none → Ordered rank (some H) (.commit k)
  | rollback {H k} : (∀ b, (k b).Ordered rank none) → Ordered rank (some H) (.rollback k)
  | clock {H k} : (∀ t, (k t).Ordered rank H) → Ordered rank H (.clock k)
  | emit {H n k} : k.Ordered rank H → Ordered rank H (.emit n k)
  | done {H a} : Ordered rank H (.done a)

/-- A statement that asks only for locks that are held already. -/
theorem Prog.Ordered.exec_held {rank : E.Lock → Nat} {H : List E.Lock} {st : E.Stmt}
    {k : E.Result st → Prog E α} (hheld : ∀ now seq db, E.locks st now seq db ⊆ H)
    (hk : ∀ now seq db r ws, E.eval st now seq db = some (r, ws) →
      (k r).Ordered rank (some (H ++ E.locks st now seq db))) :
    (Prog.exec st k).Ordered rank (some H) :=
  .exec (fun now seq db _ _ _ _ hl => .inl (hheld now seq db hl)) hk

theorem InOrder.map {h : Embedding E F} {rank : E.Lock → Nat} {rank' : F.Lock → Nat}
    (hrank : ∀ l, rank' (h.lock l) = rank l) {H ls : List E.Lock} (ho : InOrder rank H ls) :
    InOrder rank' (H.map h.lock) (ls.map h.lock) := by
  intro l' hl'
  obtain ⟨l, hl, rfl⟩ := List.mem_map.mp hl'
  rcases ho l hl with hheld | hbelow
  · exact .inl (List.mem_map_of_mem hheld)
  · refine .inr fun k' hk' => ?_
    obtain ⟨k, hk, rfl⟩ := List.mem_map.mp hk'
    rw [hrank, hrank]
    exact hbelow k hk

/-- A component's program keeps its order in the whole. -/
theorem Prog.Ordered.embed {h : Embedding E F} {f : α → β} {rank : E.Lock → Nat}
    {rank' : F.Lock → Nat} (hrank : ∀ l, rank' (h.lock l) = rank l) {p : Prog E α}
    {H : Option (List E.Lock)} (hp : p.Ordered rank H) :
    (p.embed h f).Ordered rank' (H.map (List.map h.lock)) := by
  induction hp with
  | query _ ih => exact .query fun r => ih (h.out _ r)
  | begin _ ih => exact .begin ih
  | lock ho _ ih =>
      refine .lock (ho.map hrank) ?_
      simpa using ih
  | @exec H st k ho _ ih =>
      have heval : ∀ {now seq db r ws}, F.eval (h.stmt st) now seq db = some (r, ws) →
          ∃ ws₀, E.eval st now seq (h.view db) = some (h.out st r, ws₀) := by
        intro now seq db r ws he
        rw [h.eval_stmt] at he
        obtain ⟨⟨r₀, ws₀⟩, he₀, heq⟩ := Option.map_eq_some_iff.mp he
        cases heq
        exact ⟨ws₀, by rw [he₀, h.out_into]⟩
      refine .exec (fun now seq db r ws he => ?_) fun now seq db r ws he => ?_
      · obtain ⟨ws₀, he₀⟩ := heval he
        rw [h.locks_stmt]
        exact (ho _ _ _ _ _ he₀).map hrank
      · obtain ⟨ws₀, he₀⟩ := heval he
        rw [h.locks_stmt, ← List.map_append]
        exact ih _ _ _ _ _ he₀
  | commit _ ih => exact .commit ih
  | rollback _ ih => exact .rollback ih
  | clock _ ih => exact .clock ih
  | emit _ ih => exact .emit ih
  | done => exact .done

/-! ### The invariant -/

variable [DecidableEq ι] [DecidableEq E.Lock] {cfg : Config ι α} {rank : E.Lock → Nat}
  {s s' : Sys E ι α} {i j : ι} {l : E.Lock}

/-- What request `i` holds in its phase, and that the rest of its code is ordered. -/
def Phase.Ordered (rank : E.Lock → Nat) (s : Sys E ι α) (i : ι) : Phase E α → Prop
  | .idle p | .pool p => Holds s i [] ∧ p.Ordered rank none
  | .conn _ k => Holds s i [] ∧ ∀ r, (k r).Ordered rank none
  | .tx _ _ _ p => ∃ H, Holds s i H ∧ p.Ordered rank (some H)
  | .done _ => Holds s i []

/-- Every request keeps the lock order. -/
def OrderInv (rank : E.Lock → Nat) (s : Sys E ι α) : Prop :=
  ∀ i, (s.calls i).Ordered rank s i

omit [DecidableEq ι] [DecidableEq E.Lock] in
/-- A request that holds what it held stays ordered. -/
theorem Phase.Ordered.frame {ph : Phase E α} (h : ph.Ordered rank s i)
    (hlocks : ∀ l, s'.lockOf l = some i ↔ s.lockOf l = some i) : ph.Ordered rank s' i := by
  have hholds : ∀ {H}, Holds s i H → Holds s' i H := fun hH l => (hlocks l).trans (hH l)
  cases ph with
  | idle p => exact ⟨hholds h.1, h.2⟩
  | pool p => exact ⟨hholds h.1, h.2⟩
  | conn st k => exact ⟨hholds h.1, h.2⟩
  | tx start buf notes p =>
      obtain ⟨H, hH, hp⟩ := h
      exact ⟨H, hholds hH, hp⟩
  | done a => exact hholds h

omit [DecidableEq E.Lock] in
/-- Request `i` moves to `ph`; the others hold what they held. -/
theorem OrderInv.move {ph : Phase E α} (h : OrderInv rank s)
    (hlocks : ∀ j, j ≠ i → ∀ l, s'.lockOf l = some j ↔ s.lockOf l = some j)
    (hcalls : s'.calls = s.calls) (hph : ph.Ordered rank s' i) : OrderInv rank (s'.goto i ph) := by
  intro j
  have hcall : (s'.goto i ph).calls j = if j = i then ph else s.calls j := by
    change Function.update s'.calls i ph j = _
    rw [hcalls, Function.update_apply]
  rw [hcall]
  by_cases hj : j = i
  · subst hj
    rw [if_pos rfl]
    exact hph.frame fun _ => Iff.rfl
  · rw [if_neg hj]
    exact (h j).frame (hlocks j hj)

omit [DecidableEq E.Lock] in
/-- The transaction of `i` ends, and all its locks are released at once. -/
theorem OrderInv.close {ph : Phase E α} (h : OrderInv rank s)
    (hlocks : s'.lockOf = release s.lockOf i) (hcalls : s'.calls = s.calls)
    (hph : Holds s' i [] → ph.Ordered rank s' i) : OrderInv rank (s'.goto i ph) := by
  refine h.move (fun j hj l => ?_) hcalls (hph fun l => ?_)
  · rw [hlocks]
    exact release_other_iff hj
  · rw [hlocks]
    exact iff_of_false (release_self s.lockOf i l) List.not_mem_nil

omit [DecidableEq ι] in
theorem holds_hold {H ls : List E.Lock} (h : Holds s i H) :
    Holds (s.hold i ls) i (H ++ ls) := by
  intro l
  rw [List.mem_append, ← h l]
  exact take_self_iff

/-- **Every move keeps the lock order**: a request only ever waits for locks above those
that it holds. -/
theorem orderInv_step {lbl : Label ι} (h : OrderInv rank s) (hstep : step cfg lbl s = some s') :
    OrderInv rank s' := by
  have at_ : ∀ {i : ι} {ph : Phase E α}, s.calls i = ph → ph.Ordered rank s i :=
    fun hc => hc ▸ h _
  have same : ∀ {i : ι} {t : Sys E ι α} {ph : Phase E α}, t.lockOf = s.lockOf →
      t.calls = s.calls → ph.Ordered rank s i → OrderInv rank (t.goto i ph) := by
    intro i t ph hlocks hcalls hph
    exact h.move (fun j _ l => by rw [hlocks]) hcalls (hph.frame fun l => by rw [hlocks])
  cases move_of_step hstep with
  | tick => exact fun i => (h i).frame fun _ => Iff.rfl
  | arrive hc => exact same rfl rfl ⟨(at_ hc).1, (at_ hc).2⟩
  | acquire hc _ =>
      obtain ⟨hH, hp⟩ := at_ hc
      cases hp with
      | query hk => exact same rfl rfl ⟨hH, hk⟩
  | begin hc _ =>
      obtain ⟨hH, hp⟩ := at_ hc
      cases hp with
      | begin hk => exact same rfl rfl ⟨[], hH, hk⟩
  | clock hc =>
      obtain ⟨hH, hp⟩ := at_ hc
      cases hp with
      | clock hk => exact same rfl rfl ⟨hH, hk _⟩
  | note hc =>
      obtain ⟨hH, hp⟩ := at_ hc
      cases hp with
      | emit hk => exact same rfl rfl ⟨hH, hk⟩
  | auto hc _ _ => exact same rfl rfl ⟨(at_ hc).1, (at_ hc).2 _⟩
  | answer hc | failPool hc _ | autoRejected hc _ | failConn hc _ =>
      exact same rfl rfl (at_ hc).1
  | @exec i start buf notes st k r ws hc he hfree =>
      obtain ⟨H, hH, hp⟩ := at_ hc
      cases hp with
      | exec _ hk =>
          exact h.move (fun j hj _ => take_other_iff hj hfree) rfl
            ⟨_, holds_hold hH, hk _ _ _ _ _ he⟩
  | @lock i start buf notes l k hc hfree =>
      obtain ⟨H, hH, hp⟩ := at_ hc
      cases hp with
      | lock _ hk =>
          exact h.move (fun j hj _ => take_other_iff hj hfree) rfl ⟨_, holds_hold hH, hk⟩
  | commit hc =>
      obtain ⟨H, hH, hp⟩ := at_ hc
      cases hp with
      | commit hk => exact h.close rfl rfl fun hnone => ⟨hnone, hk⟩
  | rollback hc =>
      obtain ⟨H, hH, hp⟩ := at_ hc
      cases hp with
      | rollback hk => exact h.close rfl rfl fun hnone => ⟨hnone, hk _⟩
  | failRollback hc _ =>
      obtain ⟨H, hH, hp⟩ := at_ hc
      cases hp with
      | rollback hk => exact h.close rfl rfl fun hnone => ⟨hnone, hk _⟩
  | rejected hc _ | leave hc | failTx hc _ => exact h.close rfl rfl id
  | txClock hc =>
      obtain ⟨H, hH, hp⟩ := at_ hc
      cases hp with
      | clock hk => exact same rfl rfl ⟨H, hH, hk _⟩
  | txNote hc =>
      obtain ⟨H, hH, hp⟩ := at_ hc
      cases hp with
      | emit hk => exact same rfl rfl ⟨H, hH, hk⟩

omit [DecidableEq ι] [DecidableEq E.Lock] in
theorem orderInv_start {db : E.Db} {seq now : Nat} {progs : ι → Prog E α}
    (h : ∀ i, (progs i).Ordered rank none) : OrderInv rank (Sys.start db seq now progs) :=
  fun i => ⟨fun l => by simp [Sys.start], h i⟩

/-! ### Who waits for whom -/

/-- The next step of `i` needs the lock `l`, and `j` holds it. -/
inductive Awaits (s : Sys E ι α) (i : ι) (l : E.Lock) (j : ι) : Prop
  | lock {start buf notes k} : s.calls i = .tx start buf notes (.lock l k) →
      s.lockOf l = some j → j ≠ i → Awaits s i l j
  | exec {start buf notes st k r} : s.calls i = .tx start buf notes (.exec st k) →
      E.eval st start s.seq (E.applyAll buf s.db) = some r →
      l ∈ E.locks st start s.seq (E.applyAll buf s.db) →
      s.lockOf l = some j → j ≠ i → Awaits s i l j
  | conn {st k} : s.calls i = .conn st k → s.lockOf l = some j → j ≠ i → Awaits s i l j

omit [DecidableEq ι] [DecidableEq E.Lock] in
theorem Awaits.held (h : Awaits s i l j) : s.lockOf l = some j ∧ j ≠ i := by
  cases h with
  | lock _ hj hne => exact ⟨hj, hne⟩
  | exec _ _ _ hj hne => exact ⟨hj, hne⟩
  | conn _ hj hne => exact ⟨hj, hne⟩

omit [DecidableEq ι] [DecidableEq E.Lock] in
/-- Whoever waits holds only locks below the one that it waits for. -/
theorem Awaits.rank_lt (h : Awaits s i l j) (hinv : OrderInv rank s) {l' : E.Lock}
    (hl' : s.lockOf l' = some i) : rank l' < rank l := by
  obtain ⟨hj, hne⟩ := h.held
  have hown := hinv i
  -- the lock is another's, so it is not among those held
  have notmine : ∀ {H}, Holds s i H → l ∉ H := by
    intro H hH hmem
    have hi := (hH l).mpr hmem
    rw [hj] at hi
    exact hne (Option.some.inj hi)
  cases h with
  | lock hc _ _ =>
      rw [hc] at hown
      obtain ⟨H, hH, hp⟩ := hown
      cases hp with
      | lock ho _ =>
          rcases ho l (List.mem_singleton_self l) with hmem | hbelow
          · exact absurd hmem (notmine hH)
          · exact hbelow l' ((hH l').mp hl')
  | exec hc he hmem _ _ =>
      rw [hc] at hown
      obtain ⟨H, hH, hp⟩ := hown
      cases hp with
      | exec ho _ =>
          rcases ho _ _ _ _ _ he l hmem with hheld | hbelow
          · exact absurd hheld (notmine hH)
          · exact hbelow l' ((hH l').mp hl')
  | conn hc _ _ =>
      rw [hc] at hown
      -- outside a transaction nothing is held
      exact absurd ((hown.1 l').mp hl') List.not_mem_nil

omit [DecidableEq ι] [DecidableEq E.Lock] in
/-- Whoever holds a lock is in a transaction. -/
theorem OrderInv.busy (hinv : OrderInv rank s) (hl : s.lockOf l = some i) :
    (s.calls i).busy = true := by
  have hown := hinv i
  cases hc : s.calls i with
  | tx start buf notes p => rfl
  | conn st k => rfl
  | idle p =>
      rw [hc] at hown
      exact absurd ((hown.1 l).mp hl) List.not_mem_nil
  | pool p =>
      rw [hc] at hown
      exact absurd ((hown.1 l).mp hl) List.not_mem_nil
  | done a =>
      rw [hc] at hown
      exact absurd ((hown l).mp hl) List.not_mem_nil

omit [DecidableEq ι] [DecidableEq E.Lock] in
/-- Locks that are not free are held by somebody else. -/
theorem exists_holder {ls : List E.Lock} (h : ¬ Free s.lockOf i ls) :
    ∃ l ∈ ls, ∃ j, s.lockOf l = some j ∧ j ≠ i := by
  obtain ⟨l, hl⟩ := not_forall.mp h
  obtain ⟨hmem, hheld⟩ := Classical.not_imp.mp hl
  obtain ⟨hfree, hmine⟩ := not_or.mp hheld
  obtain ⟨j, hj⟩ := Option.ne_none_iff_exists'.mp hfree
  exact ⟨l, hmem, j, hj, fun heq => hmine (heq ▸ hj)⟩

/-- A request that has a connection can move, or waits for the holder of a lock. -/
theorem canMove_or_awaits (hinv : OrderInv rank s) (hbusy : (s.calls i).busy = true) :
    CanMove cfg s i ∨ ∃ l j, Awaits s i l j := by
  have hown := hinv i
  simp only [CanMove, step, runStep]
  cases hc : s.calls i with
  | idle p => rw [hc] at hbusy; cases hbusy
  | pool p => rw [hc] at hbusy; cases hbusy
  | done a => rw [hc] at hbusy; cases hbusy
  | conn st k =>
      -- a rejected statement ends the request, and that is a move
      cases he : E.eval st s.now s.seq s.db with
      | none => exact .inl (by simp [connStep, he])
      | some r =>
          by_cases hfree : Free s.lockOf i (E.locks st s.now s.seq s.db)
          · exact .inl (by simp [connStep, he, hfree])
          · obtain ⟨l, -, j, hj, hne⟩ := exists_holder hfree
            exact .inr ⟨l, j, .conn hc hj hne⟩
  | tx start buf notes p =>
      rw [hc] at hown
      obtain ⟨H, hH, hp⟩ := hown
      cases hp with
      | @exec _ st k _ _ =>
          cases he : E.eval st start s.seq (E.applyAll buf s.db) with
          | none => exact .inl (by simp [txStep, he])
          | some r =>
              by_cases hfree : Free s.lockOf i (E.locks st start s.seq (E.applyAll buf s.db))
              · exact .inl (by simp [txStep, he, hfree])
              · obtain ⟨l, hl, j, hj, hne⟩ := exists_holder hfree
                exact .inr ⟨l, j, .exec hc he hl hj hne⟩
      | @lock _ l k _ _ =>
          by_cases hfree : Free s.lockOf i [l]
          · exact .inl (by simp [txStep, hfree])
          · obtain ⟨l', hl', j, hj, hne⟩ := exists_holder hfree
            obtain rfl := List.mem_singleton.mp hl'
            exact .inr ⟨l', j, .lock hc hj hne⟩
      | commit _ => exact .inl rfl
      | rollback _ => exact .inl rfl
      | clock _ => exact .inl rfl
      | emit _ => exact .inl rfl
      | done => exact .inl rfl

/-- With a free connection, a request outside a transaction can move. -/
theorem canMove_of_free (hinv : OrderInv rank s) (hbusy : (s.calls i).busy = false)
    (hu : ∀ a, s.calls i ≠ .done a) (hfree : s.inUse < cfg.poolSize) : CanMove cfg s i := by
  have hown := hinv i
  simp only [CanMove, step, runStep]
  cases hc : s.calls i with
  | conn st k => rw [hc] at hbusy; cases hbusy
  | tx start buf notes p => rw [hc] at hbusy; cases hbusy
  | done a => exact absurd hc (hu a)
  | idle p => rfl
  | pool p =>
      rw [hc] at hown
      cases hown.2 with
      | query _ => simp [poolStep, hfree]
      | begin _ => simp [poolStep, hfree]
      | clock _ => rfl
      | emit _ => rfl
      | done => rfl

/-- **Deadlock freedom by a lock order.** With at least one connection in the pool,
while some request is unfinished, some request can take its next step. -/
theorem progress_of_order [Fintype ι] (hinv : OrderInv rank s)
    (hcount : s.inUse = busyCount s.calls) (hpool : 0 < cfg.poolSize)
    (hu : ∃ i, ∀ a, s.calls i ≠ .done a) : ∃ i, CanMove cfg s i := by
  by_contra hstuck
  have hwait : ∀ i : { i // (s.calls i).busy = true }, ∃ l j, Awaits s i l j := fun i =>
    (canMove_or_awaits hinv i.2).resolve_left fun hm => hstuck ⟨i, hm⟩
  by_cases hbusy : ∃ i, (s.calls i).busy = true
  · obtain ⟨i₀, hi₀⟩ := hbusy
    choose awaited holder hawaits using hwait
    -- of those that wait, one for a lock of the highest rank
    have : Nonempty { i // (s.calls i).busy = true } := ⟨⟨i₀, hi₀⟩⟩
    obtain ⟨i, hmax⟩ := Finite.exists_max fun i => rank (awaited i)
    obtain ⟨hheld, -⟩ := (hawaits i).held
    let j : { i // (s.calls i).busy = true } := ⟨holder i, hinv.busy hheld⟩
    exact absurd ((hawaits j).rank_lt hinv hheld) (Nat.not_lt.mpr (hmax j))
  · have hidle : ∀ i, (s.calls i).busy = false := fun i =>
      Bool.eq_false_iff.mpr fun hi => hbusy ⟨i, hi⟩
    have hzero : s.inUse = 0 := by
      rw [hcount]
      exact Finset.sum_eq_zero fun i _ => by rw [hidle i]; rfl
    obtain ⟨i, hi⟩ := hu
    exact hstuck ⟨i, canMove_of_free hinv (hidle i) hi (by omega)⟩

end Txn
