import DevbitBackend.Lib.TxnEmbed

/-!
# TxnReads

What a request without a transaction may say. Under READ COMMITTED each of its statements
sees the tables of a moment of its own, so its answer is about a list of moments, one for
each statement and each look at the clock, in their order (`Prog.Reads`). Along a run these
are states that the run goes through while the request is being served (`reads_run`): with
one statement the answer is a snapshot, with several it may be torn, and this is how far.
-/

namespace Transition

variable {σ ℓ : Type*}

/-- The run from `s` to `s'` goes through the states `ts`, in this order. -/
inductive Through (step : ℓ → σ → Option σ) : σ → List σ → σ → Prop
  | nil {s s' : σ} : Reachable step s s' → Through step s [] s'
  | cons {s t s' : σ} {ts : List σ} :
      Reachable step s t → Through step t ts s' → Through step s (t :: ts) s'

variable {step : ℓ → σ → Option σ} {s t s' s'' : σ} {ts : List σ}

theorem Through.extend (h : Through step s ts s') (h' : Reachable step s' s'') :
    Through step s ts s'' := by
  induction h with
  | nil hs => exact .nil (hs.trans h')
  | cons hs _ ih => exact .cons hs (ih h')

/-- The state that has been reached may be one of them. -/
theorem Through.concat (h : Through step s ts s') : Through step s (ts ++ [s']) s' := by
  induction h with
  | nil hs => exact .cons hs (.nil (.refl _))
  | cons hs _ ih => exact .cons hs ih

theorem Through.reachable (h : Through step s ts s') : Reachable step s s' := by
  induction h with
  | nil hs => exact hs
  | cons hs _ ih => exact hs.trans ih

/-- Each of them lies between the ends. -/
theorem Through.between (h : Through step s ts s') (ht : t ∈ ts) :
    Reachable step s t ∧ Reachable step t s' := by
  induction h with
  | nil _ => cases ht
  | cons hs hrest ih =>
      rcases List.mem_cons.mp ht with rfl | ht
      · exact ⟨hs, hrest.reachable⟩
      · obtain ⟨hbefore, hafter⟩ := ih ht
        exact ⟨hs.trans hbefore, hafter⟩

end Transition

namespace Txn

open Transition

variable {E : Engine} {α : Type}

/-- The program has no transaction, its statements answer what `f` says of the tables, and
its own answer `a` satisfies `Q seen a`, where `seen` are the times and the tables that it
has seen. A statement that is always rejected ends it with the answer `failed`. -/
inductive Prog.Reads (failed : α) : (List (Nat × E.Db) → α → Prop) → Prog E α → Prop
  | query {Q st k} (f : E.Db → E.Result st) :
      (∀ now seq db, ∃ ws, E.eval st now seq db = some (f db, ws)) →
      (∀ now db, Reads failed (fun seen a => Q ((now, db) :: seen) a) (k (f db))) →
      Reads failed Q (.query st k)
  | rejected {Q st k} : (∀ now seq db, E.eval st now seq db = none) →
      (∀ now db, Q [(now, db)] failed) → Reads failed Q (.query st k)
  | clock {Q k} : (∀ now db, Reads failed (fun seen a => Q ((now, db) :: seen) a) (k now)) →
      Reads failed Q (.clock k)
  | emit {Q n k} : Reads failed Q k → Reads failed Q (.emit n k)
  | done {Q a} : Q [] a → Reads failed Q (.done a)

variable {failed : α}

/-- A statement that writes nothing and answers a function of the tables. -/
theorem Prog.Reads.read {Q : List (Nat × E.Db) → α → Prop} {st : E.Stmt}
    {k : E.Result st → Prog E α} (f : E.Db → E.Result st)
    (heval : ∀ now seq db, E.eval st now seq db = some (f db, []))
    (hk : ∀ now db, (k (f db)).Reads failed fun seen a => Q ((now, db) :: seen) a) :
    (Prog.query st k).Reads failed Q :=
  .query f (fun now seq db => ⟨[], heval now seq db⟩) hk

/-- A program of a component sees its part of the tables. -/
theorem Prog.Reads.embed {F : Engine} {β : Type} {h : Embedding E F} {f : α → β} {p : Prog E α}
    {Q : List (Nat × E.Db) → α → Prop} {Q' : List (Nat × F.Db) → β → Prop}
    (hp : p.Reads failed Q)
    (hQ : ∀ seen a, Q (seen.map fun t => (t.1, h.view t.2)) a → Q' seen (f a)) :
    (p.embed h f).Reads (f failed) Q' := by
  induction hp generalizing Q' with
  | @query Q st k g heval _ ih =>
      refine .query (fun db => h.into st (g (h.view db))) (fun now seq db => ?_) fun now db => ?_
      · obtain ⟨ws, heval⟩ := heval now seq (h.view db)
        exact ⟨ws.map h.write, by rw [h.eval_stmt, heval]; rfl⟩
      · rw [h.out_into]
        exact ih now (h.view db) fun seen a ha => hQ ((now, db) :: seen) a ha
  | rejected hnone hfailed =>
      refine .rejected (fun now seq db => ?_) fun now db => hQ _ _ (hfailed now (h.view db))
      rw [h.eval_stmt, hnone]
      rfl
  | clock _ ih =>
      exact .clock fun now db => ih now (h.view db) fun seen a ha => hQ ((now, db) :: seen) a ha
  | emit _ ih => exact .emit (ih hQ)
  | done ha => exact .done (hQ [] _ ha)

/-- The rest of such a request. -/
def Phase.Reads (failed : α) (Q : List (Nat × E.Db) → α → Prop) : Phase E α → Prop
  | .idle p | .pool p => p.Reads failed Q
  | .conn st k => (Prog.query st k).Reads failed Q
  | .tx _ _ _ _ => False
  | .done a => Q [] a

section Runs

variable {ι : Type} [DecidableEq ι] [DecidableEq E.Lock] {cfg : Config ι α}
  {s₁ s s' : Sys E ι α} {l : Label ι} {ls : List (Label ι)} {i : ι}
  {Q : List (Nat × E.Db) → α → Prop}

/-- What a request sees that looks at the clock or at the tables in this state. -/
def Sys.seen (s : Sys E ι α) : Nat × E.Db := (s.now, s.db)

/-- Where the request `i` stands in a run from `s₁` that has fired `ls`: it has failed, or
it has seen states that the run went through. -/
def Reading (cfg : Config ι α) (Q : List (Nat × E.Db) → α → Prop) (i : ι) (s₁ : Sys E ι α)
    (ls : List (Label ι)) (s : Sys E ι α) : Prop :=
  (.fail i ∈ ls ∧ s.calls i = .done (cfg.failed i)) ∨
    ∃ ts, Through (step cfg) s₁ ts s ∧
      (s.calls i).Reads (cfg.failed i) fun seen a => Q (ts.map Sys.seen ++ seen) a

omit [DecidableEq E.Lock] in
theorem calls_goto (s : Sys E ι α) (i : ι) (ph : Phase E α) : (s.goto i ph).calls i = ph := by
  simp [Sys.goto]

omit [DecidableEq E.Lock] in
theorem reads_goto {ph : Phase E α} (h : ph.Reads failed Q) :
    ((s.goto i ph).calls i).Reads failed Q := by
  rw [calls_goto]
  exact h

/-- A move of the request itself: if it is a statement, what it reads is the state of this
moment. -/
theorem Reading.own {ts : List (Sys E ι α)} (hts : Through (step cfg) s₁ ts s)
    (h : (s.calls i).Reads (cfg.failed i) fun seen a => Q (ts.map Sys.seen ++ seen) a)
    (hl : l = .run i ∨ l = .fail i) (hstep : step cfg l s = some s') :
    Reading cfg Q i s₁ (ls ++ [l]) s' := by
  have hnext : Through (step cfg) s₁ ts s' := hts.extend ((Reachable.refl s).tail hstep)
  have own : ∀ {j ph}, l = .run j ∨ l = .fail j → s.calls j = ph →
      i = j ∧ ph.Reads (cfg.failed i) fun seen a => Q (ts.map Sys.seen ++ seen) a := by
    intro j ph hj hc
    have hij : i = j := by
      rcases hj with rfl | rfl <;> rcases hl with hl | hl <;> cases hl <;> rfl
    exact ⟨hij, hc ▸ hij ▸ h⟩
  have hfailed : ∀ {j} {s'' : Sys E ι α}, l = .fail j → i = j → Reading cfg Q i s₁ (ls ++ [l])
      (s''.goto j (.done (cfg.failed j))) := by
    rintro j s'' rfl rfl
    exact .inl ⟨List.mem_append_right _ (List.mem_singleton_self _), by simp [Sys.goto]⟩
  -- the request looks at the clock or at the tables, in this state
  have hseen : ∀ {p : Prog E α} {s'' : Sys E ι α} {j},
      p.Reads (cfg.failed i) (fun seen a => Q (ts.map Sys.seen ++ s.seen :: seen) a) →
      s' = s''.goto j (.pool p) → i = j → Reading cfg Q i s₁ (ls ++ [l]) s' := by
    rintro p s'' j hp rfl rfl
    refine .inr ⟨ts ++ [s], hts.concat.extend ((Reachable.refl s).tail hstep), ?_⟩
    refine reads_goto (show Prog.Reads _ _ _ from ?_)
    simpa only [List.map_append, List.map_cons, List.map_nil, List.append_assoc,
      List.singleton_append] using hp
  cases move_of_step hstep with
  | tick => rcases hl with hl | hl <;> cases hl
  | arrive hc =>
      obtain ⟨rfl, hown⟩ := own (.inl rfl) hc
      exact .inr ⟨ts, hnext, reads_goto hown⟩
  | acquire hc _ =>
      obtain ⟨rfl, hown⟩ := own (.inl rfl) hc
      exact .inr ⟨ts, hnext, reads_goto hown⟩
  | clock hc =>
      obtain ⟨rfl, hown⟩ := own (.inl rfl) hc
      cases hown with
      | clock hk => exact hseen (hk s.now s.db) rfl rfl
  | note hc =>
      obtain ⟨rfl, hown⟩ := own (.inl rfl) hc
      cases hown with
      | emit hk => exact .inr ⟨ts, hnext, reads_goto hk⟩
  | answer hc =>
      obtain ⟨rfl, hown⟩ := own (.inl rfl) hc
      cases hown with
      | done ha => exact .inr ⟨ts, hnext, reads_goto ha⟩
  | autoRejected hc hnone =>
      obtain ⟨rfl, hown⟩ := own (.inl rfl) hc
      cases hown with
      | query f heval _ =>
          obtain ⟨ws, heval⟩ := heval s.now s.seq s.db
          cases hnone.symm.trans heval
      | rejected _ hfailed =>
          refine .inr ⟨ts ++ [s], hts.concat.extend ((Reachable.refl s).tail hstep), ?_⟩
          have hlast : Q (ts.map Sys.seen ++ [s.seen]) (cfg.failed i) := hfailed s.now s.db
          refine reads_goto (show Q _ _ from ?_)
          simpa only [List.map_append, List.map_cons, List.map_nil, List.append_nil] using hlast
  | auto hc he _ =>
      obtain ⟨rfl, hown⟩ := own (.inl rfl) hc
      cases hown with
      | query f heval hk =>
          obtain ⟨ws, heval⟩ := heval s.now s.seq s.db
          cases he.symm.trans heval
          exact hseen (hk s.now s.db) rfl rfl
      | rejected hnone _ => cases (hnone s.now s.seq s.db).symm.trans he
  | begin hc _ =>
      obtain ⟨rfl, hown⟩ := own (.inl rfl) hc
      cases hown
  | failPool hc _ =>
      obtain ⟨hij, -⟩ := own (.inr rfl) hc
      exact hfailed rfl hij
  | failConn hc _ =>
      obtain ⟨hij, -⟩ := own (.inr rfl) hc
      exact hfailed rfl hij
  | rejected hc _ | exec hc _ _ | lock hc _ | commit hc | rollback hc | txClock hc | txNote hc
  | leave hc =>
      obtain ⟨-, hown⟩ := own (.inl rfl) hc
      exact hown.elim
  | failTx hc _ | failRollback hc _ =>
      obtain ⟨-, hown⟩ := own (.inr rfl) hc
      exact hown.elim

/-- Every move goes on with the reading. -/
theorem Reading.step (h : Reading cfg Q i s₁ ls s) (hstep : step cfg l s = some s') :
    Reading cfg Q i s₁ (ls ++ [l]) s' := by
  by_cases hl : l = .run i ∨ l = .fail i
  · rcases h with ⟨hfail, hdone⟩ | ⟨ts, hts, hreads⟩
    · -- a request that has answered does not move
      rcases hl with rfl | rfl
      · simp [Txn.step, runStep, hdone] at hstep
      · simp [Txn.step, failStep, hdone] at hstep
    · exact Reading.own hts hreads hl hstep
  · obtain ⟨hrun, hfail⟩ := not_or.mp hl
    have hsame := (move_of_step hstep).calls_other hrun hfail
    rcases h with ⟨hfailed, hdone⟩ | ⟨ts, hts, hreads⟩
    · exact .inl ⟨List.mem_append_left _ hfailed, hsame.trans hdone⟩
    · exact .inr ⟨ts, hts.extend ((Reachable.refl s).tail hstep), hsame ▸ hreads⟩

/-- **What a request without a transaction answers**: it is about states of the run, between
the one in which it has not arrived and the one in which it has answered. -/
theorem reads_run {p : Prog E α} {a : α} (hrun : Run (Txn.step cfg) s₁ ls s)
    (hidle : s₁.calls i = .idle p) (hp : p.Reads (cfg.failed i) Q) (hdone : s.calls i = .done a) :
    (.fail i ∈ ls ∧ a = cfg.failed i) ∨
      ∃ ts, Through (Txn.step cfg) s₁ ts s ∧ Q (ts.map Sys.seen) a := by
  have hstart : Reading cfg Q i s₁ [] s₁ := by
    refine .inr ⟨[], .nil (.refl _), ?_⟩
    rw [hidle]
    exact hp
  have hend := hrun.invariant_labels (I := Reading cfg Q i s₁)
    (fun _ _ _ _ hI hstep => hI.step hstep) hstart
  rcases hend with ⟨hfail, hfailed⟩ | ⟨ts, hts, hreads⟩
  · exact .inl ⟨hfail, Phase.done.inj (hdone.symm.trans hfailed)⟩
  · rw [hdone] at hreads
    refine .inr ⟨ts, hts, ?_⟩
    have hQ : Q (ts.map Sys.seen ++ []) a := hreads
    rwa [List.append_nil] at hQ

/-! ### Lone requests -/

/-- Nobody holds a lock, and a connection is free. -/
structure Quiet (cfg : Config ι α) (s : Sys E ι α) : Prop where
  unlocked : ∀ l, s.lockOf l = none
  free : s.inUse < cfg.poolSize

/-- Request `i` goes from `s` to its lone answer `r`, and leaves the server quiet. -/
def Settles (cfg : Config ι α) (s : Sys E ι α) (i : ι) (r : Snap E × α) : Prop :=
  ∃ s', Reachable (step cfg) s s' ∧ Quiet cfg s' ∧ s'.now = s.now ∧
    s'.calls = Function.update s.calls i (.done r.2) ∧ s'.snap = r.1

theorem Settles.of_step {r : Snap E × α} {ph : Phase E α} (h : Settles cfg s' i r)
    (hstep : step cfg l s = some s') (hcalls : s'.calls = Function.update s.calls i ph)
    (hnow : s'.now = s.now) : Settles cfg s i r := by
  obtain ⟨t, hreach, hquiet, ht, hc, hsnap⟩ := h
  refine ⟨t, ((Reachable.refl s).tail hstep).trans hreach, hquiet, ht.trans hnow, ?_, hsnap⟩
  rw [hc, hcalls, Function.update_idem]

/-- **Such a request can always be answered**, as the lone run says. -/
theorem Prog.Reads.settles {p : Prog E α} (hp : p.Reads (cfg.failed i) Q) {n : Nat}
    (hquiet : Quiet cfg s) (hc : s.calls i = .pool p) :
    Settles cfg s i (p.solo (cfg.failed i) noFailure s.now n none s.snap) := by
  induction hp generalizing s n with
  | @query Q st k f heval _ ih =>
      obtain ⟨ws, he⟩ := heval s.now s.seq s.db
      -- a connection is free, and the statement waits for no lock
      have hacquire : step cfg (.run i) s = some (s.borrow.goto i (.conn st k)) := by
        simp [step, runStep, hc, poolStep, hquiet.free]
      have hexec : step cfg (.run i) (s.borrow.goto i (.conn st k)) =
          some ((((((s.borrow.goto i (.conn st k)).write ws).bump st).giveBack.record
            (.auto i s.now ws))).goto i (.pool (k (f s.db)))) := by
        simp only [step, runStep, Sys.goto, Function.update_self, connStep, Sys.borrow, he]
        exact if_pos fun l _ => .inl (hquiet.unlocked l)
      rw [solo_query rfl he]
      have hquiet' : Quiet cfg
          ((((((s.borrow.goto i (.conn st k)).write ws).bump st).giveBack.record
            (.auto i s.now ws))).goto i (.pool (k (f s.db)))) :=
        ⟨hquiet.unlocked, hquiet.free⟩
      have hrest := ih s.now s.db (n := n + 1) hquiet' (calls_goto _ i _)
      exact (hrest.of_step hexec rfl rfl).of_step hacquire rfl rfl
  | @rejected Q st k hnone _ =>
      have hacquire : step cfg (.run i) s = some (s.borrow.goto i (.conn st k)) := by
        simp [step, runStep, hc, poolStep, hquiet.free]
      -- a rejected statement gives the connection back and ends the request
      have hreject : step cfg (.run i) (s.borrow.goto i (.conn st k)) =
          some ((s.borrow.goto i (.conn st k)).giveBack.goto i (.done (cfg.failed i))) := by
        simp only [step, runStep, Sys.goto, Function.update_self, connStep, hnone]
      rw [solo_query_rejected (hnone _ _ _)]
      refine Settles.of_step ?_ hacquire rfl rfl
      refine ⟨_, (Reachable.refl _).tail hreject, ⟨hquiet.unlocked, hquiet.free⟩, rfl, ?_, rfl⟩
      rfl
  | @clock Q k _ ih =>
      have hclock : step cfg (.run i) s = some (s.goto i (.pool (k s.now))) := by
        simp only [step, runStep, hc, poolStep]
      have hquiet' : Quiet cfg (s.goto i (.pool (k s.now))) := ⟨hquiet.unlocked, hquiet.free⟩
      have hrest := ih s.now s.db (n := n) hquiet' (calls_goto s i _)
      exact hrest.of_step hclock rfl rfl
  | @emit Q m k _ ih =>
      have hemit : step cfg (.run i) s = some ((s.record (.note i m)).goto i (.pool k)) := by
        simp only [step, runStep, hc, poolStep]
      have hquiet' : Quiet cfg ((s.record (.note i m)).goto i (.pool k)) :=
        ⟨hquiet.unlocked, hquiet.free⟩
      have hrest := ih (n := n) hquiet' (calls_goto _ i _)
      exact hrest.of_step hemit rfl rfl
  | @done Q a _ =>
      have hdone : step cfg (.run i) s = some (s.goto i (.done a)) := by
        simp only [step, runStep, hc, poolStep]
      exact ⟨_, (Reachable.refl s).tail hdone, ⟨hquiet.unlocked, hquiet.free⟩, rfl, rfl, rfl⟩

end Runs

end Txn
