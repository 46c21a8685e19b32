import DevbitBackend.Lib.TxnEmbed

/-!
# TxnWrites

Where the rows of a database come from. What a program writes depends on what its
statements answer; `Prog.Writes` follows every answer that some state of the database
could give, and says that all of it satisfies a predicate. Along a run each committed write
is then one that its own request could make (`Signed`), so the history of the run is an
audit log: who wrote what.

A fact about the tables that follows from the audit log is shown write by write
(`SysInv.keeps`): each write may use what the contract of its request says of the moment of
the write, and what its request can write at all.
-/

namespace Txn

variable {E F : Engine} {α β : Type} {W : E.Write → Prop}

/-- The statement can answer `r` and write `ws`, in some state of the database. -/
def Engine.Yields (E : Engine) (st : E.Stmt) (r : E.Result st) (ws : List E.Write) : Prop :=
  ∃ now seq db, E.eval st now seq db = some (r, ws)

/-- Whatever the database answers, the program writes nothing but what satisfies `W`. -/
inductive Prog.Writes (W : E.Write → Prop) : Prog E α → Prop
  | query {st k} : (∀ r ws, E.Yields st r ws → ∀ w ∈ ws, W w) →
      (∀ r ws, E.Yields st r ws → (k r).Writes W) → Writes W (.query st k)
  | begin {k} : k.Writes W → Writes W (.begin k)
  | lock {l k} : k.Writes W → Writes W (.lock l k)
  | exec {st k} : (∀ r ws, E.Yields st r ws → ∀ w ∈ ws, W w) →
      (∀ r ws, E.Yields st r ws → (k r).Writes W) → Writes W (.exec st k)
  | commit {k} : k.Writes W → Writes W (.commit k)
  | rollback {k} : (∀ done, (k done).Writes W) → Writes W (.rollback k)
  | clock {k} : (∀ time, (k time).Writes W) → Writes W (.clock k)
  | emit {n k} : k.Writes W → Writes W (.emit n k)
  | done {a} : Writes W (.done a)

theorem Prog.Writes.ite {c : Prop} [Decidable c] {p q : Prog E α} (hp : p.Writes W)
    (hq : q.Writes W) : (if c then p else q).Writes W := by
  split
  · exact hp
  · exact hq

/-- So does a weaker predicate hold of it. -/
theorem Prog.Writes.weaken {W' : E.Write → Prop} {p : Prog E α} (hp : p.Writes W)
    (hW : ∀ w, W w → W' w) : p.Writes W' := by
  induction hp with
  | query hws _ ih => exact .query (fun r ws hy w hw => hW w (hws r ws hy w hw)) ih
  | begin _ ih => exact .begin ih
  | lock _ ih => exact .lock ih
  | exec hws _ ih => exact .exec (fun r ws hy w hw => hW w (hws r ws hy w hw)) ih
  | commit _ ih => exact .commit ih
  | rollback _ ih => exact .rollback ih
  | clock _ ih => exact .clock ih
  | emit _ ih => exact .emit ih
  | done => exact .done

/-- What a read can answer. -/
theorem yields_read {st : E.Stmt} {r : E.Result st} {ws : List E.Write} {f : E.Db → E.Result st}
    (heval : ∀ now seq db, E.eval st now seq db = some (f db, [])) (h : E.Yields st r ws) :
    (∃ db, r = f db) ∧ ws = [] := by
  obtain ⟨now, seq, db, he⟩ := h
  cases (heval now seq db).symm.trans he
  exact ⟨⟨db, rfl⟩, rfl⟩

/-- An autocommit read. -/
theorem Prog.Writes.query_read {st : E.Stmt} {k : E.Result st → Prog E α}
    (f : E.Db → E.Result st) (heval : ∀ now seq db, E.eval st now seq db = some (f db, []))
    (hk : ∀ db, (k (f db)).Writes W) : (Prog.query st k).Writes W := by
  refine .query (fun r ws h w hw => ?_) fun r ws h => ?_
  · rw [(yields_read heval h).2] at hw
    cases hw
  · obtain ⟨⟨db, rfl⟩, -⟩ := yields_read heval h
    exact hk db

/-- An autocommit statement that writes nothing. -/
theorem Prog.Writes.query_silent {st : E.Stmt} {k : E.Result st → Prog E α} (hst : E.Silent st)
    (hk : ∀ r, (k r).Writes W) : (Prog.query st k).Writes W := by
  refine .query (fun r ws ⟨now, seq, db, he⟩ w hw => ?_) fun r _ _ => hk r
  rw [hst now seq db r ws he] at hw
  cases hw

/-- A read in a transaction. -/
theorem Prog.Writes.exec_read {st : E.Stmt} {k : E.Result st → Prog E α}
    (f : E.Db → E.Result st) (heval : ∀ now seq db, E.eval st now seq db = some (f db, []))
    (hk : ∀ db, (k (f db)).Writes W) : (Prog.exec st k).Writes W := by
  refine .exec (fun r ws h w hw => ?_) fun r ws h => ?_
  · rw [(yields_read heval h).2] at hw
    cases hw
  · obtain ⟨⟨db, rfl⟩, -⟩ := yields_read heval h
    exact hk db

/-- What a component's statement can do inside the whole, it can do alone. -/
theorem yields_embed {h : Embedding E F} {st : E.Stmt} {r : F.Result (h.stmt st)}
    {ws : List F.Write} (hy : F.Yields (h.stmt st) r ws) :
    ∃ ws₀, E.Yields st (h.out st r) ws₀ ∧ ws = ws₀.map h.write := by
  obtain ⟨now, seq, db, he⟩ := hy
  rw [h.eval_stmt] at he
  obtain ⟨⟨r₀, ws₀⟩, he₀, hres⟩ := Option.map_eq_some_iff.mp he
  cases hres
  refine ⟨ws₀, ⟨now, seq, h.view db, ?_⟩, rfl⟩
  rw [h.out_into]
  exact he₀

/-- A component's program writes the same inside the whole. -/
theorem Prog.Writes.embed {h : Embedding E F} {f : α → β} {W : F.Write → Prop} {p : Prog E α}
    (hp : p.Writes fun w => W (h.write w)) : (p.embed h f).Writes W := by
  induction hp with
  | query hws _ ih =>
      refine .query (fun r ws hy => ?_) fun r ws hy => ?_
      · obtain ⟨ws₀, hy₀, rfl⟩ := yields_embed hy
        exact List.forall_mem_map.mpr (hws _ _ hy₀)
      · obtain ⟨ws₀, hy₀, -⟩ := yields_embed hy
        exact ih _ _ hy₀
  | begin _ ih => exact .begin ih
  | lock _ ih => exact .lock ih
  | exec hws _ ih =>
      refine .exec (fun r ws hy => ?_) fun r ws hy => ?_
      · obtain ⟨ws₀, hy₀, rfl⟩ := yields_embed hy
        exact List.forall_mem_map.mpr (hws _ _ hy₀)
      · obtain ⟨ws₀, hy₀, -⟩ := yields_embed hy
        exact ih _ _ hy₀
  | commit _ ih => exact .commit ih
  | rollback _ ih => exact .rollback ih
  | clock _ ih => exact .clock ih
  | emit _ ih => exact .emit ih
  | done => exact .done

/-! ### Along a run -/

/-- What a request has written without committing it satisfies `W`, and so does all that it
has still to write. -/
def Phase.Writes (W : E.Write → Prop) : Phase E α → Prop
  | .idle p | .pool p => p.Writes W
  | .conn st k => (Prog.query st k).Writes W
  | .tx _ buf _ p => (∀ w ∈ buf, W w) ∧ p.Writes W
  | .done _ => True

/-- The writes that an entry of the history made visible. -/
def Entry.writes {ι : Type} : Entry E ι → List E.Write
  | .commit _ _ ws _ | .auto _ _ ws => ws
  | _ => []

section Runs

variable {ι : Type} [DecidableEq ι] [DecidableEq E.Lock] {cfg : Config ι α} {s s' : Sys E ι α}
  {l : Label ι} {W : ι → E.Write → Prop}

/-- Every request writes what it may, and the history says so. -/
structure Signed (W : ι → E.Write → Prop) (s : Sys E ι α) : Prop where
  calls : ∀ i, (s.calls i).Writes (W i)
  log : ∀ e ∈ s.log, ∀ w ∈ e.writes, W e.call w

omit [DecidableEq ι] [DecidableEq E.Lock] in
theorem signed_start {db : E.Db} {seq now : Nat} {progs : ι → Prog E α}
    (h : ∀ i, (progs i).Writes (W i)) : Signed W (Sys.start db seq now progs) :=
  ⟨h, by simp [Sys.start]⟩

omit [DecidableEq E.Lock] in
/-- One request moves on, and records `es`. -/
theorem Signed.advance {i : ι} {ph : Phase E α} {es : List (Entry E ι)} (h : Signed W s)
    (hcalls : s'.calls = Function.update s.calls i ph) (hlog : s'.log = s.log ++ es)
    (hph : ph.Writes (W i)) (hes : ∀ e ∈ es, ∀ w ∈ e.writes, W e.call w) : Signed W s' where
  calls j := by
    rw [hcalls]
    by_cases hj : j = i
    · subst hj
      rw [Function.update_self]
      exact hph
    · rw [Function.update_of_ne hj]
      exact h.calls j
  log e he := by
    rw [hlog] at he
    rcases List.mem_append.mp he with he | he
    · exact h.log e he
    · exact hes e he

/-- **Every move keeps the history signed**: every write in it, committed or buffered, is
one that its request may make. -/
theorem Signed.move (h : Signed W s) (hmove : Move cfg s l s') : Signed W s' := by
  have hcall : ∀ {i ph}, s.calls i = ph → ph.Writes (W i) := fun hc => hc ▸ h.calls _
  have hsame : s.log = s.log ++ [] := (List.append_nil _).symm
  have hnone : ∀ e ∈ ([] : List (Entry E ι)), ∀ w ∈ e.writes, W e.call w := by simp
  -- an entry that makes nothing visible
  have hquiet : ∀ {e : Entry E ι}, e.writes = [] → ∀ e' ∈ [e], ∀ w ∈ e'.writes, W e'.call w := by
    intro e he e' he' w hw
    rw [List.mem_singleton.mp he', he] at hw
    cases hw
  cases hmove with
  | arrive hc =>
      have hp := hcall hc
      exact h.advance rfl hsame hp hnone
  | acquire hc _ =>
      have hp := hcall hc
      exact h.advance rfl hsame hp hnone
  | begin hc _ =>
      cases hcall hc with
      | begin hk => exact h.advance rfl hsame ⟨by simp, hk⟩ hnone
  | clock hc =>
      cases hcall hc with
      | clock hk => exact h.advance rfl hsame (hk s.now) hnone
  | note hc =>
      cases hcall hc with
      | emit hk => exact h.advance rfl rfl hk (hquiet rfl)
  | answer _ => exact h.advance rfl hsame trivial hnone
  | autoRejected _ _ => exact h.advance rfl hsame trivial hnone
  | auto hc he _ =>
      cases hcall hc with
      | query hws hk =>
          have hy : E.Yields _ _ _ := ⟨_, _, _, he⟩
          refine h.advance rfl rfl (hk _ _ hy) fun e he' => ?_
          rw [List.mem_singleton.mp he']
          exact hws _ _ hy
  | rejected _ _ => exact h.advance rfl rfl trivial (hquiet rfl)
  | exec hc he _ =>
      obtain ⟨hbuf, hp⟩ := hcall hc
      cases hp with
      | exec hws hk =>
          have hy : E.Yields _ _ _ := ⟨_, _, _, he⟩
          exact h.advance rfl hsame
            ⟨List.forall_mem_append.mpr ⟨hbuf, hws _ _ hy⟩, hk _ _ hy⟩ hnone
  | lock hc _ =>
      obtain ⟨hbuf, hp⟩ := hcall hc
      cases hp with
      | lock hk => exact h.advance rfl hsame ⟨hbuf, hk⟩ hnone
  | commit hc =>
      obtain ⟨hbuf, hp⟩ := hcall hc
      cases hp with
      | commit hk =>
          refine h.advance rfl rfl hk fun e he' => ?_
          rw [List.mem_singleton.mp he']
          exact hbuf
  | rollback hc =>
      obtain ⟨-, hp⟩ := hcall hc
      cases hp with
      | rollback hk => exact h.advance rfl rfl (hk true) (hquiet rfl)
  | txClock hc =>
      obtain ⟨hbuf, hp⟩ := hcall hc
      cases hp with
      | clock hk => exact h.advance rfl hsame ⟨hbuf, hk s.now⟩ hnone
  | txNote hc =>
      obtain ⟨hbuf, hp⟩ := hcall hc
      cases hp with
      | emit hk => exact h.advance rfl hsame ⟨hbuf, hk⟩ hnone
  | leave _ => exact h.advance rfl rfl trivial (hquiet rfl)
  | failPool _ _ => exact h.advance rfl hsame trivial hnone
  | failConn _ _ => exact h.advance rfl hsame trivial hnone
  | failTx _ _ => exact h.advance rfl rfl trivial (hquiet rfl)
  | failRollback hc _ =>
      obtain ⟨-, hp⟩ := hcall hc
      cases hp with
      | rollback hk => exact h.advance rfl rfl (hk false) (hquiet rfl)
  | tick => exact ⟨h.calls, h.log⟩

/-- **In every reachable state each committed write is one that its request could make.** -/
theorem signed_reachable {db : E.Db} {seq now : Nat} {progs : ι → Prog E α}
    (hprogs : ∀ i, (progs i).Writes (W i))
    (h : Transition.Reachable (step cfg) (Sys.start db seq now progs) s) : Signed W s :=
  h.invariant (I := Signed W) (fun _ _ _ hI hstep => hI.move (move_of_step hstep))
    (signed_start hprogs)

variable {D : Discipline E} {C : ι → Contract D α} {log₀ : List (Entry E ι)} {σ₀ : Snap E}
  {ls : List (Label ι)}

/-- **What every signed write of a run keeps holds at its end.** A write of the run is by a
request that has moved in it. -/
theorem SysInv.keeps {J : E.Db → Prop} (hinv : SysInv C cfg log₀ σ₀ s) (hsigned : Signed W s)
    (hrun : Transition.Run (step cfg) s ls s') (hJ : J s.db)
    (hcommit : ∀ {i start H σ ws notes}, .run i ∈ ls → D.Inv σ → (C i).commit start H σ ws notes →
      (∀ w ∈ ws, W i w) → J σ.db → J (E.applyAll ws σ.db))
    (hauto : ∀ {i at_ H σ ws}, .run i ∈ ls → D.Inv σ → (C i).auto at_ H σ ws →
      (∀ w ∈ ws, W i w) → J σ.db → J (E.applyAll ws σ.db)) : J s'.db := by
  induction hrun with
  | nil => exact hJ
  | @cons s s₁ s' l ls hstep _ ih =>
      have hsigned₁ := hsigned.move (move_of_step hstep)
      refine ih (sysInv_step hinv hstep) hsigned₁ ?_
        (fun hi => hcommit (List.mem_cons_of_mem _ hi))
        fun hi => hauto (List.mem_cons_of_mem _ hi)
      -- the writes of the step are signed by the request that moved
      have hlast : ∀ {e : Entry E ι}, s₁.log = s.log ++ [e] → ∀ w ∈ e.writes, W e.call w :=
        fun hlog => hsigned₁.log _ (hlog ▸ List.mem_append_right _ (List.mem_singleton_self _))
      cases hinv.effect hstep with
      | silent hdb _ => exact hdb ▸ hJ
      | commit _ hc hsnap hlog =>
          have hdb : s₁.db = _ := congrArg Snap.db hsnap
          rw [hdb]
          exact hcommit List.mem_cons_self hinv.inv hc (hlast hlog) hJ
      | auto _ _ ha hsnap hlog =>
          have hdb : s₁.db = _ := congrArg Snap.db hsnap
          rw [hdb]
          exact hauto List.mem_cons_self (D.inv_bump hinv.inv) ha (hlast hlog) hJ

end Runs

end Txn
