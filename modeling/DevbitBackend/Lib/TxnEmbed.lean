import DevbitBackend.Lib.TxnSolo

/-!
# TxnEmbed

One engine inside a larger one. The tables of a component are a part of the
tables of the whole, and its statements, writes, locks and notes are some of
those of the whole (`Embedding`). A program written for the component runs
unchanged against the larger engine (`Prog.embed`), next to programs that it
knows nothing of.

What has been proved about the component carries over. `Embedding.contract` is
the contract of a component's program in the larger system, and `Safe.embed` says
that a safe program stays safe there, provided that the larger discipline
restricts to the smaller one (`Embedding.Hosts`). A lone run of the program changes
the whole as it changes the component (`solo_embed`).
-/

namespace Txn

variable {E F : Engine} {α β : Type}

/-- `E` is a part of `F`: the statements of `E` read and write only the part
`view` of the tables of `F`, and `put` replaces that part. `into` and `out` convert
the results of statements. -/
structure Embedding (E F : Engine) where
  stmt : E.Stmt → F.Stmt
  write : E.Write → F.Write
  lock : E.Lock → F.Lock
  note : E.Note → F.Note
  view : F.Db → E.Db
  put : E.Db → F.Db → F.Db
  into : (st : E.Stmt) → E.Result st → F.Result (stmt st)
  out : (st : E.Stmt) → F.Result (stmt st) → E.Result st
  out_into : ∀ st r, out st (into st r) = r
  put_view : ∀ db, put (view db) db = db
  view_put : ∀ d db, view (put d db) = d
  put_put : ∀ d d' db, put d' (put d db) = put d' db
  apply_write : ∀ w db, F.apply (write w) db = put (E.apply w (view db)) db
  eval_stmt : ∀ st now seq db, F.eval (stmt st) now seq db =
    (E.eval st now seq (view db)).map fun res => (into st res.1, res.2.map write)
  locks_stmt : ∀ st now seq db,
    F.locks (stmt st) now seq db = (E.locks st now seq (view db)).map lock
  draws_stmt : ∀ st, F.draws (stmt st) = E.draws st

/-- The program of a component, as a program of the whole. -/
def Prog.embed (h : Embedding E F) (f : α → β) : Prog E α → Prog F β
  | .query st k => .query (h.stmt st) fun r => (k (h.out st r)).embed h f
  | .begin k => .begin (k.embed h f)
  | .lock l k => .lock (h.lock l) (k.embed h f)
  | .exec st k => .exec (h.stmt st) fun r => (k (h.out st r)).embed h f
  | .commit k => .commit (k.embed h f)
  | .rollback k => .rollback fun b => (k b).embed h f
  | .clock k => .clock fun t => (k t).embed h f
  | .emit n k => .emit (h.note n) (k.embed h f)
  | .done a => .done (f a)

namespace Embedding

variable {h : Embedding E F}

/-- The part of a shared state that belongs to the component. -/
def snap (h : Embedding E F) (σ : Snap F) : Snap E := ⟨σ.seq, h.view σ.db⟩

/-- The writes of the component change its part only. -/
theorem applyAll_write (h : Embedding E F) (ws : List E.Write) (db : F.Db) :
    F.applyAll (ws.map h.write) db = h.put (E.applyAll ws (h.view db)) db := by
  induction ws generalizing db with
  | nil => exact (h.put_view db).symm
  | cons w ws ih =>
      rw [List.map_cons, Engine.applyAll_cons, ih, h.apply_write, h.view_put, h.put_put,
        Engine.applyAll_cons]

theorem view_applyAll (h : Embedding E F) (ws : List E.Write) (db : F.Db) :
    h.view (F.applyAll (ws.map h.write) db) = E.applyAll ws (h.view db) := by
  rw [applyAll_write, h.view_put]

theorem snap_write (h : Embedding E F) (σ : Snap F) (ws : List E.Write) :
    h.snap (σ.write (ws.map h.write)) = (h.snap σ).write ws := by
  simp only [snap, Snap.write, view_applyAll]

theorem snap_bump (h : Embedding E F) (σ : Snap F) (st : E.Stmt) :
    h.snap (σ.bump (h.stmt st)) = (h.snap σ).bump st := by
  simp only [snap, Snap.bump, h.draws_stmt]

/-- The discipline `D'` of the whole restricts to the discipline `D` of the
component, and leaves it to the component what its own writes may do. -/
structure Hosts (h : Embedding E F) (D : Discipline E) (D' : Discipline F) : Prop where
  inv : ∀ {σ}, D'.Inv σ → D.Inv (h.snap σ)
  base : ∀ {σ σ'}, D'.Base σ σ' → D.Base (h.snap σ) (h.snap σ')
  keeps : ∀ {l σ σ'}, D'.Keeps (h.lock l) σ σ' → D.Keeps l (h.snap σ) (h.snap σ')
  inv_write : ∀ {σ} {ws : List E.Write}, D'.Inv σ → D.Inv ((h.snap σ).write ws) →
    D'.Inv (σ.write (ws.map h.write))
  base_write : ∀ {σ} {ws : List E.Write}, D'.Inv σ → D.Base (h.snap σ) ((h.snap σ).write ws) →
    D'.Base σ (σ.write (ws.map h.write))
  keeps_write : ∀ {l' σ} {ws : List E.Write}, D'.Inv σ →
    (∀ l, l' = h.lock l → D.Keeps l (h.snap σ) ((h.snap σ).write ws)) →
    D'.Keeps l' σ (σ.write (ws.map h.write))

variable {D : Discipline E} {D' : Discipline F}

theorem Hosts.rely (hh : h.Hosts D D') {H : List E.Lock} {σ σ' : Snap F}
    (hr : D'.Rely (H.map h.lock) σ σ') : D.Rely H (h.snap σ) (h.snap σ') :=
  ⟨hh.base hr.1, fun l hl => hh.keeps (hr.2 (h.lock l) (List.mem_map_of_mem hl))⟩

/-- What a program of the component promises in the larger system. -/
def contract (h : Embedding E F) (hh : h.Hosts D D') (f : α → β) (C : Contract D α) :
    Contract D' β where
  known σ := C.known (h.snap σ)
  -- everything a transaction holds comes from the component
  inTx start H σ buf notes := ∃ H₀ buf₀ notes₀, H = H₀.map h.lock ∧ buf = buf₀.map h.write ∧
    notes = notes₀.map h.note ∧ C.inTx start H₀ (h.snap σ) buf₀ notes₀
  commit start H σ ws notes := ∃ H₀ ws₀ notes₀, H = H₀.map h.lock ∧ ws = ws₀.map h.write ∧
    notes = notes₀.map h.note ∧ C.commit start H₀ (h.snap σ) ws₀ notes₀
  abort start H σ notes := ∃ H₀ notes₀, H = H₀.map h.lock ∧ notes = notes₀.map h.note ∧
    C.abort start H₀ (h.snap σ) notes₀
  auto at_ H σ ws := ∃ H₀ ws₀, H = H₀.map h.lock ∧ ws = ws₀.map h.write ∧
    C.auto at_ H₀ (h.snap σ) ws₀
  reply committed b := ∃ a, b = f a ∧ C.reply committed a
  known_stable hk hb := C.known_stable hk (hh.base hb)
  inTx_stable hin hr hi := by
    obtain ⟨H₀, buf₀, notes₀, rfl, rfl, rfl, hin⟩ := hin
    exact ⟨H₀, buf₀, notes₀, rfl, rfl, rfl, C.inTx_stable hin (hh.rely hr) (hh.inv hi)⟩
  commit_inv hc hi := by
    obtain ⟨H₀, ws₀, notes₀, rfl, rfl, rfl, hc⟩ := hc
    exact hh.inv_write hi (C.commit_inv hc (hh.inv hi))
  commit_base hc hi := by
    obtain ⟨H₀, ws₀, notes₀, rfl, rfl, rfl, hc⟩ := hc
    exact hh.base_write hi (C.commit_base hc (hh.inv hi))
  commit_keeps hc hi hl := by
    obtain ⟨H₀, ws₀, notes₀, rfl, rfl, rfl, hc⟩ := hc
    refine hh.keeps_write hi fun l hl' => C.commit_keeps hc (hh.inv hi) fun hmem => hl ?_
    exact hl' ▸ List.mem_map_of_mem hmem
  auto_inv ha hi := by
    obtain ⟨H₀, ws₀, rfl, rfl, ha⟩ := ha
    exact hh.inv_write hi (C.auto_inv ha (hh.inv hi))
  auto_base ha hi := by
    obtain ⟨H₀, ws₀, rfl, rfl, ha⟩ := ha
    exact hh.base_write hi (C.auto_base ha (hh.inv hi))
  auto_keeps ha hi hl := by
    obtain ⟨H₀, ws₀, rfl, rfl, ha⟩ := ha
    refine hh.keeps_write hi fun l hl' => C.auto_keeps ha (hh.inv hi) fun hmem => hl ?_
    exact hl' ▸ List.mem_map_of_mem hmem

/-- The two readings of a mode: in the component and in the whole. -/
inductive Sees (h : Embedding E F) : Mode E → Mode F → Prop
  | pool (σ : Snap F) (c : Bool) : Sees h (.pool (h.snap σ) c) (.pool σ c)
  | tx (start : Nat) (H : List E.Lock) (σ : Snap F) (buf : List E.Write) (notes : List E.Note) :
      Sees h (.tx start H (h.snap σ) buf notes)
        (.tx start (H.map h.lock) σ (buf.map h.write) (notes.map h.note))

/-- Outside a transaction, after a statement of the component with the writes `ws`. -/
theorem Sees.ran (h : Embedding E F) (σ : Snap F) (st : E.Stmt) (ws : List E.Write) (c : Bool) :
    Sees h (.pool (((h.snap σ).bump st).write ws) c)
      (.pool ((σ.bump (h.stmt st)).write (ws.map h.write)) c) := by
  rw [← h.snap_bump, ← h.snap_write]
  exact .pool _ c

/-- Outside a transaction, after the commit of `ws`. -/
theorem Sees.committed (h : Embedding E F) (σ : Snap F) (ws : List E.Write) (c : Bool) :
    Sees h (.pool ((h.snap σ).write ws) c) (.pool (σ.write (ws.map h.write)) c) := by
  rw [← h.snap_write]
  exact .pool _ c

/-- In a transaction, after a statement that takes the locks `ls` and writes `ws`. -/
theorem Sees.executed (h : Embedding E F) (start : Nat) (H ls : List E.Lock) (σ : Snap F)
    (st : E.Stmt) (buf ws : List E.Write) (notes : List E.Note) :
    Sees h (.tx start (H ++ ls) ((h.snap σ).bump st) (buf ++ ws) notes)
      (.tx start (H.map h.lock ++ ls.map h.lock) (σ.bump (h.stmt st))
        (buf.map h.write ++ ws.map h.write) (notes.map h.note)) := by
  rw [← h.snap_bump, ← List.map_append, ← List.map_append]
  exact .tx start _ _ _ notes

end Embedding

open Txn.Embedding

variable {D : Discipline E} {D' : Discipline F}

/-- **A safe program of a component is safe in the whole.** -/
theorem Contract.Safe.embed {h : Embedding E F} (hh : h.Hosts D D') {f : α → β}
    {C : Contract D α} {failed : α} {p : Prog E α} {m : Mode E} {m' : Mode F} (hm : h.Sees m m')
    (hsafe : C.Safe failed p m) : (h.contract hh f C).Safe (f failed) (p.embed h f) m' := by
  induction p generalizing m m' with
  | query st k ih =>
      cases hm with
      | tx => exact hsafe.elim
      | pool σ c =>
          intro σ' now hb hi hk
          have hs := hsafe (h.snap σ') now (hh.base hb) (hh.inv hi) hk
          rw [h.eval_stmt]
          -- the statement has the same outcome in the component
          cases he : E.eval st now σ'.seq (h.view σ'.db) with
          | none =>
              rw [show E.eval st now (h.snap σ').seq (h.snap σ').db = none from he] at hs
              exact ⟨failed, rfl, hs⟩
          | some res =>
              rw [show E.eval st now (h.snap σ').seq (h.snap σ').db = some res from he] at hs
              refine ⟨⟨_, _, h.locks_stmt st now σ'.seq σ'.db, rfl, ?_⟩, ?_⟩
              · rw [h.snap_bump]
                exact hs.1
              · dsimp only
                rw [h.out_into]
                exact ih res.1 (.ran h σ' st res.2 c) hs.2
  | begin k ih =>
      cases hm with
      | tx => exact hsafe.elim
      | pool σ c =>
          exact ⟨hsafe.1, fun σ' now hb hi hk =>
            ih (.tx now [] σ' [] []) (hsafe.2 _ now (hh.base hb) (hh.inv hi) hk)⟩
  | lock l k ih =>
      cases hm with
      | pool => exact hsafe.elim
      | tx start H σ buf notes =>
          obtain ⟨hin, rfl, hk⟩ := hsafe
          exact ⟨⟨_, _, _, rfl, rfl, rfl, hin⟩, rfl, fun σ' hr hi hkn =>
            ih (.tx start [l] σ' buf notes) (hk _ (hh.rely hr) (hh.inv hi) hkn)⟩
  | exec st k ih =>
      cases hm with
      | pool => exact hsafe.elim
      | tx start H σ buf notes =>
          refine ⟨⟨_, _, _, rfl, rfl, rfl, hsafe.1⟩, fun σ' hr hi hkn => ?_⟩
          have hs := hsafe.2 _ (hh.rely hr) (hh.inv hi) hkn
          rw [h.eval_stmt, h.locks_stmt, h.view_applyAll]
          -- the statement has the same outcome in the component
          cases he : E.eval st start σ'.seq (E.applyAll buf (h.view σ'.db)) with
          | none =>
              rw [show E.eval st start (h.snap σ').seq (E.applyAll buf (h.snap σ').db) = none
                from he] at hs
              exact ⟨⟨_, _, rfl, rfl, hs.1⟩, failed, rfl, hs.2⟩
          | some res =>
              rw [show E.eval st start (h.snap σ').seq (E.applyAll buf (h.snap σ').db) = some res
                from he] at hs
              dsimp only [Option.map_some]
              rw [h.out_into]
              exact ih res.1 (.executed h start H _ σ' st buf res.2 notes) hs
  | commit k ih =>
      cases hm with
      | pool => exact hsafe.elim
      | tx start H σ buf notes =>
          refine ⟨⟨_, _, _, rfl, rfl, rfl, hsafe.1⟩, fun σ' hr hi hkn => ?_⟩
          obtain ⟨hc, hs⟩ := hsafe.2 _ (hh.rely hr) (hh.inv hi) hkn
          exact ⟨⟨_, _, _, rfl, rfl, rfl, hc⟩, ih (.committed h σ' buf true) hs⟩
  | rollback k ih =>
      cases hm with
      | pool => exact hsafe.elim
      | tx start H σ buf notes =>
          refine ⟨⟨_, _, _, rfl, rfl, rfl, hsafe.1⟩, fun σ' hr hi hkn => ?_⟩
          obtain ⟨ha, hs⟩ := hsafe.2 _ (hh.rely hr) (hh.inv hi) hkn
          exact ⟨⟨_, _, rfl, rfl, ha⟩, fun b => ih b (.pool σ' false) (hs b)⟩
  | clock k ih =>
      cases hm with
      | pool σ c => exact fun t => ih t (.pool σ c) (hsafe t)
      | tx start H σ buf notes =>
          exact ⟨⟨_, _, _, rfl, rfl, rfl, hsafe.1⟩, fun t =>
            ih t (.tx start H σ buf notes) (hsafe.2 t)⟩
  | emit n k ih =>
      cases hm with
      | pool σ c => exact ih (.pool σ c) hsafe
      | tx start H σ buf notes =>
          refine ⟨⟨_, _, _, rfl, rfl, rfl, hsafe.1⟩, ?_⟩
          have hnext := Sees.tx (h := h) start H σ buf (notes ++ [n])
          rw [List.map_append] at hnext
          exact ih hnext hsafe.2
  | done a =>
      cases hm with
      | pool σ c => exact ⟨a, rfl, hsafe⟩
      | tx start H σ buf notes =>
          exact ⟨⟨_, _, _, rfl, rfl, rfl, hsafe.1⟩, ⟨a, rfl, hsafe.2.1⟩, fun σ' hr hi hkn =>
            ⟨_, _, rfl, rfl, hsafe.2.2 _ (hh.rely hr) (hh.inv hi) hkn⟩⟩

/-! ### Lone runs -/

namespace Embedding

/-- The whole after its part has become `τ`. -/
def replace (h : Embedding E F) (σ : Snap F) (τ : Snap E) : Snap F := ⟨τ.seq, h.put τ.db σ.db⟩

theorem replace_snap (h : Embedding E F) (σ : Snap F) : h.replace σ (h.snap σ) = σ := by
  simp only [replace, snap, h.put_view]

theorem replace_write (h : Embedding E F) (σ : Snap F) (τ : Snap E) (ws : List E.Write) :
    (h.replace σ τ).write (ws.map h.write) = h.replace σ (τ.write ws) := by
  simp only [replace, Snap.write, h.applyAll_write, h.view_put, h.put_put]

theorem replace_bump (h : Embedding E F) (σ : Snap F) (τ : Snap E) (st : E.Stmt) :
    (h.replace σ τ).bump (h.stmt st) = h.replace σ (τ.bump st) := by
  simp only [replace, Snap.bump, h.draws_stmt]

/-- A statement has the same outcome in the whole, also after private writes. -/
theorem eval_replace (h : Embedding E F) (σ : Snap F) (τ : Snap E) (st : E.Stmt) (now : Nat)
    (buf : List E.Write) :
    F.eval (h.stmt st) now (h.replace σ τ).seq
        (F.applyAll (buf.map h.write) (h.replace σ τ).db) =
      (E.eval st now τ.seq (E.applyAll buf τ.db)).map
        fun res => (h.into st res.1, res.2.map h.write) := by
  rw [h.eval_stmt, h.view_applyAll, replace, h.view_put]

end Embedding

section Solo

variable {h : Embedding E F} {f : α → β} {failed : α} {fails : Nat → Bool} {now : Nat}

theorem solo_embed_replace (p : Prog E α) (n : Nat) (tx : Option (List E.Write)) (σ : Snap F)
    (τ : Snap E) :
    (p.embed h f).solo (f failed) fails now n (tx.map fun buf => buf.map h.write)
        (h.replace σ τ) =
      (h.replace σ (p.solo failed fails now n tx τ).1, f (p.solo failed fails now n tx τ).2) := by
  induction p generalizing n tx τ with
  | query st k ih =>
      cases tx with
      | some buf => rfl
      | none =>
          cases hf : fails n with
          | true => simp [Prog.embed, Prog.solo, hf]
          | false =>
              have heval := h.eval_replace σ τ st now []
              simp only [List.map_nil, Engine.applyAll_nil] at heval
              simp only [Prog.embed, Prog.solo, Option.map_none, hf, heval]
              cases E.eval st now τ.seq τ.db with
              | none => rfl
              | some res =>
                  dsimp only [Option.map_some]
                  rw [h.out_into, h.replace_bump, h.replace_write]
                  exact ih res.1 (n + 1) none _
  | begin k ih =>
      cases tx with
      | some buf => rfl
      | none =>
          cases hf : fails n with
          | true => simp [Prog.embed, Prog.solo, hf]
          | false =>
              simp only [Prog.embed, Prog.solo, Option.map_none, hf]
              exact ih (n + 1) (some []) τ
  | lock l k ih =>
      cases tx with
      | none => rfl
      | some buf =>
          cases hf : fails n with
          | true => simp [Prog.embed, Prog.solo, hf]
          | false =>
              simp only [Prog.embed, Prog.solo, Option.map_some, hf]
              exact ih (n + 1) (some buf) τ
  | exec st k ih =>
      cases tx with
      | none => rfl
      | some buf =>
          cases hf : fails n with
          | true => simp [Prog.embed, Prog.solo, hf]
          | false =>
              simp only [Prog.embed, Prog.solo, Option.map_some, hf, h.eval_replace]
              cases E.eval st now τ.seq (E.applyAll buf τ.db) with
              | none => rfl
              | some res =>
                  dsimp only [Option.map_some]
                  rw [h.out_into, h.replace_bump, ← List.map_append]
                  exact ih res.1 (n + 1) (some (buf ++ res.2)) _
  | commit k ih =>
      cases tx with
      | none => rfl
      | some buf =>
          cases hf : fails n with
          | true => simp [Prog.embed, Prog.solo, hf]
          | false =>
              simp only [Prog.embed, Prog.solo, Option.map_some, hf, h.replace_write]
              exact ih (n + 1) none _
  | rollback k ih =>
      cases tx with
      | none => rfl
      | some buf => exact ih (!fails n) (n + 1) none τ
  | clock k ih => cases tx <;> exact ih now n _ τ
  | emit m k ih => cases tx <;> exact ih n _ τ
  | done a => cases tx <;> rfl

/-- **A lone run of a component's program changes the whole as it changes the
component.** -/
theorem solo_embed (p : Prog E α) (n : Nat) (σ : Snap F) :
    (p.embed h f).solo (f failed) fails now n none σ =
      (h.replace σ (p.solo failed fails now n none (h.snap σ)).1,
        f (p.solo failed fails now n none (h.snap σ)).2) := by
  have hsame : (p.embed h f).solo (f failed) fails now n none (h.replace σ (h.snap σ)) = _ :=
    solo_embed_replace p n none σ (h.snap σ)
  rwa [h.replace_snap] at hsame

end Solo

end Txn
