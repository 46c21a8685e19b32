import DevbitBackend.Social.Lifecycle

/-!
# Social.Messages

Blocks against messages. `send_message` asks `message_permission` and inserts
the message in two autocommit statements, so a block can commit between the two,
and then a message of the pair is inserted although a block is committed
(`message_despite_block`). A message never meets a block in the runs in which no
block of a pair commits while a message of that pair is between its permission
and its `INSERT` (`message_not_blocked`).
-/

namespace DevbitBackend.Social

open Txn Transition

/-! ### Where a message is about to be inserted -/

/-- The next statement of the code inserts a message from `a` to `b`. -/
def inserts (a b : UserId) : Code → Prop
  | .query (.insertMessage a' b' _) _ => a' = a ∧ b' = b
  | _ => False

/-- The call is between its permission and the `INSERT` of a message from `a` to
`b`. -/
def inserting (a b : UserId) : Phase engine Answer → Prop
  | .pool p => inserts a b p
  | .conn st k => inserts a b (.query st k)
  | _ => False

/-- The statement has answered that no block is between `a` and `b`. -/
def clears (a b : UserId) : (st : Stmt) → st.Result → Prop
  | .messagePermission s t, row => s = a ∧ t = b ∧ row.1 = false
  | _, _ => False

/-- Code without transactions in which every `INSERT` of a message comes right
after a permission query that found no block. -/
def Guarded : Code → Prop
  | .query st k => ∀ now seq db r ws, eval st now seq db = some (r, ws) →
      Guarded (k r) ∧ ∀ a b, inserts a b (k r) → clears a b st r
  | .emit _ k => Guarded k ∧ ∀ a b, ¬ inserts a b k
  | .done _ => True
  | _ => False

/-- Guarded code that does not start with an `INSERT`. -/
def Fresh (p : Code) : Prop := Guarded p ∧ ∀ a b, ¬ inserts a b p

theorem fresh_done (a : Answer) : Fresh (.done a) := ⟨trivial, fun _ _ h => h⟩

theorem fresh_getCurrentUser {env : Env} {id : UserId} {k : ForumUser → Code}
    (hk : ∀ u, u.id = id → Fresh (k u)) : Fresh (getCurrentUser env id k) := by
  refine ⟨fun now seq db row ws he => ?_, fun _ _ h => h⟩
  obtain ⟨rfl, -⟩ : db.loadUser id = row ∧ [] = ws := by simpa [eval] using he
  cases hrow : db.loadUser id with
  | none => exact ⟨trivial, fun _ _ h => h.elim⟩
  | some row =>
      have hid : row.id = id := by simpa using List.find?_some hrow
      have hfresh := hk (forumUser env row.id row.name row.avatarUrl) hid
      exact ⟨hfresh.1, fun a b h => (hfresh.2 a b h).elim⟩

/-- What follows an allowed permission may insert the message it was asked for. -/
theorem fresh_messagePermission {s t : UserId} {k : MessagePermission → Code}
    (hk : ∀ p, Guarded (k p)) (hins : ∀ p a b, inserts a b (k p) → p = .allowed ∧ s = a ∧ t = b) :
    Fresh (messagePermission s t k) := by
  unfold messagePermission
  split
  · refine ⟨hk .restricted, fun a b h => ?_⟩
    cases (hins _ a b h).1
  · refine ⟨fun now seq db row ws he => ⟨hk (permissionOfRow row), fun a b h => ?_⟩,
      fun a b h => h⟩
    obtain ⟨hallowed, hs, ht⟩ := hins _ a b h
    refine ⟨hs, ht, ?_⟩
    cases hb : row.1 with
    | false => rfl
    | true => simp [permissionOfRow, hb] at hallowed

theorem fresh_sendMessage (env : Env) (identity : Option UserId) (recipientId : Int)
    (content : String) : Fresh (sendMessage env identity recipientId content) := by
  cases identity with
  | none => exact fresh_done _
  | some id =>
      unfold sendMessage
      refine fresh_getCurrentUser  fun sender _ => ?_
      by_cases hself : sender.id = recipientId
      · rw [if_pos hself]
        exact fresh_done _
      rw [if_neg hself]
      generalize validateContent content maxMessageChars = checked
      cases checked with
      | none => exact fresh_done _
      | some text =>
          -- nothing is read between the permission and the `INSERT`
          refine fresh_getCurrentUser fun recipient hrec => fresh_messagePermission ?_ ?_
          · intro p
            split
            · trivial
            · exact fun _ _ _ _ _ _ => ⟨⟨⟨⟨trivial, fun _ _ h => h⟩, fun _ _ h => h⟩,
                fun _ _ h => h⟩, fun _ _ h => h.elim⟩
          · intro p a b h
            split at h
            · exact h.elim
            · rename_i hp
              exact ⟨by simpa using hp, h.1, hrec.trans h.2⟩

/-! ### Effects on blocks and messages -/

/-- A new message row is the work of an `INSERT` that was about to run. -/
theorem Commits.messages {σ : State} {H : List Lock} {now : Nat} {c : Call} {v t : UserId}
    {ws : List Write} (h : Commits σ H now c v t ws) :
    Db.messages (engine.applyAll ws σ.db) = Db.messages σ.db := by
  cases h with
  | removed hws =>
      subst hws
      split <;> rfl
  | blocked _ _ _ hws =>
      rw [engine.applyAll_append]
      unfold settleRows
      rcases hws with rfl | ⟨rfl, -⟩ <;> split <;> rfl
  | _ => rfl

/-- A block of a pair that a transaction makes visible is one it inserts. -/
theorem Commits.newBlock {σ : State} {H : List Lock} {now : Nat} {c : Call} {v t : UserId}
    {ws : List Write} (h : Commits σ H now c v t ws) {k : BlockRow}
    (hk : k ∈ Db.blocks (engine.applyAll ws σ.db)) :
    k ∈ Db.blocks σ.db ∨ Write.insertBlock k ∈ ws := by
  cases h with
  | removed hws =>
      subst hws
      split at hk <;> exact .inl hk
  | @blocked _ _ ws _ _ _ hws =>
      rw [engine.applyAll_append, blocks_settleRows] at hk
      rcases hws with rfl | ⟨rfl, -⟩
      · exact .inl hk
      · rcases List.mem_append.mp hk with hk | hk
        · exact .inl hk
        · exact .inr (List.mem_append_left _ (by simpa using hk))
  | _ => exact .inl hk

/-- A block that a transaction inserts is visible after its commit. -/
theorem Commits.inserted {σ : State} {H : List Lock} {now : Nat} {c : Call} {v t : UserId}
    {ws : List Write} (h : Commits σ H now c v t ws) {k : BlockRow}
    (hk : Write.insertBlock k ∈ ws) : k ∈ Db.blocks (engine.applyAll ws σ.db) := by
  have hsettle : ∀ {rows : List RequestRow} {st : RequestStatus} {now : Nat},
      Write.insertBlock k ∉ settleRows rows st now := by
    intro rows st now
    unfold settleRows
    split <;> simp
  cases h with
  | removed hws =>
      subst hws
      split at hk <;> simp at hk
  | @blocked _ _ ws _ _ _ hws =>
      have hk : Write.insertBlock k ∈ ws := (List.mem_append.mp hk).resolve_right hsettle
      rw [engine.applyAll_append, blocks_settleRows]
      rcases hws with rfl | ⟨rfl, -⟩
      · cases hk
      · obtain rfl : k = _ := by simpa using hk
        exact List.mem_append_right _ (List.mem_singleton_self _)
  | _ => simp at hk

/-- An autocommit statement makes no block visible. -/
theorem Autos.blocks {σ : State} {c : Call} {ws : List Write} (h : Autos σ c ws) {k : BlockRow}
    (hk : k ∈ Db.blocks (engine.applyAll ws σ.db)) : k ∈ Db.blocks σ.db := by
  cases h with
  | unblocked => exact List.mem_of_mem_filter hk
  | _ => exact hk

/-! ### Runs without a block in between -/

section Runs

variable {ι : Type} [DecidableEq ι] {env : Env} {calls : ι → Call} {seq now poolSize : Nat}
  {faulty : Bool} {db : Db} {σ₀ : State} {s s' : Server ι}

/-- The step commits no block of a pair while a message of that pair is between
its permission and its `INSERT`. -/
def Undisturbed (l : Label ι) (s : Server ι) : Prop :=
  ∀ i start buf notes k row, l = .run i → s.calls i = .tx start buf notes (.commit k) →
    Write.insertBlock row ∈ buf → ∀ j a b, inserting a b (s.calls j) → row.between a b = false

/-- An undisturbed step brings no block to a pair of which a message is about to
be inserted. -/
theorem notBlocked_of_step {l : Label ι} (hinv : ServerInv poolSize faulty calls σ₀ s)
    (hu : Undisturbed l s) (hstep : serve poolSize faulty calls l s = some s') {j : ι}
    {a b : UserId} (hj : inserting a b (s.calls j)) (h : Db.blockExists s.db a b = false) :
    Db.blockExists s'.db a b = false := by
  rw [Db.blockExists, List.any_eq_false] at h ⊢
  intro k hk
  cases hinv.effect hstep with
  | silent hdb _ => exact h k (hdb ▸ hk)
  | @auto i st H c r ws _ _ hc hsnap _ =>
      have hdb : s'.db = engine.applyAll ws s.db := congrArg Snap.db hsnap
      exact h k (hc.2.blocks (hdb ▸ hk))
  | @commit i start H ws notes c hat hc hsnap _ =>
      obtain ⟨v, t, -, hcommit⟩ := hc
      have hdb : s'.db = engine.applyAll ws s.db := congrArg Snap.db hsnap
      rcases hcommit.newBlock (hdb ▸ hk) with hk | hk
      · exact h k hk
      · rw [hu i start ws notes c k rfl hat hk j a b hj]
        exact Bool.false_ne_true

/-- A `send_message` in this phase is guarded, and when it is about to insert a
message no block is between the two. -/
def Cleared (db : Db) : Phase engine Answer → Prop
  | .idle p => Fresh p
  | .pool p => Guarded p ∧ ∀ a b, inserts a b p → db.blockExists a b = false
  | .conn st k => Guarded (.query st k) ∧
      ∀ a b, inserts a b (.query st k) → db.blockExists a b = false
  | .tx _ _ _ _ => False
  | .done _ => True

theorem Cleared.frame {ph : Phase engine Answer} {db' : Db} (h : Cleared db ph)
    (hb : ∀ a b, inserting a b ph → db.blockExists a b = false → db'.blockExists a b = false) :
    Cleared db' ph := by
  cases ph with
  | pool p => exact ⟨h.1, fun a b hp => hb a b hp (h.2 a b hp)⟩
  | conn st k => exact ⟨h.1, fun a b hp => hb a b hp (h.2 a b hp)⟩
  | _ => exact h

/-- The query that clears a pair finds no block and changes nothing. -/
theorem blockExists_of_clears {a b : UserId} {st : Stmt} {r : st.Result} {ws : List Write}
    (he : eval st now seq db = some (r, ws)) (hc : clears a b st r) :
    ws = [] ∧ db.blockExists a b = false := by
  cases st with
  | messagePermission s t =>
      obtain ⟨rfl, rfl, hb⟩ := hc
      cases he
      exact ⟨rfl, hb⟩
  | _ => exact hc.elim

/-- Only the `INSERT` of a message writes one. -/
theorem inserts_of_eval {st : Stmt} {r : st.Result} {k : st.Result → Code} {m : MessageRow}
    (he : eval st now seq db = some (r, [.insertMessage m])) :
    inserts m.sender m.recipient (.query st k) := by
  have hsettle : ∀ rows status, settleRows rows status now ≠ [.insertMessage m] := by
    intro rows status h
    unfold settleRows at h
    split at h <;> cases h
  cases st with
  | insertMessage a b body =>
      simp only [eval] at he
      split at he
      · cases he
        exact ⟨rfl, rfl⟩
      · cases he
  | setStatus id st => exact (hsettle _ _ (congrArg Prod.snd (Option.some.inj he))).elim
  | cancelOthers id a b => exact (hsettle _ _ (congrArg Prod.snd (Option.some.inj he))).elim
  | cancelPending a b => exact (hsettle _ _ (congrArg Prod.snd (Option.some.inj he))).elim
  | _ =>
      simp only [eval] at he
      repeat' split at he
      all_goals simp at he

/-- The moves of a `send_message` keep it cleared. -/
theorem Cleared.move {cfg : Config ι Answer} {l : Label ι} {j : ι} (hl : l = .run j ∨ l = .fail j)
    (hm : Move (E := engine) cfg s l s') (h : Cleared s.db (s.calls j)) :
    Cleared s'.db (s'.calls j) := by
  -- where the call stands before and after the move
  have key : ∀ {i ph ph'} {t : Server ι}, i = j → s.calls i = ph →
      t.calls = Function.update s.calls i ph' → (Cleared s.db ph → Cleared t.db ph') →
      Cleared t.db (t.calls j) := by
    rintro i ph ph' t rfl hc ht hnext
    rw [ht, Function.update_self]
    exact hnext (hc ▸ h)
  cases hm with
  | arrive hc => exact key (by simpa using hl) hc rfl fun h =>
      ⟨h.1, fun a b hp => (h.2 a b hp).elim⟩
  | acquire hc _ => exact key (by simpa using hl) hc rfl fun h => h
  | begin hc _ => exact key (by simpa using hl) hc rfl fun h => h.1.elim
  | clock hc => exact key (by simpa using hl) hc rfl fun h => h.1.elim
  | note hc =>
      exact key (by simpa using hl) hc rfl fun h => ⟨h.1.1, fun a b hp => (h.1.2 a b hp).elim⟩
  | answer hc => exact key (by simpa using hl) hc rfl fun _ => trivial
  | autoRejected hc _ => exact key (by simpa using hl) hc rfl fun _ => trivial
  | @auto i st k r ws hc he _ =>
      refine key (by simpa using hl) hc rfl fun h => ?_
      obtain ⟨hguard, hins⟩ := h.1 _ _ _ _ _ he
      refine ⟨hguard, fun a b hp => ?_⟩
      obtain ⟨rfl, hb⟩ := blockExists_of_clears he (hins a b hp)
      exact hb
  | rejected hc _ => exact key (by simpa using hl) hc rfl fun h => h.elim
  | exec hc _ _ => exact key (by simpa using hl) hc rfl fun h => h.elim
  | lock hc _ => exact key (by simpa using hl) hc rfl fun h => h.elim
  | commit hc => exact key (by simpa using hl) hc rfl fun h => h.elim
  | rollback hc => exact key (by simpa using hl) hc rfl fun h => h.elim
  | txClock hc => exact key (by simpa using hl) hc rfl fun h => h.elim
  | txNote hc => exact key (by simpa using hl) hc rfl fun h => h.elim
  | leave hc => exact key (by simpa using hl) hc rfl fun h => h.elim
  | failPool hc _ => exact key (by simpa using hl) hc rfl fun _ => trivial
  | failConn hc _ => exact key (by simpa using hl) hc rfl fun _ => trivial
  | failTx hc _ => exact key (by simpa using hl) hc rfl fun _ => trivial
  | failRollback hc _ => exact key (by simpa using hl) hc rfl fun h => h.elim
  | tick => simp at hl

/-- What holds along an undisturbed run: every `send_message` is cleared. -/
structure MessagesOk (poolSize : Nat) (faulty : Bool) (calls : ι → Call) (σ₀ : State)
    (s : Server ι) : Prop where
  inv : ServerInv poolSize faulty calls σ₀ s
  cleared : ∀ j v t text, calls j = .sendMessage v t text → Cleared s.db (s.calls j)

theorem MessagesOk.step {l : Label ι} (h : MessagesOk poolSize faulty calls σ₀ s)
    (hu : Undisturbed l s) (hstep : serve poolSize faulty calls l s = some s') :
    MessagesOk poolSize faulty calls σ₀ s' where
  inv := sysInv_step h.inv hstep
  cleared j v t text hj := by
    have hm := move_of_step hstep
    have hj := h.cleared j v t text hj
    by_cases hl : l = .run j ∨ l = .fail j
    · exact hj.move hl hm
    · obtain ⟨hrun, hfail⟩ := not_or.mp hl
      rw [hm.calls_other hrun hfail]
      exact hj.frame fun a b hp hb => notBlocked_of_step h.inv hu hstep hp hb

/-- A cleared `INSERT` finds no block. -/
theorem MessagesOk.notBlocked {l : Label ι} (h : MessagesOk poolSize faulty calls σ₀ s)
    (hstep : serve poolSize faulty calls l s = some s') {m : MessageRow}
    (hm : Db.messages s'.db = Db.messages s.db ++ [m]) :
    Db.blockExists s.db m.sender m.recipient = false := by
  have hsame : Db.messages s'.db = Db.messages s.db → False := by
    intro heq
    rw [heq] at hm
    simpa using congrArg List.length hm
  cases h.inv.effect hstep with
  | silent hdb _ => exact (hsame (congrArg Db.messages hdb)).elim
  | commit _ hc hsnap _ =>
      obtain ⟨v, t, -, hcommit⟩ := hc
      exact (hsame ((congrArg Db.messages (congrArg Snap.db hsnap)).trans hcommit.messages)).elim
  | @auto i st H k r ws hat he hc hsnap _ =>
      have hdb : s'.db = engine.applyAll ws s.db := congrArg Snap.db hsnap
      have hautos := hc.2
      generalize hcall : calls i = c at hautos
      cases hautos with
      | @messaged v t text row hs ht =>
          -- the row is the one the statement inserts
          have hrow : row = m := by
            have happ : Db.messages s.db ++ [row] = Db.messages s.db ++ [m] :=
              (congrArg Db.messages hdb).symm.trans hm
            simpa using happ
          subst hrow
          have hcl := h.cleared i _ _ _ hcall
          rw [hat] at hcl
          exact hcl.2 _ _ (inserts_of_eval he)
      | read => exact (hsame (congrArg Db.messages hdb)).elim
      | unblocked => exact (hsame ((congrArg Db.messages hdb).trans rfl)).elim
      | preferred => exact (hsame ((congrArg Db.messages hdb).trans rfl)).elim

/-- **Messages and blocks.** In a run in which no block of a pair commits while a
message of the pair is between its permission and its `INSERT`, no block of the
pair is committed when the message is inserted. -/
theorem message_not_blocked (hdb : Consistent ⟨seq, db⟩)
    (h : ReachableBy Undisturbed (serve poolSize faulty calls) (server env db seq now calls) s)
    {l : Label ι} (hstep : serve poolSize faulty calls l s = some s') {m : MessageRow}
    (hm : Db.messages s'.db = Db.messages s.db ++ [m]) :
    Db.blockExists s.db m.sender m.recipient = false := by
  have hstart : MessagesOk poolSize faulty calls ⟨seq, db⟩ (server env db seq now calls) := by
    refine ⟨serverInv_of_consistent hdb (.refl _), fun j v t text hj => ?_⟩
    change Fresh ((calls j).code env)
    rw [hj]
    exact fresh_sendMessage env v t text
  have hok := h.invariant (I := MessagesOk poolSize faulty calls ⟨seq, db⟩)
    (fun _ _ _ hI hP hstep => hI.step hP hstep) hstart
  exact hok.notBlocked hstep hm

/-- **What `Undisturbed` leaves out reaches the defect**: the move leaves a pair with
a block that is committed and a message that is about to be inserted. -/
theorem disturbed_inserting {l : Label ι} (hinv : ServerInv poolSize faulty calls σ₀ s)
    (hu : ¬ Undisturbed l s) (hstep : serve poolSize faulty calls l s = some s') :
    ∃ j a b, inserting a b (s'.calls j) ∧ Db.blockExists s'.db a b = true := by
  unfold Undisturbed at hu
  push Not at hu
  obtain ⟨i, start, buf, notes, k, row, rfl, hat, hrow, j, a, b, hj, hpair⟩ := hu
  obtain ⟨H, hcommit⟩ := hinv.commits hat
  obtain ⟨v, t, -, hcommits⟩ := hcommit
  have hother : j ≠ i := by
    rintro rfl
    rw [hat] at hj
    exact hj
  have hcalls : s'.calls j = s.calls j :=
    (move_of_step hstep).calls_other (by simp [Ne.symm hother]) (by simp)
  have hdb : s'.db = engine.applyAll buf s.db := by
    have hnext : serve poolSize faulty calls (.run i) s =
        some ((((s.write buf).close i).record (.commit i start buf notes)).goto i (.pool k)) := by
      simp [serve, step, runStep, txStep, hat]
    obtain rfl := Option.some.inj (hstep.symm.trans hnext)
    rfl
  refine ⟨j, a, b, hcalls ▸ hj, ?_⟩
  rw [hdb]
  exact List.any_eq_true.mpr ⟨row, hcommits.inserted hrow, by simpa using hpair⟩

/-- The `INSERT` of a message asks for no block: run when one is committed, it adds
the message. -/
theorem inserts_despite_block {j : ι} {a b : UserId} {text : String}
    {k : (Stmt.insertMessage a b text).Result → Code}
    (hj : s.calls j = .conn (.insertMessage a b text) k) (htext : storable text = true)
    (ha : Db.userExists s.db a = true) (hb : Db.userExists s.db b = true)
    (hblock : Db.blockExists s.db a b = true) :
    ∃ s' m, serve poolSize faulty calls (.run j) s = some s' ∧
      Db.messages s'.db = Db.messages s.db ++ [m] ∧
      Db.blockExists s.db m.sender m.recipient = true := by
  -- neither the statement nor a constraint looks at the blocks
  have heval : eval (.insertMessage a b text) s.now s.seq s.db = some ((nextval s.seq, s.now),
      [.insertMessage ⟨nextval s.seq, a, b, text, s.now, false⟩]) := by
    simp [eval, htext, ha, hb]
  have hstep : serve poolSize faulty calls (.run j) s =
      some ((((s.write [.insertMessage ⟨nextval s.seq, a, b, text, s.now, false⟩]).bump
        (.insertMessage a b text)).giveBack.record (.auto j s.now
          [.insertMessage ⟨nextval s.seq, a, b, text, s.now, false⟩])).goto j
            (.pool (k (nextval s.seq, s.now)))) := by
    change runStep _ j s = _
    unfold runStep
    rw [hj]
    change connStep _ j s (.insertMessage a b text) k = _
    unfold connStep
    rw [show engine.eval (.insertMessage a b text) s.now s.seq s.db = _ from heval]
    exact if_pos fun _ hl => absurd hl List.not_mem_nil
  exact ⟨_, ⟨nextval s.seq, a, b, text, s.now, false⟩, hstep, rfl, hblock⟩

end Runs

/-! 1 writes to 2, and 2 blocks 1 after the permission of the message. -/

inductive Chat
  | send
  | block
  deriving DecidableEq

def chatCalls : Chat → Call
  | .send => .sendMessage (some 1) 2 "hi"
  | .block => .blockUser (some 2) 1

/-- The message up to its `INSERT`, then the block up to its commit. -/
def chatRun : List (Label Chat) :=
  List.replicate 8 (.run .send) ++ List.replicate 10 (.run .block)

def chatStart : Server Chat := server demoEnv (freshDb demoUsers []) 0 0 chatCalls

/-- The move commits no transaction. -/
def noCommit (l : Label Chat) (s : Server Chat) : Bool :=
  match l with
  | .run i =>
      match s.calls i with
      | .tx _ _ _ (.commit _) => false
      | _ => true
  | _ => true

theorem undisturbed_of_noCommit (l : Label Chat) (s : Server Chat) (h : noCommit l s = true) :
    Undisturbed l s := by
  rintro i start buf notes k row rfl hc
  simp [noCommit, hc] at h

/-- Nobody blocks: the message of 1 is inserted, and there is no block. -/
theorem message_not_blocked_chat : ∃ s s' : Server Chat,
    Db.messages s'.db = Db.messages s.db ++ [⟨1, 1, 2, "hi", 0, false⟩] ∧
      Db.blockExists s.db 1 2 = false := by
  have hrun : ((replay (fun l s => if noCommit l s then serve 2 false chatCalls l s else none)
      chatStart (List.replicate 8 (.run .send))).bind fun s =>
        (serve 2 false chatCalls (.run .send) s).map fun s' =>
          (Db.messages s.db, Db.messages s'.db)) = some ([], [⟨1, 1, 2, "hi", 0, false⟩]) := by
    decide
  obtain ⟨s, hs, hrest⟩ := Option.bind_eq_some_iff.mp hrun
  obtain ⟨s', hstep, hm⟩ := Option.map_eq_some_iff.mp hrest
  obtain ⟨hbefore, hafter⟩ := Prod.mk.inj hm
  have hnew : Db.messages s'.db = Db.messages s.db ++ [⟨1, 1, 2, "hi", 0, false⟩] := by
    rw [hbefore, hafter]
    rfl
  exact ⟨s, s', hnew, message_not_blocked (freshDb_consistent demoUsers [] 0)
    (.of_replay undisturbed_of_noCommit hs .refl) hstep hnew⟩

theorem chat_reachable : ∃ s, Reachable (serve 2 false chatCalls) chatStart s ∧
    (Db.blockExists s.db 1 2, Db.messages s.db,
      (serve 2 false chatCalls (.run .send) s).map fun s' => Db.messages s'.db) =
        (true, [], some [⟨1, 1, 2, "hi", 0, false⟩]) :=
  exists_reachable_of_replay chatRun
    (fun s : Server Chat => (Db.blockExists s.db 1 2, Db.messages s.db,
      (serve 2 false chatCalls (.run .send) s).map fun s' => Db.messages s'.db)) (by decide)

/-- A message is inserted although a block of the pair is committed. -/
theorem message_despite_block : ¬ ∀ (s s' : Server Chat) (l : Label Chat) (m : MessageRow),
    Reachable (serve 2 false chatCalls) chatStart s → serve 2 false chatCalls l s = some s' →
      Db.messages s'.db = Db.messages s.db ++ [m] →
        Db.blockExists s.db m.sender m.recipient = false := by
  intro hclaim
  obtain ⟨s, hs, hf⟩ := chat_reachable
  obtain ⟨hblock, hrest⟩ := Prod.mk.inj hf
  obtain ⟨hbefore, hafter⟩ := Prod.mk.inj hrest
  obtain ⟨s', hstep, hm⟩ := Option.map_eq_some_iff.mp hafter
  have hfree := hclaim s s' _ ⟨1, 1, 2, "hi", 0, false⟩ hs hstep (by rw [hm, hbefore]; rfl)
  exact Bool.false_ne_true (hfree.symm.trans hblock)

end DevbitBackend.Social
