import DevbitBackend.Lib.TxnSpelled
import DevbitBackend.Forum.History

/-!
# Forum.Delivery

`clear_history` against messages that arrive. The id of a message is drawn when
its `INSERT` starts and its row is visible when the `INSERT` commits, so the
handlers run spelled out here (`Prog.spelled`). A message whose id was drawn before
the `MAX(id)` read of a clear, and that commits after it, can be below the
watermark for good (`clear_hides_late_message`). That is the only way: as long as
no clear reads while a message with a smaller id is in flight, a message that
commits after the reads is shown from then on (`late_message_delivered`).
-/

namespace DevbitBackend.Forum

open Txn Transition Social

/-! ### The server with its `INSERT`s spelled out -/

/-- The server before any of the calls has arrived. -/
def spelledServer {ι : Type} (env : Env) (text : UserSearch) (db : Db) (seq now : Nat)
    (calls : ι → Call) : Server ι :=
  Sys.start (E := engine) db seq now fun i => ((calls i).code env text).spelled

/-- Alone, a call cannot tell the difference. -/
theorem Call.solo_spelled (env : Env) (text : UserSearch) (c : Call) (now : Nat) (σ : State) :
    (c.code env text).spelled.solo c.failed noFailure now 0 none σ =
      (c.code env text).solo c.failed noFailure now 0 none σ :=
  Txn.solo_spelled (c.code env text) 0 0 none σ

def Write.message? : Write → Option MessageRow
  | .social (.insertMessage m) => some m
  | _ => none

/-- The `INSERT`s that have drawn their ids and have not committed. -/
def inFlight : Phase engine Answer → List MessageRow
  | .tx _ buf _ _ => buf.filterMap Write.message?
  | _ => []

/-- The next statement reads `MAX(id)` for `clear_history(u, p)`. -/
def reading (u p : UserId) : Phase engine Answer → Prop
  | .conn (.maxMessageId u' p') _ => u' = u ∧ p' = p
  | _ => False

/-- The next statement raises the watermark of `u` for `p` to `w`. -/
def upserts (u p : UserId) (w : Int) : Code → Prop
  | .query (.upsertClear u' p' w') _ => u' = u ∧ p' = p ∧ w' = w
  | _ => False

def upserting (u p : UserId) (w : Int) : Phase engine Answer → Prop
  | .pool q => upserts u p w q
  | .conn st k => upserts u p w (.query st k)
  | _ => False

/-! ### The code of the four handlers -/

/-- The statement has read `w` as the greatest id between `u` and `p`. -/
def answersMax (u p : UserId) (w : Int) : (st : Stmt) → st.Result → Prop
  | .maxMessageId u' p', r => u' = u ∧ p' = p ∧ r = w
  | _, _ => False

/-- The write marks messages as read. -/
def Write.marks : Write → Bool
  | .markMessageRead _ _ | .markConversationRead _ _ => true
  | _ => false

/-- Code whose transactions insert messages, and whose other statements read, mark
messages as read, or raise a watermark to what was read right before. -/
def Guarded : Code → Prop
  | .query st k => ∀ now seq db r ws, eval st now seq db = some (r, ws) →
      drawsId st = false ∧ (ws.all Write.marks = true ∨ ∃ u p w, st = .upsertClear u p w) ∧
        Guarded (k r) ∧ ∀ u p w, upserts u p w (k r) → answersMax u p w st r
  | .begin k => Guarded k
  | .exec st k => (∃ a b text, st = .social (.insertMessage a b text)) ∧ ∀ r, Guarded (k r)
  | .commit k | .emit _ k => Guarded k ∧ ∀ u p w, ¬ upserts u p w k
  | .done _ => True
  | _ => False

/-- Guarded code that does not start with an upsert. -/
def Plain (q : Code) : Prop := Guarded q ∧ ∀ u p w, ¬ upserts u p w q

/-- A call in this phase is guarded. -/
def Shaped : Phase engine Answer → Prop
  | .idle q => Plain q
  | .pool q => Guarded q
  | .conn st k => Guarded (.query st k)
  | .tx _ buf _ q => Guarded q ∧ ∀ w ∈ buf, ∃ m, w = .social (.insertMessage m)
  | .done _ => True

/-- Social code that reads and inserts messages. -/
def Sending : Social.Code → Prop
  | .query st k => ((∃ a b text, st = .insertMessage a b text) ∨ (Social.drawsId st = false ∧
      ∀ now seq db r ws, Social.eval st now seq db = some (r, ws) → ws = [])) ∧ ∀ r, Sending (k r)
  | .emit _ k => Sending k
  | .done _ => True
  | _ => False

theorem sending_getCurrentUser {env : Env} {id : UserId} {k : ForumUser → Social.Code}
    (hk : ∀ u, Sending (k u)) : Sending (Social.getCurrentUser env id k) := by
  refine ⟨.inr ⟨rfl, fun now seq db r ws he => by cases he; rfl⟩, fun row => ?_⟩
  cases row with
  | none => trivial
  | some row => exact hk _

theorem sending_messagePermission {s t : UserId} {k : MessagePermission → Social.Code}
    (hk : ∀ p, Sending (k p)) : Sending (Social.messagePermission s t k) := by
  unfold Social.messagePermission
  split
  · exact hk _
  · exact ⟨.inr ⟨rfl, fun now seq db r ws he => by cases he; rfl⟩, fun row => hk _⟩

theorem sending_sendMessage (env : Env) (identity : Option UserId) (recipientId : Int)
    (content : String) : Sending (Social.sendMessage env identity recipientId content) := by
  unfold Social.sendMessage
  cases identity with
  | none => trivial
  | some id =>
      refine sending_getCurrentUser fun sender => ?_
      split
      · trivial
      split
      · trivial
      refine sending_getCurrentUser fun recipient => sending_messagePermission fun permission => ?_
      split
      · trivial
      · exact ⟨.inl ⟨_, _, _, rfl⟩, fun row => trivial⟩

/-- A statement that reads or marks messages as read. -/
theorem plain_query {st : Stmt} {k : st.Result → Code}
    (hst : ∀ u p w, ¬ upserts u p w (.query st k))
    (h : ∀ now seq db r ws, eval st now seq db = some (r, ws) →
      drawsId st = false ∧ ws.all Write.marks = true ∧ Plain (k r)) : Plain (.query st k) := by
  refine ⟨fun now seq db r ws he => ?_, hst⟩
  obtain ⟨hd, hmarks, hnext⟩ := h now seq db r ws he
  exact ⟨hd, .inl hmarks, hnext.1, fun u p w hu => (hnext.2 u p w hu).elim⟩

theorem plain_done (a : Answer) : Plain (.done a) := ⟨trivial, fun _ _ _ h => h⟩

theorem plain_of_sending {q : Social.Code} (h : Sending q) :
    Plain (q.embed socialPart Answer.social).spelled := by
  induction q with
  | query st k ih =>
      obtain ⟨hst, hk⟩ := h
      rcases hst with ⟨a, b, text, rfl⟩ | ⟨hd, hread⟩
      · exact ⟨⟨⟨a, b, text, rfl⟩, fun r => ih r (hk r)⟩, fun _ _ _ h => h⟩
      · have hspelled := spelled_query (k := fun r => (k (socialPart.out st r)).embed socialPart
          Answer.social) (show engine.draws (.social st) = false from hd)
        refine (congrArg Plain hspelled).mpr
          (plain_query (fun _ _ _ h => h) fun now seq db r ws he => ?_)
        obtain ⟨⟨r', ws'⟩, hres, hr⟩ := Option.map_eq_some_iff.mp he
        cases hr
        have hws : ws' = [] := hread now seq db.social _ _ hres
        subst hws
        exact ⟨hd, rfl, ih r' (hk r')⟩
  | emit n k ih => exact ⟨ih h, fun _ _ _ h => h⟩
  | done a => exact plain_done _
  | _ => exact h.elim

theorem plain_requireCurrentUser {env : Env} {identity : Option UserId} {k : ForumUser → Code}
    (hk : ∀ u, Plain (k u).spelled) : Plain (requireCurrentUser env identity k).spelled := by
  cases identity with
  | none => exact plain_done _
  | some id =>
      refine plain_query (fun _ _ _ h => h) fun now seq db row ws he => ?_
      cases he
      cases db.social.loadUser id with
      | none => exact ⟨rfl, rfl, plain_done _⟩
      | some row => exact ⟨rfl, rfl, hk (rowToUser env row)⟩

theorem plain_clearHistory (v : Option UserId) (partnerId : Int) :
    Plain (clearHistory v partnerId).spelled := by
  unfold clearHistory
  cases v with
  | none => exact plain_done _
  | some v =>
      refine plain_query (fun _ _ _ h => h) fun now seq db found ws he => ?_
      cases he
      refine ⟨rfl, rfl, ?_⟩
      dsimp only
      split
      · exact plain_done _
      split
      · exact plain_done _
      split
      · exact plain_done _
      -- the upsert takes what was read
      refine ⟨fun now seq db w ws he => ?_, fun _ _ _ h => h⟩
      cases he
      refine ⟨rfl, .inl rfl, fun now seq db _ ws he => ?_, fun u p w h => ⟨h.1, h.2.1, h.2.2⟩⟩
      exact ⟨rfl, .inr ⟨_, _, _, rfl⟩, ⟨trivial, fun _ _ _ h => h⟩, fun _ _ _ h => h.elim⟩

theorem plain_affected (n : Nat) (a : Answer) : Plain (affected n (.done a)).spelled := by
  unfold affected
  split <;> exact plain_done _

theorem plain_code (env : Env) (text : UserSearch) {c : Call} (hc : c.messaging = true) :
    Plain (c.code env text).spelled := by
  cases c with
  | social c =>
      cases c with
      | sendMessage v u body => exact plain_of_sending (sending_sendMessage env v u body)
      | _ => cases hc
  | clearHistory v p => exact plain_clearHistory v p
  | markMessageRead v id =>
      refine plain_requireCurrentUser fun user => ?_
      refine plain_query (fun _ _ _ h => h) fun now seq db n ws he => ?_
      cases he
      exact ⟨rfl, rfl, plain_affected _ _⟩
  | markConversationRead v partner =>
      refine plain_requireCurrentUser fun user => ?_
      refine plain_query (fun _ _ _ h => h) fun now seq db n ws he => ?_
      cases he
      exact ⟨rfl, rfl, plain_affected _ _⟩
  | _ => cases hc

/-! ### What one move can do -/

/-- Nothing is in flight, and no upsert comes next. -/
def Settling (ph : Phase engine Answer) : Prop :=
  inFlight ph = [] ∧ ∀ u p w, ¬ upserting u p w ph

/-- The tables after the messages `ms` have been inserted. -/
def Db.insertMessages (db : Db) (ms : List MessageRow) : Db :=
  { db with social := { db.social with messages := db.social.messages ++ ms } }

/-- The rows that the messages and the watermarks rest on are the same. -/
structure SameRows (db db' : Db) : Prop where
  users : db'.social.users = db.social.users
  messages : db'.social.messages.map sentRow = db.social.messages.map sentRow
  clears : db'.clears = db.clears

theorem SameRows.refl (db : Db) : SameRows db db := ⟨rfl, rfl, rfl⟩

theorem sameRows_marks {ws : List Write} (h : ws.all Write.marks = true) (db : Db) :
    SameRows db (engine.applyAll ws db) := by
  induction ws generalizing db with
  | nil => exact .refl db
  | cons w ws ih =>
      obtain ⟨hw, hws⟩ := Bool.and_eq_true_iff.mp h
      have hone : SameRows db (Write.apply w db) := by
        cases w with
        | markMessageRead id u => exact ⟨rfl, map_markRead sentRow db _ fun _ => rfl, rfl⟩
        | markConversationRead t u => exact ⟨rfl, map_markRead sentRow db _ fun _ => rfl, rfl⟩
        | _ => cases hw
      have hrest := ih hws (Write.apply w db)
      exact ⟨hrest.users.trans hone.users, hrest.messages.trans hone.messages,
        hrest.clears.trans hone.clears⟩

theorem applyAll_inserts {buf : List Write} (h : ∀ w ∈ buf, ∃ m, w = .social (.insertMessage m))
    (db : Db) : engine.applyAll buf db = db.insertMessages (buf.filterMap Write.message?) := by
  induction buf generalizing db with
  | nil =>
      show db = db.insertMessages []
      simp [Db.insertMessages]
  | cons w buf ih =>
      obtain ⟨m, rfl⟩ := h w List.mem_cons_self
      rw [Engine.applyAll_cons, ih (fun w' hw' => h w' (List.mem_cons_of_mem _ hw'))]
      simp [Db.insertMessages, Write.message?, Write.apply, Social.Write.apply]

section Moves

variable {ι : Type} [DecidableEq ι] {s s' : Server ι} {cfg : Config ι Answer} {l : Label ι}

/-- Only `i` has moved, and its code is still guarded. -/
structure Local (i : ι) (s s' : Server ι) : Prop where
  others : ∀ j, j ≠ i → s'.calls j = s.calls j
  shaped : Shaped (s'.calls i)

/-- What a move of the guarded calls can do, one constructor for each. -/
inductive Effect (l : Label ι) (s s' : Server ι) : Prop
  | waited : s'.db = s.db → s'.seq = s.seq → s'.calls = s.calls → Effect l s s'
  /-- The call goes on, gives up, or runs a statement that reads or marks. -/
  | ran {i} : Local i s s' → SameRows s.db s'.db → s'.seq = s.seq →
      inFlight (s'.calls i) ⊆ inFlight (s.calls i) →
      (∀ u p w, upserting u p w (s'.calls i) → upserting u p w (s.calls i) ∨
        l = .run i ∧ reading u p (s.calls i) ∧ w = Db.maxMessageId s.db u p) → Effect l s s'
  | raised {i w c} : Local i s s' → upserting c.user c.partner w (s.calls i) →
      Settling (s'.calls i) → s'.db = Write.apply (.setClear c) s.db → s'.seq = s.seq →
      (c.clearedThrough = w ∨ ∃ d ∈ Db.clears s.db, d.user = c.user ∧ d.partner = c.partner ∧
        c.clearedThrough = max d.clearedThrough w) → Effect l s s'
  | drew {i m} : Local i s s' → inFlight (s'.calls i) = inFlight (s.calls i) ++ [m] →
      (∀ u p w, ¬ upserting u p w (s'.calls i)) → s'.db = s.db → s'.seq = s.seq + 1 →
      m.id = nextval s.seq → m.isRead = false → (Db.social s.db).userExists m.sender = true →
      (Db.social s.db).userExists m.recipient = true → Effect l s s'
  | committed {i} : Local i s s' → Settling (s'.calls i) →
      s'.db = Db.insertMessages s.db (inFlight (s.calls i)) → s'.seq = s.seq → Effect l s s'

theorem local_goto {i : ι} {ph : Phase engine Answer} (h : s'.calls = Function.update s.calls i ph)
    (hph : Shaped ph) : Local i s s' where
  others j hj := by rw [h, Function.update_of_ne hj]
  shaped := by
    rw [h, Function.update_self]
    exact hph

/-- A call that only goes on. -/
theorem effect_goto {i : ι} {ph ph' : Phase engine Answer} (hc : s.calls i = ph)
    (h : s'.calls = Function.update s.calls i ph') (hdb : s'.db = s.db) (hseq : s'.seq = s.seq)
    (hph : Shaped ph') (hfl : inFlight ph' ⊆ inFlight ph)
    (hup : ∀ u p w, upserting u p w ph' → upserting u p w ph) : Effect l s s' := by
  refine .ran (local_goto h hph) (hdb ▸ .refl _) hseq ?_ fun u p w hu => .inl ?_
  · rw [h, Function.update_self, hc]
    exact hfl
  · rw [h, Function.update_self] at hu
    rw [hc]
    exact hup u p w hu

/-- An answer changes neither the tables nor what is in flight elsewhere. -/
theorem effect_done {i : ι} {a : Answer} (h : s'.calls = Function.update s.calls i (.done a))
    (hdb : s'.db = s.db) (hseq : s'.seq = s.seq) : Effect l s s' :=
  effect_goto rfl h hdb hseq trivial (List.nil_subset _) fun _ _ _ h => h.elim

/-- The upsert stores its watermark, or the greater one of it and what was stored. -/
theorem setClear_of_upsert {u p : UserId} {w : Int} {now seq : Nat} {db : Db} {r : Unit}
    {ws : List Write} (he : eval (.upsertClear u p w) now seq db = some (r, ws)) :
    ∃ c : ClearRow, c.user = u ∧ c.partner = p ∧ ws = [.setClear c] ∧
      (c.clearedThrough = w ∨ ∃ d ∈ db.clears, d.user = u ∧ d.partner = p ∧
        c.clearedThrough = max d.clearedThrough w) := by
  simp only [eval] at he
  split at he
  · cases he
  split at he
  · rename_i d hd
    obtain ⟨hmem, rfl, rfl⟩ := mem_of_clearOf hd
    cases he
    let c : ClearRow := { d with clearedThrough := max d.clearedThrough w, updatedAt := now }
    exact ⟨c, rfl, rfl, rfl, .inr ⟨d, hmem, rfl, rfl, rfl⟩⟩
  · split at he
    · cases he
      let c : ClearRow := { user := u, partner := p, clearedThrough := w, updatedAt := now }
      exact ⟨c, rfl, rfl, rfl, .inl rfl⟩
    · cases he

/-- A statement on the pool reads, marks or raises a watermark. -/
theorem effect_auto {i : ι} {st : Stmt} {k : st.Result → Code} {r : st.Result} {ws : List Write}
    (hq : Guarded (.query st k)) (hc : s.calls i = .conn st k)
    (he : eval st s.now s.seq s.db = some (r, ws)) :
    Effect (.run i) s
      ((((s.write ws).bump st).giveBack.record (.auto i s.now ws)).goto i (.pool (k r))) := by
  obtain ⟨hd, hws, hk, hnext⟩ := hq _ _ _ _ _ he
  have hseq : (((s.write ws).bump st).giveBack.record (.auto i s.now ws)).seq = s.seq :=
    if_neg (by simp [hd])
  rcases hws with hmarks | ⟨u, p, w, rfl⟩
  · refine .ran (i := i) (local_goto rfl hk) (sameRows_marks hmarks s.db) hseq ?_
      fun u p w hu => .inr ⟨rfl, ?_⟩
    · simp [Sys.goto, inFlight]
    · simp only [Sys.goto, Function.update_self] at hu
      have hmax := hnext u p w hu
      rw [hc]
      cases st with
      | maxMessageId u' p' =>
          obtain ⟨rfl, rfl, rfl⟩ := hmax
          cases he
          exact ⟨⟨rfl, rfl⟩, rfl⟩
      | _ => exact hmax.elim
  -- the upsert of `clear_history`, with the watermark it has read
  · have hup : upserting u p w (s.calls i) := by
      rw [hc]
      exact ⟨rfl, rfl, rfl⟩
    obtain ⟨c, rfl, rfl, rfl, hmark⟩ := setClear_of_upsert he
    refine .raised (i := i) (local_goto rfl hk) hup ?_ rfl hseq hmark
    simp only [Sys.goto, Function.update_self]
    exact ⟨rfl, fun u' p' w' hu => (hnext u' p' w' hu).elim⟩

/-- A statement in a transaction is the insertion of a message. -/
theorem effect_exec {i : ι} {start : Nat} {buf : List Write} {notes : List engine.Note} {st : Stmt}
    {k : st.Result → Code} {r : st.Result} {ws : List Write}
    (hph : Shaped (.tx start buf notes (.exec st k)))
    (hc : s.calls i = .tx start buf notes (.exec st k))
    (he : eval st start s.seq (engine.applyAll buf s.db) = some (r, ws)) :
    Effect (.run i) s
      (((s.hold i (engine.locks st start s.seq (engine.applyAll buf s.db))).bump st).goto i
        (.tx start (buf ++ ws) notes (k r))) := by
  obtain ⟨⟨⟨a, b, text, rfl⟩, hk⟩, hbuf⟩ := hph
  rw [applyAll_inserts hbuf] at he
  simp only [eval, Social.eval] at he
  split at he
  · rename_i hok
    cases he
    simp only [Bool.and_eq_true] at hok
    -- the row is drawn now, and is seen by nobody before the commit
    let m : MessageRow :=
      { id := nextval s.seq, sender := a, recipient := b, content := text, createdAt := start,
        isRead := false }
    refine .drew (m := m) (local_goto rfl ⟨hk _, fun w hw => ?_⟩) ?_ ?_ rfl rfl rfl rfl hok.1.2
      hok.2
    · rcases List.mem_append.mp hw with hw | hw
      · exact hbuf w hw
      · exact ⟨_, by simpa using hw⟩
    · simp [Sys.goto, inFlight, hc, Write.message?, m]
    · simp [Sys.goto, upserting]
  · cases he

theorem effect_of_step (hsh : ∀ i, Shaped (s.calls i))
    (hstep : step (E := engine) cfg l s = some s') : Effect l s s' := by
  have hshaped : ∀ {i ph}, s.calls i = ph → Shaped ph := fun {i ph} hc => hc ▸ hsh i
  cases move_of_step hstep with
  | @arrive i q hc =>
      have hq : Plain q := hshaped hc
      exact effect_goto hc rfl rfl rfl hq.1 (List.nil_subset _) fun u p w h => (hq.2 u p w h).elim
  | @acquire i st k hc _ =>
      have hq : Guarded (.query st k) := hshaped hc
      exact effect_goto hc rfl rfl rfl hq (List.nil_subset _) fun _ _ _ h => h
  | @begin i k hc _ =>
      refine effect_goto hc rfl rfl rfl ⟨hshaped hc, fun w hw => ?_⟩ (List.nil_subset _)
        fun _ _ _ h => h.elim
      cases hw
  | @clock i k hc => exact (hshaped hc).elim
  | @note i n k hc =>
      have hk : Guarded k ∧ _ := hshaped hc
      exact effect_goto hc rfl rfl rfl hk.1 (List.nil_subset _) fun u p w h => (hk.2 u p w h).elim
  | answer hc => exact effect_done rfl rfl rfl
  | autoRejected hc _ => exact effect_done rfl rfl rfl
  | @auto i st k r ws hc he _ => exact effect_auto (hshaped hc) hc he
  | rejected hc _ => exact effect_done rfl rfl rfl
  | @exec i start buf notes st k r ws hc he _ => exact effect_exec (hshaped hc) hc he
  | @lock i start buf notes l k hc _ => exact (hshaped hc).1.elim
  | @commit i start buf notes k hc =>
      obtain ⟨hk, hbuf⟩ := hshaped hc
      refine .committed (i := i) (local_goto rfl hk.1) ?_ ?_ rfl
      · simp only [Sys.goto, Function.update_self]
        exact ⟨rfl, hk.2⟩
      · rw [hc]
        exact applyAll_inserts hbuf s.db
  | @rollback i start buf notes k hc => exact (hshaped hc).1.elim
  | @txClock i start buf notes k hc => exact (hshaped hc).1.elim
  | @txNote i start buf notes n k hc =>
      obtain ⟨hk, hbuf⟩ := hshaped hc
      exact effect_goto hc rfl rfl rfl ⟨hk.1, hbuf⟩ (List.Subset.refl _) fun _ _ _ h => h
  | leave hc => exact effect_done rfl rfl rfl
  | failPool hc _ => exact effect_done rfl rfl rfl
  | failConn hc _ => exact effect_done rfl rfl rfl
  | failTx hc _ => exact effect_done rfl rfl rfl
  | @failRollback i start buf notes k hc _ => exact (hshaped hc).1.elim
  | tick => exact .waited rfl rfl rfl

end Moves

/-! ### One move, seen by each part of the state -/

namespace Effect

variable {ι : Type} {s s' : Server ι} {l : Label ι}

theorem seq_le (he : Effect l s s') : s.seq ≤ s'.seq := by
  cases he with
  | drew _ _ _ _ hseq => omega
  | waited _ hseq _ => exact hseq.ge
  | ran _ _ hseq => exact hseq.ge
  | raised _ _ _ _ hseq => exact hseq.ge
  | committed _ _ _ hseq => exact hseq.ge

theorem users (he : Effect l s s') : (Db.social s'.db).users = (Db.social s.db).users := by
  cases he with
  | waited hdb => rw [hdb]
  | ran _ hrows => exact hrows.users
  | raised _ _ _ hdb => rw [hdb]; rfl
  | drew _ _ _ hdb => rw [hdb]
  | committed _ _ hdb => rw [hdb]; rfl

/-- No row is lost: a move keeps every message, but for its read flag. -/
theorem kept (he : Effect l s s') {m : MessageRow} (hm : m ∈ (Db.social s.db).messages) :
    ∃ m' ∈ (Db.social s'.db).messages, sentRow m' = sentRow m := by
  cases he with
  | waited hdb => exact ⟨m, hdb ▸ hm, rfl⟩
  | ran _ hrows =>
      have hmem : sentRow m ∈ (Db.social s'.db).messages.map sentRow :=
        hrows.messages ▸ List.mem_map_of_mem hm
      exact List.mem_map.mp hmem
  | raised _ _ _ hdb => exact ⟨m, hdb ▸ hm, rfl⟩
  | drew _ _ _ hdb => exact ⟨m, hdb ▸ hm, rfl⟩
  | committed _ _ hdb => exact ⟨m, hdb ▸ List.mem_append_left _ hm, rfl⟩

/-- A row was there, or was in flight. -/
theorem rows (he : Effect l s s') {m : MessageRow} (hm : m ∈ (Db.social s'.db).messages) :
    (∃ m' ∈ (Db.social s.db).messages, sentRow m' = sentRow m) ∨
      ∃ i, m ∈ Forum.inFlight (s.calls i) := by
  cases he with
  | waited hdb => exact .inl ⟨m, hdb ▸ hm, rfl⟩
  | ran _ hrows =>
      have hmem : sentRow m ∈ (Db.social s.db).messages.map sentRow :=
        hrows.messages ▸ List.mem_map_of_mem hm
      exact .inl (List.mem_map.mp hmem)
  | raised _ _ _ hdb =>
      rw [hdb] at hm
      exact .inl ⟨m, hm, rfl⟩
  | drew _ _ _ hdb => exact .inl ⟨m, hdb ▸ hm, rfl⟩
  | @committed i _ _ hdb =>
      rw [hdb] at hm
      rcases List.mem_append.mp hm with hm | hm
      · exact .inl ⟨m, hm, rfl⟩
      · exact .inr ⟨i, hm⟩

/-- A watermark was there, or comes from an upsert. -/
theorem marks (he : Effect l s s') {c : ClearRow} (hc : c ∈ Db.clears s'.db) :
    c ∈ Db.clears s.db ∨ ∃ i w, upserting c.user c.partner w (s.calls i) ∧
      (c.clearedThrough = w ∨ ∃ d ∈ Db.clears s.db, d.user = c.user ∧ d.partner = c.partner ∧
        c.clearedThrough = max d.clearedThrough w) := by
  cases he with
  | waited hdb => exact .inl (hdb ▸ hc)
  | ran _ hrows => exact .inl (hrows.clears ▸ hc)
  | @raised i w c' _ hw _ hdb _ hmax =>
      rw [hdb] at hc
      rcases List.mem_append.mp hc with hc | hc
      · exact .inl (List.mem_filter.mp hc).1
      · rw [List.mem_singleton.mp hc]
        exact .inr ⟨i, w, hw, hmax⟩
  | drew _ _ _ hdb => exact .inl (hdb ▸ hc)
  | committed _ _ hdb =>
      rw [hdb] at hc
      exact .inl hc

variable [DecidableEq ι]

theorem shaped (he : Effect l s s') (h : ∀ i, Shaped (s.calls i)) (j : ι) :
    Shaped (s'.calls j) := by
  have hlocal : ∀ i, Local i s s' → Shaped (s'.calls j) := by
    intro i hl
    by_cases hij : j = i
    · subst hij
      exact hl.shaped
    · rw [hl.others j hij]
      exact h j
  cases he with
  | waited _ _ hcalls => exact hcalls ▸ h j
  | ran hl => exact hlocal _ hl
  | raised hl => exact hlocal _ hl
  | drew hl => exact hlocal _ hl
  | committed hl => exact hlocal _ hl

/-- What is in flight was in flight, or has just been drawn. -/
theorem flights (he : Effect l s s') {j : ι} {m : MessageRow}
    (hm : m ∈ Forum.inFlight (s'.calls j)) :
    (∃ i, m ∈ Forum.inFlight (s.calls i)) ∨ (m.id = nextval s.seq ∧ s'.seq = s.seq + 1 ∧
      m.isRead = false ∧ (Db.social s.db).userExists m.sender = true ∧
        (Db.social s.db).userExists m.recipient = true) := by
  -- only the call that moves changes what it has in flight
  have hlocal : ∀ i, Local i s s' → m ∈ Forum.inFlight (s'.calls i) ∨
      ∃ i, m ∈ Forum.inFlight (s.calls i) := by
    intro i hl
    by_cases hij : j = i
    · exact .inl (hij ▸ hm)
    · exact .inr ⟨j, hl.others j hij ▸ hm⟩
  cases he with
  | waited _ _ hcalls => exact .inl ⟨j, hcalls ▸ hm⟩
  | @ran i hl _ _ hsub _ =>
      rcases hlocal i hl with hm | hm
      · exact .inl ⟨i, hsub hm⟩
      · exact .inl hm
  | @raised i w c hl _ hsettling _ _ _ =>
      rcases hlocal i hl with hm | hm
      · rw [hsettling.1] at hm
        cases hm
      · exact .inl hm
  | @drew i m' hl hfl _ _ hseq hid hread hsex hrex =>
      rcases hlocal i hl with hm | hm
      · rw [hfl] at hm
        rcases List.mem_append.mp hm with hm | hm
        · exact .inl ⟨i, hm⟩
        · obtain rfl := List.mem_singleton.mp hm
          exact .inr ⟨hid, hseq, hread, hsex, hrex⟩
      · exact .inl hm
  | @committed i hl hsettling _ _ =>
      rcases hlocal i hl with hm | hm
      · rw [hsettling.1] at hm
        cases hm
      · exact .inl hm

/-- An upsert was about to run, or its `MAX(id)` has just been read. -/
theorem upserts (he : Effect l s s') {j : ι} {u p : UserId} {w : Int}
    (hw : upserting u p w (s'.calls j)) :
    (∃ i, upserting u p w (s.calls i)) ∨
      ∃ i, l = .run i ∧ reading u p (s.calls i) ∧ w = Db.maxMessageId s.db u p := by
  have hlocal : ∀ i, Local i s s' → upserting u p w (s'.calls i) ∨
      ∃ i, upserting u p w (s.calls i) := by
    intro i hl
    by_cases hij : j = i
    · exact .inl (hij ▸ hw)
    · exact .inr ⟨j, hl.others j hij ▸ hw⟩
  cases he with
  | waited _ _ hcalls => exact .inl ⟨j, hcalls ▸ hw⟩
  | @ran i hl _ _ _ hup =>
      rcases hlocal i hl with hw | hw
      · exact (hup u p w hw).imp (fun hw => ⟨i, hw⟩) fun hw => ⟨i, hw⟩
      · exact .inl hw
  | raised hl _ hsettling =>
      exact (hlocal _ hl).elim (fun hw => (hsettling.2 u p w hw).elim) .inl
  | drew hl _ hup => exact (hlocal _ hl).elim (fun hw => (hup u p w hw).elim) .inl
  | committed hl hsettling =>
      exact (hlocal _ hl).elim (fun hw => (hsettling.2 u p w hw).elim) .inl

end Effect

section Runs

variable {ι : Type} {s s' : Server ι} {l : Label ι} {v p : UserId} {n : Int}

/-! ### The invariant -/

/-- The watermark of `v` for `p` is below `n`, and no upsert is about to raise it
to `n`. -/
def Above (v p : UserId) (n : Int) (s : Server ι) : Prop :=
  (∀ c ∈ Db.clears s.db, c.user = v → c.partner = p → c.clearedThrough < n) ∧
    ∀ i w, upserting v p w (s.calls i) → w < n

/-- The message in flight has been drawn, and can be joined with its users. -/
structure Drawn (σ : State) (m : MessageRow) : Prop where
  pos : 0 < m.id
  drawn : m.id ≤ σ.seq
  unread : m.isRead = false
  senderExists : (Db.social σ.db).userExists m.sender = true
  recipientExists : (Db.social σ.db).userExists m.recipient = true

/-- What holds along a calm run. -/
structure DeliveryOk (v p : UserId) (s : Server ι) : Prop where
  shaped : ∀ i, Shaped (s.calls i)
  rows : ∀ m ∈ (Db.social s.db).messages, m.id ≤ s.seq
  marks : ∀ c ∈ Db.clears s.db, c.clearedThrough ≤ s.seq
  upserts : ∀ i u q w, upserting u q w (s.calls i) → w ≤ s.seq
  inFlight : ∀ i, ∀ m ∈ inFlight (s.calls i), Drawn ⟨s.seq, s.db⟩ m
  above : ∀ i, ∀ m ∈ Forum.inFlight (s.calls i), Between v p m → Above v p m.id s

/-- No `clear_history(v, p)` reads while a message between the two is in flight
whose id is not above those of the committed ones. -/
def Calm (v p : UserId) (l : Label ι) (s : Server ι) : Prop :=
  ∀ i, l = .run i → reading v p (s.calls i) → ∀ j, ∀ m ∈ inFlight (s.calls j), Between v p m →
    ∀ m' ∈ (Db.social s.db).messages, Between v p m' → m'.id < m.id

/-- No `clear_history(v, p)` reads. -/
def NoRead (v p : UserId) (l : Label ι) (s : Server ι) : Prop :=
  ∀ i, l = .run i → ¬ reading v p (s.calls i)

theorem deliveryOk_start {env : Env} {text : UserSearch} {db : Db} {seq now : Nat}
    {calls : ι → Call} (hrows : ∀ m ∈ db.social.messages, m.id ≤ seq)
    (hmarks : ∀ c ∈ db.clears, c.clearedThrough ≤ seq)
    (hcalls : ∀ i, (calls i).messaging = true) :
    DeliveryOk v p (spelledServer env text db seq now calls) where
  shaped i := plain_code env text (hcalls i)
  rows := hrows
  marks := hmarks
  upserts _ _ _ _ h := h.elim
  inFlight _ _ h := by cases h
  above _ _ h := by cases h

/-- The message is committed, and above the watermark. -/
structure Delivered (v p : UserId) (m : MessageRow) (s : Server ι) : Prop where
  shaped : ∀ i, Shaped (s.calls i)
  row : ∃ m' ∈ (Db.social s.db).messages, sentRow m' = sentRow m
  senderExists : (Db.social s.db).userExists m.sender = true
  recipientExists : (Db.social s.db).userExists m.recipient = true
  above : Above v p m.id s

/-- What is above the watermark is shown. -/
theorem Delivered.shown {m : MessageRow} (h : Delivered v p m s) (hb : Between v p m) (env : Env) :
    ∃ view ∈ fetchMessagesForUser env s.db v, sentRow (messageRow view) = sentRow m := by
  obtain ⟨m', hm', hrow⟩ := h.row
  have hid : m'.id = m.id := congrArg (·.id) hrow
  have hs : m'.sender = m.sender := congrArg (·.sender) hrow
  have hr : m'.recipient = m.recipient := congrArg (·.recipient) hrow
  -- a message to oneself has oneself as the partner
  have hpartner : Db.partnerOf v m' = p := by
    unfold Db.partnerOf
    rw [hs, hr]
    rcases hb with ⟨rfl, rfl⟩ | ⟨rfl, rfl⟩
    · rw [if_pos rfl]
    · split
      · rename_i hself
        exact hself.symm
      · rfl
  have hcleared : Db.cleared s.db v m' = false := by
    refine List.any_eq_false.mpr fun c hc hcl => ?_
    simp only [Bool.and_eq_true, beq_iff_eq, decide_eq_true_eq, hpartner, hid] at hcl
    exact absurd (h.above.1 c hc hcl.1.1 hcl.1.2) (not_lt_of_ge hcl.2)
  obtain ⟨us, hus, hsid⟩ := List.any_eq_true.mp h.senderExists
  obtain ⟨ur, hur, hrid⟩ := List.any_eq_true.mp h.recipientExists
  -- the joins find both users
  let view : MessageView := { message := m', sender := us, recipient := ur }
  have hview : view ∈ Db.messagesFor s.db v := by
    refine (List.mergeSort_perm _ _).mem_iff.mpr (List.mem_flatMap.mpr ⟨m', ?_, ?_⟩)
    · refine List.mem_filter.mpr ⟨hm', ?_⟩
      rw [hcleared, hs, hr]
      rcases hb with ⟨rfl, -⟩ | ⟨-, rfl⟩ <;> simp
    · refine List.mem_flatMap.mpr ⟨us, List.mem_filter.mpr ⟨hus, hs ▸ hsid⟩, ?_⟩
      exact List.mem_map.mpr ⟨ur, List.mem_filter.mpr ⟨hur, hr ▸ hrid⟩, rfl⟩
  exact ⟨rowToMessage env view, List.mem_map_of_mem hview, hrow⟩

/-! ### Whole runs -/

variable [DecidableEq ι]

/-- A message stays above the watermark as long as no `MAX(id)` read finds its id
or a greater one. -/
theorem Above.effect (hn : 0 < n) (h : Above v p n s) (he : Effect l s s')
    (hread : ∀ i, l = .run i → reading v p (s.calls i) →
      ∀ m ∈ (Db.social s.db).messages, Between v p m → m.id < n) : Above v p n s' := by
  refine ⟨fun c hc hu hp => ?_, fun j w hw => ?_⟩
  · rcases he.marks hc with hc | ⟨i, w, hw, hmax⟩
    · exact h.1 c hc hu hp
    · subst hu hp
      have hwn := h.2 i w hw
      rcases hmax with hmax | ⟨d, hd, hu, hp, hmax⟩
      · omega
      · have hdn := h.1 d hd hu hp
        omega
  · rcases he.upserts hw with ⟨i, hw⟩ | ⟨i, hrun, hr, rfl⟩
    · exact h.2 i w hw
    · have hmax : Db.maxMessageId s.db v p ≤ n - 1 := maxMessageId_le (by omega) fun m hm hb => by
        have hlt := hread i hrun hr m hm hb
        omega
      omega

theorem DeliveryOk.effect (h : DeliveryOk v p s) (hcalm : Calm v p l s) (he : Effect l s s') :
    DeliveryOk v p s' := by
  have hseq := Int.ofNat_le.mpr he.seq_le
  have hexists : ∀ u, (Db.social s.db).userExists u = true →
      (Db.social s'.db).userExists u = true := by
    intro u hu
    unfold Social.Db.userExists at hu ⊢
    rw [he.users]
    exact hu
  refine ⟨he.shaped h.shaped, fun m hm => ?_, fun c hc => ?_, fun j u q w hw => ?_,
    fun j m hm => ?_, fun j m hm hb => ?_⟩
  · rcases he.rows hm with ⟨m', hm', hrow⟩ | ⟨i, hm⟩
    · have hid : m'.id = m.id := congrArg (·.id) hrow
      exact hid ▸ (h.rows m' hm').trans hseq
    · exact (h.inFlight i m hm).drawn.trans hseq
  · rcases he.marks hc with hc | ⟨i, w, hw, hmax⟩
    · exact (h.marks c hc).trans hseq
    · have hwle := h.upserts i _ _ w hw
      rcases hmax with hmax | ⟨d, hd, -, -, hmax⟩
      · exact (hmax ▸ hwle).trans hseq
      · have hdle := h.marks d hd
        rw [hmax]
        exact (Int.max_le.mpr ⟨hdle, hwle⟩).trans hseq
  · rcases he.upserts hw with ⟨i, hw⟩ | ⟨i, _, _, rfl⟩
    · exact (h.upserts i u q w hw).trans hseq
    · exact (maxMessageId_le (Int.natCast_nonneg _) fun m hm _ => h.rows m hm).trans hseq
  · rcases he.flights hm with ⟨i, hm⟩ | ⟨hid, hs, hread, hsex, hrex⟩
    · have hd := h.inFlight i m hm
      exact ⟨hd.pos, hd.drawn.trans hseq, hd.unread, hexists _ hd.senderExists,
        hexists _ hd.recipientExists⟩
    · refine ⟨?_, ?_, hread, hexists _ hsex, hexists _ hrex⟩
      · rw [hid]
        unfold nextval
        omega
      · show m.id ≤ (s'.seq : Int)
        rw [hid, hs]
        unfold nextval
        omega
  · rcases he.flights hm with ⟨i, hm⟩ | ⟨hid, hs, -, -, -⟩
    · exact (h.above i m hm hb).effect (h.inFlight i m hm).pos he fun i' hrun hr m' hm' hb' =>
        hcalm i' hrun hr i m hm hb m' hm' hb'
    · -- a new id is above everything there is
      have hnew : (s.seq : Int) < m.id := by
        rw [hid]
        unfold nextval
        omega
      refine Above.effect (by omega) ⟨fun c hc _ _ => ?_, fun i w hw => ?_⟩ he
        fun i _ _ m' hm' _ => ?_
      · exact lt_of_le_of_lt (h.marks c hc) hnew
      · exact lt_of_le_of_lt (h.upserts i v p w hw) hnew
      · exact lt_of_le_of_lt (h.rows m' hm') hnew

theorem Delivered.effect {m : MessageRow} (hpos : 0 < m.id) (h : Delivered v p m s)
    (hno : NoRead v p l s) (he : Effect l s s') : Delivered v p m s' := by
  obtain ⟨m', hm', hrow⟩ := h.row
  obtain ⟨m'', hm'', hrow'⟩ := he.kept hm'
  have hsex := h.senderExists
  have hrex := h.recipientExists
  unfold Social.Db.userExists at hsex hrex
  rw [← he.users] at hsex hrex
  exact ⟨he.shaped h.shaped, ⟨m'', hm'', hrow'.trans hrow⟩, hsex, hrex,
    h.above.effect hpos he fun i hrun hr => (hno i hrun hr).elim⟩

/-- **Clears and messages that arrive.** In a run in which no `MAX(id)` read of
`clear_history(v, p)` meets a smaller or equal id in flight, a message between the
two that commits is shown to `v` from then on, until `clear_history(v, p)` reads
again. -/
theorem late_message_delivered {env : Env} {text : UserSearch} {db : Db} {seq now poolSize : Nat}
    {faulty : Bool} {calls : ι → Call} {s₁ s₂ s₃ : Server ι} {m : MessageRow}
    (hrows : ∀ m ∈ db.social.messages, m.id ≤ seq)
    (hmarks : ∀ c ∈ db.clears, c.clearedThrough ≤ seq)
    (hcalls : ∀ i, (calls i).messaging = true)
    (h₁ : ReachableBy (Calm v p) (serve poolSize faulty calls)
      (spelledServer env text db seq now calls) s₁)
    (hcalm : Calm v p l s₁) (hstep : serve poolSize faulty calls l s₁ = some s₂)
    (hb : Between v p m) (hm : m ∈ (Db.social s₂.db).messages)
    (hnew : ∀ m' ∈ (Db.social s₁.db).messages, m'.id ≠ m.id)
    (h₃ : ReachableBy (NoRead v p) (serve poolSize faulty calls) s₂ s₃) :
    ∃ view ∈ fetchMessagesForUser env s₃.db v, sentRow (messageRow view) = m := by
  have hok : DeliveryOk v p s₁ := h₁.invariant
    (fun _ _ _ hI hP hstep => hI.effect hP (effect_of_step hI.shaped hstep))
    (deliveryOk_start hrows hmarks hcalls)
  have he := effect_of_step hok.shaped hstep
  have hok₂ := hok.effect hcalm he
  -- the message was in flight
  obtain ⟨i, hflight⟩ : ∃ i, m ∈ inFlight (s₁.calls i) := by
    rcases he.rows hm with ⟨m', hm', hrow⟩ | hflight
    · exact absurd (congrArg (·.id) hrow) (hnew m' hm')
    · exact hflight
  have hdrawn := hok.inFlight i m hflight
  have hunread : sentRow m = m := by
    unfold sentRow
    rw [← hdrawn.unread]
  have hsex := hdrawn.senderExists
  have hrex := hdrawn.recipientExists
  unfold Social.Db.userExists at hsex hrex
  rw [← he.users] at hsex hrex
  have habove : Above v p m.id s₂ := (hok.above i m hflight hb).effect hdrawn.pos he
    fun i' hrun hr m' hm' hb' => hcalm i' hrun hr i m hflight hb m' hm' hb'
  have hdelivered : Delivered v p m s₃ := h₃.invariant
    (fun _ _ _ hI hP hstep => hI.effect hdrawn.pos hP (effect_of_step hI.shaped hstep))
    ⟨hok₂.shaped, ⟨m, hm, rfl⟩, hsex, hrex, habove⟩
  obtain ⟨view, hview, hrow⟩ := hdelivered.shown hb env
  exact ⟨view, hview, hrow.trans hunread⟩

end Runs

/-! 2 writes twice to 1, and 1 clears the conversation. -/

inductive Trio
  | first
  | second
  | clear
  deriving DecidableEq

def trioCalls : Trio → Call
  | .first => .social (.sendMessage (some 2) 1 "one")
  | .second => .social (.sendMessage (some 2) 1 "two")
  | .clear => .clearHistory (some 1) 2

def trioStart : Server Trio := spelledServer demoEnv demoText mailDb 0 0 trioCalls

/-- A check that implies `Calm`. -/
def calmCheck (l : Label Trio) (s : Server Trio) : Bool :=
  match l with
  | .run i =>
      match s.calls i with
      | .conn (.maxMessageId _ _) _ => [Trio.first, .second, .clear].all fun j =>
          (inFlight (s.calls j)).all fun m =>
            (Db.social s.db).messages.all fun m' => decide (m'.id < m.id)
      | _ => true
  | _ => true

theorem calm_of_check (v p : UserId) (l : Label Trio) (s : Server Trio)
    (h : calmCheck l s = true) : Calm v p l s := by
  intro i hl hr j m hm _ m' hm' _
  subst hl
  unfold reading at hr
  split at hr
  · rename_i hc
    simp only [calmCheck, hc, List.all_eq_true] at h
    have hj : j ∈ [Trio.first, .second, .clear] := by cases j <;> simp
    simpa using h j hj m hm m' hm'
  · exact hr.elim

/-- The first message, then the clear while the second has its id but not yet its row. -/
def trioRun : List (Label Trio) :=
  List.replicate 10 (.run .first) ++ List.replicate 9 (.run .second) ++
    List.replicate 7 (.run .clear)

def trioMessage : MessageRow := ⟨2, 2, 1, "two", 0, false⟩

/-- 1 sees the second message, which commits after the clear. -/
theorem late_message_delivered_trio : ∃ s : Server Trio,
    ∃ view ∈ fetchMessagesForUser demoEnv s.db 1, sentRow (messageRow view) = trioMessage := by
  have hrun : ((replay (fun l s => if calmCheck l s then serve 3 false trioCalls l s else none)
      trioStart trioRun).bind fun s => (serve 3 false trioCalls (.run .second) s).map fun s' =>
        (calmCheck (.run .second) s, (Db.social s.db).messages.map (·.id),
          (Db.social s'.db).messages.contains trioMessage)) = some (true, [1], true) := by
    decide
  obtain ⟨s₁, hs₁, hrest⟩ := Option.bind_eq_some_iff.mp hrun
  obtain ⟨s₂, hstep, hobs⟩ := Option.map_eq_some_iff.mp hrest
  obtain ⟨hcheck, hobs⟩ := Prod.mk.inj hobs
  obtain ⟨hids, hrow⟩ := Prod.mk.inj hobs
  have hnew : ∀ m' ∈ (Db.social s₁.db).messages, m'.id ≠ trioMessage.id := by
    intro m' hm'
    have hid : m'.id ∈ (Db.social s₁.db).messages.map (·.id) := List.mem_map_of_mem hm'
    rw [hids, List.mem_singleton] at hid
    rw [hid]
    decide
  exact ⟨s₂, late_message_delivered (by decide) (by decide) (fun i => by cases i <;> rfl)
    (.of_replay (calm_of_check 1 2) hs₁ .refl) (calm_of_check 1 2 _ _ hcheck) hstep
    (.inr ⟨rfl, rfl⟩) (List.contains_iff_mem.mp hrow) hnew .refl⟩

/-- The first message has its id but not yet its row while the second commits and
the clear runs. -/
def hidingRun : List (Label Trio) :=
  List.replicate 9 (.run .first) ++ List.replicate 10 (.run .second) ++
    List.replicate 7 (.run .clear)

def hiddenMessage : MessageRow := ⟨1, 2, 1, "one", 0, false⟩

/-- The first message commits after the only `MAX(id)` read, and is not shown. -/
theorem clear_hides_late_message : ¬ ∀ (s₁ s₂ s₃ : Server Trio) (l : Label Trio) (m : MessageRow),
    Reachable (serve 3 false trioCalls) trioStart s₁ → serve 3 false trioCalls l s₁ = some s₂ →
      Between 1 2 m → m ∈ (Db.social s₂.db).messages →
        (∀ m' ∈ (Db.social s₁.db).messages, m'.id ≠ m.id) →
          ReachableBy (NoRead 1 2) (serve 3 false trioCalls) s₂ s₃ →
            ∃ view ∈ fetchMessagesForUser demoEnv s₃.db 1, sentRow (messageRow view) = m := by
  intro hclaim
  have hrun : ((replay (serve 3 false trioCalls) trioStart hidingRun).bind fun s =>
      (serve 3 false trioCalls (.run .first) s).map fun s' =>
        ((Db.social s.db).messages.map (·.id), (Db.social s'.db).messages.contains hiddenMessage,
          Db.shownTo s'.db 1)) = some ([2], true, []) := by
    decide
  obtain ⟨s₁, hs₁, hrest⟩ := Option.bind_eq_some_iff.mp hrun
  obtain ⟨s₂, hstep, hobs⟩ := Option.map_eq_some_iff.mp hrest
  obtain ⟨hids, hobs⟩ := Prod.mk.inj hobs
  obtain ⟨hrow, hshown⟩ := Prod.mk.inj hobs
  have hnew : ∀ m' ∈ (Db.social s₁.db).messages, m'.id ≠ 1 := by
    intro m' hm'
    have hid : m'.id ∈ (Db.social s₁.db).messages.map (·.id) := List.mem_map_of_mem hm'
    rw [hids, List.mem_singleton] at hid
    rw [hid]
    decide
  obtain ⟨view, hview, -⟩ := hclaim s₁ s₂ s₂ _ hiddenMessage
    (reachable_of_replay hs₁) hstep (.inr ⟨rfl, rfl⟩) (List.contains_iff_mem.mp hrow) hnew .refl
  obtain ⟨w, hw, -⟩ := List.mem_map.mp hview
  have hmem := message_mem_shownTo hw
  rw [hshown] at hmem
  cases hmem

end DevbitBackend.Forum
