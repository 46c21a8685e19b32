import DevbitBackend.Lib.Clearing
import DevbitBackend.Forum.Access

/-!
# Forum.History

Who sees which messages after any number of calls of `send_message`,
`clear_history`, `mark_message_read` and `mark_conversation_read`, each of them one
atomic event. The reference is the history of what was sent and what was cleared,
read off the answers (`eventsOf`); what `fetch_messages_for_user` shows is decided
by the watermarks in `social_message_clears`. `Follows` relates the two for every
viewer, one call keeps it (`Follows.attend`), and `history_visible` is the result
for whole runs.
-/

namespace DevbitBackend.Forum

open Txn Social

/-! ### The reference -/

inductive Event
  | sent (m : MessageRow)
  | cleared (user partner : UserId)
  deriving DecidableEq

/-- How a user sees the messages: one scope for each partner. -/
def viewOf (v : UserId) : Clearing.View MessageRow UserId where
  id := MessageRow.id
  scope m := if m.sender = v ∨ m.recipient = v then some (Db.partnerOf v m) else none

/-- What an event is to a viewer: clears by others are nothing to it. -/
def Event.seenBy (v : UserId) : Event → Option (Clearing.Event MessageRow UserId)
  | .sent m => some (.added m)
  | .cleared user partner => if user = v then some (.cleared partner) else none

/-- The messages to or from `v` that were sent after `v`'s latest clear of their
conversation. -/
def visible (v : UserId) (history : List Event) : List MessageRow :=
  Clearing.visible (viewOf v) (history.filterMap (Event.seenBy v))

/-! ### Calls one after another -/

/-- The message as it was sent. -/
def sentRow (m : MessageRow) : MessageRow := { m with isRead := false }

/-- The message of an answer. -/
def messageRow (m : ForumMessage) : MessageRow where
  id := m.id
  sender := m.sender.id
  recipient := m.recipient.id
  content := m.content
  createdAt := m.createdAt
  isRead := m.isRead

/-- What an answered call adds to the history. -/
def eventsOf : Call → Answer → List Event
  | .social (.sendMessage _ _ _), .social (.message m) => [.sent (messageRow m)]
  | .clearHistory (some user) partner, .social .noContent => [.cleared user partner]
  | _, _ => []

/-- The calls that send, clear or mark messages. -/
def Call.messaging : Call → Bool
  | .social (.sendMessage _ _ _) | .clearHistory _ _ | .markMessageRead _ _
  | .markConversationRead _ _ => true
  | _ => false

/-- A call that runs alone, at time `now`, with the given failures of its database
calls. -/
structure Request where
  call : Call
  now : Nat
  fails : Nat → Bool

/-- The outcome of a request in the state `σ`. -/
def Request.outcome (env : Env) (text : UserSearch) (r : Request) (σ : State) : State × Answer :=
  (r.call.code env text).solo r.call.failed r.fails r.now 0 none σ

/-- One request after the history `s.2`. -/
def attend (env : Env) (text : UserSearch) (s : State × List Event) (r : Request) :
    State × List Event :=
  ((r.outcome env text s.1).1, s.2 ++ eventsOf r.call (r.outcome env text s.1).2)

/-- Requests one after another. -/
def attendAll (env : Env) (text : UserSearch) (s : State × List Event) (rs : List Request) :
    State × List Event :=
  rs.foldl (attend env text) s

/-! ### What one call does -/

/-- The message `m` can be the next one of the tables `db`. -/
structure Sendable (σ : Social.State) (m : MessageRow) : Prop where
  id : m.id = nextval σ.seq
  unread : m.isRead = false
  parties : m.sender ≠ m.recipient
  senderExists : Social.Db.userExists σ.db m.sender = true
  recipientExists : Social.Db.userExists σ.db m.recipient = true

/-- A lone `send_message` inserts the message that it answers, or changes nothing. -/
def Sends (σ : Social.State) (out : Social.State × Social.Answer) : Prop :=
  (out.1 = σ ∧ out.2.isOk = false) ∨ ∃ view, Sendable σ (messageRow view) ∧
    out.1 = (σ.bump (E := Social.engine)
      (.insertMessage view.sender.id view.recipient.id view.content)).write
        [.insertMessage (messageRow view)] ∧ out.2 = .message view

theorem sends_error {σ : Social.State} {a : Social.Answer} (ha : a.isOk = false) :
    Sends σ (σ, a) :=
  .inl ⟨rfl, ha⟩

/-- A look-up of a user by its id finds the user with the id. -/
theorem ends_getCurrentUser {Q : Social.State × Social.Answer → Prop} {env : Env} {id : UserId}
    {k : ForumUser → Social.Code} {fails : Nat → Bool} {now n : Nat} {σ : Social.State}
    (hfail : Q (σ, .failure 500)) (hnone : Q (σ, .failure 401))
    (hk : ∀ user, user.id = id → Social.Db.userExists σ.db id = true →
      Ends Q (.failure 500) fails now (k user) (n + 1) none σ) :
    Ends Q (.failure 500) fails now (Social.getCurrentUser env id k) n none σ := by
  refine .query_read (fun db => Social.Db.loadUser db id) (fun _ _ _ => rfl) rfl (fun _ => hfail) ?_
  cases hrow : Social.Db.loadUser σ.db id with
  | none => exact .done fun _ => hnone
  | some row =>
      obtain rfl : row.id = id := by simpa [Social.Db.loadUser] using List.find?_some hrow
      exact hk _ rfl (List.any_eq_true.mpr ⟨row, List.mem_of_find?_eq_some hrow, by simp⟩)

theorem sends_sendMessage (env : Env) (identity : Option UserId) (recipientId : Int)
    (content : String) (fails : Nat → Bool) (now : Nat) (σ : Social.State) :
    Sends σ ((Social.sendMessage env identity recipientId content).solo (.failure 500) fails now 0
      none σ) := by
  refine (show Ends (Sends σ) (.failure 500) fails now
    (Social.sendMessage env identity recipientId content) 0 none σ from ?_) (noneBefore_zero fails)
  unfold Social.sendMessage
  cases identity with
  | none => exact .done fun _ => sends_error rfl
  | some id =>
      refine ends_getCurrentUser (sends_error rfl) (sends_error rfl) fun sender hsender hsex => ?_
      subst hsender
      split
      · exact .done fun _ => sends_error rfl
      rename_i hne
      split
      · exact .done fun _ => sends_error rfl
      rename_i body _
      refine ends_getCurrentUser (sends_error rfl) (sends_error rfl) fun recipient hrec hrex => ?_
      subst hrec
      unfold Social.messagePermission
      rw [if_neg hne]
      refine .query_read (fun db => Social.Db.permissionRow db sender.id recipient.id)
        (fun _ _ _ => rfl) rfl (fun _ => sends_error rfl) ?_
      dsimp only
      split
      · exact .done fun _ => sends_error rfl
      by_cases hstor : storable body = true
      · -- the row that the `INSERT` makes
        have heval : Social.engine.eval (.insertMessage sender.id recipient.id body) now σ.seq
            σ.db = some ((nextval σ.seq, now), [.insertMessage
              { id := nextval σ.seq, sender := sender.id, recipient := recipient.id,
                content := body, createdAt := now, isRead := false }]) :=
          if_pos (by rw [hstor, hsex, hrex]; rfl)
        refine .query heval (fun _ => sends_error rfl) (.emit (.emit (.emit (.done fun _ => ?_))))
        let view : ForumMessage :=
          { id := nextval σ.seq, sender := sender, recipient := recipient, content := body,
            createdAt := now, isRead := false }
        exact .inr ⟨view, ⟨rfl, rfl, hne, hsex, hrex⟩, rfl, rfl⟩
      · exact .query_rejected (if_neg (by simp [hstor])) (sends_error rfl)

/-- The watermark that a clear of `partner` by `user` leaves. -/
def Db.raisedMark (db : Db) (user partner : UserId) : Int :=
  match db.clearOf user partner with
  | some c => max c.clearedThrough (db.maxMessageId user partner)
  | none => db.maxMessageId user partner

/-- What a lone call of the four handlers does to the tables, and what it adds to
the history. -/
inductive Does (σ : State) : State × List Event → Prop
  | nothing : Does σ (σ, [])
  | sent {m} : Sendable (socialPart.snap σ) m →
      Does σ (socialPart.replace σ ⟨σ.seq + 1, (Write.insertMessage m).apply (Db.social σ.db)⟩,
        [.sent m])
  | cleared {c} : c.user ≠ c.partner →
      c.clearedThrough = Db.raisedMark σ.db c.user c.partner →
      Does σ (σ.write [.setClear c], [.cleared c.user c.partner])
  | marked {where_} : Does σ (⟨σ.seq, Db.markRead σ.db where_⟩, [])

/-- An error adds nothing to the history. -/
theorem eventsOf_error {v : Option UserId} {u : Int} {body : String} {a : Social.Answer}
    (ha : a.isOk = false) : eventsOf (.social (.sendMessage v u body)) (.social a) = [] := by
  cases a with
  | message m => cases ha
  | _ => rfl

theorem does_sendMessage (env : Env) (v : Option UserId) (u : Int) (body : String) (σ : State)
    (now : Nat) (fails : Nat → Bool) {out : State × Answer}
    (hout : ((Social.sendMessage env v u body).embed socialPart Answer.social).solo
      (.social (.failure 500)) fails now 0 none σ = out) :
    Does σ (out.1, eventsOf (.social (.sendMessage v u body)) out.2) := by
  rw [solo_embed] at hout
  subst hout
  rcases sends_sendMessage env v u body fails now (socialPart.snap σ) with
    ⟨hσ, ha⟩ | ⟨view, hm, hσ, ha⟩
  · rw [hσ, socialPart.replace_snap, eventsOf_error ha]
    exact .nothing
  · rw [hσ, ha]
    exact .sent hm

theorem ends_requireCurrentUser {Q : State × Answer → Prop} {env : Env} {identity : Option UserId}
    {k : ForumUser → Code} {fails : Nat → Bool} {now : Nat} {σ : State}
    (hfail : ∀ code, Q (σ, .failure code))
    (hk : ∀ user, identity = some user.id → Ends Q (.failure 500) fails now (k user) 1 none σ) :
    Ends Q (.failure 500) fails now (requireCurrentUser env identity k) 0 none σ := by
  cases identity with
  | none => exact .done fun _ => hfail 401
  | some id =>
      refine .query_read (fun db => db.social.loadUser id) (fun _ _ _ => rfl) rfl
        (fun _ => hfail 500) ?_
      cases hrow : (Db.social σ.db).loadUser id with
      | none => exact .done fun _ => hfail 401
      | some row =>
          obtain rfl : row.id = id := by simpa [Social.Db.loadUser] using List.find?_some hrow
          exact hk _ rfl

theorem does_markMessageRead (env : Env) (v : Option UserId) (id : Int) (σ : State) (now : Nat)
    (fails : Nat → Bool) {out : State × Answer}
    (hout : (markMessageRead env v id).solo (.failure 500) fails now 0 none σ = out) :
    Does σ (out.1, eventsOf (.markMessageRead v id) out.2) := by
  subst hout
  refine (show Ends (fun out => Does σ (out.1, [])) (.failure 500) fails now
    (markMessageRead env v id) 0 none σ from ?_) (noneBefore_zero fails)
  refine ends_requireCurrentUser (fun _ => .nothing) fun user _ => ?_
  refine .query rfl (fun _ => .nothing) ?_
  unfold affected
  split <;> exact .done fun _ => .marked

theorem does_markConversationRead (env : Env) (v : Option UserId) (partner : UserId) (σ : State)
    (now : Nat) (fails : Nat → Bool) {out : State × Answer}
    (hout : (markConversationRead env v partner).solo (.failure 500) fails now 0 none σ = out) :
    Does σ (out.1, eventsOf (.markConversationRead v partner) out.2) := by
  subst hout
  refine (show Ends (fun out => Does σ (out.1, [])) (.failure 500) fails now
    (markConversationRead env v partner) 0 none σ from ?_) (noneBefore_zero fails)
  refine ends_requireCurrentUser (fun _ => .nothing) fun user _ => ?_
  refine .query rfl (fun _ => .nothing) ?_
  unfold affected
  split <;> exact .done fun _ => .marked

theorem does_clearHistory (v : Option UserId) (partnerId : Int) (σ : State) (now : Nat)
    (fails : Nat → Bool) {out : State × Answer}
    (hout : (clearHistory v partnerId).solo (.social (.error .internal)) fails now 0 none σ = out) :
    Does σ (out.1, eventsOf (.clearHistory v partnerId) out.2) := by
  subst hout
  refine (show Ends (fun out => Does σ (out.1, eventsOf (.clearHistory v partnerId) out.2))
    (.social (.error .internal)) fails now (clearHistory v partnerId) 0 none σ from ?_)
    (noneBefore_zero fails)
  unfold clearHistory
  cases v with
  | none => exact .done fun _ => .nothing
  | some v =>
      refine .query_read (fun db => db.social.userExists v) (fun _ _ _ => rfl) rfl
        (fun _ => .nothing) ?_
      split
      · exact .done fun _ => .nothing
      split
      · exact .done fun _ => .nothing
      rename_i partner hpartner
      obtain rfl := positiveId_ok hpartner
      split
      · exact .done fun _ => .nothing
      rename_i hne
      refine .query_read (fun db => db.maxMessageId v partner) (fun _ _ _ => rfl) rfl
        (fun _ => .nothing) ?_
      -- the upsert updates the row of the pair, or inserts it
      cases hc : Db.clearOf σ.db v partner with
      | some c =>
          obtain ⟨hu, hp⟩ : c.user = v ∧ c.partner = partner := by
            simpa [Db.clearOf] using List.find?_some hc
          have hraised : Db.raisedMark σ.db v partner =
              max c.clearedThrough (Db.maxMessageId σ.db v partner) := by
            rw [Db.raisedMark, hc]
          have heval : engine.eval (.upsertClear v partner (Db.maxMessageId σ.db v partner)) now
              σ.seq σ.db = some ((), [.setClear
                { user := v, partner := partner, clearedThrough := Db.raisedMark σ.db v partner,
                  updatedAt := now }]) := by
            subst hu hp
            simp [eval, Ne.symm hne, hc, hraised]
          refine .query heval (fun _ => .nothing) (.emit (.done fun _ => ?_))
          exact .cleared (Ne.symm hne) rfl
      | none =>
          have hraised : Db.raisedMark σ.db v partner = Db.maxMessageId σ.db v partner := by
            rw [Db.raisedMark, hc]
          by_cases hex :
              ((Db.social σ.db).userExists v && (Db.social σ.db).userExists partner) = true
          · have heval : engine.eval (.upsertClear v partner (Db.maxMessageId σ.db v partner)) now
                σ.seq σ.db = some ((), [.setClear
                  { user := v, partner := partner, clearedThrough := Db.raisedMark σ.db v partner,
                    updatedAt := now }]) := by
              simp only [eval, Ne.symm hne, hc, hex, hraised, if_true, if_false]
            refine .query heval (fun _ => .nothing) (.emit (.done fun _ => ?_))
            exact .cleared (Ne.symm hne) rfl
          · refine .query_rejected ?_ .nothing
            simp only [eval, Ne.symm hne, hc, hex, if_false]
            rfl

theorem does_attend (env : Env) (text : UserSearch) (r : Request) (hr : r.call.messaging = true)
    (σ : State) : Does σ ((r.outcome env text σ).1, eventsOf r.call (r.outcome env text σ).2) := by
  obtain ⟨c, now, fails⟩ := r
  cases c with
  | social c =>
      cases c with
      | sendMessage v u body => exact does_sendMessage env v u body σ now fails rfl
      | _ => cases hr
  | clearHistory v p => exact does_clearHistory v p σ now fails rfl
  | markMessageRead v id => exact does_markMessageRead env v id σ now fails rfl
  | markConversationRead v p => exact does_markConversationRead env v p σ now fails rfl
  | _ => cases hr

/-! ### The watermarks follow the history -/

/-- The watermark of `user` for `partner`. -/
def Db.mark (db : Db) (user partner : UserId) : Int :=
  ((db.clearOf user partner).map (·.clearedThrough)).getD 0

/-- The tables show every viewer what the history leaves visible. -/
structure Follows (σ : State) (history : List Event) : Prop where
  tracks : ∀ v, Clearing.Tracks (viewOf v) (Db.mark σ.db v)
    ((Social.Db.messages (Db.social σ.db)).map sentRow) (history.filterMap (Event.seenBy v))
  keys : ((Social.Db.messages (Db.social σ.db)).map (·.id)).Nodup
  drawn : ∀ m ∈ Social.Db.messages (Db.social σ.db), 0 < m.id ∧ m.id ≤ σ.seq
  parties : ∀ m ∈ Social.Db.messages (Db.social σ.db), m.sender ≠ m.recipient ∧
    (Db.social σ.db).userExists m.sender = true ∧ (Db.social σ.db).userExists m.recipient = true
  clearKeys : ((Db.clears σ.db).map fun c => (c.user, c.partner)).Nodup
  marks : ∀ c ∈ Db.clears σ.db, c.clearedThrough ≤ σ.seq
  userKeys : ((Db.social σ.db).users.map (·.id)).Nodup

/-- What a `clear_history` leaves in the table: the row of its pair, and the others
as they were. -/
theorem clearOf_setClear (db : Db) (c : ClearRow) (u p : UserId) :
    Db.clearOf (Write.apply (.setClear c) db) u p =
      if c.user = u ∧ c.partner = p then some c else db.clearOf u p := by
  rw [Db.clearOf, Write.apply, List.find?_append, List.find?_filter]
  split
  · rename_i h
    obtain ⟨rfl, rfl⟩ := h
    -- the old row of the pair is filtered out
    have hgone : db.clears.find? (fun d => decide ((!(d.user == c.user && d.partner == c.partner)) =
        true ∧ (d.user == c.user && d.partner == c.partner) = true)) = none := by
      refine List.find?_eq_none.mpr fun d _ => ?_
      cases d.user == c.user && d.partner == c.partner <;> decide
    rw [hgone]
    simp
  · rename_i h
    have hlast : [c].find? (fun d => d.user == u && d.partner == p) = none := by
      simpa using h
    rw [hlast, Option.or_none]
    refine congrArg (fun q => List.find? q db.clears) (funext fun d => ?_)
    by_cases hd : d.user = u ∧ d.partner = p
    · have hc : ¬ (d.user = c.user ∧ d.partner = c.partner) := by
        intro hdc
        exact h ⟨hdc.1.symm.trans hd.1, hdc.2.symm.trans hd.2⟩
      simpa [hd.1, hd.2, imp_iff_not_or] using hc
    · have hd' : (d.user == u && d.partner == p) = false := by simpa using hd
      simp [hd']

/-- The message is between the two users. -/
def Between (u p : UserId) (m : MessageRow) : Prop :=
  (m.sender = u ∧ m.recipient = p) ∨ (m.sender = p ∧ m.recipient = u)

theorem le_maxMessageId {db : Db} {u p : UserId} {m : MessageRow} (hm : m ∈ db.social.messages)
    (hb : Between u p m) : m.id ≤ db.maxMessageId u p := by
  have hmem : m.id ∈ (db.social.messages.filter fun m => (m.sender == u && m.recipient == p) ||
      (m.sender == p && m.recipient == u)).map (·.id) :=
    List.mem_map_of_mem (List.mem_filter.mpr ⟨hm, by simpa [Between] using hb⟩)
  unfold Db.maxMessageId
  cases hmax : ((db.social.messages.filter fun m => (m.sender == u && m.recipient == p) ||
      (m.sender == p && m.recipient == u)).map (·.id)).max? with
  | none =>
      rw [List.max?_eq_none_iff.mp hmax] at hmem
      cases hmem
  | some n => exact (List.max?_eq_some_iff.mp hmax).2 _ hmem

theorem maxMessageId_le {db : Db} {u p : UserId} {n : Int} (hn : 0 ≤ n)
    (h : ∀ m ∈ db.social.messages, Between u p m → m.id ≤ n) : db.maxMessageId u p ≤ n := by
  unfold Db.maxMessageId
  cases hmax : ((db.social.messages.filter fun m => (m.sender == u && m.recipient == p) ||
      (m.sender == p && m.recipient == u)).map (·.id)).max? with
  | none => exact hn
  | some k =>
      obtain ⟨m, hm, rfl⟩ := List.mem_map.mp (List.max?_mem hmax)
      obtain ⟨hm, hb⟩ := List.mem_filter.mp hm
      exact h m hm (by simpa [Between] using hb)

theorem mark_setClear (db : Db) (c : ClearRow) (u p : UserId) :
    Db.mark (Write.apply (.setClear c) db) u p =
      if c.user = u ∧ c.partner = p then c.clearedThrough else db.mark u p := by
  rw [Db.mark, clearOf_setClear]
  split <;> rfl

theorem mem_of_clearOf {db : Db} {u p : UserId} {c : ClearRow} (h : db.clearOf u p = some c) :
    c ∈ db.clears ∧ c.user = u ∧ c.partner = p :=
  ⟨List.mem_of_find?_eq_some h, by simpa [Db.clearOf] using List.find?_some h⟩

theorem maxMessageId_le_raisedMark (db : Db) (u p : UserId) :
    db.maxMessageId u p ≤ db.raisedMark u p := by
  unfold Db.raisedMark
  cases db.clearOf u p with
  | none => exact le_refl _
  | some c => exact le_max_right c.clearedThrough _

/-- What a message row keeps while messages are marked as read. -/
theorem map_markRead {α : Type} (f : MessageRow → α) (db : Db) (where_ : MessageRow → Bool)
    (hf : ∀ m, f { m with isRead := true } = f m) :
    (db.markRead where_).social.messages.map f = db.social.messages.map f := by
  rw [Db.markRead, List.map_map]
  refine List.map_congr_left fun m _ => ?_
  show f (if where_ m then { m with isRead := true } else m) = f m
  split
  · exact hf m
  · rfl

namespace Follows

variable {σ : State} {history : List Event}

theorem init {σ : State} (hu : ((Db.social σ.db).users.map (·.id)).Nodup)
    (hm : (Db.social σ.db).messages = []) (hc : Db.clears σ.db = []) : Follows σ [] where
  tracks v := by
    rw [hm]
    exact Clearing.tracks_nil _ _
  keys := by simp [hm]
  drawn := by simp [hm]
  parties := by simp [hm]
  clearKeys := by simp [hc]
  marks := by simp [hc]
  userKeys := hu

theorem mark_le (h : Follows σ history) (u p : UserId) : Db.mark σ.db u p ≤ σ.seq := by
  unfold Db.mark
  cases hc : Db.clearOf σ.db u p with
  | none => exact Int.natCast_nonneg _
  | some c => exact h.marks c (mem_of_clearOf hc).1

theorem max_le (h : Follows σ history) (u p : UserId) : Db.maxMessageId σ.db u p ≤ σ.seq :=
  maxMessageId_le (Int.natCast_nonneg _) fun m hm _ => (h.drawn m hm).2

theorem raisedMark_le (h : Follows σ history) (u p : UserId) : Db.raisedMark σ.db u p ≤ σ.seq := by
  unfold Db.raisedMark
  cases hc : Db.clearOf σ.db u p with
  | none => exact h.max_le u p
  | some c => exact Int.max_le.mpr ⟨h.marks c (mem_of_clearOf hc).1, h.max_le u p⟩

/-- A message that is sent has an id above every watermark. -/
theorem sent (h : Follows σ history) {m : MessageRow} (hm : Sendable (socialPart.snap σ) m) :
    Follows (socialPart.replace σ ⟨σ.seq + 1, (Write.insertMessage m).apply (Db.social σ.db)⟩)
      (history ++ [.sent m]) := by
  have hid : m.id = σ.seq + 1 := hm.id
  have hrow : sentRow m = m := by
    unfold sentRow
    rw [← hm.unread]
  refine ⟨fun v => ?_, ?_, fun m' hm' => ?_, fun m' hm' => ?_, h.clearKeys, fun c hc => ?_,
    h.userKeys⟩
  -- the new id is above the watermark, so the message is visible
  · have hadd := (h.tracks v).added (e := m) fun k => by
      show Db.mark σ.db v k < m.id
      have := h.mark_le v k
      omega
    rw [List.filterMap_append]
    show Clearing.Tracks (viewOf v) (Db.mark σ.db v)
      (((Db.social σ.db).messages ++ [m]).map sentRow) _
    rw [List.map_append, List.map_singleton, hrow]
    exact hadd
  · refine Serial.nodup_keys_append h.keys fun m' hm' => ?_
    have := (h.drawn m' hm').2
    omega
  · rcases List.mem_append.mp hm' with hold | hnew
    · have := h.drawn m' hold
      exact ⟨this.1, this.2.trans (by show (σ.seq : Int) ≤ ((σ.seq + 1 : Nat) : Int); omega)⟩
    · rw [List.mem_singleton.mp hnew, hid]
      exact ⟨by omega, by show (σ.seq : Int) + 1 ≤ ((σ.seq + 1 : Nat) : Int); omega⟩
  · rcases List.mem_append.mp hm' with hold | hnew
    · exact h.parties m' hold
    · rw [List.mem_singleton.mp hnew]
      exact ⟨hm.parties, hm.senderExists, hm.recipientExists⟩
  · exact (h.marks c hc).trans (by show (σ.seq : Int) ≤ ((σ.seq + 1 : Nat) : Int); omega)

theorem cleared (h : Follows σ history) {c : ClearRow}
    (hc : c.clearedThrough = Db.raisedMark σ.db c.user c.partner) :
    Follows (σ.write (E := engine) [.setClear c]) (history ++ [.cleared c.user c.partner]) := by
  refine ⟨fun v => ?_, h.keys, h.drawn, h.parties, ?_, fun d hd => ?_, h.userKeys⟩
  · have hmark : ∀ k, Db.mark (σ.write (E := engine) [.setClear c]).db v k =
        if c.user = v ∧ c.partner = k then c.clearedThrough else Db.mark σ.db v k :=
      mark_setClear σ.db c v
    rw [List.filterMap_append]
    by_cases hv : c.user = v
    · subst hv
      rw [show [Event.cleared c.user c.partner].filterMap (Event.seenBy c.user) =
        [.cleared c.partner] by simp [Event.seenBy]]
      refine (h.tracks c.user).cleared (fun k hk => ?_) fun e he hscope => ?_
      · rw [hmark, if_neg fun hck => hk hck.2.symm]
      · rw [hmark, if_pos ⟨rfl, rfl⟩, hc]
        obtain ⟨m, hm, rfl⟩ := List.mem_map.mp he
        refine (le_maxMessageId hm ?_).trans (maxMessageId_le_raisedMark σ.db c.user c.partner)
        -- the partner of the message is the cleared one
        simp only [viewOf, sentRow, Db.partnerOf] at hscope
        by_cases hs : m.sender = c.user
        · simp [hs] at hscope
          exact .inl ⟨hs, hscope⟩
        · by_cases hr : m.recipient = c.user
          · simp [hs, hr] at hscope
            exact .inr ⟨hscope, hr⟩
          · simp [hs, hr] at hscope
    · have hsame : Db.mark (σ.write (E := engine) [.setClear c]).db v = Db.mark σ.db v := by
        funext k
        rw [hmark, if_neg fun hck => hv hck.1]
      rw [hsame, show [Event.cleared c.user c.partner].filterMap (Event.seenBy v) = [] by
        simp [Event.seenBy, hv], List.append_nil]
      exact h.tracks v
  · refine Serial.nodup_keys_append (h.clearKeys.sublist (List.filter_sublist.map _))
      fun d hd heq => ?_
    have hne := (List.mem_filter.mp hd).2
    obtain ⟨hu, hp⟩ : d.user = c.user ∧ d.partner = c.partner := Prod.ext_iff.mp heq
    simp [hu, hp] at hne
  · rcases List.mem_append.mp (show d ∈ (Db.clears σ.db).filter _ ++ [c] from hd) with hold | hnew
    · exact h.marks d (List.mem_filter.mp hold).1
    · rw [List.mem_singleton.mp hnew, hc]
      exact h.raisedMark_le c.user c.partner

theorem marked (h : Follows σ history) (where_ : MessageRow → Bool) :
    Follows (⟨σ.seq, Db.markRead σ.db where_⟩ : Snap engine) history := by
  -- but for the flag each message is one of before
  have hrow : ∀ m' ∈ (Db.markRead σ.db where_).social.messages,
      ∃ m ∈ (Db.social σ.db).messages, sentRow m' = sentRow m := by
    intro m' hm'
    have hmem : sentRow m' ∈ (Db.markRead σ.db where_).social.messages.map sentRow :=
      List.mem_map_of_mem hm'
    rw [map_markRead sentRow σ.db where_ fun _ => rfl] at hmem
    obtain ⟨m, hm, heq⟩ := List.mem_map.mp hmem
    exact ⟨m, hm, heq.symm⟩
  refine ⟨fun v => ?_, ?_, fun m' hm' => ?_, fun m' hm' => ?_, h.clearKeys, h.marks, h.userKeys⟩
  · show Clearing.Tracks (viewOf v) (Db.mark σ.db v)
      ((Db.markRead σ.db where_).social.messages.map sentRow) _
    rw [map_markRead sentRow σ.db where_ fun _ => rfl]
    exact h.tracks v
  · show ((Db.markRead σ.db where_).social.messages.map (·.id)).Nodup
    rw [map_markRead (·.id) σ.db where_ fun _ => rfl]
    exact h.keys
  · obtain ⟨m, hm, heq⟩ := hrow m' hm'
    have hid : m'.id = m.id := congrArg (·.id) heq
    rw [hid]
    exact h.drawn m hm
  · obtain ⟨m, hm, heq⟩ := hrow m' hm'
    have hs : m'.sender = m.sender := congrArg (·.sender) heq
    have hr : m'.recipient = m.recipient := congrArg (·.recipient) heq
    rw [hs, hr]
    exact h.parties m hm

/-- One request, whatever it is and however far it gets: the state still follows the
history. -/
theorem attend (h : Follows σ history) {out : State × List Event} (hd : Does σ out) :
    Follows out.1 (history ++ out.2) := by
  cases hd with
  | nothing => simpa using h
  | sent hm => exact h.sent hm
  | cleared _ hc => exact h.cleared hc
  | marked => simpa using h.marked _

end Follows

/-- A whole run of requests, by induction over them. -/
theorem follows_attendAll (env : Env) (text : UserSearch) {rs : List Request}
    (hrs : ∀ r ∈ rs, r.call.messaging = true) {s : State × List Event} (h : Follows s.1 s.2) :
    Follows (attendAll env text s rs).1 (attendAll env text s rs).2 := by
  induction rs generalizing s with
  | nil => exact h
  | cons r rs ih =>
      refine ih (fun r' hr' => hrs r' (List.mem_cons_of_mem r hr')) ?_
      exact h.attend (does_attend env text r (hrs r List.mem_cons_self) s.1)

/-! ### What the query shows -/

/-- The query of `fetch_messages_for_user` without its join. -/
def Db.shownTo (db : Db) (v : UserId) : List MessageRow :=
  db.social.messages.filter fun m => (m.sender == v || m.recipient == v) && !db.cleared v m

theorem message_mem_shownTo {db : Db} {v : UserId} {w : MessageView} (hw : w ∈ db.messagesFor v) :
    w.message ∈ db.shownTo v := by
  obtain ⟨m, hm, hw⟩ := List.mem_flatMap.mp ((List.mergeSort_perm _ _).mem_iff.mp hw)
  obtain ⟨s, -, hw⟩ := List.mem_flatMap.mp hw
  obtain ⟨r, -, rfl⟩ := List.mem_map.mp hw
  exact hm

namespace Follows

variable {σ : State} {history : List Event}

/-- The `EXISTS` is a comparison with the watermark. -/
theorem cleared_eq (h : Follows σ history) (v : UserId) {m : MessageRow}
    (hm : m ∈ (Db.social σ.db).messages) :
    Db.cleared σ.db v m = decide (m.id ≤ Db.mark σ.db v (Db.partnerOf v m)) := by
  have hpos := (h.drawn m hm).1
  unfold Db.cleared Db.mark
  cases hc : Db.clearOf σ.db v (Db.partnerOf v m) with
  | none =>
      have hnone := List.find?_eq_none.mp hc
      have hgt : ¬ m.id ≤ 0 := by omega
      simp only [Option.map_none, Option.getD_none, hgt, decide_false, List.any_eq_false]
      intro c hcmem
      have := hnone c hcmem
      simp_all
  | some c =>
      obtain ⟨hcmem, hu, hp⟩ := mem_of_clearOf hc
      have hiff : (Db.clears σ.db).any (fun d => d.user == v && d.partner == Db.partnerOf v m &&
          m.id ≤ d.clearedThrough) = true ↔ m.id ≤ c.clearedThrough := by
        rw [List.any_eq_true]
        constructor
        · intro hany
          obtain ⟨d, hdmem, hd⟩ := hany
          simp only [Bool.and_eq_true, beq_iff_eq, decide_eq_true_eq] at hd
          obtain rfl : d = c := List.inj_on_of_nodup_map h.clearKeys hdmem hcmem
            (by rw [hd.1.1, hd.1.2, hu, hp])
          exact hd.2
        · intro hle
          exact ⟨c, hcmem, by simp [hu, hp, hle]⟩
      rw [Option.map_some, Option.getD_some, Bool.eq_iff_iff, hiff, decide_eq_true_iff]

theorem filter_user (h : Follows σ history) {i : UserId}
    (hi : (Db.social σ.db).userExists i = true) :
    ∃ row, (Db.social σ.db).users.filter (·.id == i) = [row] := by
  obtain ⟨row, hrow, hid⟩ := List.any_eq_true.mp hi
  obtain rfl : row.id = i := by simpa using hid
  exact ⟨row, Serial.filter_key h.userKeys hrow⟩

/-- The join shows each message once, since ids of users are unique. -/
theorem map_messagesFor (h : Follows σ history) (v : UserId) :
    ((Db.messagesFor σ.db v).map (·.message)).Perm (Db.shownTo σ.db v) := by
  refine ((List.mergeSort_perm _ _).map _).trans (List.Perm.of_eq ?_)
  have hsub : ∀ m ∈ Db.shownTo σ.db v, m ∈ (Db.social σ.db).messages := fun m hm =>
    (List.mem_filter.mp hm).1
  change List.map _ (List.flatMap _ (Db.shownTo σ.db v)) = _
  generalize Db.shownTo σ.db v = ms at hsub
  induction ms with
  | nil => rfl
  | cons m ms ih =>
      obtain ⟨-, hs, hr⟩ := h.parties m (hsub m List.mem_cons_self)
      obtain ⟨s, hs⟩ := h.filter_user hs
      obtain ⟨r, hr⟩ := h.filter_user hr
      rw [List.flatMap_cons, List.map_append, ih fun m' hm' => hsub m' (List.mem_cons_of_mem m hm')]
      simp [hs, hr]

/-- The watermarks show what the history leaves. -/
theorem map_shownTo (h : Follows σ history) (v : UserId) :
    (Db.shownTo σ.db v).map sentRow = visible v history := by
  rw [visible, ← h.tracks v, Clearing.shown, List.filter_map, Db.shownTo]
  refine congrArg _ (List.filter_congr fun m hm => ?_)
  rw [h.cleared_eq v hm, Bool.eq_iff_iff]
  by_cases hs : m.sender = v
  · simp [viewOf, sentRow, Db.partnerOf, hs]
  · by_cases hr : m.recipient = v
    · simp [viewOf, sentRow, Db.partnerOf, hs, hr]
    · simp [viewOf, sentRow, hs, hr]

end Follows

/-- What `fetch_messages_for_user` returns. -/
def fetchMessagesForUser (env : Env) (db : Db) (user : UserId) : List ForumMessage :=
  (db.messagesFor user).map (rowToMessage env)

/-- What `v` sees of its conversation with `p`. -/
def conversation (env : Env) (db : Db) (v p : UserId) : List ForumMessage :=
  (fetchMessagesForUser env db v).filter fun m => Db.partnerOf v (messageRow m) = p

/-- The conversation is decided by the messages and the clears of the pair. -/
theorem conversation_perm {env : Env} {db db' : Db} {v p : UserId}
    (hsocial : db'.social = db.social)
    (hcleared : ∀ m ∈ db.social.messages, Db.partnerOf v m = p → db'.cleared v m = db.cleared v m) :
    (conversation env db' v p).Perm (conversation env db v p) := by
  have hview : ∀ d : Db, (fun m => decide (Db.partnerOf v (messageRow m) = p)) ∘ rowToMessage env =
      fun w : MessageView => decide (Db.partnerOf v w.message = p) := fun d => rfl
  unfold conversation fetchMessagesForUser
  rw [List.filter_map, List.filter_map, hview db]
  refine List.Perm.map _ ?_
  refine ((List.mergeSort_perm _ _).filter _).trans
    (List.Perm.trans (List.Perm.of_eq ?_) ((List.mergeSort_perm _ _).filter _).symm)
  rw [hsocial]
  generalize db.social.messages = ms at hcleared
  induction ms with
  | nil => rfl
  | cons m ms ih =>
      have hrest := ih fun m' hm' => hcleared m' (List.mem_cons_of_mem m hm')
      by_cases hp : Db.partnerOf v m = p
      · have hm := hcleared m List.mem_cons_self hp
        rw [List.filter_cons, List.filter_cons, hm]
        split
        · rw [List.flatMap_cons, List.flatMap_cons, List.filter_append, List.filter_append, hrest]
        · exact hrest
      · -- whatever the join makes of it belongs to another conversation
        have hnone : ∀ us us' : List UserRow, ((us.flatMap fun s => us'.map fun r =>
            ({ message := m, sender := s, recipient := r } : MessageView)).filter
              fun w => decide (Db.partnerOf v w.message = p)) = [] := by
          intro us us'
          refine List.filter_eq_nil_iff.mpr fun w hw => ?_
          obtain ⟨s, -, hw⟩ := List.mem_flatMap.mp hw
          obtain ⟨r, -, rfl⟩ := List.mem_map.mp hw
          simpa using hp
        rw [List.filter_cons, List.filter_cons]
        split <;> split <;>
          simp only [List.flatMap_cons, List.filter_append, hnone, List.nil_append, hrest]

/-! ### Whole runs -/

namespace Does

variable {σ : State} {out : State × List Event}

/-- No row is lost, and a row keeps what was sent. -/
theorem rows (hd : Does σ out) :
    (Db.social σ.db).messages.map sentRow <+: (Db.social out.1.db).messages.map sentRow := by
  cases hd with
  | nothing => exact List.prefix_refl _
  | @sent m _ =>
      show _ <+: ((Db.social σ.db).messages ++ [m]).map sentRow
      rw [List.map_append]
      exact List.prefix_append _ _
  | cleared _ _ => exact List.prefix_refl _
  | marked => 
      rw [show (Db.social (⟨σ.seq, Db.markRead σ.db _⟩ : State).db).messages.map sentRow = _ from
        map_markRead sentRow σ.db _ fun _ => rfl]

/-- A watermark is never lowered: the upsert keeps the greater one. -/
theorem clearOf_le (hd : Does σ out) {u p : UserId} {c : ClearRow}
    (hc : Db.clearOf σ.db u p = some c) :
    ∃ c', Db.clearOf out.1.db u p = some c' ∧ c.clearedThrough ≤ c'.clearedThrough := by
  cases hd with
  | @cleared c' _ hc' =>
      have hnew : Db.clearOf (σ.write (E := engine) [.setClear c']).db u p = _ :=
        clearOf_setClear σ.db c' u p
      rw [hnew]
      split
      · rename_i hup
        refine ⟨c', rfl, ?_⟩
        rw [hc', hup.1, hup.2, Db.raisedMark, hc]
        exact le_max_left _ _
      · exact ⟨c, hc, le_refl _⟩
  | _ => exact ⟨c, hc, le_refl _⟩

/-- A clear by somebody else, or of another conversation. -/
theorem conversation (hd : Does σ out) {u q v p : UserId} (hevents : out.2 = [.cleared u q])
    (hother : u ≠ v ∨ q ≠ p) (env : Env) :
    (Forum.conversation env out.1.db v p).Perm (Forum.conversation env σ.db v p) := by
  cases hd with
  | @cleared c _ _ =>
      obtain ⟨rfl, rfl⟩ : c.user = u ∧ c.partner = q := by simpa using hevents
      refine conversation_perm rfl fun m _ hp => ?_
      show (((Db.clears σ.db).filter _) ++ [c]).any _ = (Db.clears σ.db).any _
      have hlast : ([c].any fun d => d.user == v && d.partner == Db.partnerOf v m &&
          m.id ≤ d.clearedThrough) = false := by
        rw [hp]
        rcases hother with hu | hq
        · simp [hu]
        · simp [hq]
      rw [List.any_append, hlast, Bool.or_false, List.any_filter, hp]
      refine congrArg (fun f => (Db.clears σ.db).any f) (funext fun d => ?_)
      by_cases hd : d.user = v ∧ d.partner = p
      · rcases hother with hu | hq
        · simp [hd.1, hd.2, Ne.symm hu]
        · simp [hd.1, hd.2, Ne.symm hq]
      · have hd' : (d.user == v && d.partner == p) = false := by simpa using hd
        simp [hd']
  | _ => cases hevents

end Does

/-- Whatever was sent, cleared and marked as read so far, every viewer sees the
messages sent since its own last clear of their conversation, each once. A further
call keeps every row and every watermark, and a clear by somebody else or of
another conversation changes nothing of what `v` sees of this one. -/
theorem history_visible (env : Env) (text : UserSearch) {seq : Nat} {db : Db} {rs : List Request}
    {s : State × List Event} (hu : (db.social.users.map (·.id)).Nodup)
    (hm : db.social.messages = []) (hc : db.clears = [])
    (hrs : ∀ r ∈ rs, r.call.messaging = true) (hs : attendAll env text (⟨seq, db⟩, []) rs = s) :
    (∀ v, ((fetchMessagesForUser env s.1.db v).map fun m => sentRow (messageRow m)).Perm
        (visible v s.2) ∧ ((fetchMessagesForUser env s.1.db v).map (·.id)).Nodup) ∧
      ∀ r, r.call.messaging = true →
        (Db.social s.1.db).messages.map sentRow <+:
            (Db.social (attend env text s r).1.db).messages.map sentRow ∧
          (∀ u p c, Db.clearOf s.1.db u p = some c → ∃ c',
            Db.clearOf (attend env text s r).1.db u p = some c' ∧
              c.clearedThrough ≤ c'.clearedThrough) ∧
          ∀ u q v p, (attend env text s r).2 = s.2 ++ [.cleared u q] → u ≠ v ∨ q ≠ p →
            (conversation env (attend env text s r).1.db v p).Perm
              (conversation env s.1.db v p) := by
  have hfollows : Follows s.1 s.2 := hs ▸ follows_attendAll env text hrs (.init hu hm hc)
  refine ⟨fun v => ⟨?_, ?_⟩, fun r hr => ?_⟩
  · rw [← hfollows.map_shownTo v, fetchMessagesForUser, List.map_map]
    have hrows := (hfollows.map_messagesFor v).map sentRow
    rwa [List.map_map] at hrows
  · have hids : ((Db.shownTo s.1.db v).map (·.id)).Nodup :=
      hfollows.keys.sublist (List.filter_sublist.map _)
    have hrows := (hfollows.map_messagesFor v).map (·.id)
    rw [List.map_map] at hrows
    rw [fetchMessagesForUser, List.map_map]
    exact hrows.symm.nodup hids
  · have hd := does_attend env text r hr s.1
    refine ⟨hd.rows, fun u p c hc => hd.clearOf_le hc, fun u q v p hevents hother => ?_⟩
    exact hd.conversation (List.append_cancel_left hevents) hother env

/-- 1 writes to 2, 2 clears the conversation, 2 answers, 1 marks the answer as read. -/
def exchange : List Request :=
  [⟨.social (.sendMessage (some 1) 2 "hello"), 0, fun _ => false⟩,
    ⟨.clearHistory (some 2) 1, 1, fun _ => false⟩,
    ⟨.social (.sendMessage (some 2) 1 "hi"), 2, fun _ => false⟩,
    ⟨.markConversationRead (some 1) 2, 3, fun _ => false⟩]

def clearBack : Request := ⟨.clearHistory (some 1) 2, 4, fun _ => false⟩

def mailDb : Db where
  social := freshDb demoUsers []
  posts := []
  postSeq := 0
  comments := []
  commentSeq := 0
  likes := []
  clears := []

/-- 2 sees its answer only. -/
theorem history_visible_exchange : ∃ s, attendAll demoEnv demoText (⟨0, mailDb⟩, []) exchange = s ∧
    ((fetchMessagesForUser demoEnv s.1.db 2).map fun m => sentRow (messageRow m)).Perm
      [⟨2, 2, 1, "hi", 2, false⟩] ∧
    (conversation demoEnv (attend demoEnv demoText s clearBack).1.db 2 1).Perm
      (conversation demoEnv s.1.db 2 1) := by
  refine ⟨_, rfl, ?_⟩
  have hall := @history_visible demoEnv demoText 0 mailDb exchange _ (by decide) rfl rfl
    (by decide) rfl
  have hvisible : visible 2 (attendAll demoEnv demoText (⟨0, mailDb⟩, []) exchange).2 =
      [⟨2, 2, 1, "hi", 2, false⟩] := by decide
  have hclear := hall.2 clearBack rfl
  exact ⟨hvisible ▸ (hall.1 2).1, hclear.2.2 1 2 2 1 (by decide) (.inl (by decide))⟩

end DevbitBackend.Forum
