import DevbitBackend.Social.Authorship
import DevbitBackend.Social.Lifecycle

/-!
# Social.Provenance

Where the rows of the social tables come from and where they go, since some earlier moment
`db`. `Attributed` says of every row of now which call has made it, or has given it the
values it holds; `Retained` says of every row of then where it is, or which call has taken
it away. Both speak of the calls that have been made since (`made`).

A committed transaction and an autocommit statement keep both (`Commits.attributed`,
`Autos.attributed`, `Commits.retained`, `Autos.retained`). What happens to a friend request
is read off the commit: only its call knows which request it has found pending.
-/

namespace DevbitBackend.Social

open Txn

/-! ### Rows through updates -/

/-- The columns of a message that no `UPDATE` changes. -/
structure SameMessage (m m' : MessageRow) : Prop where
  id : m'.id = m.id
  sender : m'.sender = m.sender
  recipient : m'.recipient = m.recipient
  content : m'.content = m.content
  createdAt : m'.createdAt = m.createdAt

theorem SameMessage.refl (m : MessageRow) : SameMessage m m := ⟨rfl, rfl, rfl, rfl, rfl⟩

theorem SameMessage.trans {m₁ m₂ m₃ : MessageRow} (h : SameMessage m₁ m₂)
    (h' : SameMessage m₂ m₃) : SameMessage m₁ m₃ where
  id := h'.id.trans h.id
  sender := h'.sender.trans h.sender
  recipient := h'.recipient.trans h.recipient
  content := h'.content.trans h.content
  createdAt := h'.createdAt.trans h.createdAt

/-- The columns of a friend request that no `UPDATE` changes. -/
structure SameRequest (r r' : RequestRow) : Prop where
  id : r'.id = r.id
  sender : r'.sender = r.sender
  recipient : r'.recipient = r.recipient
  message : r'.message = r.message
  createdAt : r'.createdAt = r.createdAt

theorem SameRequest.refl (r : RequestRow) : SameRequest r r := ⟨rfl, rfl, rfl, rfl, rfl⟩

/-- A request that is settled keeps them. -/
theorem SameRequest.settle {r₀ r : RequestRow} (h : SameRequest r₀ r) (st : RequestStatus)
    (t : Nat) : SameRequest r₀ (r.settle st t) :=
  ⟨h.id, h.sender, h.recipient, h.message, h.createdAt⟩

theorem maySettle_settle {c : Call} {r : RequestRow} {st : RequestStatus} (t : Nat)
    (h : c.maySettle r st) : c.maySettle (r.settle st t) st := by
  cases st <;> exact h

/-! ### Where the rows come from -/

/-- The call sends the message. -/
def Call.Sends (c : Call) (m : MessageRow) : Prop :=
  ∃ content, c = .sendMessage (some m.sender) m.recipient content ∧
    validateContent content maxMessageChars = some m.content

/-- The call makes the friend request. -/
def Call.Requests (c : Call) (r : RequestRow) : Prop :=
  ∃ message, c = .createRequest (some r.sender) (some r.recipient) message ∧
    validateOptionalMessage message maxFriendRequestMessageChars = .ok r.message

/-- Where a friend request of now comes from, which was not one of `before`: its sender made
it. The status is the one it had, that of a new request, or one that a call has given it
which may. -/
structure RequestAttributed (made : Call → Prop) (before : List RequestRow) (r : RequestRow) :
    Prop where
  origin : (∃ r₀ ∈ before, SameRequest r₀ r) ∨ ∃ c, made c ∧ c.Requests r
  status : (∃ r₀ ∈ before, SameRequest r₀ r ∧ r₀.status = r.status) ∨
    ((∃ c, made c ∧ c.Requests r) ∧ r.status = .pending) ∨ ∃ c, made c ∧ c.maySettle r r.status

/-- Where the value of a column of the preferences of `u` comes from: it was stored, or it is
the default of a user who had nothing stored, or a call of the user has given it. -/
def PolicyAttributed (before : List PreferencesRow) (column : PreferencesRow → String)
    (u : UserId) (value : String) (given : Prop) : Prop :=
  (∃ p₀ ∈ before, p₀.user = u ∧ column p₀ = value) ∨
    ((∀ p₀ ∈ before, p₀.user ≠ u) ∧ value = "everyone") ∨ given

/-- Where the preferences of a user come from, which were not as now in `before`. -/
structure PreferencesAttributed (made : Call → Prop) (before : List PreferencesRow)
    (p : PreferencesRow) : Prop where
  stored : p ∈ before ∨ p.wellFormed = true ∧ ∃ messagePolicy friendRequestPolicy,
    made (.updatePreferences (some p.user) messagePolicy friendRequestPolicy)
  messagePolicy : PolicyAttributed before (·.messagePolicy) p.user p.messagePolicy
    (∃ other, made (.updatePreferences (some p.user) (some p.messagePolicy) other))
  friendRequestPolicy : PolicyAttributed before (·.friendRequestPolicy) p.user
    p.friendRequestPolicy
    (∃ other, made (.updatePreferences (some p.user) other (some p.friendRequestPolicy)))

/-- Where the rows of `db'` come from, which were not in `db`. -/
structure Attributed (made : Call → Prop) (db db' : Db) : Prop where
  messages : ∀ m ∈ db'.messages, (∃ m₀ ∈ db.messages, SameMessage m₀ m) ∨
    ∃ c, made c ∧ c.Sends m
  requests : ∀ r ∈ db'.requests, RequestAttributed made db.requests r
  friendships : ∀ f ∈ db'.friendships, f ∈ db.friendships ∨
    ∃ r ∈ db'.requests, f.isOf r.sender r.recipient = true ∧ r.status = .accepted ∧
      made (.acceptRequest (some r.recipient) r.id)
  blocks : ∀ k ∈ db'.blocks, k ∈ db.blocks ∨ made (.blockUser (some k.user) k.blocked)
  preferences : ∀ p ∈ db'.preferences, PreferencesAttributed made db.preferences p

/-- Where the rows of `db` are in `db'`, or who has taken them away. A friend request and a
message stay for good. -/
structure Retained (made : Call → Prop) (db db' : Db) : Prop where
  grows : Grows db db'
  messages : ∀ m ∈ db.messages, ∃ m' ∈ db'.messages, SameMessage m m' ∧
    (m.isRead = true → m'.isRead = true)
  friendships : ∀ f ∈ db.friendships, f ∈ db'.friendships ∨
    ∃ v t, made (.removeFriend (some v) t) ∧ f.isOf v t = true
  blocks : ∀ k ∈ db.blocks, k ∈ db'.blocks ∨ made (.unblockUser (some k.user) k.blocked)
  preferences : ∀ p ∈ db.preferences, p ∈ db'.preferences ∨
    (∃ p' ∈ db'.preferences, p'.user = p.user) ∧ ∃ messagePolicy friendRequestPolicy,
      made (.updatePreferences (some p.user) messagePolicy friendRequestPolicy)

/-! ### Lists of rows -/

section Rows

variable {α : Type} {P : α → Prop} {rows rows' : List α} {r : α}

/-- A row that is inserted, or one that was there. -/
theorem forall_mem_insert (h : ∀ r ∈ rows, P r) (hr : P r) : ∀ r' ∈ rows ++ [r], P r' :=
  List.forall_mem_append.mpr ⟨h, List.forall_mem_singleton.mpr hr⟩

/-- A row that stays when another is inserted. -/
theorem kept_insert (h : ∀ r ∈ rows, r ∈ rows' ∨ P r) : ∀ r' ∈ rows, r' ∈ rows' ++ [r] ∨ P r' :=
  fun r' hr' => (h r' hr').imp_left (List.mem_append_left _)

/-- A row that stays unless the filter drops it. -/
theorem kept_filter {keep : α → Bool} (h : ∀ r ∈ rows, r ∈ rows' ∨ P r)
    (hdrop : ∀ r ∈ rows, keep r = false → P r) : ∀ r ∈ rows, r ∈ rows'.filter keep ∨ P r := by
  intro r hr
  rcases h r hr with hmem | hgone
  · cases hkeep : keep r with
    | true => exact .inl (List.mem_filter.mpr ⟨hmem, hkeep⟩)
    | false => exact .inr (hdrop r hr hkeep)
  · exact .inr hgone

end Rows

/-! ### What a commit keeps -/

section Commit

variable {made : Call → Prop} {c : Call} {db db' : Db} {σ : State} {H : List Lock}
  {now : Nat} {v t : UserId} {ws : List Write}

theorem RequestAttributed.refl {before : List RequestRow} {r : RequestRow} (hr : r ∈ before) :
    RequestAttributed made before r :=
  ⟨.inl ⟨r, hr, .refl r⟩, .inl ⟨r, hr, .refl r, rfl⟩⟩

/-- A call that may settles it. -/
theorem RequestAttributed.settle {before : List RequestRow} {r : RequestRow} {st : RequestStatus}
    (h : RequestAttributed made before r) (hc : made c) (hmay : c.maySettle r st) (t : Nat) :
    RequestAttributed made before (r.settle st t) where
  origin := h.origin.imp_left fun ⟨r₀, hr₀, hsame⟩ => ⟨r₀, hr₀, hsame.settle st t⟩
  status := .inr (.inr ⟨c, hc, maySettle_settle t hmay⟩)

theorem PreferencesAttributed.refl {before : List PreferencesRow} {p : PreferencesRow}
    (hp : p ∈ before) : PreferencesAttributed made before p :=
  ⟨.inl hp, .inl ⟨p, hp, rfl, rfl⟩, .inl ⟨p, hp, rfl, rfl⟩⟩

theorem Attributed.refl : Attributed made db db where
  messages m hm := .inl ⟨m, hm, .refl m⟩
  requests _ hr := .refl hr
  friendships _ hf := .inl hf
  blocks _ hk := .inl hk
  preferences _ hp := .refl hp

theorem Retained.refl : Retained made db db where
  grows := .refl db
  messages m hm := ⟨m, hm, .refl m, id⟩
  friendships _ hf := .inl hf
  blocks _ hk := .inl hk
  preferences _ hp := .inl hp

/-- An `UPDATE` that settles pending requests, for a call that may. The accepted request of
a friendship is not among them. -/
theorem attributed_setStatus (h : Attributed made db db') {ids : List RequestId}
    {st : RequestStatus} (hc : made c)
    (hids : ∀ r ∈ db'.requests, r.id ∈ ids → r.isPending = true ∧ c.maySettle r st) :
    Attributed made db (Write.apply (.setStatus ids st now) db') := by
  refine { h with requests := fun r' hr' => ?_, friendships := fun f hf => ?_ }
  · obtain ⟨r, hr, rfl⟩ := List.mem_map.mp hr'
    split
    · rename_i hid
      exact (h.requests r hr).settle hc (hids r hr hid).2 now
    · exact h.requests r hr
  · refine (h.friendships f hf).imp_right ?_
    rintro ⟨r, hr, hof, haccepted, hmade⟩
    have hid : r.id ∉ ids := by
      intro hid
      have hpending := (hids r hr hid).1
      rw [RequestRow.isPending, haccepted] at hpending
      cases hpending
    refine ⟨r, List.mem_map.mpr ⟨r, hr, ?_⟩, hof, haccepted, hmade⟩
    rw [if_neg hid]

/-- The call settles the request that it has found pending. -/
theorem attributed_settles (h : Attributed made db σ.db) (hinv : Consistent σ) {id : RequestId}
    {r : RequestRow} {st : RequestStatus} (hp : Pending σ v t id r) (hc : made c)
    (hmay : c.maySettle r st) :
    Attributed made db (Write.apply (.setStatus [id] st now) σ.db) := by
  refine attributed_setStatus h hc fun r' hr' hid => ?_
  obtain rfl := hp.only hinv r' hr' (List.mem_singleton.mp hid)
  exact ⟨(Db.mem_pendingBetween.mp hp.mem).2.2, hmay⟩

/-- `block_user` cancels what is pending between the two users. -/
theorem attributed_settleRows (h : Attributed made db db')
    (hkeys : (db'.requests.map (·.id)).Nodup) (hc : made (.blockUser (some v) t)) :
    Attributed made db
      (engine.applyAll (settleRows (db'.pendingBetween v t) .cancelled now) db') := by
  unfold settleRows
  split
  · exact h
  · refine attributed_setStatus h hc fun r hr hid => ?_
    obtain ⟨p, hp, hpid⟩ := List.mem_map.mp hid
    obtain ⟨hmem, hbetween, hpending⟩ := Db.mem_pendingBetween.mp hp
    obtain rfl := List.inj_on_of_nodup_map hkeys hmem hr hpid
    refine ⟨hpending, .inr ?_⟩
    rcases RequestRow.between_iff.mp hbetween with ⟨rfl, rfl⟩ | ⟨rfl, rfl⟩
    · exact .inl rfl
    · exact .inr rfl

/-- **What a transaction commits is its call's doing.** -/
theorem Commits.attributed (hcommit : Commits σ H now c v t ws) (hinv : Consistent σ)
    (h : Attributed made db σ.db) (hc : made c) (hasks : ∀ w ∈ ws, c.Asks w) :
    Attributed made db (engine.applyAll ws σ.db) := by
  cases hcommit with
  | repeated => exact h
  | @created _ _ rid msg row hnew =>
      obtain ⟨message, hcall, hmessage, hpending⟩ := hasks _ (List.mem_singleton_self _)
      have hrequests : Call.Requests _ row := ⟨message, hcall, hmessage⟩
      refine { h with
        requests := forall_mem_insert h.requests
          ⟨.inr ⟨_, hc, hrequests⟩, .inr (.inl ⟨⟨_, hc, hrequests⟩, hpending⟩)⟩
        friendships := fun f hf => (h.friendships f hf).imp_right ?_ }
      exact .imp fun r hr => ⟨List.mem_append_left _ hr.1, hr.2⟩
  | @accepted _ _ id r hp hrec hsen hnot =>
      -- the friendship is attributed to the request, which is settled by the same commit
      subst hrec hsen
      have hid : id = r.id := hp.id.symm
      subst hid
      have hsettled : Attributed made db (Write.apply (.setStatus [r.id] .accepted now) σ.db) :=
        attributed_settles h hinv hp hc rfl
      refine { hsettled with friendships := forall_mem_insert hsettled.friendships (.inr ?_) }
      refine ⟨r.settle .accepted now, List.mem_map.mpr ⟨r, ?_, ?_⟩, ?_, rfl, hc⟩
      · exact (Db.mem_pendingBetween.mp hp.mem).1
      · rw [if_pos (List.mem_singleton_self _)]
      · change FriendshipRow.isOf r.sender r.recipient _ = true
        simp [FriendshipRow.isOf, min_comm, max_comm]
  | @rejected _ _ id r hp hrec hsen =>
      subst hrec hsen
      obtain rfl := hp.id
      exact attributed_settles h hinv hp hc rfl
  | @cancelled _ _ id r hp hsen hrec =>
      subst hrec hsen
      obtain rfl := hp.id
      exact attributed_settles h hinv hp hc (.inl rfl)
  | removed hws =>
      subst hws
      split
      · exact { h with friendships := fun f hf => h.friendships f (List.mem_of_mem_filter hf) }
      · exact h
  | @blocked _ _ ws hne hv ht hws =>
      rw [engine.applyAll_append]
      rcases hws with rfl | ⟨rfl, -⟩
      · exact attributed_settleRows h hinv.schema.requestKeys hc
      · have hblock : Attributed made db (Write.apply (.insertBlock ⟨v, t, now⟩) σ.db) :=
          { h with blocks := forall_mem_insert h.blocks (.inr hc) }
        exact attributed_settleRows hblock hinv.schema.requestKeys hc

/-- **Nor does it take anything else away.** -/
theorem Commits.retained (hcommit : Commits σ H now c v t ws) (hH : pairKey v t ∈ H)
    (hinv : Consistent σ) (h : Retained made db σ.db) (hc : made c) :
    Retained made db (engine.applyAll ws σ.db) := by
  have hgrows : Grows db (engine.applyAll ws σ.db) :=
    h.grows.trans (hcommit.sound hH hinv).2.1.2
  cases hcommit with
  | repeated => exact h
  | created | rejected | cancelled => exact { h with grows := hgrows }
  | accepted =>
      exact { h with grows := hgrows, friendships := kept_insert h.friendships }
  | removed hws =>
      subst hws
      -- a friendship goes only by the call of one of the two
      split at hgrows
      · rename_i hfriends
        rw [if_pos hfriends]
        refine { h with
          grows := hgrows
          friendships := kept_filter h.friendships fun f _ hdrop => ⟨v, t, hc, ?_⟩ }
        rw [FriendshipRow.isOf]
        simpa only [Bool.not_eq_false'] using hdrop
      · rename_i hfriends
        rw [if_neg hfriends]
        exact h
  | @blocked _ _ ws hne hv ht hws =>
      have hblock : Retained made db (engine.applyAll ws σ.db) := by
        rcases hws with rfl | ⟨rfl, -⟩
        · exact h
        · exact { h with
            grows := ⟨h.grows.users, h.grows.rows⟩
            blocks := kept_insert h.blocks }
      rw [engine.applyAll_append] at hgrows ⊢
      revert hgrows
      unfold settleRows
      split
      · exact fun _ => hblock
      · exact fun hgrows => { hblock with grows := hgrows }

end Commit

/-! ### What a statement keeps -/

section Auto

variable {made : Call → Prop} {c : Call} {db db' : Db} {σ : State} {v u : UserId}
  {ws : List Write}

/-- The value of a column after `update_preferences`: a value that is not given is the one
that is stored, and nobody's preferences go away. -/
theorem policyAttributed_merge {before rows : List PreferencesRow}
    {column : PreferencesRow → String} {G : String → Prop} {value : Option String}
    (hrows : ∀ p ∈ rows, p.user = u →
      PolicyAttributed before column u (column p) (G (column p)))
    (hstay : ∀ p₀ ∈ before, ∃ p ∈ rows, p.user = p₀.user)
    (hgiven : ∀ x, value = some x → G x) {merged : String}
    (hmerged : merged = value.getD (((rows.find? (·.user == u)).map column).getD "everyone")) :
    PolicyAttributed before column u merged (G merged) := by
  subst hmerged
  cases value with
  | some x => exact .inr (.inr (hgiven x rfl))
  | none =>
      cases hfind : rows.find? (·.user == u) with
      | some p =>
          have huser : p.user = u := by simpa using List.find?_some hfind
          exact hrows p (List.mem_of_find?_eq_some hfind) huser
      | none =>
          refine .inr (.inl ⟨fun p₀ hp₀ huser => ?_, rfl⟩)
          obtain ⟨p, hp, hsame⟩ := hstay p₀ hp₀
          have hnot := List.find?_eq_none.mp hfind p hp
          exact hnot (beq_iff_eq.mpr (hsame.trans huser))

/-- Nobody's preferences go away: a user who had a row has one. -/
theorem Retained.preferencesStay (h : Retained made db db') :
    ∀ p₀ ∈ db.preferences, ∃ p ∈ db'.preferences, p.user = p₀.user := by
  intro p₀ hp₀
  rcases h.preferences p₀ hp₀ with hmem | ⟨hstay, -⟩
  · exact ⟨p₀, hmem, rfl⟩
  · exact hstay

/-- **What an autocommit statement writes is its call's doing.** -/
theorem Autos.attributed (hauto : Autos σ c ws) (h : Attributed made db σ.db)
    (hret : Retained made db σ.db) (hc : made c) (hasks : ∀ w ∈ ws, c.Asks w) :
    Attributed made db (engine.applyAll ws σ.db) := by
  cases hauto with
  | read => exact h
  | unblocked => exact { h with blocks := fun k hk => h.blocks k (List.mem_of_mem_filter hk) }
  | @preferred v m f p hmerges hwell _ =>
      obtain rfl := hmerges.user
      -- each of the two policies is the given one or the one that was stored
      have hnew : PreferencesAttributed made db.preferences p := by
        refine ⟨.inr ⟨hwell, m, f, hc⟩, ?_, ?_⟩
        · refine policyAttributed_merge
            (G := fun x => ∃ other, made (.updatePreferences (some p.user) (some x) other))
            (fun q hq huser => ?_) hret.preferencesStay (fun x hx => ⟨f, hx ▸ hc⟩)
            hmerges.messagePolicy
          exact huser ▸ (h.preferences q hq).messagePolicy
        · refine policyAttributed_merge
            (G := fun x => ∃ other, made (.updatePreferences (some p.user) other (some x)))
            (fun q hq huser => ?_) hret.preferencesStay (fun x hx => ⟨m, hx ▸ hc⟩)
            hmerges.friendRequestPolicy
          exact huser ▸ (h.preferences q hq).friendRequestPolicy
      have hold : ∀ q ∈ (Db.preferences σ.db).filter (·.user != p.user),
          PreferencesAttributed made db.preferences q :=
        fun q hq => h.preferences q (List.mem_of_mem_filter hq)
      exact { h with preferences := forall_mem_insert hold hnew }
  | @messaged v t text m hsender hrecipient =>
      -- the text that is stored is the content of the call, trimmed
      obtain ⟨content, hcall, hcontent, -⟩ := hasks _ (List.mem_singleton_self _)
      exact { h with
        messages := forall_mem_insert h.messages (.inr ⟨_, hc, content, hcall, hcontent⟩) }

/-- **Nor does it take anything else away.** -/
theorem Autos.retained (hauto : Autos σ c ws) (h : Retained made db σ.db) (hc : made c) :
    Retained made db (engine.applyAll ws σ.db) := by
  cases hauto with
  | read => exact h
  | @unblocked v t =>
      refine { h with
        grows := ⟨h.grows.users, h.grows.rows⟩
        blocks := kept_filter h.blocks fun k _ hdrop => ?_ }
      -- a block goes only by the call of the one who made it
      obtain ⟨rfl, rfl⟩ : k.user = v ∧ k.blocked = t := by simpa using hdrop
      exact hc
  | @preferred v m f p hmerges _ _ =>
      obtain rfl := hmerges.user
      have hnew : ∃ p' ∈ (Write.apply (.setPreferences p) σ.db).preferences, p'.user = p.user :=
        ⟨p, List.mem_append_right _ (List.mem_singleton_self p), rfl⟩
      refine { h with
        grows := ⟨h.grows.users, h.grows.rows⟩
        preferences := fun q hq => ?_ }
      by_cases huser : q.user = p.user
      · rw [huser]
        exact .inr ⟨hnew, m, f, hc⟩
      · rcases h.preferences q hq with hmem | ⟨⟨q', hq', hsame⟩, hmade⟩
        · refine .inl (List.mem_append_left _ (List.mem_filter.mpr ⟨hmem, ?_⟩))
          simpa using huser
        · refine .inr ⟨⟨q', List.mem_append_left _ (List.mem_filter.mpr ⟨hq', ?_⟩), hsame⟩, hmade⟩
          rw [hsame]
          simpa using huser
  | messaged _ _ =>
      exact { h with
        grows := ⟨h.grows.users, h.grows.rows⟩
        messages := fun m₀ hm₀ => (h.messages m₀ hm₀).imp fun m' hm' =>
          ⟨List.mem_append_left _ hm'.1, hm'.2⟩ }

end Auto

end DevbitBackend.Social
