import DevbitBackend.Lib.TxnBound
import DevbitBackend.Social.Runs
import DevbitBackend.Forum.Access

/-!
# Forum.Progress

The requests to `forum.rs` and the social requests that write (`Call`): none blocks another
for good, and each is answered after a bounded number of its own moves. The forum handlers
run outside transactions and lock no row, so what has to be shown is that a social call
never waits for a row in their company: whoever holds the lock of a request, or asks for
it, holds the lock of its pair.
-/

namespace DevbitBackend.Forum

open Txn Transition Social

/-! ### Row locks -/

section Waiting

variable {ι : Type} [DecidableEq ι] {env : Env} {poolSize : Nat} {faulty : Bool}
  {calls : ι → Call} {σ₀ : State} {s : Server ι}

/-- Inside a transaction the locks are those of a social call. -/
theorem locksOk_of_inTx {c : Call} {start : Nat} {H : List Lock} {σ : State} {buf : List Write}
    {notes : List Social.Event} (h : (contract env c).inTx start H σ buf notes) :
    ∃ buf₀, buf = buf₀.map Write.social ∧ LocksOk H (socialPart.snap σ) buf₀ := by
  cases c with
  | social c =>
      obtain ⟨H₀, buf₀, notes₀, rfl, rfl, -, hin⟩ := h
      refine ⟨buf₀, rfl, ?_⟩
      have hid : H₀.map socialPart.lock = H₀ := List.map_id H₀
      rw [hid]
      exact hin
  | _ => exact h.elim

/-- Whoever holds a lock holds the locks of a social transaction. -/
theorem holder (h : ServerInv env poolSize faulty calls σ₀ s) {l : Lock} {j : ι}
    (hl : s.lockOf l = some j) :
    ∃ H buf, Holds s j H ∧ l ∈ H ∧ LocksOk H (socialPart.snap s.snap) buf := by
  cases hc : s.calls j with
  | idle p => exact absurd (((h.call hc).2.1 l).mp hl) List.not_mem_nil
  | pool p => exact absurd (((h.call hc).1 l).mp hl) List.not_mem_nil
  | conn st k => exact absurd (((h.call hc).1 l).mp hl) List.not_mem_nil
  | done a => exact absurd (((h.call hc).1 l).mp hl) List.not_mem_nil
  | tx start buf notes p =>
      obtain ⟨-, H, hH, hsafe⟩ := h.call hc
      obtain ⟨buf₀, -, hlocks⟩ := locksOk_of_inTx hsafe.inTx
      exact ⟨H, buf₀, hH, (hH l).mp hl, hlocks⟩

/-- A request that two transactions have locked would have its pair locked twice. -/
theorem not_both_locked {H Hj : List Lock} {σ σ' : Social.State} {buf buf' bufj : List Social.Write}
    {st : Social.Stmt} {start : Nat} (hlocks : LocksOk H σ buf)
    (hlocks' : LocksOk
      (H ++ Social.rowLocks st start σ.seq (Social.engine.applyAll buf σ.db)) σ' buf')
    (hrequests : Db.requests σ'.db = Db.requests σ.db) (hj : LocksOk Hj σ bufj)
    (hdisjoint : ∀ l ∈ Hj, l ∉ H) {l : Lock}
    (hl : l ∈ Social.rowLocks st start σ.seq (Social.engine.applyAll buf σ.db)) : l ∉ Hj := by
  intro hlj
  obtain ⟨id, rfl, hid⟩ := rowLocks_cases hl
  have hrow : ¬ ∃ r ∈ Db.requests σ.db, r.id = id := by
    rintro ⟨r, hr, hrid⟩
    refine hdisjoint _ (hj.paired id hlj r hr hrid) ?_
    rcases List.mem_append.mp (hlocks'.paired id (List.mem_append_right _ hl) r
      (hrequests ▸ hr) hrid) with hin | hin
    · exact hin
    · obtain ⟨id', hid', -⟩ := rowLocks_cases hin
      exact absurd hid' (by simp [pairKey])
  rcases hid with ⟨r, hr, hrid⟩ | rfl
  · rcases mem_requests_applyAll hr with ⟨r₀, hr₀, hid₀⟩ | ⟨row, hins, hid₀⟩
    · exact hrow ⟨r₀, hr₀, hid₀.trans hrid⟩
    · -- a row of its own that nobody else has seen
      have hmine := hlocks.inserted row hins
      rw [hid₀, hrid] at hmine
      exact hdisjoint _ hlj hmine
  · -- a new id has not been given to anyone else
    exact absurd (hj.drawn _ hlj) (Int.not_le.mpr (Int.lt_succ _))

/-- **No call ever waits for a row.** -/
theorem neverWaits (h : ServerInv env poolSize faulty calls σ₀ s) (i : ι) : NeverWaits s i := by
  constructor
  · intro start buf notes st k hc hsome l hl
    cases st with
    | social st =>
        obtain ⟨-, H, hH, hin, hnext⟩ := h.call hc
        obtain ⟨buf₀, rfl, hlocks⟩ := locksOk_of_inTx hin
        obtain ⟨res, heval⟩ := Option.isSome_iff_exists.mp hsome
        have hafter := hnext s.snap (discipline.rely_refl H _) h.inv (h.known i)
        rw [show engine.eval (.social st) start s.snap.seq
          (engine.applyAll (buf₀.map Write.social) s.snap.db) = some res from heval] at hafter
        obtain ⟨buf₁, -, hlocks₁⟩ := locksOk_of_inTx hafter.inTx
        have hview : Db.social (engine.applyAll (buf₀.map Write.social) s.db) =
            Social.engine.applyAll buf₀ (Db.social s.db) := socialPart.view_applyAll buf₀ s.db
        change l ∈ Social.rowLocks st start s.seq
          (Db.social (engine.applyAll (buf₀.map Write.social) s.db)) at hl
        rw [hview] at hl
        by_contra hcon
        obtain ⟨hfree, hmine⟩ := not_or.mp hcon
        obtain ⟨j, hj⟩ := Option.ne_none_iff_exists'.mp hfree
        have hji : j ≠ i := fun heq => hmine (heq ▸ hj)
        obtain ⟨Hj, bufj, hHj, hlj, hlocksj⟩ := holder h hj
        have hrows : engine.locks (.social st) start s.snap.seq
            (engine.applyAll (buf₀.map Write.social) s.snap.db) =
            Social.rowLocks st start s.seq (Social.engine.applyAll buf₀ (Db.social s.db)) := by
          rw [← hview]
          rfl
        rw [hrows] at hlocks₁
        exact not_both_locked hlocks hlocks₁ rfl hlocksj (fun _ hl => hH.disjoint hHj hji hl) hl hlj
    | _ => exact absurd hl List.not_mem_nil
  · -- the statements on the pool lock no row
    intro st k hc hsome l hl
    obtain ⟨⟨r, ws⟩, heval⟩ := Option.isSome_iff_exists.mp hsome
    obtain ⟨hauto, -⟩ := h.autos hc heval
    have hnone : engine.locks st s.now s.seq s.db = [] := by
      cases hcall : calls i with
      | social c =>
          rw [hcall] at hauto
          obtain ⟨H₀, ws₀, hH₀, -, hsocial⟩ := hauto
          rw [show H₀ = [] from hsocial.1] at hH₀
          exact hH₀
      | _ =>
          rw [hcall] at hauto
          exact hauto.1
    rw [hnone] at hl
    exact absurd hl List.not_mem_nil

end Waiting

/-! ### How many moves a call takes -/

section Social

variable {n : Nat}

theorem within_requireViewer {identity : Option UserId} {k : UserId → Social.Code}
    (h : ∀ v, (k v).Within (n + 1)) : (requireViewer identity k).Within (n + 3) := by
  cases identity with
  | none => exact .done
  | some v =>
      refine .query fun found => ?_
      cases found with
      | false => exact .done
      | true => exact h v

theorem within_orFail {β : Type} {r : Except SocialError β} {k : β → Social.Code}
    (h : ∀ b, (k b).Within (n + 1)) : (orFail r k).Within (n + 1) := by
  cases r with
  | error e => exact .done
  | ok b => exact h b

theorem within_friendRequestView {env : Env} {id : RequestId} {k : FriendRequest → Social.Code}
    (h : ∀ v, (k v).Within (n + 1)) : (currentFriendRequestView env id k).Within (n + 3) := by
  refine .query fun row => ?_
  cases row with
  | none => exact .done
  | some row => exact h _

theorem within_createRequest (env : Env) (identity : Option UserId) (recipientId : Option Int)
    (message : Option String) :
    (createRequest env identity recipientId message).Within 17 := by
  refine within_requireViewer fun v => within_orFail fun t => ?_
  split
  · exact .done
  -- the transaction: the lock of the pair, four checks, the two lookups and the `INSERT`
  refine within_orFail fun m => .begin (.lock (.exec fun found => ?_))
  split
  · exact .done
  refine .exec fun blocked => ?_
  split
  · exact .done
  refine .exec fun policy => ?_
  split
  · exact .done
  refine .exec fun friends => ?_
  split
  · exact .done
  refine .exec fun existing => ?_
  cases existing with
  | some id => exact .commit (within_friendRequestView fun _ => .done)
  | none =>
      refine .exec fun reverse => ?_
      dsimp only
      split
      · exact .done
      refine .exec fun inserted => ?_
      cases inserted with
      | some id => exact .commit (.emit (within_friendRequestView fun _ => .done))
      | none =>
          refine .exec fun existing => ?_
          cases existing with
          | some id => exact .commit (.emit (within_friendRequestView fun _ => .done))
          | none => exact .done

theorem within_withPendingRequest {identity : Option UserId} {requestId : Int} {party : Party}
    {refusal : String} {k : UserId → RequestId → UserId → UserId → Social.Code}
    (h : ∀ v id s r, (k v id s r).Within (n + 1)) :
    (withPendingRequest identity requestId party refusal k).Within (n + 7) := by
  refine within_requireViewer fun v => within_orFail fun id => .begin (.exec fun row => ?_)
  cases row with
  | none => exact .done
  | some pair =>
      refine .lock (.exec fun row => ?_)
      cases row with
      | none => exact .done
      | some row =>
          dsimp only
          split
          · exact .done
          split
          · exact .done
          · exact h _ _ _ _

theorem within_getCurrentUser {env : Env} {id : UserId} {k : ForumUser → Social.Code}
    (h : ∀ u, (k u).Within (n + 1)) : (Social.getCurrentUser env id k).Within (n + 3) := by
  refine .query fun row => ?_
  cases row with
  | none => exact .done
  | some row => exact h _

theorem within_messagePermission {sender recipient : UserId} {k : MessagePermission → Social.Code}
    (h : ∀ p, (k p).Within n) : (messagePermission sender recipient k).Within (n + 2) := by
  unfold messagePermission
  split
  · exact (h _).mono (Nat.le_add_right n 2)
  · exact .query fun _ => h _

theorem within_sendMessage (env : Env) (identity : Option UserId) (recipientId : Int)
    (content : String) : (sendMessage env identity recipientId content).Within 17 := by
  unfold sendMessage
  cases identity with
  | none => exact .done
  | some id =>
      refine within_getCurrentUser fun sender => ?_
      split
      · exact .done
      generalize validateContent content maxMessageChars = checked
      cases checked with
      | none => exact .done
      | some content =>
          refine within_getCurrentUser fun recipient =>
            within_messagePermission fun permission => ?_
          split
          · exact .done
          · exact .query fun _ => .emit (.emit (.emit .done))

/-- A call of the social handlers. -/
theorem within_social (env : Env) (c : Social.Call) : (c.code env).Within 17 := by
  cases c with
  | createRequest v r m => exact within_createRequest env v r m
  | acceptRequest v id =>
      exact within_withPendingRequest fun _ _ _ _ => .exec fun _ => .exec fun _ => .exec fun _ =>
        .commit (within_friendRequestView fun _ => .emit (.emit (.emit (.emit .done))))
  | rejectRequest v id =>
      exact within_withPendingRequest fun _ _ _ _ => .exec fun _ =>
        .commit (within_friendRequestView fun _ => .emit (.emit .done))
  | cancelRequest v id =>
      exact within_withPendingRequest fun _ _ _ _ => .exec fun _ =>
        .commit (.emit (.emit .done))
  | removeFriend v u =>
      refine within_requireViewer fun viewer => within_orFail fun friend => ?_
      split
      · exact .done
      · exact .begin (.lock (.exec fun _ => .commit (.emit (.emit .done))))
  | blockUser v u =>
      refine within_requireViewer fun viewer => within_orFail fun target => ?_
      split
      · exact .done
      refine .query fun user => ?_
      split
      · exact .done
      · exact .begin (.lock (.exec fun _ => .exec fun _ => .commit (.emit (.emit .done))))
  | unblockUser v u =>
      refine within_requireViewer fun viewer => within_orFail fun target => ?_
      split
      · exact .done
      · exact .query fun _ => .emit (.emit .done)
  | updatePreferences v m f =>
      refine within_requireViewer fun viewer => ?_
      split
      · exact .done
      split
      · exact .done
      · exact .query fun _ => .done
  | sendMessage v u c => exact within_sendMessage env v u c

end Social

section Forum

variable {n : Nat} {env : Env}

theorem within_requireUserId {identity : Option UserId} {k : UserId → Code}
    (h : ∀ v, (k v).Within (n + 1)) : (requireUserId identity k).Within (n + 1) := by
  cases identity with
  | none => exact .done
  | some v => exact h v

theorem within_currentUser {id : UserId} {k : ForumUser → Code}
    (h : ∀ u, (k u).Within (n + 1)) : (getCurrentUser env id k).Within (n + 3) := by
  refine .query fun row => ?_
  cases row with
  | none => exact .done
  | some row => exact h _

theorem within_requireCurrentUser {identity : Option UserId} {k : ForumUser → Code}
    (h : ∀ u, (k u).Within (n + 1)) : (requireCurrentUser env identity k).Within (n + 3) :=
  within_requireUserId fun _ => within_currentUser h

theorem within_requireAuthor {user : ForumUser} {author : (Option UserId → Code) → Code} {k : Code}
    (hauthor : ∀ next : Option UserId → Code, (∀ a, (next a).Within (n + 1)) →
      (author next).Within (n + 3))
    (h : k.Within (n + 1)) : (requireAuthor user author k).Within (n + 3) := by
  unfold requireAuthor
  split
  · exact h.mono (by omega)
  · refine hauthor _ fun a => ?_
    cases a with
    | none => exact .done
    | some a =>
        dsimp only
        split
        · exact h
        · exact .done

theorem within_requireAdmin {user : ForumUser} {k : Code} (h : k.Within (n + 1)) :
    (requireAdmin user k).Within (n + 1) := by
  unfold requireAdmin
  split
  · exact h
  · exact .done

theorem within_orBadRequest {β : Type} {checked : Option β} {k : β → Code}
    (h : ∀ b, (k b).Within (n + 1)) : (orBadRequest checked k).Within (n + 1) := by
  cases checked with
  | none => exact .done
  | some b => exact h b

theorem within_affected {rows : Nat} {k : Code} (h : k.Within (n + 1)) :
    (affected rows k).Within (n + 1) := by
  unfold affected
  split
  · exact .done
  · exact h

theorem within_fetchPostById {id : PostId} {viewer : Option UserId} :
    (fetchPostById env id viewer).Within (n + 3) := by
  refine .query fun row => ?_
  cases row with
  | none => exact .done
  | some row => exact .done

/-- **No call takes more moves than these**, whatever it finds. -/
theorem Call.within (env : Env) (text : UserSearch) (c : Call) : (c.code env text).Within 17 := by
  cases c with
  | social c => exact (within_social env c).embed
  | bootstrap v =>
      refine .query fun _ => .query fun _ => .query fun _ => ?_
      cases v with
      | none => exact .done
      | some v => exact .query fun _ => .done
  | listUsers => exact .query fun _ => .done
  | listPosts v c => exact .query fun _ => .done
  | searchPosts v q =>
      change (Forum.searchPosts env text v q).Within 17
      unfold Forum.searchPosts
      split
      · exact .done
      · exact .query fun _ => .done
  | getPost v id => exact .query fun _ => within_fetchPostById
  | createPost v p =>
      exact within_requireCurrentUser fun _ => within_orBadRequest fun _ =>
        within_orBadRequest fun _ => within_orBadRequest fun _ => within_orBadRequest fun _ =>
          .query fun _ => .done
  | myPosts v => exact within_requireUserId fun _ => .query fun _ => .done
  | modifyPost v id c =>
      exact within_requireCurrentUser fun _ => within_requireAuthor (fun _ hn => .query hn)
        (within_orBadRequest fun _ => .query fun _ => within_affected .done)
  | deletePost v id =>
      exact within_requireCurrentUser fun _ => within_requireAuthor (fun _ hn => .query hn)
        (.query fun _ => within_affected .done)
  | togglePin v id | toggleLock v id =>
      exact within_requireCurrentUser fun _ => within_requireAdmin
        (.query fun _ => within_affected within_fetchPostById)
  | toggleLike v id =>
      refine within_requireUserId fun u => within_currentUser fun _ => .query fun found => ?_
      split
      · exact .done
      refine .query fun liked => ?_
      split
      · exact .query fun _ => within_fetchPostById
      · exact .query fun _ => within_fetchPostById
  | listComments id => exact .query fun _ => .done
  | createComment v id c =>
      refine within_requireCurrentUser fun _ => within_orBadRequest fun _ => .query fun post => ?_
      cases post with
      | none => exact .done
      | some locked =>
          dsimp only
          split
          · exact .done
          · exact .query fun _ => .done
  | deleteComment v id =>
      exact within_requireCurrentUser fun _ => within_requireAuthor (fun _ hn => .query hn)
        (.query fun _ => within_affected .done)
  | listMessages v => exact within_requireCurrentUser fun _ => .query fun _ => .done
  | markMessageRead v id | markConversationRead v id =>
      exact within_requireCurrentUser fun _ => .query fun _ => within_affected .done
  | searchUsers v q =>
      refine within_requireCurrentUser fun _ => ?_
      split
      · exact .done
      · exact .query fun _ => .done
  | clearHistory v p =>
      change (Forum.clearHistory v p).Within 17
      unfold Forum.clearHistory
      cases v with
      | none => exact .done
      | some v =>
          refine .query fun found => ?_
          dsimp only
          split
          · exact .done
          split
          · exact .done
          split
          · exact .done
          · exact .query fun _ => .query fun _ => .emit .done

end Forum

/-! ### The server -/

/-- The moves of a call: it arrives, and its code. -/
def maxMoves : Nat := 18

section Server

variable {ι : Type} [DecidableEq ι] {env : Env} {text : UserSearch} {db : Db}
  {seq now poolSize : Nat} {faulty : Bool} {calls : ι → Call} {ls : List (Label ι)} {s : Server ι}

/-- **Every call of the server is answered.** However the calls are interleaved, and
whatever fails: none takes more than `maxMoves` moves, some unfinished call can always
take its next one, and so every run can go on until each call has answered. -/
theorem calls_answered [Fintype ι] (hdb : Consistent ⟨seq, db⟩)
    (h : Run (serve poolSize faulty calls) (server env text db seq now calls) ls s)
    (hpool : 1 ≤ poolSize) :
    (∀ i, ls.countP (Label.moves i) ≤ maxMoves) ∧
      ((∃ i, ∀ a, s.calls i ≠ .done a) → ∃ i, (serve poolSize faulty calls (.run i) s).isSome) ∧
      ∃ ls' t, Run (serve poolSize faulty calls) s ls' t ∧ (∀ l ∈ ls', ∃ i, l = .run i) ∧
        ∀ i, ∃ a, t.calls i = .done a := by
  refine all_answered (fun i => .idle ((calls i).within env text)) (fun t ht hu => ?_) h
  have hinv : ServerInv env poolSize faulty calls ⟨seq, db⟩ t := serverInv_of_consistent hdb ht
  have hcount : t.inUse = busyCount t.calls :=
    inUse_eq_busy ht (Finset.sum_eq_zero fun i _ => rfl).symm
  exact progress hinv hcount hpool (neverWaits hinv) hu

end Server

/-- A friend request next to a new post, with one connection for both. -/
def demoPair (second : Bool) : Call :=
  if second then .createPost (some 2) ⟨"Hi", "All", none, none⟩
  else .social (.createRequest (some 1) (some 2) none)

/-- While the request holds the connection, the post has to wait, and the request can
go on. -/
theorem calls_answered_demoPair :
    ∃ s, replay (serve 1 false demoPair) (server demoEnv demoText demoDb 0 0 demoPair)
        [.run false, .run false, .run false, .run false, .run true] = some s ∧
      serve 1 false demoPair (.run true) s = none ∧
      ∃ i, (serve 1 false demoPair (.run i) s).isSome := by
  have hreplay : ((replay (serve 1 false demoPair)
      (server demoEnv demoText demoDb 0 0 demoPair)
      [.run false, .run false, .run false, .run false, .run true]).map fun s =>
        ((serve 1 false demoPair (.run true) s).isNone, (s.calls true).isDone)) =
      some (true, false) := by
    decide
  obtain ⟨s, hs, hflags⟩ := Option.map_eq_some_iff.mp hreplay
  obtain ⟨hwait, hdone⟩ := Prod.mk.inj hflags
  refine ⟨s, hs, Option.isNone_iff_eq_none.mp hwait, ?_⟩
  refine (calls_answered demoDb_consistent (run_of_replay hs) le_rfl).2.1 ⟨true, fun a ha => ?_⟩
  rw [ha] at hdone
  cases hdone

end DevbitBackend.Forum
