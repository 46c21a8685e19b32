import DevbitBackend.Forum.Access
import DevbitBackend.Social.Unauthorized

/-!
# Forum.Unauthorized

Who is answered 401. A client that gets it drops its session, so it should be about the
caller only, and it is but for one message (`unauthorized_iff`).
-/

namespace DevbitBackend.Forum

open Txn Social

/-- The answer has status 401. -/
def Answer.unauthorized : Answer → Bool
  | .social a => a.unauthorized
  | .failure code => code == 401
  | _ => false

/-- The answer is not about the caller. -/
abbrev Authorized (a : Answer) : Prop := a.unauthorized = false

/-- A 401 is about the caller. -/
abbrev Judged (identity : Option UserId) (σ : State) (out : State × Answer) : Prop :=
  out.2.unauthorized = true → Social.Db.Unauthenticated (Db.social σ.db) identity

section Handlers

variable {fails : Nat → Bool} {now : Nat} {σ : State} {env : Env}

theorem judged_of_authorized {identity : Option UserId} {out : State × Answer}
    (h : Authorized out.2) : Judged identity σ out := fun hout => by
  rw [h] at hout
  cases hout

theorem ends_answers {identity : Option UserId} {failed : Answer} {p : Code} {n : Nat}
    (hfailed : Authorized failed) (h : p.Answers Authorized) :
    Ends (Judged identity σ) failed fails now p n none σ :=
  fun _ => judged_of_authorized (h.solo hfailed)

/-- Behind the check of the caller the text of the handler decides. -/
theorem ends_caller {identity : Option UserId} {k : UserId → ForumUser → Code}
    (hk : ∀ id user, (k id user).Answers Authorized) :
    Ends (Judged identity σ) (.failure 500) fails now
      (requireUserId identity fun id => getCurrentUser env id (k id)) 0 none σ := by
  cases identity with
  | none => exact .done fun _ _ v hv => nomatch hv
  | some id =>
  refine .query_read (fun db => db.social.loadUser id) (fun _ _ _ => rfl) rfl
    (fun _ => judged_of_authorized rfl) ?_
  have hexists := loadUser_isSome (Db.social σ.db) id
  cases hrow : (Db.social σ.db).loadUser id with
  | none =>
      rw [hrow] at hexists
      exact .done fun _ _ v hv => Option.some.inj hv ▸ hexists.symm
  | some row => exact fun _ => judged_of_authorized ((hk _ _).solo rfl)

theorem answers_fail {code : Nat} (h : code ≠ 401) : (fail code).Answers Authorized :=
  .done (beq_eq_false_iff_ne.mpr h)

theorem answers_orBadRequest {β : Type} {checked : Option β} {k : β → Code}
    (hk : ∀ b, (k b).Answers Authorized) : (orBadRequest checked k).Answers Authorized := by
  cases checked with
  | none => exact answers_fail (by decide)
  | some b => exact hk b

theorem answers_affected {rows : Nat} {k : Code} (hk : k.Answers Authorized) :
    (affected rows k).Answers Authorized :=
  .ite (answers_fail (by decide)) hk

theorem answers_fetchPostById {id : PostId} {viewer : Option UserId} :
    (fetchPostById env id viewer).Answers Authorized := by
  refine .query fun row => ?_
  cases row with
  | none => exact answers_fail (by decide)
  | some row => exact .done rfl

theorem answers_author {user : ForumUser} {authorId : Option UserId} {k : Code}
    (hk : k.Answers Authorized) :
    (match authorId with
      | none => fail 404
      | some authorId => if authorId = user.id then k else fail 403 : Code).Answers Authorized := by
  cases authorId with
  | none => exact answers_fail (by decide)
  | some authorId => exact .ite hk (answers_fail (by decide))

theorem answers_requirePostModerator {id : PostId} {user : ForumUser} {k : Code}
    (hk : k.Answers Authorized) : (requirePostModerator id user k).Answers Authorized :=
  .ite hk (.query fun _ => answers_author hk)

theorem answers_requireCommentModerator {id : CommentId} {user : ForumUser} {k : Code}
    (hk : k.Answers Authorized) : (requireCommentModerator id user k).Answers Authorized :=
  .ite hk (.query fun _ => answers_author hk)

theorem ends_clearHistory_judged {identity : Option UserId} {partnerId : Int} :
    Ends (Judged identity σ) (.social (.error .internal)) fails now
      (clearHistory identity partnerId) 0 none σ := by
  unfold clearHistory
  cases identity with
  | none => exact .done fun _ _ v hv => nomatch hv
  | some viewer =>
  refine .query_read (fun db => db.social.userExists viewer) (fun _ _ _ => rfl) rfl
    (fun _ => judged_of_authorized rfl) ?_
  cases hexists : (Db.social σ.db).userExists viewer with
  | false => exact .done fun _ _ v hv => Option.some.inj hv ▸ hexists
  | true =>
  simp only [Bool.not_true, Bool.false_eq_true, if_false]
  refine ends_answers rfl ?_
  cases hpartner : positiveId partnerId "partnerId" with
  | error e => exact .done (beq_eq_false_iff_ne.mpr (positiveId_status hpartner))
  | ok partner =>
      refine .ite (.done (beq_eq_false_iff_ne.mpr (validation_status _ _))) ?_
      exact .query fun _ => .query fun _ => .emit (.done rfl)

/-- The handlers of the forum, one after another: where each first looks for the user, and
what it answers without one. -/
theorem judged_forum (text : UserSearch) (c : Call) (hc : ∀ sc, c ≠ .social sc) :
    Ends (Judged c.caller σ) c.failed fails now (c.code env text) 0 none σ := by
  cases c with
  | social sc => exact absurd rfl (hc sc)
  | bootstrap v =>
      refine ends_answers rfl (.query fun users => .query fun posts => .query fun comments => ?_)
      cases v with
      | none => exact .done rfl
      | some v => exact .query fun messages => .done rfl
  | listUsers => exact ends_answers rfl (.query fun _ => .done rfl)
  | listPosts v category => exact ends_answers rfl (.query fun _ => .done rfl)
  | searchPosts v q =>
      have hsearch : (searchPosts env text v q).Answers Authorized := by
        unfold searchPosts
        cases searchTerm text.toLowercase q with
        | none => exact .done rfl
        | some term => exact .query fun _ => .done rfl
      exact ends_answers rfl hsearch
  | getPost v id => exact ends_answers rfl (.query fun _ => answers_fetchPostById)
  | createPost v payload =>
      refine ends_caller fun id user => ?_
      refine answers_orBadRequest fun title => answers_orBadRequest fun content => ?_
      refine answers_orBadRequest fun category => answers_orBadRequest fun tags => ?_
      exact .query fun row => .done rfl
  | myPosts v =>
      cases v with
      | none => exact .done fun _ _ v hv => nomatch hv
      | some v => exact ends_answers rfl (.query fun _ => .done rfl)
  | modifyPost v id content =>
      refine ends_caller fun _ user => answers_requirePostModerator ?_
      exact answers_orBadRequest fun _ => .query fun rows => answers_affected (.done rfl)
  | deletePost v id =>
      refine ends_caller fun _ user => answers_requirePostModerator ?_
      exact .query fun rows => answers_affected (.done rfl)
  | togglePin v id =>
      refine ends_caller fun _ user => .ite ?_ (answers_fail (by decide))
      exact .query fun rows => answers_affected answers_fetchPostById
  | toggleLock v id =>
      refine ends_caller fun _ user => .ite ?_ (answers_fail (by decide))
      exact .query fun rows => answers_affected answers_fetchPostById
  | toggleLike v id =>
      refine ends_caller fun caller user => .query fun found => ?_
      refine .ite (answers_fail (by decide)) (.query fun liked => ?_)
      exact .ite (.query fun _ => answers_fetchPostById) (.query fun _ => answers_fetchPostById)
  | listComments id => exact ends_answers rfl (.query fun _ => .done rfl)
  | createComment v id content =>
      refine ends_caller fun _ user => answers_orBadRequest fun _ => .query fun post => ?_
      cases post with
      | none => exact answers_fail (by decide)
      | some locked => exact .ite (answers_fail (by decide)) (.query fun row => .done rfl)
  | deleteComment v id =>
      refine ends_caller fun _ user => answers_requireCommentModerator ?_
      exact .query fun rows => answers_affected (.done rfl)
  | listMessages v => exact ends_caller fun _ user => .query fun _ => .done rfl
  | markMessageRead v id =>
      exact ends_caller fun _ user => .query fun rows => answers_affected (.done rfl)
  | markConversationRead v partner =>
      exact ends_caller fun _ user => .query fun rows => answers_affected (.done rfl)
  | searchUsers v q =>
      refine ends_caller fun _ user => ?_
      cases searchTerm text.toLowercase q with
      | none => exact .done rfl
      | some term => exact .query fun users => .done rfl
  | clearHistory v partnerId => exact ends_clearHistory_judged

end Handlers

/-- A request to the server: to a handler that writes, or to one that only reads. -/
inductive Ask
  | call (c : Call)
  | read (identity : Option UserId) (r : Read)
  deriving DecidableEq, Repr

/-- The user whose token it carries. -/
def Ask.caller : Ask → Option UserId
  | .call c => c.caller
  | .read identity _ => identity

/-- It is answered 401 in the state `σ` when no database call fails. -/
def Ask.refused (codec : CursorCodec) (env : Env) (text : UserSearch) (now : Nat) (σ : State) :
    Ask → Bool
  | .call c => ((c.code env text).solo c.failed noFailure now 0 none σ).2.unauthorized
  | .read identity r => Social.refused (r.serve codec env text σ.db identity)

/-- A message to a user that does not exist, from one that does. -/
def Ask.Stranded (db : Db) : Ask → Prop
  | .call (.social (.sendMessage identity recipientId content)) =>
      db.social.StrandedMessage identity recipientId content
  | _ => False

/-- **401 is about the caller**, in every state of the tables and for every request, if
and only if the request is not a message to a user that does not exist. -/
theorem unauthorized_iff (codec : CursorCodec) (env : Env) (text : UserSearch) (now : Nat)
    (σ : State) (ask : Ask) :
    (ask.refused codec env text now σ = true →
      Social.Db.Unauthenticated (Db.social σ.db) ask.caller) ↔ ¬ ask.Stranded σ.db := by
  cases ask with
  | read identity r => exact iff_of_true unauthenticated_of_refused not_false
  | call c =>
      have hforum : ∀ hc : ∀ sc, c ≠ .social sc,
          Judged c.caller σ ((c.code env text).solo c.failed noFailure now 0 none σ) :=
        fun hc => judged_forum text c hc (noneBefore_zero noFailure)
      cases c with
      | social sc =>
          have hsolo : ((Call.social sc).code env text).solo (Call.social sc).failed noFailure now 0
              none σ = _ := solo_embed (sc.code env) 0 σ
          rw [Ask.refused, hsolo]
          cases sc with
          | sendMessage v r m =>
              exact ends_sendMessage_judged v r m (noneBefore_zero noFailure)
          | _ =>
              refine iff_of_true ?_ not_false
              exact judged_social _ (by simp) _ rfl (noneBefore_zero noFailure)
      | _ => exact iff_of_true (hforum (by simp)) not_false

/-! 1 writes to 99, who does not exist, and is answered 401. -/

def strandedMessage : Ask := .call (.social (.sendMessage (some 1) 99 "hi"))

theorem unauthorized_of_other :
    strandedMessage.refused hugeCodec demoEnv demoText 0 ⟨0, demoDb⟩ = true ∧
      ¬ Social.Db.Unauthenticated (Db.social demoDb) strandedMessage.caller :=
  ⟨by decide, fun h => absurd (h 1 rfl) (by decide)⟩

end DevbitBackend.Forum
