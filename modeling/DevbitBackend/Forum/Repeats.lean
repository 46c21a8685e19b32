import DevbitBackend.Social.Repeats
import DevbitBackend.Forum.History

/-!
# Forum.Repeats

Repeating an idempotent social call, next to the calls of the forum: the relationship calls
of `Social.Repeats`, and `clear_history`, whose upsert takes the `GREATEST` of the
old and the new watermark.
-/

namespace DevbitBackend.Forum

open Txn Social

/-- The calls that may be repeated. -/
def Call.idempotent : Call → Bool
  | .social c => c.idempotent
  | .clearHistory _ _ => true
  | _ => false

/-- The handler returned `Ok`. -/
def Answer.isOk : Answer → Bool
  | .social a => a.isOk
  | .failure _ => false
  | _ => true

/-- The request a successful answer names. -/
def Answer.requestId : Answer → Option RequestId
  | .social a => a.requestId
  | _ => none

/-- The tables without `social_message_clears.updated_at`. -/
def Db.forgetClearTimes (db : Db) : Db :=
  { db with clears := db.clears.map fun c => { c with updatedAt := 0 } }

/-! ### `clear_history` -/

section Clear

variable {db : Db} {v p : UserId} {now now' seq : Nat} {through : Int}

/-- The upsert writes a row of its own pair, no older than what it was given. -/
theorem eval_upsertClear_cases {r : Unit} {ws : List Write}
    (h : eval (.upsertClear v p through) now seq db = some (r, ws)) :
    v ≠ p ∧ ∃ c : ClearRow, ws = [.setClear c] ∧ c.user = v ∧ c.partner = p ∧
      through ≤ c.clearedThrough := by
  simp only [eval] at h
  split at h
  · cases h
  rename_i hne
  refine ⟨hne, ?_⟩
  split at h
  · rename_i c hc
    cases h
    have hkey := List.find?_some hc
    simp only [Bool.and_eq_true, beq_iff_eq] at hkey
    exact ⟨_, rfl, hkey.1, hkey.2, le_max_right _ _⟩
  · split at h
    · cases h
      exact ⟨_, rfl, rfl, rfl, le_rfl⟩
    · cases h

/-- Clearing again moves `updated_at` only. -/
theorem eval_upsertClear_again {c : ClearRow} (hu : c.user = v) (hp : c.partner = p) (hne : v ≠ p)
    (hle : through ≤ c.clearedThrough) :
    eval (.upsertClear v p through) now seq (Write.apply (.setClear c) db) =
      some ((), [.setClear { c with updatedAt := now }]) := by
  simp only [eval, if_neg hne, clearOf_setClear, if_pos (And.intro hu hp), max_eq_left hle]

theorem forgetClearTimes_setClear (c : ClearRow) (db : Db) :
    (Write.apply (.setClear { c with updatedAt := now })
        (Write.apply (.setClear c) db)).forgetClearTimes =
      (Write.apply (.setClear c) db).forgetClearTimes := by
  simp [Write.apply, Db.forgetClearTimes, List.filter_append, List.filter_filter]

end Clear

/-- The outcome `out` of a call that is followed by the same call: if the first
succeeds, so does the second, with the same request, and of the tables only
`social_message_clears.updated_at` may change. -/
def Repeatable (env : Env) (text : UserSearch) (c : Call) (out : State × Answer) : Prop :=
  out.2.isOk = true → ∀ now, ∃ σ a,
    (c.code env text).solo c.failed noFailure now 0 none out.1 = (σ, a) ∧
      a.isOk = true ∧ a.requestId = out.2.requestId ∧
        Db.forgetClearTimes σ.db = Db.forgetClearTimes out.1.db

section ClearHistory

variable {env : Env} {text : UserSearch} {fails : Nat → Bool} {now : Nat} {failed : Answer}
  {σ : State} {v p : UserId} {partnerId : Int}

/-- `clear_history` of a conversation that is cleared up to its last message. -/
theorem clearHistory_again {c : ClearRow} {db : Db} (hσ : σ.db = Write.apply (.setClear c) db)
    (hv : Db.userExists (Db.social σ.db) v = true)
    (hpos : positiveId partnerId "partnerId" = .ok p) (hne : p ≠ v) (hu : c.user = v)
    (hp : c.partner = p) (hle : Db.maxMessageId σ.db v p ≤ c.clearedThrough) :
    (clearHistory (some v) partnerId).solo failed noFailure now 0 none σ =
      (σ.write [.setClear { c with updatedAt := now }], .social .noContent) := by
  refine (?_ : Ends (· = (σ.write [.setClear { c with updatedAt := now }], .social .noContent))
    failed noFailure now _ 0 none σ) (noneBefore_zero _)
  refine .query_read (fun db => Db.userExists (Db.social db) v) (fun _ _ _ => rfl) rfl
    not_firstFailure ?_
  rw [hv, hpos]
  dsimp only
  rw [if_neg (by decide), if_neg hne]
  refine .query_read (fun db => Db.maxMessageId db v p) (fun _ _ _ => rfl) rfl not_firstFailure ?_
  have heval : eval (.upsertClear v p (Db.maxMessageId σ.db v p)) now σ.seq σ.db =
      some ((), [.setClear { c with updatedAt := now }]) := by
    conv_lhs => rw [hσ]
    exact eval_upsertClear_again hu hp hne.symm (hσ ▸ hle)
  exact .query heval not_firstFailure (.emit (.done fun _ => rfl))

theorem ends_clearHistory_repeatable (identity : Option UserId) (partnerId : Int)
    (hfailed : failed.isOk = false) :
    Ends (Repeatable env text (.clearHistory identity partnerId)) failed fails now
      (clearHistory identity partnerId) 0 none σ := by
  have hrefused : ∀ (σ' : State) (a : Answer), a.isOk = false →
      Repeatable env text (.clearHistory identity partnerId) (σ', a) := by
    intro σ' a ha hok
    rw [ha] at hok
    cases hok
  cases identity with
  | none => exact .done fun _ => hrefused _ _ rfl
  | some v =>
  refine .query_read (fun db => Db.userExists (Db.social db) v) (fun _ _ _ => rfl) rfl
    (fun _ => hrefused _ _ hfailed) ?_
  cases hv : Db.userExists (Db.social σ.db) v with
  | false => exact .done fun _ => hrefused _ _ rfl
  | true =>
  cases hpos : positiveId partnerId "partnerId" with
  | error e => exact .done fun _ => hrefused _ _ rfl
  | ok p =>
  dsimp only
  rw [if_neg (by decide)]
  split
  · exact .done fun _ => hrefused _ _ rfl
  rename_i hne
  refine .query_read (fun db => Db.maxMessageId db v p) (fun _ _ _ => rfl) rfl
    (fun _ => hrefused _ _ hfailed) ?_
  cases heval : eval (.upsertClear v p (Db.maxMessageId σ.db v p)) now σ.seq σ.db with
  | none => exact .query_rejected heval (hrefused _ _ hfailed)
  | some res =>
      obtain ⟨⟨⟩, ws⟩ := res
      obtain ⟨-, c, rfl, hu, hp, hle⟩ := eval_upsertClear_cases heval
      refine .query heval (fun _ => hrefused _ _ hfailed) (.emit (.done fun _ _ now' => ?_))
      -- the second call reads the same maximum and keeps the larger watermark
      exact ⟨_, _, clearHistory_again rfl hv hpos hne hu hp hle, rfl, rfl,
        forgetClearTimes_setClear c σ.db⟩

end ClearHistory

/-- **Repeating an idempotent social call changes nothing.** In every state of the
tables, when such a call succeeds and is made again at once, the second call
succeeds too, with the same request, and the tables stay as the first call left
them, `social_message_clears.updated_at` aside. -/
theorem repeat_changes_nothing (env : Env) (text : UserSearch) {c : Call}
    (hc : c.idempotent = true) (σ : State) (fails : Nat → Bool) (now : Nat) :
    Repeatable env text c ((c.code env text).solo c.failed fails now 0 none σ) := by
  cases c with
  | clearHistory v p => exact ends_clearHistory_repeatable v p rfl (noneBefore_zero _)
  | social c =>
      have hcode : (Call.social c).code env text = (c.code env).embed socialPart Answer.social :=
        rfl
      have hfailed : (Call.social c).failed = Answer.social c.failed := rfl
      rw [hcode, hfailed, solo_embed]
      intro hok now'
      obtain ⟨a, hagain, ha, hid⟩ := repeatable_solo env hc (socialPart.snap σ) fails now hok now'
      -- the second call starts from the social tables of the first
      generalize (c.code env).solo c.failed fails now 0 none (socialPart.snap σ) = out at *
      have hsnap : socialPart.snap (socialPart.replace σ out.1) = out.1 := rfl
      refine ⟨socialPart.replace σ out.1, .social a, ?_, ha, hid, rfl⟩
      rw [hcode, hfailed, solo_embed, hsnap, hagain]
      rfl
  | _ => cases hc

/-! 1 asks 2 to be friends, twice. -/

def askTwice : Call := .social (.createRequest (some 1) (some 2) none)

def asked : State × Answer :=
  (askTwice.code demoEnv demoText).solo askTwice.failed noFailure 0 0 none ⟨0, demoDb⟩

theorem repeat_changes_nothing_asked : asked.2.requestId = some 1 ∧ ∃ σ a,
    (askTwice.code demoEnv demoText).solo askTwice.failed noFailure 5 0 none asked.1 = (σ, a) ∧
      a.isOk = true ∧ a.requestId = asked.2.requestId ∧
        Db.forgetClearTimes σ.db = Db.forgetClearTimes asked.1.db :=
  ⟨by decide, repeat_changes_nothing demoEnv demoText rfl ⟨0, demoDb⟩ noFailure 0
    (by decide : asked.2.isOk = true) 5⟩

end DevbitBackend.Forum
