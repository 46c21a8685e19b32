import DevbitBackend.Social.Searches

/-!
# Forum.LikeSearch

The two patterns of a search (`LikeSearch`), which find a text literally: whatever
characters the query is made of, one pattern matches the texts that contain it, the
other one those that start with it, and PostgreSQL accepts both.
-/

namespace DevbitBackend.Forum

open Social

/-- `LikeSearch`. -/
structure LikeSearch where
  query : String
  containsPattern : String
  prefixPattern : String
  deriving DecidableEq, Repr

/-- `LikeSearch::new`. -/
def LikeSearch.new (query : String) : LikeSearch :=
  let escapedQuery := escapeLikePattern query
  { query := query
    containsPattern := "%" ++ escapedQuery ++ "%"
    prefixPattern := escapedQuery ++ "%" }

/-- `value LIKE pattern ESCAPE '\'`. -/
def sqlLike (value pattern : String) : Except Like.Malformed Bool :=
  Like.like pattern.toList value.toList

/-- **A search is literal.** The patterns of a query match the texts that contain it and
the texts that start with it, and neither is an error. -/
theorem search_literal (q s : String) :
    sqlLike s (LikeSearch.new q).containsPattern = .ok (decide (q.toList <:+: s.toList)) ∧
      sqlLike s (LikeSearch.new q).prefixPattern = .ok (decide (q.toList <+: s.toList)) := by
  constructor
  · have hpattern : (LikeSearch.new q).containsPattern.toList =
        '%' :: (Like.escape q.toList ++ ['%']) := by
      simp [LikeSearch.new, escapeLikePattern_toList]
    rw [sqlLike, hpattern]
    exact Like.like_contains q.toList s.toList
  · have hpattern : (LikeSearch.new q).prefixPattern.toList = Like.escape q.toList ++ ['%'] := by
      simp [LikeSearch.new, escapeLikePattern_toList]
    rw [sqlLike, hpattern]
    exact Like.like_startsWith q.toList s.toList

/-- A wildcard and an escape in the query stand for themselves. -/
example : sqlLike "100% of C:\\" (LikeSearch.new "% of c:\\").containsPattern = .ok false ∧
    sqlLike "100% of c:\\" (LikeSearch.new "% of c:\\").containsPattern = .ok true := by
  decide

end DevbitBackend.Forum
