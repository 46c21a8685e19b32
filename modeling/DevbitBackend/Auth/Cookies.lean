import DevbitBackend.Auth.Identity

/-!
# Auth.Cookies

The token in a `Cookie` header among the cookies of others. `token_from_headers`
converts the whole header to text before it looks for its own cookie, so one byte
outside ASCII in any cookie loses the token (`token_found_iff`). Apart from that the
other cookies do not matter.
-/

namespace DevbitBackend.Auth

/-- The token of a usable `Authorization` header. -/
def bearerToken (headers : HeaderMap) : Option String :=
  ((((headers.get "authorization").bind toStr).bind (stripPrefix "Bearer ")).map trim).filter
    fun value => !value.isEmpty

/-- The token of the `Cookie` header. -/
def cookieToken (headers : HeaderMap) : Option String :=
  ((headers.get "cookie").bind toStr).bind fun cookies => (splitOn ';' cookies).findSome? authCookie

theorem tokenFromHeaders_eq_cookieToken {headers : HeaderMap} (h : bearerToken headers = none) :
    tokenFromHeaders headers = cookieToken headers := by
  unfold bearerToken at h
  simp only [tokenFromHeaders, h, cookieToken]

/-! ### Cookies as bytes -/

/-- The bytes of an ASCII text. -/
def asciiBytes (s : String) : HeaderValue := s.toList.map fun c => UInt8.ofNat c.toNat

/-- A byte of a header value. -/
def Allowed (b : UInt8) : Prop := b = 9 ∨ (32 ≤ b ∧ b ≠ 127)

instance : DecidablePred Allowed := fun b => inferInstanceAs (Decidable (b = 9 ∨ _))

/-- What stands before the `=` of a cookie. -/
def cookieName (cookie : HeaderValue) : Option HeaderValue :=
  if 61 ∈ cookie then some (trimList (fun b => b == 9 || b == 32) (cookie.takeWhile (· != 61)))
  else none

/-- A cookie of another name, with any value. -/
structure Foreign (cookie : HeaderValue) : Prop where
  allowed : ∀ b ∈ cookie, Allowed b
  single : 59 ∉ cookie
  other : cookieName cookie ≠ some (asciiBytes authCookieName)

/-- A token that a cookie can hold. -/
structure CookieToken (t : String) : Prop where
  nonempty : t ≠ ""
  visible : ∀ c ∈ t.toList, 32 ≤ c.toNat ∧ c.toNat < 127
  single : ';' ∉ t.toList
  head : t.toList.head? ≠ some ' '
  last : t.toList.getLast? ≠ some ' '

/-- Our cookie, with spaces around it. -/
def ownCookie (left : HeaderValue) (t : String) (right : HeaderValue) : HeaderValue :=
  left ++ asciiBytes (authCookieName ++ "=" ++ t) ++ right

/-- Cookies in one header. -/
def joinCookies (cookies : List HeaderValue) : HeaderValue := [59].intercalate cookies

/-- All bytes are ASCII. -/
def Ascii (cookie : HeaderValue) : Prop := ∀ b ∈ cookie, b < 128

instance (cookie : HeaderValue) : Decidable (Ascii cookie) :=
  List.decidableBAll (fun b => b < 128) cookie

/-! ### Bytes and characters -/

/-- The character of a byte. -/
def toChar (b : UInt8) : Char := Char.ofNat b.toNat

theorem toNat_toChar (b : UInt8) : (toChar b).toNat = b.toNat := by
  have hvalid : b.toNat.isValidChar := by
    have hlt := b.toNat_lt
    exact .inl (by omega)
  rw [toChar, Char.ofNat, dif_pos hvalid]
  rfl

theorem toChar_inj {b b' : UInt8} (h : toChar b = toChar b') : b = b' := by
  rw [← @UInt8.ofNat_toNat b, ← toNat_toChar b, h, toNat_toChar, UInt8.ofNat_toNat]

theorem toChar_ofNat {c : Char} (h : c.toNat < 256) : toChar (UInt8.ofNat c.toNat) = c := by
  rw [toChar, UInt8.toNat_ofNat', Nat.mod_eq_of_lt h, Char.ofNat_toNat]

/-- An ASCII text from its bytes. -/
theorem map_asciiBytes {s : String} (h : ∀ c ∈ s.toList, c.toNat < 256) :
    (asciiBytes s).map toChar = s.toList := by
  have hchars : s.toList.map (toChar ∘ fun c => UInt8.ofNat c.toNat) = s.toList.map id :=
    List.map_congr_left fun c hc => toChar_ofNat (h c hc)
  rw [asciiBytes, List.map_map, hchars, List.map_id]

theorem eq_asciiBytes {bytes : HeaderValue} {s : String} (h : bytes.map toChar = s.toList) :
    bytes = asciiBytes s := by
  have hbytes : bytes.map ((fun c : Char => UInt8.ofNat c.toNat) ∘ toChar) = bytes.map id := by
    refine List.map_congr_left fun b _ => ?_
    rw [Function.comp_apply, toNat_toChar, UInt8.ofNat_toNat, id]
  rw [asciiBytes, ← h, List.map_map, hbytes, List.map_id]

/-- `to_str` accepts exactly the ASCII header values. -/
theorem toStr_eq {value : HeaderValue} (h : ∀ b ∈ value, Allowed b) :
    toStr value = if Ascii value then some (String.ofList (value.map toChar)) else none := by
  have hbytes : (value.all fun b => (32 ≤ b && b < 127) || b == 9) = true ↔ Ascii value := by
    rw [List.all_eq_true]
    refine forall₂_congr fun b hb => ?_
    have hb := h b hb
    simp only [Allowed, UInt8.le_iff_toNat_le, ne_eq, ← UInt8.toNat_inj] at hb
    simp only [UInt8.le_iff_toNat_le, UInt8.lt_iff_toNat_lt, Bool.or_eq_true, Bool.and_eq_true,
      decide_eq_true_eq, beq_iff_eq, ← UInt8.toNat_inj]
    simp at hb ⊢
    omega
  rw [toStr]
  simp only [hbytes]
  rfl

theorem map_joinCookies (cookies : List HeaderValue) :
    (joinCookies cookies).map toChar = [';'].intercalate (cookies.map (List.map toChar)) := by
  induction cookies with
  | nil => rfl
  | cons c cookies ih =>
      cases cookies with
      | nil => simp [joinCookies]
      | cons d cookies =>
          have hsep : toChar 59 = ';' := rfl
          unfold joinCookies at ih ⊢
          rw [List.intercalate_cons_cons, List.map_append, List.map_append, ih]
          simp only [List.map_cons, List.map_nil, hsep, List.intercalate_cons_cons]

theorem mem_joinCookies_of_mem {cookies : List HeaderValue} {c : HeaderValue} {b : UInt8}
    (hc : c ∈ cookies) (hb : b ∈ c) : b ∈ joinCookies cookies := by
  induction cookies with
  | nil => cases hc
  | cons d cookies ih =>
      cases cookies with
      | nil =>
          obtain rfl := List.mem_singleton.mp hc
          simpa [joinCookies] using hb
      | cons e cookies =>
          unfold joinCookies at ih ⊢
          rw [List.intercalate_cons_cons]
          grind

theorem mem_joinCookies {cookies : List HeaderValue} {b : UInt8} (h : b ∈ joinCookies cookies) :
    b = 59 ∨ ∃ c ∈ cookies, b ∈ c := by
  induction cookies with
  | nil => cases h
  | cons c cookies ih =>
      cases cookies with
      | nil => exact .inr ⟨c, by simp, by simpa [joinCookies] using h⟩
      | cons d cookies =>
          unfold joinCookies at ih h
          rw [List.intercalate_cons_cons] at h
          grind

/-! ### One cookie of the header -/

/-- A cookie as `token_from_headers` looks at it. -/
def cookieText (cookie : HeaderValue) : String := String.ofList (cookie.map toChar)

theorem splitOn_joinCookies {cookies : List HeaderValue} (hne : cookies ≠ [])
    (hsingle : ∀ c ∈ cookies, 59 ∉ c) :
    splitOn ';' (cookieText (joinCookies cookies)) = cookies.map cookieText := by
  have hchars : ∀ c ∈ cookies.map (List.map toChar), ';' ∉ c := by
    intro c hc hmem
    obtain ⟨cookie, hcookie, rfl⟩ := List.mem_map.mp hc
    obtain ⟨b, hb, hchar⟩ := List.mem_map.mp hmem
    obtain rfl : b = 59 := toChar_inj hchar
    exact hsingle cookie hcookie hb
  rw [splitOn, cookieText, String.toList_ofList, map_joinCookies,
    List.splitOn_intercalate ';' hchars (by simpa using hne), List.map_map]
  rfl

/-- Blanks are the only white space of a header value in ASCII. -/
theorem blank_of_isWhitespace {b : UInt8} (hb : Allowed b) (hascii : b < 128)
    (h : isWhitespace (toChar b) = true) : (b == 9 || b == 32) = true := by
  have hval : (toChar b).val.toNat = b.toNat := toNat_toChar b
  simp only [Allowed, UInt8.le_iff_toNat_le, ne_eq, ← UInt8.toNat_inj] at hb
  simp only [UInt8.lt_iff_toNat_lt] at hascii
  simp only [isWhitespace, UInt32.le_iff_toNat_le, Bool.or_eq_true, Bool.and_eq_true,
    decide_eq_true_eq, beq_iff_eq, ← UInt32.toNat_inj, hval] at h
  simp only [Bool.or_eq_true, beq_iff_eq, ← UInt8.toNat_inj]
  simp at hb hascii h ⊢
  omega

theorem CookieToken.ascii {t : String} (ht : CookieToken t) :
    ∀ c ∈ (authCookieName ++ "=" ++ t).toList, 32 ≤ c.toNat ∧ c.toNat < 127 ∧ c ≠ ';' := by
  intro c hc
  rw [String.toList_append, List.mem_append] at hc
  rcases hc with hc | hc
  · have hname : ∀ c ∈ (authCookieName ++ "=").toList, 32 ≤ c.toNat ∧ c.toNat < 127 ∧ c ≠ ';' := by
      simp [authCookieName]
    exact hname c hc
  · exact ⟨(ht.visible c hc).1, (ht.visible c hc).2, fun heq => ht.single (heq ▸ hc)⟩

/-- The bytes of our cookie. -/
theorem mem_ownCookie {left right : HeaderValue} {t : String} (ht : CookieToken t)
    (hleft : ∀ b ∈ left, b = 32) (hright : ∀ b ∈ right, b = 32) {b : UInt8}
    (hb : b ∈ ownCookie left t right) : 32 ≤ b ∧ b < 127 ∧ b ≠ 59 := by
  simp only [ownCookie, List.mem_append] at hb
  rcases hb with (hb | hb) | hb
  · rw [hleft b hb]
    decide
  · obtain ⟨c, hc, rfl⟩ := List.mem_map.mp hb
    obtain ⟨hlow, hhigh, hne⟩ := ht.ascii c hc
    have hval : (UInt8.ofNat c.toNat).toNat = c.toNat := by
      rw [UInt8.toNat_ofNat', Nat.mod_eq_of_lt (by omega)]
    rw [UInt8.le_iff_toNat_le, UInt8.lt_iff_toNat_lt, ne_eq, ← UInt8.toNat_inj, hval]
    exact ⟨hlow, hhigh, fun heq => hne (Char.toNat_inj.mp heq)⟩
  · rw [hright b hb]
    decide

/-- Our cookie gives its token, whatever blanks stand around it. -/
theorem authCookie_own {left right : HeaderValue} {t : String} (ht : CookieToken t)
    (hleft : ∀ b ∈ left, b = 32) (hright : ∀ b ∈ right, b = 32) :
    authCookie (cookieText (ownCookie left t right)) = some t := by
  have hspace : ∀ pad : HeaderValue, (∀ b ∈ pad, b = 32) →
      ∀ c ∈ pad.map toChar, isWhitespace c = true := by
    intro pad hpad c hc
    obtain ⟨b, hb, rfl⟩ := List.mem_map.mp hc
    rw [hpad b hb]
    rfl
  have hascii : ∀ c ∈ (authCookieName ++ "=" ++ t).toList, c.toNat < 256 := fun c hc =>
    (ht.ascii c hc).2.1.trans (by decide)
  -- the blanks around the cookie are trimmed, and the token neither begins nor ends with
  -- one
  have htext : trim (cookieText (ownCookie left t right)) = authCookieName ++ "=" ++ t := by
    have hchars : (cookieText (ownCookie left t right)).toList =
        left.map toChar ++ (authCookieName ++ "=" ++ t).toList ++ right.map toChar := by
      rw [cookieText, String.toList_ofList, ownCookie, List.map_append, List.map_append,
        map_asciiBytes hascii]
    have hne : t.toList ≠ [] := fun hnil => ht.nonempty (String.toList_eq_nil_iff.mp hnil)
    rw [trim, hchars, trimList_pad (hspace left hleft) (hspace right hright), String.ofList_toList]
    · simp [authCookieName]
    · intro c hc
      obtain rfl : 'a' = c := by simpa [authCookieName] using hc
      rfl
    · intro c hc
      rw [String.toList_append, List.getLast?_append_of_ne_nil _ hne] at hc
      refine isWhitespace_visible (ht.visible c (List.mem_of_getLast? hc)) fun hspace => ht.last ?_
      rw [← hspace]
      exact hc
  rw [authCookie, htext, stripPrefix_append]
  simp [Option.filter, ht.nonempty]

/-- The cookie of another does not, so the search for ours goes on behind it. -/
theorem authCookie_foreign {cookie : HeaderValue} (h : Foreign cookie) (hascii : Ascii cookie) :
    authCookie (cookieText cookie) = none := by
  cases hstrip : stripPrefix (authCookieName ++ "=") (trim (cookieText cookie)) with
  | none => rw [authCookie, hstrip]; rfl
  | some rest =>
      -- then the name of the cookie is ours
      refine absurd ?_ h.other
      obtain ⟨left, right, hcookie, hleft, -⟩ := exists_trimList isWhitespace (cookie.map toChar)
      have htrim : trimList isWhitespace (cookie.map toChar) =
          authCookieName.toList ++ ('=' :: rest.toList) := by
        have htext := congrArg String.toList (stripPrefix_eq_some hstrip)
        simpa [trim, cookieText] using htext
      rw [htrim, List.append_assoc] at hcookie
      obtain ⟨pad, tail, rfl, hpad, htail⟩ := List.map_eq_append_iff.mp hcookie
      rw [List.append_assoc] at htail
      obtain ⟨name, value, rfl, hname, hvalue⟩ := List.map_eq_append_iff.mp htail
      obtain ⟨b, value, rfl, hb, -⟩ := List.map_eq_cons_iff.mp hvalue
      obtain rfl : b = 61 := toChar_inj hb
      obtain rfl := eq_asciiBytes hname
      have hblank : ∀ b ∈ pad, (b == 9 || b == 32) = true := by
        intro b hb
        have hmem : b ∈ pad ++ (asciiBytes authCookieName ++ 61 :: value) :=
          List.mem_append_left _ hb
        exact blank_of_isWhitespace (h.allowed b hmem) (hascii b hmem)
          (hleft _ (hpad ▸ List.mem_map_of_mem hb))
      have hbefore : ∀ b ∈ pad ++ asciiBytes authCookieName, (b != 61) = true := by
        intro b hb
        rcases List.mem_append.mp hb with hb | hb
        · have hb := hblank b hb
          simp only [Bool.or_eq_true, beq_iff_eq] at hb
          rcases hb with rfl | rfl <;> rfl
        · have hname : ∀ b ∈ asciiBytes authCookieName, (b != 61) = true := by
            simp [asciiBytes, authCookieName]
          exact hname b hb
      have htake : (pad ++ (asciiBytes authCookieName ++ 61 :: value)).takeWhile (· != 61) =
          pad ++ asciiBytes authCookieName := by
        rw [← List.append_assoc, List.takeWhile_append_of_pos hbefore]
        simp
      have hpadded : trimList (fun b => b == 9 || b == 32)
          (pad ++ asciiBytes authCookieName ++ []) = asciiBytes authCookieName :=
        trimList_pad hblank (by simp) (by decide) (by simp [asciiBytes, authCookieName])
          (by simp [asciiBytes, authCookieName])
      rw [List.append_nil] at hpadded
      rw [cookieName, if_pos (by simp), htake, hpadded]

/-! ### The whole header -/

section

variable {before after : List HeaderValue} {left right : HeaderValue} {t : String}

/-- Every byte of the header is one that a header may have. -/
theorem allowed_header (hforeign : ∀ c ∈ before ++ after, Foreign c) (ht : CookieToken t)
    (hleft : ∀ b ∈ left, b = 32) (hright : ∀ b ∈ right, b = 32) :
    ∀ b ∈ joinCookies (before ++ ownCookie left t right :: after), Allowed b := by
  intro b hb
  rcases mem_joinCookies hb with rfl | ⟨c, hc, hb⟩
  · exact .inr (by decide)
  simp only [List.mem_append, List.mem_cons] at hc hforeign
  rcases hc with hc | rfl | hc
  · exact (hforeign c (.inl hc)).allowed b hb
  · obtain ⟨hlow, hhigh, -⟩ := mem_ownCookie ht hleft hright hb
    refine .inr ⟨hlow, fun heq => ?_⟩
    rw [heq] at hhigh
    exact absurd hhigh (by decide)
  · exact (hforeign c (.inr hc)).allowed b hb

/-- The header is ASCII when the cookies of others are. -/
theorem ascii_header (ht : CookieToken t) (hleft : ∀ b ∈ left, b = 32)
    (hright : ∀ b ∈ right, b = 32) :
    Ascii (joinCookies (before ++ ownCookie left t right :: after)) ↔
      ∀ c ∈ before ++ after, Ascii c := by
  constructor
  · intro h c hc b hb
    refine h b (mem_joinCookies_of_mem ?_ hb)
    simp only [List.mem_append, List.mem_cons] at hc ⊢
    exact hc.imp_right .inr
  · intro h b hb
    rcases mem_joinCookies hb with rfl | ⟨c, hc, hb⟩
    · decide
    simp only [List.mem_append, List.mem_cons] at hc h
    rcases hc with hc | rfl | hc
    · exact h c (.inl hc) b hb
    · have hhigh := (mem_ownCookie ht hleft hright hb).2.1
      exact UInt8.lt_trans hhigh (by decide)
    · exact h c (.inr hc) b hb

/-- Among ASCII cookies the token is found at any position. -/
theorem findSome?_cookies (hforeign : ∀ c ∈ before ++ after, Foreign c) (ht : CookieToken t)
    (hleft : ∀ b ∈ left, b = 32) (hright : ∀ b ∈ right, b = 32)
    (hascii : ∀ c ∈ before ++ after, Ascii c) :
    (splitOn ';' (cookieText (joinCookies (before ++ ownCookie left t right :: after)))).findSome?
      authCookie = some t := by
  have hsingle : ∀ c ∈ before ++ ownCookie left t right :: after, 59 ∉ c := by
    intro c hc
    simp only [List.mem_append, List.mem_cons] at hc hforeign
    rcases hc with hc | rfl | hc
    · exact (hforeign c (.inl hc)).single
    · exact fun hb => (mem_ownCookie ht hleft hright hb).2.2 rfl
    · exact (hforeign c (.inr hc)).single
  have hbefore : (before.map cookieText).findSome? authCookie = none := by
    rw [List.findSome?_eq_none_iff]
    intro text htext
    obtain ⟨c, hc, rfl⟩ := List.mem_map.mp htext
    have hmem : c ∈ before ++ after := List.mem_append_left _ hc
    exact authCookie_foreign (hforeign c hmem) (hascii c hmem)
  rw [splitOn_joinCookies (by simp) hsingle, List.map_append, List.findSome?_append, hbefore,
    Option.none_or, List.map_cons]
  exact List.findSome?_cons_of_isSome (by rw [authCookie_own ht hleft hright]; rfl) |>.trans
    (authCookie_own ht hleft hright)

/-- **Other cookies.** In a request without a usable `Authorization` header whose `Cookie`
header has our cookie among others, the token is found exactly when the others are ASCII.
So the identity does not depend on them, or is lost. -/
theorem token_found_iff {headers : HeaderMap} (hbearer : bearerToken headers = none)
    (hcookie : headers.get "cookie" =
      some (joinCookies (before ++ ownCookie left t right :: after)))
    (hforeign : ∀ c ∈ before ++ after, Foreign c) (ht : CookieToken t)
    (hleft : ∀ b ∈ left, b = 32) (hright : ∀ b ∈ right, b = 32) :
    (tokenFromHeaders headers = some t ↔ ∀ c ∈ before ++ after, Ascii c) ∧
      ∀ jwt now, identityFromHeaders jwt now headers =
        if ∀ c ∈ before ++ after, Ascii c then identityFromToken jwt now t else none := by
  -- `to_str` refuses the whole header when one byte of it is not ASCII
  have htoken : tokenFromHeaders headers =
      if ∀ c ∈ before ++ after, Ascii c then some t else none := by
    rw [tokenFromHeaders_eq_cookieToken hbearer, cookieToken, hcookie, Option.bind_some,
      toStr_eq (allowed_header hforeign ht hleft hright)]
    by_cases hascii : ∀ c ∈ before ++ after, Ascii c
    · rw [if_pos hascii, if_pos ((ascii_header ht hleft hright).mpr hascii), Option.bind_some]
      exact findSome?_cookies hforeign ht hleft hright hascii
    · rw [if_neg hascii, if_neg (mt (ascii_header ht hleft hright).mp hascii), Option.bind_none]
  constructor
  · rw [htoken]
    split
    · rename_i hascii
      exact iff_of_true rfl hascii
    · rename_i hascii
      exact iff_of_false (by simp) hascii
  · intro jwt now
    rw [identityFromHeaders, htoken]
    split <;> rfl

end

/-- The cookies of a request in plain ASCII. -/
theorem token_found_iff_locale :
    (tokenFromHeaders [("cookie", asciiBytes "theme=dark; auth_token=abc; locale=en")] =
        some "abc" ↔
      ∀ c ∈ [asciiBytes "theme=dark"] ++ [asciiBytes " locale=en"], Ascii c) ∧
      ∀ jwt now, identityFromHeaders jwt now
          [("cookie", asciiBytes "theme=dark; auth_token=abc; locale=en")] =
        if ∀ c ∈ [asciiBytes "theme=dark"] ++ [asciiBytes " locale=en"], Ascii c then
          identityFromToken jwt now "abc" else none :=
  have hspace : ∀ b ∈ ([32] : HeaderValue), b = 32 := by simp
  have hnone : ∀ b ∈ ([] : HeaderValue), b = 32 := by simp
  token_found_iff (by decide) (by decide) (by
    intro c hc
    simp only [List.cons_append, List.nil_append, List.mem_cons, List.not_mem_nil, or_false] at hc
    rcases hc with rfl | rfl
    · exact ⟨by simp [asciiBytes, Allowed], by decide, by decide⟩
    · exact ⟨by simp [asciiBytes, Allowed], by decide, by decide⟩)
    ⟨by decide, by simp, by decide, by decide, by decide⟩ hspace hnone

/-- A cookie `n=é` before ours hides the token. -/
theorem token_not_found :
    ¬ ∀ (headers : HeaderMap) (before after : List HeaderValue) (left right : HeaderValue)
      (t : String), bearerToken headers = none →
      headers.get "cookie" = some (joinCookies (before ++ ownCookie left t right :: after)) →
      (∀ c ∈ before ++ after, Foreign c) → CookieToken t → (∀ b ∈ left, b = 32) →
      (∀ b ∈ right, b = 32) → tokenFromHeaders headers = some t := by
  intro h
  let header : HeaderValue := joinCookies ([[110, 61, 0xC3, 0xA9]] ++ [ownCookie [32] "abc" []])
  have htoken := h [("cookie", header)] [[110, 61, 0xC3, 0xA9]] [] [32] [] "abc" (by decide) rfl
    (by
      intro c hc
      obtain rfl := List.mem_singleton.mp hc
      exact ⟨by simp [Allowed], by decide, by decide⟩)
    ⟨by decide, by simp, by decide, by decide, by decide⟩ (by simp) (by simp)
  revert htoken
  decide

end DevbitBackend.Auth
