import Mathlib.Algebra.GroupWithZero.Nat
import DevbitBackend.Lib.Base64
import DevbitBackend.Text

/-!
# Auth.Password

Passwords at rest (`auth.rs`): PBKDF2, the stored format, and the check against it. A
stored password is a text of four parts, or whatever an older release has left, which is
then compared as it is. The keyed MAC and the base64 engine are those of other crates.
-/

namespace DevbitBackend.Auth

abbrev Bytes := List UInt8

/-- `URL_SAFE_NO_PAD` and `HmacSha256`, which `auth.rs` takes from crates. -/
structure Crypto extends Base64.Engine where
  hmacSha256 : (key message : Bytes) → Vector UInt8 32

/-- `PASSWORD_HASH_PREFIX`. -/
def passwordHashPrefix : String := "pbkdf2-sha256"

/-- `PASSWORD_HASH_ITERATIONS`. -/
def passwordHashIterations : Nat := 600000

/-- `MAX_PASSWORD_HASH_ITERATIONS`. -/
def maxPasswordHashIterations : Nat := 1000000

/-- `PASSWORD_SALT_BYTES`. -/
def passwordSaltBytes : Nat := 16

/-- `PASSWORD_HASH_BYTES`. -/
def passwordHashBytes : Nat := 32

/-! ### PBKDF2 -/

/-- `u32::to_be_bytes`. -/
def toBeBytes (n : UInt32) : Bytes :=
  [(n >>> 24).toUInt8, (n >>> 16).toUInt8, (n >>> 8).toUInt8, n.toUInt8]

/-- The loop over the iterations after the first: `u` is the last output of the MAC. -/
def pbkdf2Loop (mac : Bytes → Vector UInt8 32) : (rounds : Nat) → (u result : Vector UInt8 32) →
    Vector UInt8 32
  | 0, _, result => result
  | rounds + 1, u, result =>
      let u := mac u.toList
      pbkdf2Loop mac rounds u (result.zipWith (· ^^^ ·) u)

/-- One block of `pbkdf2_hmac_sha256`: the first MAC is that of the salt and the number of
the block, and each further one is xored into the output. -/
def pbkdf2Block (mac : Bytes → Vector UInt8 32) (salt : Bytes) (iterations blockIndex : Nat) :
    Vector UInt8 32 :=
  let blockNumber := toBeBytes (UInt32.ofNat blockIndex + 1)
  let u := mac (salt ++ blockNumber)
  pbkdf2Loop mac (iterations - 1) u u

/-- The lengths of `chunks_mut(32)` of `length` bytes. -/
def chunkLengths (length : Nat) : List Nat :=
  List.replicate (length / 32) 32 ++ if length % 32 = 0 then [] else [length % 32]

/-- `pbkdf2_hmac_sha256`: what it leaves in an output of `length` bytes. -/
def pbkdf2HmacSha256 (crypto : Crypto) (password salt : Bytes) (iterations length : Nat) : Bytes :=
  let keyedMac := crypto.hmacSha256 password
  (chunkLengths length).zipIdx.flatMap fun chunk =>
    (pbkdf2Block keyedMac salt iterations chunk.2).toList.take chunk.1

/-- `constant_time_eq`: unequal lengths are told at once, and the differences of all bytes
are gathered before they are looked at. -/
def constantTimeEq (left right : Bytes) : Bool :=
  if left.length ≠ right.length then false
  else (left.zipWith (· ^^^ ·) right).foldl (· ||| ·) 0 == 0

/-! ### Stored passwords -/

/-- `str::as_bytes`. -/
def asBytes (s : String) : Bytes := s.toUTF8.data.toList

/-- `hash_password`, with the salt it draws. -/
def hashPassword (crypto : Crypto) (salt : Vector UInt8 16) (password : String) : String :=
  let output := pbkdf2HmacSha256 crypto (asBytes password) salt.toList passwordHashIterations
    passwordHashBytes
  passwordHashPrefix ++ "$" ++ toString passwordHashIterations ++ "$" ++
    crypto.encode salt.toList ++ "$" ++ crypto.encode output

/-- `str::parse::<u32>`. -/
def parseU32 (s : String) : Option Nat :=
  let value : Option Nat :=
    match s.toList with
    | '+' :: digits => parseDigits digits
    | digits => parseDigits digits
  value.filter fun n => n ≤ 4294967295

/-- `verify_password`. A stored text without the prefix is a password from before the
hashes, and is compared as it is; one with the prefix must have the four parts of a hash. -/
def verifyPassword (crypto : Crypto) (password storedHash : String) : Bool :=
  let parts := splitOn '$' storedHash
  if parts.head? ≠ some passwordHashPrefix then password == storedHash
  else match parts with
    | [_, iterations, salt, expected] =>
        match parseU32 iterations with
        | none => false
        | some iterations =>
            if ¬ (0 < iterations ∧ iterations ≤ maxPasswordHashIterations) then false
            else match crypto.decode salt, crypto.decode expected with
              | some salt, some expected =>
                  if salt.length ≠ passwordSaltBytes ∨ expected.length ≠ passwordHashBytes then
                    false
                  else
                    constantTimeEq (pbkdf2HmacSha256 crypto (asBytes password) salt iterations
                      expected.length) expected
              | _, _ => false
    | _ => false

/-- `password_needs_upgrade`: the stored text has not the four parts of a hash, or was hashed
with fewer iterations than today. -/
def passwordNeedsUpgrade (storedHash : String) : Bool :=
  match splitOn '$' storedHash with
  | [head, iterations, _, _] =>
      if head ≠ passwordHashPrefix then true
      else match parseU32 iterations with
        | none => true
        | some iterations => iterations < passwordHashIterations
  | _ => true

/-! ### The bytes of PBKDF2 -/

section Bytes

variable {crypto : Crypto} {password salt : Bytes} {iterations length : Nat}

theorem length_flatMap_take {chunks : List Nat} {blocks : Nat → Vector UInt8 32} {start : Nat}
    (hle : ∀ n ∈ chunks, n ≤ 32) :
    ((chunks.zipIdx start).flatMap fun chunk => (blocks chunk.2).toList.take chunk.1).length =
      chunks.sum := by
  induction chunks generalizing start with
  | nil => rfl
  | cons n chunks ih =>
      obtain ⟨hn, hle⟩ := List.forall_mem_cons.mp hle
      rw [List.zipIdx_cons, List.flatMap_cons, List.length_append, ih hle, List.length_take,
        Vector.length_toList, Nat.min_eq_left hn, List.sum_cons]

theorem chunkLengths_le (length : Nat) : ∀ n ∈ chunkLengths length, n ≤ 32 := by
  intro n hn
  rcases List.mem_append.mp hn with hfull | hrest
  · exact (List.eq_of_mem_replicate hfull).le
  · split at hrest
    · cases hrest
    · rw [List.mem_singleton] at hrest
      omega

theorem sum_chunkLengths (length : Nat) : (chunkLengths length).sum = length := by
  rw [chunkLengths, List.sum_append_nat, List.sum_replicate_nat]
  split
  · simp only [List.sum_nil]
    omega
  · simp only [List.sum_cons, List.sum_nil]
    omega

/-- The output is filled: it has the length that was asked for, whatever the MAC is. -/
theorem length_pbkdf2HmacSha256 :
    (pbkdf2HmacSha256 crypto password salt iterations length).length = length := by
  rw [pbkdf2HmacSha256, length_flatMap_take (chunkLengths_le length), sum_chunkLengths]

end Bytes

/-! ### The comparison -/

theorem foldl_or_eq_zero {bytes : Bytes} {acc : UInt8} :
    bytes.foldl (· ||| ·) acc = 0 ↔ acc = 0 ∧ ∀ b ∈ bytes, b = 0 := by
  induction bytes generalizing acc with
  | nil => simp
  | cons b bytes ih =>
      rw [List.foldl_cons, ih, UInt8.or_eq_zero_iff, List.forall_mem_cons, and_assoc]

/-- No bit of the difference is set: the bytes are the same. -/
theorem forall_zipWith_xor {left right : Bytes} (hlength : left.length = right.length) :
    (∀ b ∈ left.zipWith (· ^^^ ·) right, b = 0) ↔ left = right := by
  induction left generalizing right with
  | nil => simp [List.eq_nil_of_length_eq_zero hlength.symm]
  | cons l left ih =>
      cases right with
      | nil => cases hlength
      | cons r right =>
          rw [List.zipWith_cons_cons, List.forall_mem_cons, ih (Nat.succ.inj hlength),
            UInt8.xor_eq_zero_iff, List.cons.injEq]

/-- **`constant_time_eq` is equality**, for lengths that differ as for those that agree. -/
theorem constantTimeEq_iff {left right : Bytes} :
    constantTimeEq left right = true ↔ left = right := by
  unfold constantTimeEq
  split
  · rename_i hlength
    exact iff_of_false Bool.false_ne_true fun heq => hlength (congrArg List.length heq)
  · rename_i hlength
    rw [beq_iff_eq, foldl_or_eq_zero, forall_zipWith_xor (not_not.mp hlength)]
    exact and_iff_right rfl

/-! ### What is stored -/

section Stored

variable {crypto : Crypto}

/-- The stored text is split where it was joined. -/
theorem splitOn_hashPassword (hcrypto : crypto.Lawful) (salt : Vector UInt8 16)
    (password : String) :
    splitOn '$' (hashPassword crypto salt password) =
      [passwordHashPrefix, toString passwordHashIterations, crypto.encode salt.toList,
        crypto.encode (pbkdf2HmacSha256 crypto (asBytes password) salt.toList
          passwordHashIterations passwordHashBytes)] := by
  have hjoined : (hashPassword crypto salt password).toList = ['$'].intercalate
      ([passwordHashPrefix, toString passwordHashIterations, crypto.encode salt.toList,
        crypto.encode (pbkdf2HmacSha256 crypto (asBytes password) salt.toList
          passwordHashIterations passwordHashBytes)].map String.toList) := by
    simp [hashPassword, List.intercalate, List.intersperse]
  have hencoded : ∀ bytes, '$' ∉ (crypto.encode bytes).toList :=
    fun bytes hmem => absurd (hcrypto.encode_alphabet bytes '$' hmem) (by decide)
  have hclean : ∀ part ∈ [passwordHashPrefix, toString passwordHashIterations,
      crypto.encode salt.toList, crypto.encode (pbkdf2HmacSha256 crypto (asBytes password)
        salt.toList passwordHashIterations passwordHashBytes)].map String.toList,
      '$' ∉ part := by
    simp only [List.map_cons, List.map_nil, List.forall_mem_cons]
    exact ⟨by decide, by decide, hencoded _, hencoded _, by simp⟩
  rw [splitOn, hjoined, List.splitOn_intercalate '$' hclean (by simp), List.map_map]
  simp

/-- The text has the four parts of a hash, with values that the check lets through. -/
structure Hashed (crypto : Crypto) (storedHash : String) (iterations : Nat)
    (salt digest : Bytes) : Prop where
  parts : ∃ iterationText saltText digestText,
    splitOn '$' storedHash = [passwordHashPrefix, iterationText, saltText, digestText] ∧
      parseU32 iterationText = some iterations ∧ crypto.decode saltText = some salt ∧
      crypto.decode digestText = some digest
  positive : 0 < iterations
  bounded : iterations ≤ maxPasswordHashIterations
  salt_length : salt.length = passwordSaltBytes
  digest_length : digest.length = passwordHashBytes

/-- The prefix decides how a stored text is read. -/
def Prefixed (storedHash : String) : Prop :=
  (splitOn '$' storedHash).head? = some passwordHashPrefix

theorem Hashed.prefixed {storedHash : String} {iterations : Nat} {salt digest : Bytes}
    (h : Hashed crypto storedHash iterations salt digest) : Prefixed storedHash := by
  obtain ⟨_, _, _, hparts, -⟩ := h.parts
  rw [Prefixed, hparts]
  rfl

/-- A text has one reading as a hash: its parts are those between the dollar signs. -/
theorem Hashed.unique {storedHash : String} {n n' : Nat} {salt salt' digest digest' : Bytes}
    (h : Hashed crypto storedHash n salt digest) (h' : Hashed crypto storedHash n' salt' digest') :
    n' = n ∧ salt' = salt ∧ digest' = digest := by
  obtain ⟨_, _, _, hparts, hn, hsalt, hdigest⟩ := h.parts
  obtain ⟨_, _, _, hparts', hn', hsalt', hdigest'⟩ := h'.parts
  rw [hparts] at hparts'
  cases hparts'
  rw [hn] at hn'
  rw [hsalt] at hsalt'
  rw [hdigest] at hdigest'
  exact ⟨(Option.some.inj hn').symm, (Option.some.inj hsalt').symm,
    (Option.some.inj hdigest').symm⟩

/-- Without the prefix the text is the password. -/
theorem verifyPassword_plain {password storedHash : String} (h : ¬ Prefixed storedHash) :
    verifyPassword crypto password storedHash = true ↔ password = storedHash := by
  have hhead : (splitOn '$' storedHash).head? ≠ some passwordHashPrefix := h
  unfold verifyPassword
  dsimp only
  rw [if_pos hhead, beq_iff_eq]

/-- **With the prefix the text is a hash or matches nothing.** -/
theorem verifyPassword_prefixed {password storedHash : String} (h : Prefixed storedHash) :
    verifyPassword crypto password storedHash = true ↔
      ∃ iterations salt digest, Hashed crypto storedHash iterations salt digest ∧
        pbkdf2HmacSha256 crypto (asBytes password) salt iterations passwordHashBytes =
          digest := by
  have hhead : ¬ (splitOn '$' storedHash).head? ≠ some passwordHashPrefix := not_not.mpr h
  unfold verifyPassword
  dsimp only
  rw [if_neg hhead]
  constructor
  · intro hverify
    split at hverify
    · rename_i head iterationText saltText digestText hparts
      split at hverify
      · cases hverify
      rename_i n hn
      split at hverify
      · cases hverify
      rename_i hrange
      split at hverify
      · rename_i salt digest hsalt hdigest
        split at hverify
        · cases hverify
        · rename_i hlengths
          -- every check has passed, so the parts are those of a hash
          obtain ⟨hpositive, hbounded⟩ := not_not.mp hrange
          obtain ⟨hsaltLength, hdigestLength⟩ := not_or.mp hlengths
          have hhead : head = passwordHashPrefix := by
            rw [Prefixed, hparts] at h
            exact Option.some.inj h
          refine ⟨n, salt, digest, ⟨⟨iterationText, saltText, digestText, ?_, hn, hsalt, hdigest⟩,
            hpositive, hbounded, not_not.mp hsaltLength, not_not.mp hdigestLength⟩, ?_⟩
          · rw [hparts, hhead]
          · rw [← not_not.mp hdigestLength]
            exact constantTimeEq_iff.mp hverify
      · cases hverify
    · cases hverify
  · rintro ⟨n, salt, digest, hhashed, hdigest⟩
    obtain ⟨iterationText, saltText, digestText, hparts, hn, hs, hd⟩ := hhashed.parts
    rw [hparts]
    simp only [hn, hs, hd]
    rw [if_neg (not_not.mpr ⟨hhashed.positive, hhashed.bounded⟩),
      if_neg (not_or.mpr ⟨not_not.mpr hhashed.salt_length, not_not.mpr hhashed.digest_length⟩),
      constantTimeEq_iff, hhashed.digest_length]
    exact hdigest

/-- What `hash_password` writes is read back by `verify_password`: the number of
iterations, the salt and the digest. -/
theorem hashed_hashPassword (hcrypto : crypto.Lawful) (salt : Vector UInt8 16)
    (password : String) :
    Hashed crypto (hashPassword crypto salt password) passwordHashIterations salt.toList
      (pbkdf2HmacSha256 crypto (asBytes password) salt.toList passwordHashIterations
        passwordHashBytes) where
  parts := ⟨_, _, _, splitOn_hashPassword hcrypto salt password, by decide,
    hcrypto.decode_encode _, hcrypto.decode_encode _⟩
  positive := by decide
  bounded := by decide
  salt_length := salt.length_toList
  digest_length := by rw [length_pbkdf2HmacSha256]

theorem verifyPassword_hashPassword (hcrypto : crypto.Lawful) (salt : Vector UInt8 16)
    (password other : String) :
    verifyPassword crypto other (hashPassword crypto salt password) = true ↔
      pbkdf2HmacSha256 crypto (asBytes other) salt.toList passwordHashIterations
          passwordHashBytes =
        pbkdf2HmacSha256 crypto (asBytes password) salt.toList passwordHashIterations
          passwordHashBytes := by
  have hhashed := hashed_hashPassword hcrypto salt password
  rw [verifyPassword_prefixed hhashed.prefixed]
  constructor
  · rintro ⟨n, salt', digest, hhashed', hdigest⟩
    obtain ⟨hn, hsalt, hsame⟩ := hhashed.unique hhashed'
    rw [hn, hsalt, hsame] at hdigest
    exact hdigest
  · exact fun hsame => ⟨_, _, _, hhashed, hsame⟩

/-- A hash of the current strength stays. -/
theorem passwordNeedsUpgrade_hashPassword (hcrypto : crypto.Lawful) (salt : Vector UInt8 16)
    (password : String) : passwordNeedsUpgrade (hashPassword crypto salt password) = false := by
  have hparse : parseU32 (toString passwordHashIterations) = some passwordHashIterations := by
    decide
  simp only [passwordNeedsUpgrade, splitOn_hashPassword hcrypto, hparse, ne_eq,
    not_true_eq_false, if_false, Nat.lt_irrefl, decide_false]

/-- It fits the column `users.password`. -/
theorem hashPassword_fits (hcrypto : crypto.Lawful) (salt : Vector UInt8 16) (password : String) :
    charCount (hashPassword crypto salt password) ≤ 255 := by
  have hsalt := hcrypto.encode_length salt.toList
  have hdigest := hcrypto.encode_length (pbkdf2HmacSha256 crypto (asBytes password) salt.toList
    passwordHashIterations passwordHashBytes)
  rw [salt.length_toList] at hsalt
  rw [length_pbkdf2HmacSha256] at hdigest
  have hbytes : passwordHashBytes = 32 := rfl
  have hhead : (passwordHashPrefix ++ "$" ++ toString passwordHashIterations ++ "$").toList.length =
      21 := by decide
  rw [charCount, hashPassword]
  simp only [String.toList_append, List.length_append] at hhead ⊢
  have hsep : "$".toList.length = 1 := rfl
  omega

theorem storable_hashPassword (hcrypto : crypto.Lawful) (salt : Vector UInt8 16)
    (password : String) : storable (hashPassword crypto salt password) = true := by
  have hencoded : ∀ bytes, storable (crypto.encode bytes) = true := by
    intro bytes
    refine List.all_eq_true.mpr fun c hc => ?_
    have hsafe := hcrypto.encode_alphabet bytes c hc
    by_contra hnul
    have heq : c = Char.ofNat 0 := by
      simp only [bne_iff_ne, ne_eq, not_not] at hnul
      exact Char.ext hnul
    rw [heq] at hsafe
    exact absurd hsafe (by decide)
  have hhead : storable (passwordHashPrefix ++ "$" ++ toString passwordHashIterations ++ "$") =
      true := by decide
  unfold storable at hencoded hhead ⊢
  simp only [hashPassword, String.toList_append, List.all_append, Bool.and_eq_true] at hhead ⊢
  exact ⟨⟨⟨hhead, hencoded _⟩, hhead.2⟩, hencoded _⟩

/-! ### Passwords that PBKDF2 tells apart -/

/-- No two of the passwords have the same PBKDF2 value, for any salt and iteration count. -/
def Apart (crypto : Crypto) (P : String → Prop) : Prop :=
  ∀ p q, P p → P q → ∀ salt iterations,
    pbkdf2HmacSha256 crypto (asBytes p) salt iterations passwordHashBytes =
      pbkdf2HmacSha256 crypto (asBytes q) salt iterations passwordHashBytes → p = q

/-- A stored text matches one of them at most. -/
theorem Apart.eq_of_verify {P : String → Prop} (hP : Apart crypto P) {p q storedHash : String}
    (hp : P p) (hq : P q) (hverify : verifyPassword crypto p storedHash = true)
    (hverify' : verifyPassword crypto q storedHash = true) : p = q := by
  by_cases hprefix : Prefixed storedHash
  · obtain ⟨n, salt, digest, hhashed, hdigest⟩ := (verifyPassword_prefixed hprefix).mp hverify
    obtain ⟨n', salt', digest', hhashed', hdigest'⟩ :=
      (verifyPassword_prefixed hprefix).mp hverify'
    obtain ⟨rfl, rfl, rfl⟩ := hhashed.unique hhashed'
    exact hP p q hp hq _ _ (hdigest.trans hdigest'.symm)
  · exact ((verifyPassword_plain hprefix).mp hverify).trans
      ((verifyPassword_plain hprefix).mp hverify').symm

/-- **An upgrade changes no verdict**: the hash of a password that matched is matched by
the same passwords. -/
theorem Apart.verify_upgraded {P : String → Prop} (hP : Apart crypto P)
    (hcrypto : crypto.Lawful) {p q storedHash : String} (hp : P p) (hq : P q)
    (hverify : verifyPassword crypto p storedHash = true) (salt : Vector UInt8 16) :
    verifyPassword crypto q (hashPassword crypto salt p) = true ↔
      verifyPassword crypto q storedHash = true := by
  rw [verifyPassword_hashPassword hcrypto]
  constructor
  · intro hsame
    have heq : q = p := hP q p hq hp salt.toList passwordHashIterations hsame
    rw [heq]
    exact hverify
  · intro hq'
    rw [hP.eq_of_verify hq hp hq' hverify]

/-- Passwords with the same PBKDF2 value have it for every salt and iteration count. -/
def Alike (crypto : Crypto) (P : String → Prop) : Prop :=
  ∀ p q, P p → P q → ∀ salt iterations,
    pbkdf2HmacSha256 crypto (asBytes p) salt iterations passwordHashBytes =
      pbkdf2HmacSha256 crypto (asBytes q) salt iterations passwordHashBytes →
    ∀ salt' iterations',
      pbkdf2HmacSha256 crypto (asBytes p) salt' iterations' passwordHashBytes =
        pbkdf2HmacSha256 crypto (asBytes q) salt' iterations' passwordHashBytes

/-- **An upgrade locks nobody out**: the hash of a password that matched is matched by
every other one that did. -/
theorem Alike.verify_upgraded {P : String → Prop} (hP : Alike crypto P) (hcrypto : crypto.Lawful)
    {p q storedHash : String} (hp : P p) (hq : P q)
    (hverify : verifyPassword crypto p storedHash = true)
    (hverify' : verifyPassword crypto q storedHash = true) (salt : Vector UInt8 16) :
    verifyPassword crypto q (hashPassword crypto salt p) = true := by
  rw [verifyPassword_hashPassword hcrypto]
  by_cases hprefix : Prefixed storedHash
  · obtain ⟨n, salt', digest, hhashed, hdigest⟩ := (verifyPassword_prefixed hprefix).mp hverify
    obtain ⟨n', salt'', digest', hhashed', hdigest'⟩ :=
      (verifyPassword_prefixed hprefix).mp hverify'
    obtain ⟨rfl, rfl, rfl⟩ := hhashed.unique hhashed'
    have hsame := hdigest'.trans hdigest.symm
    exact hP q p hq hp _ _ hsame salt.toList passwordHashIterations
  · rw [(verifyPassword_plain hprefix).mp hverify, (verifyPassword_plain hprefix).mp hverify']

end Stored

end DevbitBackend.Auth
