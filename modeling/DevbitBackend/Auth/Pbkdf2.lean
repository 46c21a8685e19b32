import DevbitBackend.Lib.Pbkdf2
import DevbitBackend.Auth.Password

/-!
# Auth.Pbkdf2

`pbkdf2_hmac_sha256` is PBKDF2 (`pbkdf2HmacSha256_eq`): its two loops are the blocks and
the terms of RFC 8018. Nothing is assumed of the MAC.
-/

namespace DevbitBackend.Auth

open Pbkdf2

/-! ### The number of a block -/

theorem toBeBytes_eq_int (n : UInt32) : toBeBytes n = int n.toNat := by
  simp only [toBeBytes, int, List.cons.injEq, and_true, ← UInt8.toNat_inj, UInt32.toNat_toUInt8,
    UInt32.toNat_shiftRight, UInt8.toNat_ofNat', Nat.shiftRight_eq_div_pow]
  exact ⟨rfl, rfl, rfl⟩

/-- The number of a block does not wrap: it starts at one and is below `2^32`. -/
theorem toBeBytes_blockNumber {blockIndex : Nat} (h : blockIndex < 4294967295) :
    toBeBytes (UInt32.ofNat blockIndex + 1) = int (blockIndex + 1) := by
  have hindex : (UInt32.ofNat blockIndex).toNat = blockIndex :=
    UInt32.toNat_ofNat_of_lt' (by simp only [UInt32.size]; omega)
  have hone : (1 : UInt32).toNat = 1 := rfl
  rw [toBeBytes_eq_int, UInt32.toNat_add, hindex, hone, Nat.mod_eq_of_lt (by omega)]

/-! ### One block -/

section Block

variable (crypto : Crypto) (password salt : Bytes) {iterations blockIndex : Nat}

/-- The loop goes on with the terms of the block, from any of them. -/
theorem pbkdf2Loop_eq (i j rounds : Nat) :
    pbkdf2Loop (crypto.hmacSha256 password) rounds (u crypto.hmacSha256 password salt i j)
        (t crypto.hmacSha256 password salt (j + 1) i) =
      t crypto.hmacSha256 password salt (j + 1 + rounds) i := by
  induction rounds generalizing j with
  | zero => rfl
  | succ rounds ih =>
      have hstep := ih (j + 1)
      rw [t_succ, Nat.add_right_comm (j + 1) 1 rounds] at hstep
      exact hstep

theorem pbkdf2Block_eq (hiterations : 1 ≤ iterations) (hindex : blockIndex < 4294967295) :
    pbkdf2Block (crypto.hmacSha256 password) salt iterations blockIndex =
      t crypto.hmacSha256 password salt iterations (blockIndex + 1) := by
  have hloop := pbkdf2Loop_eq crypto password salt (blockIndex + 1) 0 (iterations - 1)
  rw [Nat.zero_add, t_one, Nat.add_sub_of_le hiterations] at hloop
  rw [pbkdf2Block, toBeBytes_blockNumber hindex]
  exact hloop

end Block

/-! ### The chunks of the output -/

section Chunks

variable (block : Nat → Vector UInt8 32)

/-- The chunks filled, each from the block of its number. -/
def fill (chunks : List Nat) (start : Nat) : Bytes :=
  (chunks.zipIdx start).flatMap fun chunk => (block (chunk.2 + 1)).toList.take chunk.1

theorem fill_append (chunks chunks' : List Nat) (start : Nat) :
    fill block (chunks ++ chunks') start =
      fill block chunks start ++ fill block chunks' (start + chunks.length) := by
  rw [fill, List.zipIdx_append, List.flatMap_append]
  rfl

theorem fill_singleton (n start : Nat) :
    fill block [n] start = (block (start + 1)).toList.take n := by
  simp [fill]

/-- Whole chunks take whole blocks; only the last chunk may be shorter. -/
theorem fill_replicate (q : Nat) : fill block (List.replicate q 32) 0 = concat block q := by
  induction q with
  | zero => rfl
  | succ q ih =>
      rw [List.replicate_succ', fill_append, ih, fill_singleton, List.length_replicate,
        Nat.zero_add, List.take_of_length_le (by rw [Vector.length_toList]), concat_succ]

/-- **The chunks are filled with the first bytes of the blocks.** -/
theorem fill_chunkLengths (length : Nat) :
    fill block (chunkLengths length) 0 = (concat block (length / 32 + 1)).take length := by
  have hsplit : length / 32 * 32 + length % 32 = length := Nat.div_add_mod' length 32
  have htake := take_concat_succ block (length / 32) (length % 32)
  rw [hsplit] at htake
  rw [htake, chunkLengths, fill_append, fill_replicate, List.length_replicate, Nat.zero_add]
  split
  · rename_i hwhole
    rw [hwhole, List.take_zero]
    rfl
  · rw [fill_singleton]

end Chunks

/-! ### The output -/

section Output

variable (crypto : Crypto) (password salt : Bytes) {iterations length : Nat}

theorem zipIdx_chunkLengths_lt (hlength : length ≤ 4294967295 * 32) :
    ∀ chunk ∈ (chunkLengths length).zipIdx, chunk.2 < 4294967295 := by
  intro chunk hchunk
  have hindex := List.snd_lt_of_mem_zipIdx hchunk
  have hcount : (chunkLengths length).length ≤ (length + 31) / 32 := by
    rw [chunkLengths, List.length_append, List.length_replicate]
    split
    · exact Nat.div_le_div_right (Nat.le_add_right _ _)
    · rw [List.length_singleton]
      omega
  omega

/-- Both loops at once: the blocks are concatenated, and the last one is cut off at the
end of the output. -/
theorem pbkdf2HmacSha256_eq_take (hiterations : 1 ≤ iterations)
    (hlength : length ≤ 4294967295 * 32) :
    pbkdf2HmacSha256 crypto password salt iterations length =
      (concat (t crypto.hmacSha256 password salt iterations) (length / 32 + 1)).take length := by
  rw [← fill_chunkLengths, pbkdf2HmacSha256, fill]
  refine List.flatMap_congr fun chunk hchunk => ?_
  rw [pbkdf2Block_eq _ _ _ hiterations (zipIdx_chunkLengths_lt hlength chunk hchunk)]

/-- **`pbkdf2_hmac_sha256` is PBKDF2**, for every MAC, password, salt, number of
iterations and length. -/
theorem pbkdf2HmacSha256_eq (hiterations : 1 ≤ iterations) (hlength : length ≤ 4294967295 * 32) :
    pbkdf2 crypto.hmacSha256 password salt iterations length =
      some (pbkdf2HmacSha256 crypto password salt iterations length) := by
  have hblocks : length ≤ (length / 32 + 1) * 32 := by omega
  rw [pbkdf2_eq_take _ _ _ hlength hblocks, pbkdf2HmacSha256_eq_take _ _ _ hiterations hlength]

/-- Two blocks, the second in part. This MAC adds the lengths and the last byte. -/
theorem pbkdf2HmacSha256_eq_lengths :
    let crypto : Crypto :=
      { Base64.urlSafeNoPad with
        hmacSha256 := fun key message =>
          Vector.replicate 32 (UInt8.ofNat (key.length + message.length) + message.getLastD 0) }
    pbkdf2 crypto.hmacSha256 [1, 2] [3] 3 33 = some (pbkdf2HmacSha256 crypto [1, 2] [3] 3 33) ∧
      pbkdf2HmacSha256 crypto [1, 2] [3] 3 33 = List.replicate 32 110 ++ [111] :=
  ⟨pbkdf2HmacSha256_eq _ _ _ (by decide) (by decide), by decide +kernel⟩

theorem pbkdf2HmacSha256_one (hiterations : 1 ≤ iterations) :
    pbkdf2HmacSha256 crypto password salt iterations 32 =
      (t crypto.hmacSha256 password salt iterations 1).toList := by
  have hwhole := take_concat_whole (t crypto.hmacSha256 password salt iterations) 1 1
  rw [Nat.one_mul] at hwhole
  rw [pbkdf2HmacSha256_eq_take _ _ _ hiterations (by decide), ← concat_one]
  exact hwhole

/-- A stored key is the first block. -/
theorem hashPassword_eq (salt : Vector UInt8 16) (password : String) :
    hashPassword crypto salt password =
      passwordHashPrefix ++ "$" ++ toString passwordHashIterations ++ "$" ++
        crypto.encode salt.toList ++ "$" ++
          crypto.encode (t crypto.hmacSha256 (asBytes password) salt.toList
            passwordHashIterations 1).toList := by
  have hiterations : 1 ≤ passwordHashIterations := by decide
  simp only [hashPassword, passwordHashBytes, pbkdf2HmacSha256_one _ _ _ hiterations]

end Output

end DevbitBackend.Auth
