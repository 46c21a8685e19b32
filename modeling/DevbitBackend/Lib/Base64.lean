import Mathlib.Data.List.Nodup

/-!
# Base64

The URL-safe base64 of RFC 4648 without padding. An `Engine` is any pair of functions that
is used as such an encoding, and `Lawful` is what its users rely on; `urlSafeNoPad` is the
encoding itself, which keeps these laws.
-/

namespace Base64

structure Engine where
  encode : List UInt8 → String
  decode : String → Option (List UInt8)

/-- The characters of the URL-safe alphabet. -/
def isUrlSafe (c : Char) : Bool := c.isAlphanum || c == '-' || c == '_'

/-- It decodes what it has encoded, in its alphabet, with four characters for three
bytes. -/
structure Engine.Lawful (engine : Engine) : Prop where
  decode_encode : ∀ bytes, engine.decode (engine.encode bytes) = some bytes
  encode_alphabet : ∀ bytes, ∀ c ∈ (engine.encode bytes).toList, isUrlSafe c = true
  encode_length : ∀ bytes, 3 * (engine.encode bytes).toList.length ≤ 4 * bytes.length + 2

/-- They are visible characters of ASCII. -/
theorem visible_urlSafe {c : Char} (h : isUrlSafe c = true) : 32 < c.toNat ∧ c.toNat < 127 := by
  -- the classes of characters are ranges
  have hranges : (decide (c.val ≥ 'A'.val ∧ c.val ≤ 'Z'.val) ||
      (c.val ≥ 'a'.val && c.val ≤ 'z'.val) || (c.val ≥ '0'.val && c.val ≤ '9'.val) ||
        c == '-' || c == '_') = true := h
  simp only [Bool.or_eq_true, Bool.and_eq_true, decide_eq_true_eq, beq_iff_eq, ge_iff_le,
    UInt32.le_iff_toNat_le] at hranges
  rcases hranges with (hranges | rfl) | rfl
  · have hval : c.toNat = c.val.toNat := rfl
    simp at hranges
    omega
  · decide
  · decide

/-- Only no bytes are encoded by no characters. -/
theorem Engine.Lawful.encode_ne_empty {engine : Engine} (h : engine.Lawful) {bytes : List UInt8}
    (hne : bytes ≠ []) : engine.encode bytes ≠ "" := by
  intro hempty
  have hlength := h.encode_length []
  have hnil : engine.encode [] = "" := by
    refine String.toList_eq_nil_iff.mp (List.length_eq_zero_iff.mp ?_)
    rw [List.length_nil] at hlength
    omega
  have hdecode := h.decode_encode bytes
  rw [hempty, ← hnil, h.decode_encode] at hdecode
  exact hne (Option.some.inj hdecode).symm

/-! ### Sextets -/

/-- The bits of the bytes, six at a time. -/
def sextets : List UInt8 → List Nat
  | a :: b :: c :: rest =>
      a.toNat / 4 :: (a.toNat % 4 * 16 + b.toNat / 16) :: (b.toNat % 16 * 4 + c.toNat / 64) ::
        c.toNat % 64 :: sextets rest
  | [a, b] => [a.toNat / 4, a.toNat % 4 * 16 + b.toNat / 16, b.toNat % 16 * 4]
  | [a] => [a.toNat / 4, a.toNat % 4 * 16]
  | [] => []

/-- The bytes of the sextets. Bits that are left over must be zero. -/
def octets : List Nat → Option (List UInt8)
  | w :: x :: y :: z :: rest =>
      (octets rest).map fun bytes =>
        UInt8.ofNat (w * 4 + x / 16) :: UInt8.ofNat (x % 16 * 16 + y / 4) ::
          UInt8.ofNat (y % 4 * 64 + z) :: bytes
  | [w, x, y] =>
      if y % 4 = 0 then
        some [UInt8.ofNat (w * 4 + x / 16), UInt8.ofNat (x % 16 * 16 + y / 4)]
      else none
  | [w, x] => if x % 16 = 0 then some [UInt8.ofNat (w * 4 + x / 16)] else none
  | [_] => none
  | [] => some []

theorem ofNat_eq {n : Nat} {b : UInt8} (h : n = b.toNat) : UInt8.ofNat n = b := by
  rw [h, UInt8.ofNat_toNat]

theorem octets_sextets (bytes : List UInt8) : octets (sextets bytes) = some bytes := by
  induction bytes using sextets.induct with
  | case1 a b c rest ih =>
      have ha := a.toNat_lt
      have hb := b.toNat_lt
      have hc := c.toNat_lt
      rw [sextets, octets, ih, Option.map_some]
      congr 2
      · exact ofNat_eq (by omega)
      congr 1
      · exact ofNat_eq (by omega)
      congr 1
      · exact ofNat_eq (by omega)
  | case2 a b =>
      have ha := a.toNat_lt
      have hb := b.toNat_lt
      rw [sextets, octets, if_pos (by omega), ofNat_eq (b := a) (by omega),
        ofNat_eq (b := b) (by omega)]
  | case3 a =>
      have ha := a.toNat_lt
      rw [sextets, octets, if_pos (by omega), ofNat_eq (b := a) (by omega)]
  | case4 => rfl

theorem sextets_lt (bytes : List UInt8) : ∀ n ∈ sextets bytes, n < 64 := by
  induction bytes using sextets.induct with
  | case1 a b c rest ih =>
      have ha := a.toNat_lt
      have hb := b.toNat_lt
      have hc := c.toNat_lt
      simp only [sextets, List.forall_mem_cons]
      exact ⟨by omega, by omega, by omega, by omega, ih⟩
  | case2 a b =>
      have ha := a.toNat_lt
      have hb := b.toNat_lt
      simp only [sextets, List.forall_mem_cons, List.not_mem_nil, false_imp_iff, implies_true,
        and_true]
      exact ⟨by omega, by omega, by omega⟩
  | case3 a =>
      have ha := a.toNat_lt
      simp only [sextets, List.forall_mem_cons, List.not_mem_nil, false_imp_iff, implies_true,
        and_true]
      exact ⟨by omega, by omega⟩
  | case4 => simp [sextets]

theorem length_sextets (bytes : List UInt8) :
    3 * (sextets bytes).length ≤ 4 * bytes.length + 2 := by
  induction bytes using sextets.induct with
  | case1 a b c rest ih =>
      simp only [sextets, List.length_cons]
      omega
  | case2 a b => simp [sextets]
  | case3 a => simp [sextets]
  | case4 => simp [sextets]

/-! ### The alphabet -/

def alphabet : List Char :=
  "ABCDEFGHIJKLMNOPQRSTUVWXYZabcdefghijklmnopqrstuvwxyz0123456789-_".toList

def digit (n : Nat) : Char := alphabet.getD n 'A'

def value (c : Char) : Option Nat := alphabet.idxOf? c

theorem length_alphabet : alphabet.length = 64 := by decide

theorem nodup_alphabet : alphabet.Nodup := by decide +kernel

theorem isUrlSafe_alphabet : ∀ c ∈ alphabet, isUrlSafe c = true :=
  List.all_eq_true.mp (by decide)

theorem digit_eq {n : Nat} (h : n < alphabet.length) : digit n = alphabet[n] := by
  simp [digit, h]

theorem digit_mem {n : Nat} (h : n < 64) : digit n ∈ alphabet := by
  rw [← length_alphabet] at h
  rw [digit_eq h]
  exact List.getElem_mem h

theorem value_digit {n : Nat} (h : n < 64) : value (digit n) = some n := by
  rw [← length_alphabet] at h
  rw [digit_eq h, value, List.idxOf?_eq_some_iff]
  refine ⟨h, rfl, fun j hj heq => ?_⟩
  exact absurd (nodup_alphabet.getElem_inj_iff.mp heq) (Nat.ne_of_lt hj)

theorem mapM_value {ns : List Nat} (h : ∀ n ∈ ns, n < 64) :
    (ns.map digit).mapM value = some ns := by
  induction ns with
  | nil => rfl
  | cons n ns ih =>
      obtain ⟨hn, hns⟩ := List.forall_mem_cons.mp h
      rw [List.map_cons, List.mapM_cons, value_digit hn, ih hns]
      rfl

/-- `URL_SAFE_NO_PAD`. -/
def urlSafeNoPad : Engine where
  encode bytes := String.ofList ((sextets bytes).map digit)
  decode s := (s.toList.mapM value).bind octets

theorem urlSafeNoPad_lawful : urlSafeNoPad.Lawful where
  decode_encode bytes := by
    simp only [urlSafeNoPad, String.toList_ofList]
    rw [mapM_value (sextets_lt bytes)]
    exact octets_sextets bytes
  encode_alphabet bytes c hc := by
    simp only [urlSafeNoPad, String.toList_ofList, List.mem_map] at hc
    obtain ⟨n, hn, rfl⟩ := hc
    exact isUrlSafe_alphabet _ (digit_mem (sextets_lt bytes n hn))
  encode_length bytes := by
    simp only [urlSafeNoPad, String.toList_ofList, List.length_map]
    exact length_sextets bytes

end Base64
