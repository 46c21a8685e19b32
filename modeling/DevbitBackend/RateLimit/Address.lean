import DevbitBackend.Lib.Numeral
import DevbitBackend.RateLimit.Limiter

/-!
# RateLimit.Address

IP addresses as text: the parser of `IpAddr::from_str`, which reads a text from the left
and gives back what it has read when a part of an address does not fit. An address that is
written as four decimal octets, or as eight groups of hexadecimal digits, is read back
(`parse_display`).
-/

namespace DevbitBackend.RateLimit

open Numeral

/-- What is read, and the text after it. Where it fails, nothing is read. -/
abbrev Reader (α : Type) := List Char → Option (α × List Char)

/-- `read_given_char`. -/
def readGivenChar (target : Char) : Reader Unit
  | [] => none
  | c :: cs => if c = target then some ((), cs) else none

/-- `read_separator`. -/
def readSeparator {α : Type} (sep : Char) (index : Nat) (inner : Reader α) (cs : List Char) :
    Option (α × List Char) :=
  if 0 < index then (readGivenChar sep cs).bind fun r => inner r.2 else inner cs

/-- `read_number`, of a type with the values below `bound`. -/
def readNumber (radix maxDigits : Nat) (allowZeroPrefix : Bool) (bound : Nat) (cs : List Char) :
    Option (Nat × List Char) :=
  let (digits, rest) := takeDigits radix cs
  if maxDigits < digits.length then none
  else if digits = [] then none
  else if allowZeroPrefix = false ∧ digits.head? = some 0 ∧ 1 < digits.length then none
  else if ofDigits radix digits < bound then some (ofDigits radix digits, rest)
  else none

/-- The octets of an IPv4 address from the `i`-th on. -/
def readOctets : Nat → Nat → List Char → Option (List Nat × List Char)
  | 0, _, cs => some ([], cs)
  | remaining + 1, i, cs =>
      (readSeparator '.' i (readNumber 10 3 false 256) cs).bind fun octet =>
        (readOctets remaining (i + 1) octet.2).map fun octets => (octet.1 :: octets.1, octets.2)

/-- `read_ipv4_addr`. -/
def readIpv4Addr : Reader (List Nat) := readOctets 4 0

/-- `u16::from_be_bytes`, of each two octets. -/
def fromBeBytes : List Nat → List Nat
  | high :: low :: octets => (256 * high + low) :: fromBeBytes octets
  | _ => []

/-- `read_groups`, from the `i`-th group on: the groups, and whether an IPv4 address ends
them. -/
def readGroups : Nat → Nat → List Char → List Nat × Bool × List Char
  | 0, _, cs => ([], false, cs)
  | remaining + 1, i, cs =>
      match if 0 < remaining then readSeparator ':' i readIpv4Addr cs else none with
      | some (octets, cs) => (fromBeBytes octets, true, cs)
      | none =>
          match readSeparator ':' i (readNumber 16 4 true 65536) cs with
          | some (group, cs) =>
              let (groups, ipv4, cs) := readGroups remaining (i + 1) cs
              (group :: groups, ipv4, cs)
          | none => ([], false, cs)

/-- `read_ipv6_addr`. -/
def readIpv6Addr : Reader (List Nat) := fun cs =>
  let (head, headIpv4, cs) := readGroups 8 0 cs
  if head.length = 8 then some (head, cs)
  -- an IPv4 address is not allowed before the two colons
  else if headIpv4 then none
  else (readGivenChar ':' cs).bind fun first => (readGivenChar ':' first.2).map fun second =>
    let (tail, _, cs) := readGroups (8 - (head.length + 1)) 0 second.2
    (head ++ List.replicate (8 - head.length - tail.length) 0 ++ tail, cs)

/-- The numbers of an address from the `i`-th on, as text. -/
def separated (sep : Char) (radix : Nat) : Nat → List Nat → List Char
  | _, [] => []
  | i, n :: ns =>
      (if 0 < i then [sep] else []) ++ (Nat.toDigits radix n ++ separated sep radix (i + 1) ns)

namespace IpAddr

/-- The address with these octets. -/
def ofOctets (octets : List Nat) : IpAddr := .v4 (BitVec.ofNat 32 (ofDigits 256 octets))

/-- The address with these groups. -/
def ofGroups (groups : List Nat) : IpAddr := .v6 (BitVec.ofNat 128 (ofDigits 65536 groups))

/-- `IpAddr::from_str`: the whole text has to be read. -/
def parse (s : String) : Option IpAddr :=
  let parsed : Option (IpAddr × List Char) :=
    match readIpv4Addr s.toList with
    | some (octets, rest) => some (ofOctets octets, rest)
    | none => (readIpv6Addr s.toList).map fun r => (ofGroups r.1, r.2)
  (parsed.filter fun r => r.2.isEmpty).map Prod.fst

/-- `is_loopback`: 127.0.0.0/8, or `::1`. An IPv4 address inside an IPv6 one does not
count. -/
def isLoopback : IpAddr → Bool
  | v4 bits => bits.toNat / 16777216 == 127
  | v6 bits => bits.toNat == 1

/-- The octets of an IPv4 address. -/
def octets (bits : BitVec 32) : List Nat := fixedDigits 256 4 bits.toNat

/-- The groups of an IPv6 address. -/
def groups (bits : BitVec 128) : List Nat := fixedDigits 65536 8 bits.toNat

/-- An address as text: its octets in decimal digits, or all its groups in hexadecimal
ones. -/
def display : IpAddr → String
  | v4 bits => String.ofList (separated '.' 10 0 (octets bits))
  | v6 bits => String.ofList (separated ':' 16 0 (groups bits))

end IpAddr

/-! ### What is written is read -/

section

variable {radix n i : Nat} {sep : Char} {ns : List Nat} {cs rest : List Char}

theorem readNumber_toDigits (maxDigits : Nat) (allowZeroPrefix : Bool) (bound : Nat)
    (hone : 1 < radix) (hradix : radix ≤ 16)
    (hmax : 0 < maxDigits) (hbound : bound ≤ radix ^ maxDigits) (hn : n < bound)
    (h : Ends radix rest) :
    readNumber radix maxDigits allowZeroPrefix bound (Nat.toDigits radix n ++ rest) =
      some (n, rest) := by
  obtain ⟨ds, htake, hvalue, hlength, hhead⟩ := takeDigits_toDigits hone hradix n h
  have hshort : ds.length ≤ maxDigits := by
    rw [hlength, Nat.length_toDigits_le_iff hone hmax]
    exact hn.trans_le hbound
  have hne : ds ≠ [] := by
    rw [← List.length_pos_iff_ne_nil, hlength]
    exact Nat.length_toDigits_pos
  have hzero : ¬ (allowZeroPrefix = false ∧ ds.head? = some 0 ∧ 1 < ds.length) := by
    rintro ⟨-, hfirst, hlong⟩
    rcases Nat.eq_zero_or_pos n with rfl | hpos
    · rw [hlength, Nat.toDigits_zero] at hlong
      exact absurd hlong (by decide)
    · exact hhead hpos hfirst
  simp only [readNumber, htake, hvalue]
  rw [if_neg hshort.not_gt, if_neg hne, if_neg hzero, if_pos hn]

/-- A separator stands after each number but the last one. -/
theorem ends_separated (hsep : toDigit radix sep = none) (hi : 0 < i) (hrest : Ends radix rest)
    (ns : List Nat) : Ends radix (separated sep radix i ns ++ rest) := by
  cases ns with
  | nil => exact hrest
  | cons n ns =>
      rintro c hc
      rw [separated, if_pos hi] at hc
      cases hc
      exact hsep

theorem readSeparator_separated {α : Type} {inner : Reader α} :
    readSeparator sep i inner (separated sep radix i (n :: ns) ++ rest) =
      inner (Nat.toDigits radix n ++ (separated sep radix (i + 1) ns ++ rest)) := by
  rw [readSeparator, separated]
  split <;> simp [readGivenChar]

theorem readOctets_separated (ns : List Nat) (hns : ∀ n ∈ ns, n < 256) (hrest : Ends 10 rest)
    (i : Nat) : readOctets ns.length i (separated '.' 10 i ns ++ rest) = some (ns, rest) := by
  induction ns generalizing i with
  | nil => rfl
  | cons n ns ih =>
      have hend := ends_separated (i := i + 1) (by decide : toDigit 10 '.' = none) i.succ_pos hrest
        ns
      have hnumber := readNumber_toDigits 3 false 256 (by decide) (by decide) (by decide)
        (by decide) (hns n List.mem_cons_self) hend
      have hmore := ih (fun m hm => hns m (List.mem_cons_of_mem _ hm)) (i + 1)
      rw [List.length_cons, readOctets, readSeparator_separated, hnumber, Option.bind_some, hmore,
        Option.map_some]

/-- Numbers and separators hold no other characters. -/
theorem mem_separated (hone : 1 < radix) (hradix : radix ≤ 16) {c : Char}
    (hc : c ∈ separated sep radix i ns) : c = sep ∨ ∃ d, toDigit radix c = some d := by
  induction ns generalizing i with
  | nil => cases hc
  | cons n ns ih =>
      rw [separated, List.mem_append, List.mem_append] at hc
      rcases hc with hc | hc | hc
      · split at hc
        · exact .inl (List.mem_singleton.mp hc)
        · cases hc
      · exact .inr (mem_toDigits hone hradix hc)
      · exact ih hc

/-- What is left of a text is part of it. -/
theorem mem_of_readNumber {maxDigits bound : Nat} {allowZeroPrefix : Bool} {c : Char}
    (h : readNumber radix maxDigits allowZeroPrefix bound cs = some (n, rest)) (hc : c ∈ rest) :
    c ∈ cs := by
  obtain ⟨digits, hcs, -⟩ := takeDigits_spec radix cs
  have hrest : (takeDigits radix cs).2 = rest := by
    simp only [readNumber] at h
    split_ifs at h
    exact congrArg Prod.snd (Option.some.inj h)
  rw [hcs, hrest]
  exact List.mem_append_right _ hc

/-- An IPv4 address has a dot after its first octet. -/
theorem readIpv4Addr_none (h : '.' ∉ cs) : readIpv4Addr cs = none := by
  have hfirst : readSeparator '.' 0 (readNumber 10 3 false 256) cs =
      readNumber 10 3 false 256 cs := if_neg (lt_irrefl 0)
  rw [readIpv4Addr, readOctets, hfirst]
  cases hnumber : readNumber 10 3 false 256 cs with
  | none => rfl
  | some r =>
      have hrest : '.' ∉ r.2 := fun hc => h (mem_of_readNumber hnumber hc)
      have hdot : readGivenChar '.' r.2 = none := by
        cases hcs : r.2 with
        | nil => rfl
        | cons c cs =>
            have hne : c ≠ '.' := by
              rintro rfl
              exact hrest (hcs ▸ List.mem_cons_self)
            rw [readGivenChar, if_neg hne]
      have hsecond : readSeparator '.' 1 (readNumber 10 3 false 256) r.2 = none := by
        rw [readSeparator, if_pos Nat.one_pos, hdot]
        rfl
      rw [Option.bind_some, readOctets, hsecond]
      rfl

theorem dot_separated (i : Nat) (ns : List Nat) : '.' ∉ separated ':' 16 i ns := by
  intro hdot
  rcases mem_separated (by decide) (by decide) hdot with hdot | ⟨d, hd⟩
  · exact absurd hdot (by decide)
  · have hnone : toDigit 16 '.' = none := by decide
    rw [hnone] at hd
    cases hd

/-- Groups without a dot, up to the end of the text. -/
theorem readGroups_separated (ns : List Nat) (hns : ∀ n ∈ ns, n < 65536) (i : Nat) :
    readGroups ns.length i (separated ':' 16 i ns) = (ns, false, []) := by
  induction ns generalizing i with
  | nil => rfl
  | cons n ns ih =>
      have hcs : separated ':' 16 i (n :: ns) = separated ':' 16 i (n :: ns) ++ [] :=
        (List.append_nil _).symm
      have hend : Ends 16 (separated ':' 16 (i + 1) ns ++ []) :=
        ends_separated (by decide) i.succ_pos (by rintro c ⟨⟩) ns
      have hnumber := readNumber_toDigits 4 true 65536 (by decide) (by decide) (by decide)
        (by decide) (hns n List.mem_cons_self) hend
      have hmore := ih (fun m hm => hns m (List.mem_cons_of_mem _ hm)) (i + 1)
      have hipv4 : readIpv4Addr (Nat.toDigits 16 n ++ (separated ':' 16 (i + 1) ns ++ [])) =
          none := by
        refine readIpv4Addr_none fun hdot => ?_
        rw [List.append_nil] at hdot
        exact dot_separated i (n :: ns) (List.mem_append_right _ hdot)
      rw [List.length_cons, readGroups, hcs, readSeparator_separated, readSeparator_separated,
        hipv4, ite_self, hnumber, List.append_nil]
      simp only [hmore]

end

namespace IpAddr

/-- **An address that is written is read back.** -/
theorem parse_display (addr : IpAddr) : parse addr.display = some addr := by
  cases addr with
  | v4 bits =>
      have hread := @readOctets_separated [] (octets bits)
        (fun n hn => mem_fixedDigits (by decide) hn) (by rintro c ⟨⟩) 0
      have hlength : (octets bits).length = 4 := length_fixedDigits ..
      have hlt : bits.toNat < 256 ^ 4 := bits.isLt
      have hvalue : ofOctets (octets bits) = v4 bits := by
        rw [ofOctets, octets, ofDigits_fixedDigits, Nat.mod_eq_of_lt hlt, BitVec.ofNat_toNat,
          BitVec.setWidth_eq]
      rw [hlength, List.append_nil] at hread
      simp [parse, display, readIpv4Addr, hread, hvalue]
  | v6 bits =>
      have hread := readGroups_separated (groups bits)
        (fun n hn => mem_fixedDigits (by decide) hn) 0
      have hlength : (groups bits).length = 8 := length_fixedDigits ..
      have hlt : bits.toNat < 65536 ^ 8 := bits.isLt
      have hvalue : ofGroups (groups bits) = v6 bits := by
        rw [ofGroups, groups, ofDigits_fixedDigits, Nat.mod_eq_of_lt hlt, BitVec.ofNat_toNat,
          BitVec.setWidth_eq]
      have hipv4 : readIpv4Addr (separated ':' 16 0 (groups bits)) = none :=
        readIpv4Addr_none (dot_separated 0 _)
      rw [hlength] at hread
      simp [parse, display, readIpv6Addr, hipv4, hread, hlength, hvalue]

end IpAddr

end DevbitBackend.RateLimit
