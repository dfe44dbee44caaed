import Cheryl.Library.Bits
import Cheryl.Acl.RadixTree

/-!
# CIDR texts

A `Cidr` is a text `a.b.c.d/m` with its well-formedness: octets in `0..255` and a mask in `0..32`,
in decimal. It names a network, the first `m` bits of its address; different texts may name the
same one. `add` and `Delete` read such a text as that address and that mask (`inetToi_quad`,
`Cidr.add_eq`, `Cidr.Delete_eq`), so below this file the tree is only ever seen with a `Cidr`.
-/

namespace Cheryl.Acl

open Library Utils

/-! ## Dotted quads

The texts are lists of characters here, since `split` works on these. `IsOctet` allows zeros in front, as
`Atoi` does. -/

/-- An octet: a numeral up to 255. -/
def IsOctet (ds : List Char) : Prop := IsNumeral ds ∧ decimal ds ≤ 255

instance (ds : List Char) : Decidable (IsOctet ds) := inferInstanceAs (Decidable (_ ∧ _))

def quad (a b c d : List Char) : List Char := a ++ '.' :: (b ++ '.' :: (c ++ '.' :: d))

def quadAddress (a b c d : List Char) : BitVec 32 :=
  BitVec.ofNat 32 (decimal a * 2 ^ 24 + decimal b * 2 ^ 16 + decimal c * 2 ^ 8 + decimal d)

/-- Text joined by a separator that its parts do not contain is split into these parts. -/
theorem split_intercalate {sep : Char} {parts : List (List Char)} (hne : parts ≠ [])
    (hsep : ∀ p ∈ parts, sep ∉ p) :
    split (String.ofList (List.intercalate [sep] parts)) sep = parts.map String.ofList := by
  rw [split, String.toList_ofList, List.splitOn_intercalate sep hsep hne]

section Quad

variable {a b c d : List Char}

/-- Between the dots are the octets. -/
theorem split_quad (ha : IsOctet a) (hb : IsOctet b) (hc : IsOctet c) (hd : IsOctet d) :
    split (String.ofList (quad a b c d)) '.' =
      [String.ofList a, String.ofList b, String.ofList c, String.ofList d] := by
  have h : split (String.ofList (List.intercalate ['.'] [a, b, c, d])) '.' =
      [a, b, c, d].map String.ofList := split_intercalate (by simp) (by
    intro p hp
    simp only [List.mem_cons, List.not_mem_nil, or_false] at hp
    have hdot : ('.' : Char).isDigit = false := by decide
    rcases hp with rfl | rfl | rfl | rfl
    · exact ha.1.not_mem hdot
    · exact hb.1.not_mem hdot
    · exact hc.1.not_mem hdot
    · exact hd.1.not_mem hdot)
  simpa [quad, List.intercalate] using h

/-- One round of `InetToi`: the octet moves to its place in the word. -/
theorem shifted_octet (n p : Nat) :
    (BitVec.ofInt 64 (n : Int) <<< p).setWidth 32 = BitVec.ofNat 32 (n * 2 ^ p) := by
  apply BitVec.eq_of_toNat_eq
  rw [BitVec.ofInt_natCast, BitVec.toNat_setWidth, BitVec.toNat_shiftLeft, BitVec.toNat_ofNat,
    BitVec.toNat_ofNat, Nat.shiftLeft_eq, Nat.mod_mul_mod, Nat.mod_mod_of_dvd _ (by decide)]

/-- `InetToi` of a dotted quad is the word it stands for. -/
theorem inetToi_quad (ha : IsOctet a) (hb : IsOctet b) (hc : IsOctet c) (hd : IsOctet d) :
    inetToi (String.ofList (quad a b c d)) = .ok (.ok (quadAddress a b c d)) := by
  have hlt : ∀ {x}, IsOctet x → decimal x < 2 ^ 63 := fun hx => by have := hx.2; omega
  rw [inetToi, split_quad ha hb hc hd]
  simp only [inetToiLoop, atoi_of_isNumeral ha.1 (hlt ha), atoi_of_isNumeral hb.1 (hlt hb),
    atoi_of_isNumeral hc.1 (hlt hc), atoi_of_isNumeral hd.1 (hlt hd)]
  simp only [show ¬ ((24 : Int) < 0) by decide, show ¬ ((24 : Int) - 8 < 0) by decide,
    show ¬ ((24 : Int) - 8 - 8 < 0) by decide, show ¬ ((24 : Int) - 8 - 8 - 8 < 0) by decide,
    if_false, show ((24 : Int) - 8 - 8 - 8).toNat = 0 by decide,
    show ((24 : Int) - 8 - 8).toNat = 8 by decide, show ((24 : Int) - 8).toNat = 16 by decide,
    show (24 : Int).toNat = 24 by decide]
  -- the four rounds, each with its shift
  rw [shifted_octet, shifted_octet, shifted_octet, shifted_octet]
  have hA := ha.2
  have hB := hb.2
  have hC := hc.2
  have hD := hd.2
  -- the octets do not overlap, so `or` adds them
  have h1 := Nat.two_pow_add_eq_or_of_lt (i := 24) (b := decimal b * 2 ^ 16 + (decimal c * 2 ^ 8 +
    decimal d)) (by omega) (decimal a)
  have h2 := Nat.two_pow_add_eq_or_of_lt (i := 16) (b := decimal c * 2 ^ 8 + decimal d) (by omega)
    (decimal b)
  have h3 := Nat.two_pow_add_eq_or_of_lt (i := 8) (b := decimal d) (by omega) (decimal c)
  have hsum : decimal a * 2 ^ 24 + decimal b * 2 ^ 16 + decimal c * 2 ^ 8 + decimal d =
      decimal a * 2 ^ 24 ||| (decimal b * 2 ^ 16 ||| (decimal c * 2 ^ 8 ||| decimal d)) := by
    rw [mul_comm _ (2 ^ 24), mul_comm _ (2 ^ 16), mul_comm _ (2 ^ 8), ← h3, mul_comm (2 ^ 8),
      ← h2, mul_comm (2 ^ 16), ← h1]
    ring
  rw [quadAddress, hsum]
  simp only [BitVec.ofNat_or, BitVec.zero_or, BitVec.or_assoc, pow_zero, mul_one]

end Quad

/-! ## CIDR texts

A `Cidr` is well-formed by its fields, so no theorem about the tree has to ask again whether an octet fits
or a mask is in range. Its text is kept as it was written: `Record` is keyed by texts, and `1.2.3.4/8` and
`1.0.0.0/8` are two keys for one network. -/

/-- A text `a.b.c.d/m` with octets in `0..255` and `m` in `0..32`. -/
structure Cidr where
  text : String
  a : List Char
  b : List Char
  c : List Char
  d : List Char
  m : List Char
  spelled : text = String.ofList (quad a b c d ++ '/' :: m)
  octet_a : IsOctet a
  octet_b : IsOctet b
  octet_c : IsOctet c
  octet_d : IsOctet d
  numeral : IsNumeral m
  mask_le : decimal m ≤ 32

namespace Cidr

variable (n : Cidr)

def address : BitVec 32 := quadAddress n.a n.b n.c n.d

def mask : Nat := decimal n.m

def network : List Bool := (bits n.address).take n.mask

def ofParts (a b c d m : String)
    (h : (IsOctet a.toList ∧ IsOctet b.toList ∧ IsOctet c.toList ∧ IsOctet d.toList) ∧
      IsNumeral m.toList ∧ decimal m.toList ≤ 32) : Cidr where
  text := String.ofList (quad a.toList b.toList c.toList d.toList ++ '/' :: m.toList)
  a := a.toList
  b := b.toList
  c := c.toList
  d := d.toList
  m := m.toList
  spelled := rfl
  octet_a := h.1.1
  octet_b := h.1.2.1
  octet_c := h.1.2.2.1
  octet_d := h.1.2.2.2
  numeral := h.2.1
  mask_le := h.2.2

/-- The network covers an address when it is a prefix of its bits. -/
def Covers (k : BitVec 32) : Prop := n.network <+: bits k

instance (k : BitVec 32) : Decidable (n.Covers k) := inferInstanceAs (Decidable (_ <+: _))

theorem length_network : n.network.length = n.mask := by
  have hle : n.mask ≤ 32 := n.mask_le
  rw [network, List.length_take, length_bits, Nat.min_eq_left hle]

/-- Before and after the slash. -/
theorem split_text : split n.text '/' = [String.ofList (quad n.a n.b n.c n.d), String.ofList n.m] := by
  have hs : ('/' : Char).isDigit = false := by decide
  have h : split (String.ofList (List.intercalate ['/'] [quad n.a n.b n.c n.d, n.m])) '/' =
      [quad n.a n.b n.c n.d, n.m].map String.ofList := split_intercalate (by simp) (by
    intro p hp
    simp only [List.mem_cons, List.not_mem_nil, or_false] at hp
    rcases hp with rfl | rfl
    · simp only [quad, List.mem_append, List.mem_cons, not_or]
      exact ⟨n.octet_a.1.not_mem hs, by decide, n.octet_b.1.not_mem hs, by decide,
        n.octet_c.1.not_mem hs, by decide, n.octet_d.1.not_mem hs⟩
    · exact n.numeral.not_mem hs)
  rw [n.spelled]
  simpa [List.intercalate] using h

/-- The part before the slash is read as the address. -/
theorem inetToi_text : inetToi ((split n.text '/').headD "") = .ok (.ok n.address) := by
  rw [n.split_text]
  exact inetToi_quad n.octet_a n.octet_b n.octet_c n.octet_d

theorem atoi_mask : atoi (String.ofList n.m) = .ok (n.mask : Int) :=
  atoi_of_isNumeral n.numeral (by have := n.mask_le; omega)

/-- The source's mask is the mask of the first bits. -/
theorem netMaskOf_mask : RadixTree.netMaskOf (32 - n.mask) = netMask 32 n.mask := by
  have := n.mask_le
  have hshift : (32 - (n.mask : Int)).toNat = 32 - n.mask := by omega
  rw [RadixTree.netMaskOf, hshift]
  rfl

/-- `Add` of a CIDR text inserts at its address and mask, and records the text. -/
theorem add_eq (t : RadixTree) (value : String) :
    t.add n.text value = .ok (none, { t.insert n.address (netMask 32 n.mask) value with
      record := insert n.text (t.insert n.address (netMask 32 n.mask) value).record }) := by
  have hle : n.mask ≤ 32 := n.mask_le
  have hwrap : wrap64 (32 - n.mask) = 32 - n.mask := by
    rw [wrap64, BitVec.toInt_ofInt, Int.bmod_eq_of_le (by omega) (by omega)]
  have hpos : ¬ wrap64 (32 - (n.mask : Int)) < 0 := by omega
  simp only [RadixTree.add, n.inetToi_text]
  rw [n.split_text]
  simp only [n.atoi_mask, if_neg hpos]
  rw [hwrap, n.netMaskOf_mask]

/-- `Delete` of a CIDR text deletes at its address and mask, and forgets the text if it did. -/
theorem Delete_eq (t : RadixTree) :
    t.Delete n.text = match t.delete n.address (netMask 32 n.mask) with
      | .error fault => .error fault
      | .ok (true, t) => .ok (none, { t with record := t.record.erase n.text })
      | .ok (false, t) => .ok (some cantFindIpNet, t) := by
  have hle : n.mask ≤ 32 := n.mask_le
  have hrange : ¬ ((n.mask : Int) < 0 ∨ (n.mask : Int) > 32) := by omega
  have hip : inetToi (String.ofList (quad n.a n.b n.c n.d)) = .ok (.ok n.address) :=
    inetToi_quad n.octet_a n.octet_b n.octet_c n.octet_d
  have hread : t.Delete n.text = match t.delete n.address (RadixTree.netMaskOf (32 - n.mask)) with
      | .error fault => .error fault
      | .ok (true, t) => .ok (none, { t with record := t.record.erase n.text })
      | .ok (false, t) => .ok (some cantFindIpNet, t) := by
    rcases hd : t.delete n.address (RadixTree.netMaskOf (32 - n.mask)) with fault | ⟨b, t'⟩
    · simp only [RadixTree.Delete, n.split_text, List.headD_cons, hip, n.atoi_mask,
        if_neg hrange, hd]
    · cases b <;> simp only [RadixTree.Delete, n.split_text, List.headD_cons, hip,
        n.atoi_mask, if_neg hrange, hd]
  rw [hread, n.netMaskOf_mask]

/-- The text determines the network. -/
theorem network_congr {n n' : Cidr} (h : n.text = n'.text) : n.network = n'.network := by
  have hsplit := n.split_text
  rw [h, n'.split_text] at hsplit
  have haddr := n.inetToi_text
  rw [h, n'.inetToi_text] at haddr
  have hm : n.m = n'.m := by
    have := congrArg (fun l => (l[1]?.map String.toList)) hsplit
    simpa using this.symm
  have ha : n.address = n'.address := by simpa using haddr.symm
  rw [network, network, ha, mask, mask, hm]

end Cidr

end Cheryl.Acl
