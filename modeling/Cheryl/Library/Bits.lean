import Mathlib.Data.List.OfFn
import Mathlib.Data.Nat.Bitwise
import Mathlib.Tactic.Ring

/-!
# Reading a word from its most significant bit

A loop that walks a machine word from the top usually carries a probe, a word with a single bit
set that is shifted right in every round, and tests `x &&& probe ≠ 0`. Here the probe is tied to
the list of bits of `x`, most significant first, and a net mask to a prefix of that list.
-/

namespace Cheryl.Library

variable {w : Nat}

/-! ## The probe

In round `i` the probe has its only bit at place `i` from the left. It is never compared with a number: all
that a loop asks of it is whether it meets a bit of the word, and that is `and_probe_ne_zero`. -/

def probe (w i : Nat) : BitVec w := BitVec.twoPow w (w - 1) >>> i

@[simp] theorem probe_shift (i : Nat) : probe w i >>> 1 = probe w (i + 1) := by
  simp [probe, BitVec.shiftRight_add]

theorem getMsbD_probe {i j : Nat} (hi : i < w) : (probe w i).getMsbD j = decide (j = i) := by
  simp only [probe, BitVec.getMsbD_ushiftRight, BitVec.getMsbD_twoPow]
  by_cases h : j = i
  · subst h; simp; omega
  · simp [h]; omega

/-- Once the bit has been shifted out the probe is zero: the walk is over. -/
theorem probe_eq_zero {i : Nat} (hi : w ≤ i) : probe w i = 0#w := by
  apply BitVec.eq_of_getMsbD_eq
  intro j hj
  simp only [probe, BitVec.getMsbD_ushiftRight, BitVec.getMsbD_zero]
  simp; omega

/-- Testing a word against the probe reads one bit. -/
theorem and_probe_ne_zero {x : BitVec w} {i : Nat} (hi : i < w) :
    x &&& probe w i ≠ 0#w ↔ x.getMsbD i = true := by
  constructor
  · intro h
    by_contra hx
    apply h
    apply BitVec.eq_of_getMsbD_eq
    intro j _
    rw [BitVec.getMsbD_and, getMsbD_probe hi, BitVec.getMsbD_zero]
    by_cases hji : j = i
    · subst hji; simpa using hx
    · simp [hji]
  · intro hx h
    have := congrArg (fun y => y.getMsbD i) h
    simp [getMsbD_probe hi, hx] at this

/-! ## Words and lists of bits

A round reads one bit, so `m` rounds read a prefix of the list of bits, of length `m`. A net mask is the
word that is met by the probe in the first `m` rounds, and not after. -/

def bits (x : BitVec w) : List Bool := List.ofFn fun i : Fin w => x.getMsbD i

@[simp] theorem length_bits (x : BitVec w) : (bits x).length = w := by simp [bits]

theorem getElem?_bits {x : BitVec w} {i : Nat} (hi : i < w) : (bits x)[i]? = some (x.getMsbD i) := by
  simp [bits, hi]

/-- What one round more has read. -/
theorem take_succ_bits {x : BitVec w} {i : Nat} (hi : i < w) :
    (bits x).take (i + 1) = (bits x).take i ++ [x.getMsbD i] := by
  rw [List.take_add_one, getElem?_bits hi]
  rfl

/-- The mask that keeps the `m` most significant bits, written as programs write it. -/
def netMask (w m : Nat) : BitVec w := (1#w <<< (w - m) - 1#w) ^^^ BitVec.allOnes w

/-- The mask meets the probe in the first `m` rounds. -/
theorem getMsbD_netMask {m i : Nat} (hm : m ≤ w) (hi : i < w) :
    (netMask w m).getMsbD i = decide (i < m) := by
  -- `1 <<< k - 1` is the word of the `k` lowest bits, also when the shift runs over
  have hone : ∀ k ≤ w, ∀ j < w, (1#w <<< k - 1#w).getLsbD j = decide (j < k) := by
    intro k hk j hj
    have hlt : (2 : Nat) ^ k ≤ 2 ^ w := Nat.pow_le_pow_right (by omega) hk
    have hpos : 0 < (2 : Nat) ^ k := Nat.two_pow_pos k
    have hval : (1#w <<< k - 1#w).toNat = 2 ^ k - 1 := by
      have hw1 : 1 % 2 ^ w = 1 := Nat.mod_eq_of_lt (Nat.one_lt_two_pow (by omega))
      rw [BitVec.toNat_sub, BitVec.toNat_shiftLeft, BitVec.toNat_ofNat, hw1, Nat.shiftLeft_eq,
        one_mul]
      -- at `k = w` the shift gives zero, and the subtraction wraps to all ones
      rcases Nat.lt_or_ge k w with hkw | hkw
      · have hkw' : (2 : Nat) ^ k < 2 ^ w := Nat.pow_lt_pow_right (by omega) hkw
        rw [Nat.mod_eq_of_lt hkw']
        have : 2 ^ w - 1 + 2 ^ k = 2 ^ k - 1 + 2 ^ w := by omega
        rw [this, Nat.add_mod_right, Nat.mod_eq_of_lt (by omega)]
      · have hkw' : k = w := by omega
        subst hkw'
        rw [Nat.mod_self, add_zero, Nat.mod_eq_of_lt (by omega)]
    rw [BitVec.getLsbD, hval, Nat.testBit_two_pow_sub_one]
  -- counted from the other end, and negated
  rw [netMask, BitVec.getMsbD_xor, BitVec.getMsbD_allOnes, BitVec.getMsbD_eq_getLsbD,
    hone (w - m) (by omega) (w - 1 - i) (by omega)]
  by_cases him : i < m
  · have : ¬ w - 1 - i < w - m := by omega
    simp [him, this, hi]
  · have : w - 1 - i < w - m := by omega
    simp [him, this, hi]

end Cheryl.Library
