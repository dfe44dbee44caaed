import Mathlib.Data.Fintype.Card
import Cheryl.Library.LongestMatch
import Cheryl.Acl.Cidr

/-!
# The radix tree as a table of networks

`WellFormed t A fl` is the representation invariant: the links of `t` lay out a tree `A` of depth
at most 32 whose leaves carry values, and the free list holds the addresses `fl`, apart from the
tree. What the tree stores is then a table from paths to values, `contents t A`.

The three operations are specified against that table: `search_spec`, here, is longest match;
`insert_spec` (`Cheryl.Acl.Insert`) adds an entry and `delete_spec` (`Cheryl.Acl.Delete`) takes one
away.
-/

namespace Cheryl.Acl

open Library

namespace RadixTree

/-! ## The invariant

The links of the free nodes are left open except for `left`: a free node hangs in the list by its `right`
link and keeps its old parent. In the course of an operation a leaf may be bare for a while, so the
invariant has a parameter for the paths at which that is allowed; between the operations there are none. -/

/-- The representation invariant, with leaves allowed to be without value at the paths in `X`. -/
structure WellFormedBut (X : List Bool → Prop) (t : RadixTree) (A : Layout) (fl : List Nat) :
    Prop where
  lays : Lays t.store t.root A
  depth : ∀ {p a}, A p = some a → p.length ≤ 32
  used : ∀ {p a}, A p = some a → a < t.next
  chain : Chain t.store t.free fl
  nodup : fl.Nodup
  apart : ∀ {p a}, A p = some a → a ∉ fl
  spare : ∀ a ∈ fl, a < t.next
  noLeft : ∀ a ∈ fl, (t.store a).left = none
  busy : ∀ {p a}, ¬ X p → p ≠ [] → A p = some a → (∀ b, A (p ++ [b]) = none) →
    (t.store a).value ≠ noValue

abbrev WellFormed := WellFormedBut fun _ => False

def contents (t : RadixTree) (A : Layout) (p : List Bool) : Option String :=
  (A p).bind fun a => if (t.store a).value = noValue then none else some (t.store a).value

theorem wellFormed_new :
    WellFormed new (Function.update (fun _ => none) [] (some 0)) [] where
  lays :=
    { top := by simp [new]
      down := by
        intro p a ha b
        cases p with
        | nil => cases b <;> simp [new, blank, Cell.child]
        | cons => simp at ha
      gap := by intro p hp b; simp
      up := by intro p b c hc; simp at hc
      noUp := rfl
      inj := by
        intro p q a hp hq
        cases p <;> cases q <;> simp_all }
  depth := by
    intro p a ha
    cases p with
    | nil => simp
    | cons => simp at ha
  used := by intro p a ha; cases p <;> simp_all [new]
  chain := rfl
  nodup := .nil
  apart := by simp
  spare := by simp
  noLeft := by simp
  busy := by intro p a _ hp ha; cases p <;> simp_all

theorem contents_new (A : Layout) : contents new A = fun _ => none := by
  funext p
  cases h : A p <;> simp [contents, h, new, blank]

namespace WellFormedBut

variable {X Y : List Bool → Prop} {t t' : RadixTree} {A A' : Layout} {fl : List Nat}
  {p q : List Bool} {a : Nat}

theorem mono (W : WellFormedBut X t A fl) (sub : ∀ p, X p → Y p) : WellFormedBut Y t A fl :=
  { W with busy := fun hY => W.busy fun hX => hY (sub _ hX) }

/-- A path has fewer links than there are nodes. -/
theorem length_lt_next (W : WellFormedBut X t A fl) (ha : A q = some a) : q.length < t.next := by
  have hstep : ∀ i : Fin (q.length + 1), ∃ x, A (q.take i) = some x := fun i =>
    W.lays.exists_of_append (q := q.drop i) (by rwa [List.take_append_drop])
  choose f hf using hstep
  have hinj : Function.Injective fun i => (⟨f i, W.used (hf i)⟩ : Fin t.next) := by
    intro i j hij
    have hval : f i = f j := by simpa using hij
    have htake := W.lays.inj (hf i) (hval ▸ hf j)
    have hlen := congrArg List.length htake
    simp only [List.length_take] at hlen
    omega
  have := Fintype.card_le_of_injective _ hinj
  simp only [Fintype.card_fin] at this
  omega

/-- Where the links of two stores agree and a value is never lost, the invariant carries over. -/
theorem setValue (W : WellFormedBut X t A fl) (ha : A q = some a) (v : String)
    (hv : v ≠ noValue ∨ Y q ∨ ∃ b, A (q ++ [b]) ≠ none) (sub : ∀ p, p ≠ q → X p → Y p) :
    WellFormedBut Y (t.setValue a v) A fl where
  -- the links are as they were
  lays := W.lays.congr fun {p x} _ => by
    by_cases hxa : x = a
    · subst hxa; simp [RadixTree.setValue, modify, Cell.SameLinks]
    · simp [RadixTree.setValue, modify, Cell.SameLinks, hxa]
  depth := W.depth
  used := W.used
  chain := W.chain.congr fun x _ => by
    by_cases hxa : x = a
    · subst hxa; simp [RadixTree.setValue, modify]
    · simp [RadixTree.setValue, modify, hxa]
  nodup := W.nodup
  apart := W.apart
  spare := W.spare
  noLeft := by
    intro x hx
    have hxa : x ≠ a := by rintro rfl; exact W.apart ha hx
    simpa [RadixTree.setValue, modify, hxa] using W.noLeft x hx
  busy := by
    intro p x hY hp hx hleaf
    by_cases hxa : x = a
    -- the node is at one path only
    · obtain rfl : p = q := W.lays.inj hx (hxa ▸ ha)
      subst hxa
      rcases hv with hv | hv | ⟨b, hb⟩
      · simpa [RadixTree.setValue, modify] using hv
      · exact absurd hv hY
      · exact absurd (hleaf b) hb
    · have hpq : p ≠ q := by rintro rfl; exact hxa (Option.some.inj (hx.symm.trans ha))
      simpa [RadixTree.setValue, modify, hxa] using
        W.busy (fun hX => hY (sub p hpq hX)) hp hx hleaf

/-- An assignment to a value is an update of the table. -/
theorem contents_setValue (W : WellFormedBut X t A fl) (ha : A q = some a) (v : String) :
    contents (t.setValue a v) A =
      Function.update (contents t A) q (if v = noValue then none else some v) := by
  funext p
  by_cases hpq : p = q
  · subst hpq
    simp [contents, ha, RadixTree.setValue, modify]
  · rw [Function.update_of_ne hpq]
    cases hp : A p with
    | none => simp [contents, hp]
    | some x =>
        have hxa : x ≠ a := by rintro rfl; exact hpq (W.lays.inj hp ha)
        simp [contents, hp, RadixTree.setValue, modify, hxa]

end WellFormedBut

/-! ## The probe bit along a path

The loops of the source in terms of paths: `bit` in round `i` is the probe at place `i`, `bit & mask` is not
zero in the first `m` rounds, and `key & bit` is the direction. -/

theorem maxIpv4Bit_eq : maxIpv4Bit = probe 32 0 := by decide

/-- The loops go on while the mask has bits. -/
theorem probe_and_netMask {i m : Nat} (hm : m ≤ 32) :
    probe 32 i &&& netMask 32 m ≠ 0#32 ↔ i < m := by
  rcases Nat.lt_or_ge i 32 with hi | hi
  · rw [BitVec.and_comm, and_probe_ne_zero hi, getMsbD_netMask hm hi, decide_eq_true_iff]
  · simp [probe_eq_zero hi]; omega

/-- The loops turn to the side the next bit of the key says. -/
theorem turn_eq (n : RadixNode) {key : BitVec 32} {i : Nat} (hi : i < 32) :
    (if key &&& probe 32 i ≠ 0#32 then n.right else n.left) = n.child (key.getMsbD i) := by
  have h := and_probe_ne_zero (x := key) hi
  by_cases hb : key.getMsbD i = true
  · rw [if_pos (h.mpr hb), hb, Cell.child_true]
  · rw [if_neg (fun hne => hb (h.mp hne)), Bool.eq_false_iff.mpr hb, Cell.child_false]

/-! ## Search

The loop starts with the empty answer and takes over every value it passes. So before it looks at depth `i`
it has the longest match among the shorter prefixes (`foundBefore`), and it stops where the tree does, since
below that there is nothing to find. -/

section Search

variable {t : RadixTree} {A : Layout} {fl : List Nat} {key : BitVec 32}

/-- What `search` has found before it looks at depth `i`. -/
private def foundBefore (V : List Bool → Option String) (k : List Bool) : Nat → Option String
  | 0 => none
  | i + 1 => longestMatchUpTo V k i

private theorem longestMatchUpTo_eq_foundBefore (V : List Bool → Option String) (k : List Bool)
    (i : Nat) : longestMatchUpTo V k i = (V (k.take i)).or (foundBefore V k i) := by
  cases i with
  | zero => simp [longestMatchUpTo, foundBefore]
  | succ i => rfl

/-- Past the last node of the path nothing is found any more. -/
private theorem longestMatchUpTo_stable {X : List Bool → Prop} (W : WellFormedBut X t A fl)
    {k : List Bool} {i : Nat} (hnone : A (k.take (i + 1)) = none) (n : Nat) :
    longestMatchUpTo (contents t A) k (i + n) = longestMatchUpTo (contents t A) k i := by
  induction n with
  | zero => rfl
  | succ n ih =>
      have hgone : contents t A (k.take (i + n + 1)) = none := by
        have hsplit : k.take (i + n + 1) =
            k.take (i + 1) ++ (k.take (i + n + 1)).drop (i + 1) := by
          conv_lhs => rw [← List.take_append_drop (i + 1) (k.take (i + n + 1)), List.take_take]
          rw [Nat.min_eq_left (by omega)]
        rw [contents, hsplit, W.lays.none_append hnone]
        rfl
      show (contents t A (k.take (i + n + 1))).or (longestMatchUpTo (contents t A) k (i + n)) = _
      rw [hgone, Option.none_or, ih]

private theorem searchLoop_spec (W : WellFormed t A fl) (n : Nat) :
    ∀ {i rounds : Nat} {a : Nat} {value : String}, i + n = 32 → n < rounds →
      A ((bits key).take i) = some a →
      value = (foundBefore (contents t A) (bits key) i).getD noValue →
      searchLoop t.store key rounds (probe 32 i) (some a) value =
        .ok ((longestMatch (contents t A) (bits key)).getD noValue) := by
  -- induction on the number of levels still below
  induction n with
  -- at depth 32 the key is used up, and the node has no children
  | zero =>
      intro i rounds a value hi hr ha hvalue
      obtain ⟨rounds, rfl⟩ : ∃ r, rounds = r + 1 := ⟨rounds - 1, by omega⟩
      obtain rfl : i = 32 := by omega
      have hfull : (bits key).take 32 = bits key := List.take_of_length_le (by simp)
      have hbit : ¬ (key &&& probe 32 32 ≠ 0#32) := by simp [probe_eq_zero (Nat.le_refl 32)]
      have hleft : (t.store a).left = none := by
        have := W.lays.down ha false
        rw [Cell.child_false] at this
        rw [← this]
        by_contra hne
        obtain ⟨c, hc⟩ := Option.ne_none_iff_exists'.mp hne
        have hd := W.depth hc
        simp at hd
      rw [searchLoop, if_neg hbit, hleft, searchLoop, longestMatch, length_bits,
        longestMatchUpTo_eq_foundBefore, contents, ha, hvalue]
      by_cases hv : (t.store a).value = noValue <;> simp [hv]
  -- one level down, on the side of the next bit
  | succ n ih =>
      intro i rounds a value hi hr ha hvalue
      obtain ⟨rounds, rfl⟩ : ∃ r, rounds = r + 1 := ⟨rounds - 1, by omega⟩
      have hbit : i < 32 := by omega
      have hnext : A ((bits key).take (i + 1)) = (t.store a).child (key.getMsbD i) := by
        rw [take_succ_bits hbit, W.lays.down ha]
      -- the value so far is the longest match down to depth `i`
      have hbest : (if (t.store a).value ≠ noValue then (t.store a).value else value) =
          (longestMatchUpTo (contents t A) (bits key) i).getD noValue := by
        rw [longestMatchUpTo_eq_foundBefore, contents, ha, hvalue]
        by_cases hv : (t.store a).value = noValue <;> simp [hv]
      rw [searchLoop, turn_eq _ hbit, probe_shift, ← hnext, hbest]
      cases hc : A ((bits key).take (i + 1)) with
      | some c => exact ih (by omega) (by omega) hc rfl
      | none =>
          have hstable := longestMatchUpTo_stable W hc (n + 1)
          rw [hi] at hstable
          rw [searchLoop, longestMatch, length_bits, hstable]

/-- `search` answers with the longest network stored. -/
theorem search_spec (W : WellFormed t A fl) (key : BitVec 32) :
    t.search key = .ok ((longestMatch (contents t A) (bits key)).getD noValue) := by
  rw [search, maxIpv4Bit_eq]
  exact searchLoop_spec W 32 (by omega) (by omega) (by simpa using W.lays.top) rfl

end Search

end RadixTree

end Cheryl.Acl
