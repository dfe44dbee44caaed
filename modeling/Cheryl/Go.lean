import Mathlib.Data.Finmap

/-!
# The Go side of the embedding

What a Go function can do besides returning is a `Fault`; an `error` result is a value. So a
function of the source returns `Except Fault α`, with `Option GoError` or `Except GoError α` in
`α` where the source has an error result. Maps are finite maps, and a `range` over a map takes
the order of its keys as an argument, since Go leaves that order open (`RangeOrder`).

`split` and `atoi` are the two standard library functions the address parsers use.
-/

namespace Cheryl

/-- How a goroutine ends without returning. -/
inductive Fault
  /-- `invalid memory address or nil pointer dereference` -/
  | nilDereference
  /-- `index out of range`, `slice bounds out of range` -/
  | outOfRange
  /-- `negative shift amount` -/
  | negativeShift
  /-- `os.Exit(1)`, which is where `logger.Errorf` ends -/
  | exit
  /-- a loop that does not end, or a channel operation nobody answers -/
  | hang
  deriving DecidableEq, Repr

/-- An `error` value: its text. -/
structure GoError where
  text : String
  deriving DecidableEq, Repr

abbrev GoMap (κ ν : Type) [DecidableEq κ] := Finmap (fun _ : κ => ν)

/-! ## Maps

Go visits the keys of a map in an order that differs from run to run. A theorem about code that ranges over
a map is therefore about every `RangeOrder`, and the functions of the source that do so take the order as an
argument. -/

/-- The orders in which `range` may visit a map: every key once. -/
structure RangeOrder {κ ν : Type} [DecidableEq κ] (m : GoMap κ ν) (order : List κ) : Prop where
  nodup : order.Nodup
  mem_iff : ∀ k, k ∈ order ↔ k ∈ m

theorem RangeOrder.of_keys {κ ν : Type} [DecidableEq κ] {m : GoMap κ ν} {order : List κ}
    (nodup : order.Nodup) (keys : order.toFinset = m.keys) : RangeOrder m order where
  nodup := nodup
  mem_iff := fun k => by rw [← Finmap.mem_keys, ← keys, List.mem_toFinset]

/-! ## Numbers and texts

`strings.Split` and `strconv.Atoi` work on the characters of a text. `Atoi` is exact on what it accepts; of
its errors only that they are errors is read anywhere, so there is one. -/

/-- An `int` after overflow: 64 bits, two's complement. -/
def wrap64 (n : Int) : Int := (BitVec.ofInt 64 n).toInt

/-- `strings.Split(s, sep)`, for a separator of one character. -/
def split (s : String) (sep : Char) : List String := (s.toList.splitOn sep).map String.ofList

def decimal (ds : List Char) : Nat := ds.foldl (fun n c => 10 * n + (c.toNat - '0'.toNat)) 0

def IsNumeral (ds : List Char) : Prop := ds ≠ [] ∧ ds.all Char.isDigit = true

instance (ds : List Char) : Decidable (IsNumeral ds) := inferInstanceAs (Decidable (_ ∧ _))

/-- The error of `strconv.Atoi`; whether it was the syntax or the range is left out. -/
def atoiError (s : String) : GoError := ⟨"strconv.Atoi: parsing " ++ s.quote⟩

/-- The sign and the digits of a number text. -/
def atoiSign : List Char → Bool × List Char
  | '-' :: ds => (true, ds)
  | '+' :: ds => (false, ds)
  | ds => (false, ds)

/-- `strconv.Atoi`: an optional sign, then decimal digits, within the 64 bits of an `int`. -/
def atoi (s : String) : Except GoError Int :=
  let (neg, ds) := atoiSign s.toList
  let n : Int := if neg then -(decimal ds : Int) else decimal ds
  if IsNumeral ds ∧ -2 ^ 63 ≤ n ∧ n < 2 ^ 63 then .ok n else .error (atoiError s)

/-! ## Numerals and separators

What the proofs about addresses need of these two: a numeral has no sign and no separator in it, `Atoi` of a
numeral that fits an `int` is its value, a text with a foreign character is an error, and splitting goes
from one separator to the next. -/

/-- No character but digits stands in a numeral. -/
theorem IsNumeral.not_mem {ds : List Char} (h : IsNumeral ds) {c : Char} (hc : c.isDigit = false) :
    c ∉ ds := by
  intro hmem
  rw [List.all_eq_true.mp h.2 c hmem] at hc
  cases hc

theorem atoiSign_of_isNumeral {ds : List Char} (h : IsNumeral ds) : atoiSign ds = (false, ds) := by
  cases ds with
  | nil => rfl
  | cons c ds =>
      have hm : c ≠ '-' := by rintro rfl; exact h.not_mem (by decide) (List.mem_cons_self)
      have hp : c ≠ '+' := by rintro rfl; exact h.not_mem (by decide) (List.mem_cons_self)
      simp [atoiSign, hm, hp]

/-- On a numeral in range `Atoi` is its value. -/
theorem atoi_of_isNumeral {ds : List Char} (h : IsNumeral ds) (hlt : decimal ds < 2 ^ 63) :
    atoi (String.ofList ds) = .ok (decimal ds) := by
  simp only [atoi, String.toList_ofList, atoiSign_of_isNumeral h]
  rw [if_pos]
  · simp
  · have : (decimal ds : Int) < 2 ^ 63 := by exact_mod_cast hlt
    exact ⟨h, by simp only [Bool.false_eq_true, if_false]; omega, by simpa using this⟩

/-- A text with a character that no number has does not parse. -/
theorem atoi_error_of_mem {ds : List Char} {c : Char} (hmem : c ∈ ds) (hdigit : c.isDigit = false)
    (hminus : c ≠ '-') (hplus : c ≠ '+') : ∃ err, atoi (String.ofList ds) = .error err := by
  have hrest : c ∈ (atoiSign ds).2 := by
    unfold atoiSign
    split
    · exact (List.mem_cons.mp hmem).resolve_left hminus
    · exact (List.mem_cons.mp hmem).resolve_left hplus
    · exact hmem
  have hnot : ¬ IsNumeral (atoiSign ds).2 := fun hnumeral => hnumeral.not_mem hdigit hrest
  refine ⟨atoiError (String.ofList ds), ?_⟩
  simp only [atoi, String.toList_ofList]
  rw [if_neg fun h => hnot h.1]

/-- The first part ends at the first separator. -/
theorem split_cons_of_notMem {sep : Char} {part : List Char} (h : sep ∉ part) (rest : List Char) :
    split (String.ofList (part ++ sep :: rest)) sep =
      String.ofList part :: split (String.ofList rest) sep := by
  have hpart : ∀ x ∈ part, (x == sep) = false := by
    intro x hx
    rw [beq_eq_false_iff_ne]
    rintro rfl
    exact h hx
  simp only [split, String.toList_ofList, List.splitOn_eq_splitOnP]
  rw [List.splitOnP_append_cons_of_forall_mem hpart sep (beq_self_eq_true sep), List.map_cons]

/-- The first part is what stands before the first separator, or everything when there is none. -/
theorem split_cons_takeWhile (s : List Char) (sep : Char) : ∃ parts,
    split (String.ofList s) sep = String.ofList (s.takeWhile (· ≠ sep)) :: parts := by
  induction s with
  | nil => exact ⟨[], by simp [split]⟩
  | cons c s ih =>
      obtain ⟨parts, hparts⟩ := ih
      simp only [split, String.toList_ofList, List.splitOn_eq_splitOnP] at hparts ⊢
      rw [List.splitOnP_cons_eq_if_modifyHead]
      -- the separator ends the first part, and any other character goes in front of it
      by_cases hc : c = sep
      · subst hc
        refine ⟨(s.splitOnP (· == c)).map String.ofList, ?_⟩
        simp
      · obtain ⟨first, others, hcons⟩ := List.exists_cons_of_ne_nil (List.splitOnP_ne_nil (· == sep) s)
        rw [hcons, List.map_cons] at hparts
        obtain ⟨hfirst, -⟩ := List.cons.inj hparts
        refine ⟨others.map String.ofList, ?_⟩
        rw [hcons, String.ofList_injective hfirst]
        simp [hc]

end Cheryl
