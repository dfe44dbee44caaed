import Mathlib.Data.List.Infix
import Mathlib.Logic.Function.Basic

/-!
# Longest prefix match

A table gives some of the lists over an alphabet a value. A query is answered with the value of
the longest list that is a prefix of it. `longestMatch` computes the answer from the short
prefixes to the long ones; `longestMatch_eq_some` and `longestMatch_eq_none` say what it is.
-/

namespace Cheryl.Library

variable {α ν : Type}

/-- The value of the longest prefix of `k` of length at most `n`. -/
def longestMatchUpTo (V : List α → Option ν) (k : List α) : Nat → Option ν
  | 0 => V []
  | n + 1 => (V (k.take (n + 1))).or (longestMatchUpTo V k n)

def longestMatch (V : List α → Option ν) (k : List α) : Option ν :=
  longestMatchUpTo V k k.length

section Spec

variable {V W : List α → Option ν} {k : List α}

/-! ## What the answer is

The two lemmas about the bounded search are proved by induction on the bound, and the bound is then the
length of the query, since no longer list is a prefix of it. -/

/-- There is no answer exactly when no prefix up to the bound has a value. -/
theorem longestMatchUpTo_eq_none {n : Nat} :
    longestMatchUpTo V k n = none ↔ ∀ i ≤ n, V (k.take i) = none := by
  induction n with
  | zero => simp [longestMatchUpTo]
  | succ n ih =>
      rw [longestMatchUpTo, Option.or_eq_none_iff, ih]
      constructor
      · rintro ⟨hn, h⟩ i hi
        rcases Nat.lt_or_eq_of_le hi with hlt | rfl
        · exact h i (by omega)
        · exact hn
      · exact fun h => ⟨h _ (Nat.le_refl _), fun i hi => h i (by omega)⟩

/-- The answer is found at some length, after which no prefix up to the bound has a value. -/
theorem longestMatchUpTo_eq_some {n : Nat} {v : ν} :
    longestMatchUpTo V k n = some v ↔
      ∃ i ≤ n, V (k.take i) = some v ∧ ∀ j, i < j → j ≤ n → V (k.take j) = none := by
  induction n with
  | zero =>
      constructor
      · exact fun h => ⟨0, Nat.le_refl _, by simpa [longestMatchUpTo] using h, fun j _ _ => by omega⟩
      · rintro ⟨i, hi, hv, -⟩
        obtain rfl : i = 0 := by omega
        simpa [longestMatchUpTo] using hv
  | succ n ih =>
      rw [longestMatchUpTo]
      cases hn : V (k.take (n + 1)) with
      | some u =>
          constructor
          · intro h
            exact ⟨n + 1, Nat.le_refl _, by rw [hn]; exact h, fun j _ _ => by omega⟩
          · rintro ⟨i, hi, hv, hlast⟩
            have hin : i = n + 1 := by
              by_contra hne
              have := hlast (n + 1) (by omega) (Nat.le_refl _)
              simp [hn] at this
            subst hin
            rw [hn] at hv
            exact hv
      | none =>
          -- the longest prefix has none, and the search goes on below it
          rw [Option.none_or, ih]
          constructor
          -- the longest prefix has a value, so no shorter one can be the last
          · rintro ⟨i, hi, hv, hlast⟩
            refine ⟨i, by omega, hv, fun j hij hj => ?_⟩
            rcases Nat.lt_or_eq_of_le hj with hlt | rfl
            · exact hlast j hij (by omega)
            · exact hn
          · rintro ⟨i, hi, hv, hlast⟩
            have hin : i ≠ n + 1 := by rintro rfl; simp [hn] at hv
            exact ⟨i, by omega, hv, fun j hij hj => hlast j hij (by omega)⟩

/-- No answer exactly when no prefix of the query has a value. -/
theorem longestMatch_eq_none : longestMatch V k = none ↔ ∀ p, p <+: k → V p = none := by
  rw [longestMatch, longestMatchUpTo_eq_none]
  constructor
  · intro h p hp
    rw [List.prefix_iff_eq_take.mp hp]
    exact h _ hp.length_le
  · exact fun h i _ => h _ (List.take_prefix i k)

/-- An answer is the value of a prefix of the query, and no longer prefix has one. -/
theorem longestMatch_eq_some {v : ν} :
    longestMatch V k = some v ↔
      ∃ p, p <+: k ∧ V p = some v ∧ ∀ q, q <+: k → p.length < q.length → V q = none := by
  rw [longestMatch, longestMatchUpTo_eq_some]
  constructor
  · rintro ⟨i, hi, hv, hlast⟩
    refine ⟨k.take i, List.take_prefix i k, hv, fun q hq hlen => ?_⟩
    rw [List.prefix_iff_eq_take.mp hq]
    exact hlast _ (by simpa [hi] using hlen) hq.length_le
  · rintro ⟨p, hp, hv, hlast⟩
    refine ⟨p.length, hp.length_le, by rwa [← List.prefix_iff_eq_take.mp hp], fun j hj hjk => ?_⟩
    exact hlast _ (List.take_prefix j k) (by simpa [hjk] using hj)

/-- There is an answer exactly when some prefix has a value. -/
theorem longestMatch_isSome : (longestMatch V k).isSome ↔ ∃ p, p <+: k ∧ (V p).isSome := by
  rw [← not_iff_not]
  simp only [Bool.not_eq_true, Option.isSome_eq_false_iff, Option.isNone_iff_eq_none,
    longestMatch_eq_none, not_exists, not_and]

end Spec

end Cheryl.Library
