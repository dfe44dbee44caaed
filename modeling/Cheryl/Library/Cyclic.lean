import Mathlib.Data.List.Rotate

/-!
# Walking round a list

A counter that is taken modulo the length of a list walks round it. `walk l s m` are the elements it
meets in `m` steps from `s`. Once round is a rotation of the list, so in `k` rounds, from wherever
they start, every element is met `k` times as often as it is in the list.
-/

namespace Cheryl.Library

variable {α : Type} {l : List α}

/-- The elements that a counter meets in the given number of steps from `s`. -/
def walk (l : List α) (s : Nat) : Nat → List α
  | 0 => []
  | m + 1 => l[s % l.length]?.toList ++ walk l (s + 1) m

/-! ## Rounds

A walk is cut into whole rounds and a rest. Each round is a rotation of the list, and the rest is the
beginning of one, which is all the counting below needs. -/

/-- A walk goes on where it stopped. -/
theorem walk_add (s m m' : Nat) : walk l s (m + m') = walk l s m ++ walk l (s + m) m' := by
  induction m generalizing s with
  | zero => simp [walk]
  | succ m ih =>
      rw [Nat.succ_add, walk, walk, ih, List.append_assoc, Nat.add_right_comm, Nat.add_assoc]

/-- A walk within one round is a part of a rotation. -/
theorem walk_eq_take (s m : Nat) (hm : m ≤ l.length) : walk l s m = (l.rotate s).take m := by
  induction m with
  | zero => simp [walk]
  | succ m ih =>
      have hget : (l.rotate s)[m]? = l[(s + m) % l.length]? := by
        rw [List.getElem?_rotate (by omega), Nat.add_comm]
      rw [walk_add, ih (by omega), List.take_add_one, hget]
      simp [walk]

theorem walk_length (s : Nat) : walk l s l.length = l.rotate s := by
  calc walk l s l.length
      = (l.rotate s).take l.length := walk_eq_take s _ (Nat.le_refl _)
    _ = l.rotate s := List.take_of_length_le (by simp)

/-- In `k` rounds every element is met `k` times as often as it is there. -/
theorem count_walk [DecidableEq α] (s k : Nat) (a : α) :
    (walk l s (k * l.length)).count a = k * l.count a := by
  induction k generalizing s with
  | zero => simp [walk]
  | succ k ih =>
      rw [Nat.succ_mul, Nat.add_comm, walk_add, List.count_append, walk_length,
        (List.rotate_perm l s).count_eq, ih, Nat.succ_mul, Nat.add_comm]

end Cheryl.Library
