import Mathlib.Algebra.Order.Ring.Cast
import Mathlib.Tactic.Linarith
import Mathlib.Tactic.Ring

/-!
# Token buckets

A bucket has room for `size` tokens, and gets one back in every `interval`. It is full at first. Its level
is measured in time: a token is worth an `interval`. Whoever asks for a token may wait for it, as long as
its `patience` lasts, and the level may go below zero by so much. At most `size` tokens are taken at
once, and in the long run one in every interval (`Reached.window_mul_le`); whoever leaves an interval
between one token and the next gets every one (`Reached.spaced`).
-/

namespace Cheryl.Library

/-- A bucket with the level it had at the time `last`. -/
structure TokenBucket (R : Type) where
  interval : R
  size : R
  level : R
  last : R
  deriving DecidableEq, Repr

namespace TokenBucket

variable {R : Type} [CommRing R] [LinearOrder R]

/-! ## Buckets

The level is not a number of tokens but the time it would take to fill the bucket so far, which keeps the
arithmetic in one ordered ring and without division. It grows as time passes, up to the size. -/

def full (interval size now : R) : TokenBucket R := ⟨interval, size, size * interval, now⟩

def levelAt (k : TokenBucket R) (now : R) : R := min (k.size * k.interval) (k.level + (now - k.last))

/-- Ask for a token. A bucket without room for one token gives none. -/
def take (k : TokenBucket R) (now patience : R) : Bool × TokenBucket R :=
  if 0 ≤ patience ∧ 1 ≤ k.size ∧ k.interval ≤ k.levelAt now + patience then
    (true, { k with level := k.levelAt now - k.interval, last := now })
  else (false, k)

/-- A bucket of this interval and size from which tokens were taken at these times, the last one first. -/
inductive Reached (interval size patience : R) : TokenBucket R → List R → Prop
  | full (now : R) : Reached interval size patience (.full interval size now) []
  | take {k k' : TokenBucket R} {times : List R} {now : R} (h : Reached interval size patience k times)
      (htake : k.take now patience = (true, k')) : Reached interval size patience k' (now :: times)

variable {interval size patience s e now : R} {k k' : TokenBucket R} {times : List R}

/-! ## One token

A bucket is only touched when a token is taken: `take` that fails leaves even `last` as it was. -/

theorem take_eq_true (h : k.take now patience = (true, k')) :
    (0 ≤ patience ∧ 1 ≤ k.size ∧ k.interval ≤ k.levelAt now + patience) ∧
      k' = { k with level := k.levelAt now - k.interval, last := now } := by
  unfold take at h
  split at h
  · next hyes =>
      cases h
      exact ⟨hyes, rfl⟩
  · cases h

/-- A bucket that gives no token stays as it is. -/
theorem take_eq_false (h : k.take now patience = (false, k')) : k' = k := by
  unfold take at h
  split at h
  · cases h
  · cases h
    rfl

theorem levelAt_le_size (k : TokenBucket R) (now : R) : k.levelAt now ≤ k.size * k.interval :=
  min_le_left _ _

theorem levelAt_le (k : TokenBucket R) (now : R) : k.levelAt now ≤ k.level + (now - k.last) :=
  min_le_right _ _

/-! ## All tokens

`Reached` is a run of a bucket with the times at which it gave tokens. Two bounds on the level carry the
results. It is at least `-patience`, since no token is given on longer credit. And it is at most what a full
bucket would have left after the tokens given since a time `s`, with what came back since `s`. Taken
together they bound the tokens given in a window. -/

/-- The tokens taken in a window of time. -/
def window (s e : R) (times : List R) : Nat := times.countP fun t => decide (s ≤ t ∧ t ≤ e)

def since (s : R) (times : List R) : Nat := times.countP fun t => decide (s ≤ t)

namespace Reached

/-- Interval and size are those the bucket was made with. -/
theorem same (h : Reached interval size patience k times) : k.interval = interval ∧ k.size = size := by
  induction h with
  | full now => exact ⟨rfl, rfl⟩
  | take h htake ih =>
      obtain ⟨-, rfl⟩ := take_eq_true htake
      exact ih

/-- The level was measured last when the last token was taken, or the bucket is full. -/
theorem last_mem (h : Reached interval size patience k times) :
    k.last ∈ times ∨ k.level = size * interval := by
  cases h with
  | full now => exact .inr rfl
  | take h htake =>
      obtain ⟨-, rfl⟩ := take_eq_true htake
      exact .inl List.mem_cons_self

variable [IsStrictOrderedRing R]

/-- The level goes below zero by the patience at most, if there is room for anything at all. -/
theorem neg_le_level (h : Reached interval size patience k times) (hpatience : 0 ≤ patience)
    (hroom : 0 ≤ size * interval) : -patience ≤ k.level := by
  induction h with
  | full now =>
      show -patience ≤ size * interval
      linarith
  | take h htake ih =>
      obtain ⟨⟨-, -, hle⟩, rfl⟩ := take_eq_true htake
      show -patience ≤ _ - _
      linarith

/-- What was taken from a time on is missing in the level. -/
theorem level_le (h : Reached interval size patience k times) (hinterval : 0 ≤ interval)
    (hn : 0 < since s times) :
    k.level ≤ size * interval + (k.last - s) - since s times * interval := by
  induction h with
  | full now => cases hn
  | @take k k' times now h htake ih =>
      obtain ⟨-, rfl⟩ := take_eq_true htake
      obtain ⟨rfl, rfl⟩ := h.same
      have hlevel := k.levelAt_le now
      have hcap := k.levelAt_le_size now
      show k.levelAt now - k.interval ≤
        k.size * k.interval + (now - s) - since s (now :: times) * k.interval
      by_cases hnow : s ≤ now
      · have hsucc : since s (now :: times) = since s times + 1 :=
          List.countP_cons_of_pos (by simpa using hnow)
        rw [hsucc, Nat.cast_add, Nat.cast_one]
        by_cases hbefore : 0 < since s times
        · -- what the bucket got back since the last token is the time in between, at most
          have hbest := ih hbefore
          calc k.levelAt now - k.interval ≤ k.level + (now - k.last) - k.interval :=
                sub_le_sub_right hlevel _
            _ ≤ k.size * k.interval + (k.last - s) - since s times * k.interval + (now - k.last) -
                k.interval := by linarith
            _ = k.size * k.interval + (now - s) - (since s times + 1) * k.interval := by ring
        · -- the first one, from a full bucket at best
          obtain hzero : since s times = 0 := by omega
          rw [hzero, Nat.cast_zero]
          linarith
      · have hsame : since s (now :: times) = since s times :=
          List.countP_cons_of_neg (by simpa using hnow)
        rw [hsame] at hn ⊢
        have := ih hn
        linarith

/-- In any window no more is taken than the bucket holds and what it gets back, in the window and while
the last one waits. -/
theorem window_mul_le (h : Reached interval size patience k times) (hinterval : 0 ≤ interval)
    (hn : 0 < window s e times) :
    window s e times * interval ≤ size * interval + (e - s) + patience := by
  induction h with
  | full now => cases hn
  | @take k k' times now h htake ih =>
      by_cases hnow : s ≤ now ∧ now ≤ e
      · have hle : window s e (now :: times) ≤ since s (now :: times) :=
          List.countP_mono_left fun t _ ht => by simpa using (of_decide_eq_true ht).1
        -- the token just taken ends the window, so `level_le` counts all in it
        have hmul : (window s e (now :: times) : R) * interval ≤ since s (now :: times) * interval :=
          mul_le_mul_of_nonneg_right (Nat.cast_le.mpr hle) hinterval
        have hlevel := (h.take htake).level_le hinterval (lt_of_lt_of_le hn hle)
        obtain ⟨rfl, -⟩ := h.same
        obtain ⟨⟨-, -, henough⟩, rfl⟩ := take_eq_true htake
        have hlevel : k.levelAt now - k.interval ≤
          size * k.interval + (now - s) - since s (now :: times) * k.interval := hlevel
        calc (window s e (now :: times) : R) * k.interval ≤ since s (now :: times) * k.interval := hmul
          _ ≤ size * k.interval + (now - s) - (k.levelAt now - k.interval) := by linarith
          _ ≤ size * k.interval + (now - s) + patience := by linarith
          _ ≤ size * k.interval + (e - s) + patience := by linarith [hnow.2]
      -- the token just taken is outside the window
      · have hsame : window s e (now :: times) = window s e times :=
          List.countP_cons_of_neg (by simpa using hnow)
        rw [hsame] at hn ⊢
        exact ih hn

/-- Who leaves an interval after the last token gets one. -/
theorem spaced (h : Reached interval size patience k times) (hinterval : 0 ≤ interval)
    (hpatience : 0 ≤ patience) (hsize : 1 ≤ size) (hlast : k.last ≤ now)
    (hlater : ∀ t ∈ times, t + interval ≤ now) : (k.take now patience).1 = true := by
  have hroom : interval ≤ size * interval := le_mul_of_one_le_left hinterval hsize
  have hneg := h.neg_le_level hpatience (hinterval.trans hroom)
  obtain ⟨hi, hs⟩ := h.same
  have henough : interval ≤ k.levelAt now + patience := by
    unfold levelAt
    rw [← sub_le_iff_le_add, le_min_iff, hi, hs]
    refine ⟨by linarith, ?_⟩
    rcases h.last_mem with hmem | hlevel
    · have := hlater _ hmem
      linarith
    · linarith
  rw [TokenBucket.take, hi, hs, if_pos ⟨hpatience, hsize, henough⟩]

end Reached

end TokenBucket

end Cheryl.Library
