import Mathlib.Data.List.Basic
import Mathlib.Data.Set.Function

/-!
# Writes that take effect early

A log of writes is replayed in order; each write sets one key to one value. A node may also carry
out a write early, before it is in the log, as long as it is carried out again when the log
reaches it. Then it differs from a node that only replays at the keys of outstanding writes alone
(`AgreeBut`), and once nothing is outstanding the two agree. A write that is carried out early and never
comes into the log stays outstanding until both carry out another one about its key.
-/

namespace Cheryl.Library

variable {κ β : Type}

/-! ## Writes and logs

A log is carried out from the left. Two facts about a single key are behind all that follows: a key that no
write is about keeps its value, and a key that some write is about ends with the value of the last one,
whatever it had before. -/

structure Write (κ β : Type) where
  key : κ
  val : β

/-- `f` and `g` agree at every key that no outstanding write is about. -/
def AgreeBut (outstanding : Set κ) (f g : κ → β) : Prop := Set.EqOn f g outstandingᶜ

section Replay

variable [DecidableEq κ]

def Write.apply (w : Write κ β) (f : κ → β) : κ → β := Function.update f w.key w.val

/-- Carry out the writes of a log, in order. -/
def replay (f : κ → β) (log : List (Write κ β)) : κ → β := log.foldl (fun f w => w.apply f) f

@[simp] theorem replay_nil (f : κ → β) : replay f [] = f := rfl

/-- A log that is one entry longer. -/
theorem replay_take_succ {f : κ → β} {log : List (Write κ β)} {i : Nat} {w : Write κ β}
    (hw : log[i]? = some w) : replay f (log.take (i + 1)) = w.apply (replay f (log.take i)) := by
  simp [replay, List.take_add_one, hw]

theorem replay_append (f : κ → β) (log log' : List (Write κ β)) :
    replay f (log ++ log') = replay (replay f log) log' := List.foldl_append

/-- A key that no write is about keeps its value. -/
theorem replay_of_notMem {f : κ → β} {log : List (Write κ β)} {k : κ} (hk : ∀ w ∈ log, w.key ≠ k) :
    replay f log k = f k := by
  induction log generalizing f with
  | nil => rfl
  | cons w log ih =>
      have hne : k ≠ w.key := fun heq => hk w (List.mem_cons_self ..) heq.symm
      have hrest := ih (f := w.apply f) fun v hv => hk v (List.mem_cons_of_mem _ hv)
      rw [Write.apply, Function.update_of_ne hne] at hrest
      exact hrest

/-- A key that some write is about has the same value whatever there was before. -/
theorem replay_of_mem {f g : κ → β} {log : List (Write κ β)} {k : κ} (hk : ∃ w ∈ log, w.key = k) :
    replay f log k = replay g log k := by
  induction log generalizing f g with
  | nil =>
      obtain ⟨w, hw, -⟩ := hk
      cases hw
  | cons w log ih =>
      by_cases hlater : ∃ v ∈ log, v.key = k
      · exact ih hlater
      · -- the first write is the last one about this key
        have hnot : ∀ v ∈ log, v.key ≠ k := fun v hv heq => hlater ⟨v, hv, heq⟩
        obtain rfl : w.key = k := by
          obtain ⟨v, hv, rfl⟩ := hk
          rcases List.mem_cons.mp hv with rfl | hv
          · rfl
          · exact absurd rfl (hnot v hv)
        have hset : ∀ f : κ → β, replay f (w :: log) w.key = w.val := fun f =>
          (replay_of_notMem (f := w.apply f) hnot).trans (Function.update_self ..)
        rw [hset, hset]

/-- Carrying out a log a second time changes nothing. -/
theorem replay_twice (f : κ → β) (log : List (Write κ β)) : replay (replay f log) log = replay f log := by
  funext k
  by_cases hk : ∃ w ∈ log, w.key = k
  · exact replay_of_mem hk
  · exact replay_of_notMem fun w hw heq => hk ⟨w, hw, heq⟩

/-- Nor any number of times. -/
theorem replay_replicate (f : κ → β) (log : List (Write κ β)) (k : Nat) :
    replay f (List.replicate (k + 1) log).flatten = replay f log := by
  induction k with
  | zero => simp
  | succ k ih =>
      rw [List.replicate_succ', List.flatten_append, replay_append, ih, List.flatten_singleton,
        replay_twice]

/-- The last write of a key decides. -/
theorem replay_eq_find? (f : κ → β) (log : List (Write κ β)) (k : κ) :
    replay f log k = ((log.reverse.find? fun w => w.key = k).map Write.val).getD (f k) := by
  induction log generalizing f with
  | nil => rfl
  | cons w log ih =>
      have hrest : replay f (w :: log) k = replay (w.apply f) log k := rfl
      rw [hrest, ih, List.reverse_cons, List.find?_append]
      cases hlater : log.reverse.find? fun v => v.key = k with
      | some v => rfl
      | none =>
          -- the first write is the last one about this key, or none is
          by_cases hk : w.key = k
          · subst hk
            simp [Write.apply]
          · simp [Write.apply, hk, Ne.symm hk]

end Replay

namespace AgreeBut

variable {f g : κ → β} {w : Write κ β} {out out' : Set κ}

/-! ## Ahead of the log

`AgreeBut out f g` says that `f`, a node that has carried out some writes early, differs from `g`, the log
so far, at the keys in `out` alone. A write carried out early adds its key to `out`. Carried out by both, it
takes its key away, since then both have its value there, even if other writes about the same key are still
to come: these keep the key in `out` on their own. -/

theorem refl (f : κ → β) : AgreeBut out f f := Set.eqOn_refl f _

/-- Nothing outstanding, no difference. -/
theorem eq (h : AgreeBut ∅ f g) : f = g := funext fun k => h (Set.notMem_empty k)

theorem mono (h : AgreeBut out f g) (sub : out ⊆ out') : AgreeBut out' f g :=
  Set.EqOn.mono (Set.compl_subset_compl.mpr sub) h

variable [DecidableEq κ]

/-- A write carried out early is outstanding from then on. -/
theorem early (h : AgreeBut out f g) (sub : out ⊆ out') (hw : w.key ∈ out') :
    AgreeBut out' (w.apply f) g := by
  intro k hk
  have hkey : k ≠ w.key := fun heq => hk (heq ▸ hw)
  rw [Write.apply, Function.update_of_ne hkey]
  exact h.mono sub hk

/-- Once both have carried out a write it is outstanding no more. -/
theorem both (h : AgreeBut out f g) (sub : out ⊆ insert w.key out') :
    AgreeBut out' (w.apply f) (w.apply g) := by
  intro k hk
  by_cases hkey : k = w.key
  · subst hkey
    simp [Write.apply]
  · rw [Write.apply, Write.apply, Function.update_of_ne hkey, Function.update_of_ne hkey]
    exact h fun hout => (sub hout).elim hkey hk

end AgreeBut

end Cheryl.Library
