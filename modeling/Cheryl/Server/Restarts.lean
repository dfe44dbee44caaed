import Cheryl.Library.EarlyWrites
import Cheryl.Server.AclRestore
import Cheryl.Server.Snapshots

/-!
# One restart after the other

`Restore` sets the recorded limiters again, and `SetRateLimiter` appends each to the record it is read
from. So a snapshot holds them twice as often as the one before, and no restart ever takes one away
(`restarts_double`). What the node does is settled by the first restart: setting the same limiters again
changes nothing.
-/

namespace Cheryl.Server

open Library ReverseProxy Acl RateLimit

/-! ## The same limiters over and over

The limiters of a path are written by the records in order, and the last one stays. Writing the whole list
again ends with the same values, however often that is done. -/

def copies {α : Type} (k : Nat) (l : List α) : List α := (List.replicate k l).flatten

theorem copies_add {α : Type} (k k' : Nat) (l : List α) : copies (k + k') l = copies k l ++ copies k' l := by
  rw [copies, copies, copies, List.replicate_add, List.flatten_append]

/-- What setting the limiter writes. -/
def limiterWrite (info : LimiterInfo) : Write String (Option QpsRateLimiter) := ⟨info.pathName, some info.described⟩

/-- The limiters of a service after some are set, as a replay of writes. -/
theorem Service.methods_replay (s : Service) (infos : List LimiterInfo) :
    (Service.replay s infos).methods = Library.replay s.methods (infos.map limiterWrite) := by
  induction infos generalizing s with
  | nil => rfl
  | cons info infos ih => exact ih _

/-- Setting the same limiters again changes nothing. -/
theorem Service.replay_copies (s : Service) (infos : List LimiterInfo) (k : Nat) :
    Service.replay s (copies (k + 1) infos) = Service.replay s infos := by
  refine Service.ext (by simp) (by simp) ?_
  rw [methods_replay, methods_replay, copies, List.map_flatten, List.map_replicate, replay_replicate]

section Restarts

variable {δ : Type} {env : Env} {enc : Encoding δ} {n n₀ m : Node} {es : List (Event δ)} {k : Nat}

/-! ## Runs of restarts

Each restart is one `Restore` on some node, of a snapshot of the node before. The table after `k` of them is
known from the one before the first: the records have been written out `2 ^ k` times, and all else is what
the first restart made of it. -/

/-- What `k` restarts make of a configuration. -/
structure Doubled (env : Env) (n : Node) (k : Nat) (m : Node) : Prop where
  locations : m.config.locations = n.config.locations
  limiters : ∀ p, m.config.limiters p =
    if (n.config.locations p).isSome then copies (2 ^ k) (n.config.limiters p) else n.config.limiters p
  services : 1 ≤ k → m.config.services = (Config.restored env n.config).services
  record : m.acl.record = n.acl.record
  rebuilds : 1 ≤ k → Recorded n.acl.record → Rebuilds n.acl.record m.acl

/-- The tree that `Restore` leaves is one for the record. -/
theorem rebuilds_restore {o : Orders} {m' m₀ : Node} {err : Option GoError} (R : Restorable env m)
    (ho : o.Of (FSM.snapshot m)) (heq : FSM.restore env (FSM.snapshot m) o m₀ = (.ok err, m')) :
    m'.acl.record = m.acl.record ∧ (Recorded m.acl.record → Rebuilds m.acl.record m'.acl) := by
  obtain ⟨t, htree, -, hrec⟩ := restore_accepted o.record RadixTree.intact_new fun s hs =>
    R.accepted s ((ho.mem_record s).mp hs)
  rw [acl_restore htree heq]
  refine ⟨?_, fun hrecorded => ?_⟩
  · ext s
    rw [hrec, ho.mem_record]
    simp [RadixTree.new, FSM.snapshot]
  · obtain ⟨t', V, htree', -, hrebuilds⟩ := exists_rebuilds hrecorded ho
    rw [htree] at htree'
    cases htree'
    exact hrebuilds

/-- One more restart. -/
theorem Doubled.step {o : Orders} {m' m₀ : Node} (D : Doubled env n k m) (R : Restorable env m)
    (ho : o.Of (FSM.snapshot m)) (heq : FSM.restore env (FSM.snapshot m) o m₀ = (.ok none, m')) :
    Doubled env n (k + 1) m' := by
  obtain ⟨m'', heq', -, hconfig⟩ := restore_spec (m := m₀) R ho
  rw [heq] at heq'
  cases heq'
  obtain ⟨hrecord, hrebuilds⟩ := rebuilds_restore R ho heq
  rw [D.record] at hrecord hrebuilds
  have hpow : 2 ^ (k + 1) = 2 ^ k + 2 ^ k := by omega
  refine ⟨?_, fun p => ?_, fun _ => ?_, hrecord, fun _ => hrebuilds⟩
  · rw [hconfig]
    exact D.locations
  · rw [hconfig]
    simp only [Config.restored, D.locations, D.limiters]
    split
    · -- the records as they were, and once more
      rw [hpow, copies_add]
    · rfl
  · rw [hconfig]
    funext p
    obtain ⟨j, hj⟩ : ∃ j, 2 ^ k = j + 1 := ⟨2 ^ k - 1, by have := Nat.two_pow_pos k; omega⟩
    simp only [Config.restored, D.locations, D.limiters]
    cases hl : n.config.locations p with
    | none => rfl
    | some l => simp [hj, Service.replay_copies]

/-- In every state of every run, after any number of restarts: another one succeeds, on whatever node; a
pattern that is served has each of its limiters recorded twice as often after each restart; and the
patterns, hosts, modes and limiters in place are those after the first restart, as are the verdicts of the
access list, if its record is one of CIDR texts. -/
theorem restarts_double (h₀ : Start n₀) (hrun : Trace (Step env enc) n₀ es n) (h : Restored env n k m) :
    Doubled env n k m ∧ ∀ o m₀, o.Of (FSM.snapshot m) →
      ∃ m', FSM.restore env (FSM.snapshot m) o m₀ = (.ok none, m') := by
  have R : Restorable env n := (run_sane h₀ hrun).restorable
  refine ⟨?_, fun o m₀ ho => ?_⟩
  · induction h with
    | zero =>
        refine ⟨rfl, fun p => ?_, fun hpos => absurd hpos (by omega), rfl, fun hpos => absurd hpos (by omega)⟩
        split <;> simp [copies]
    | succ h ho heq ih => exact ih.step (h.restorable R) ho heq
  · obtain ⟨m', heq, -⟩ := restore_spec (m := m₀) (h.restorable R) ho
    exact ⟨m', heq⟩

end Restarts

/-- One limiter, and two restarts. -/
theorem restarts_double_twice : ∃ n m, (n.config.limiters "/api").length = 1 ∧
    Restored Env.plain n 2 m ∧ (m.config.limiters "/api").length = 4 := by
  have hrun : Trace (Step Env.plain Payload.encoding) Node.new
      ([] ++ [.apply createApi false] ++ [.apply limitApi false]) _ :=
    .snoc (.snoc .nil (.apply rfl)) (.apply rfl)
  obtain ⟨o, ho⟩ := exists_orders (FSM.snapshot _)
  obtain ⟨m, heq⟩ := (restarts_double start_new hrun .zero).2 o Node.new ho
  have honce := Restored.zero.succ ho heq
  obtain ⟨o', ho'⟩ := exists_orders (FSM.snapshot m)
  obtain ⟨m', heq'⟩ := (restarts_double start_new hrun honce).2 o' Node.new ho'
  have htwice := honce.succ ho' heq'
  refine ⟨_, m', ?_, htwice, ?_⟩
  · decide
  · rw [(restarts_double start_new hrun htwice).1.limiters]
    decide

end Cheryl.Server
