import Cheryl.Balancer
import Cheryl.Library.Cyclic
import Cheryl.Library.Trace

/-!
# `RoundRobin` takes its hosts in turn

`Balance` walks round the list of hosts, so over whole rounds the hosts are served evenly
(`balances_fair`), wherever the index stands. What is served is the set of hosts that were added and
not removed since (`run_serves`), as long as a host that is removed is on the list once: `Add` takes
care of that, the constructor does not. Calls are taken to come one after the other: `Balance` raises the
index under the read lock, so two at once may get the same host.
-/

namespace Cheryl.Balancer

open Library

namespace RoundRobin

def newRoundRobin (hosts : List String) : RoundRobin := ⟨0, hosts⟩

variable {r r' : RoundRobin} {M : Finset String} {host : String}

/-- The position `Balance` reads, for a list the index can reach all of. -/
theorem toNat_idx_mod (hlen : r.hosts.length ≤ 2 ^ 64) :
    (r.idx % UInt64.ofNat r.hosts.length).toNat = r.idx.toNat % r.hosts.length := by
  rw [UInt64.toNat_mod, UInt64.toNat_ofNat']
  rcases Nat.lt_or_eq_of_le hlen with hlt | heq
  · rw [Nat.mod_eq_of_lt hlt]
  · have hidx := r.idx.toNat_lt
    rw [heq, Nat.mod_self, Nat.mod_zero, Nat.mod_eq_of_lt hidx]

/-- `Balance` fails on the empty list, and answers with a host of any other. -/
theorem balance_cases (r : RoundRobin) : (r.hosts = [] ∧ r.balance = (.error noHostError, r)) ∨
    ∃ host ∈ r.hosts, r.balance = (.ok host, { r with idx := r.idx + 1 }) := by
  unfold balance
  split
  · next hnone =>
      refine .inl ⟨?_, rfl⟩
      by_contra hne
      have hpos := List.length_pos_iff.mpr hne
      rw [List.getElem?_eq_none_iff, UInt64.toNat_mod, UInt64.toNat_ofNat'] at hnone
      have hidx := r.idx.toNat_lt
      by_cases hzero : r.hosts.length % 2 ^ 64 = 0
      · -- then the list is longer than any index
        have hlong := Nat.div_add_mod r.hosts.length (2 ^ 64)
        rw [hzero, Nat.mod_zero] at hnone
        omega
      · have hlt := Nat.mod_lt r.idx.toNat (Nat.pos_of_ne_zero hzero)
        have hle := Nat.mod_le r.hosts.length (2 ^ 64)
        omega
  · next host hget => exact .inr ⟨host, List.mem_of_getElem? hget, rfl⟩

/-! ## Fairness

While the index does not reach the end of `uint64` the answers are a walk round the list, and the library
counts how often a walk comes by each place. When it wraps the walk starts anew at the head of the list,
wherever it stood; that costs at most one turn for each wrap. -/

/-- So many calls of `Balance`, one after another. -/
def balances : Nat → RoundRobin → List (Except GoError String) × RoundRobin
  | 0, r => ([], r)
  | m + 1, r => (r.balance.1 :: (balances m r.balance.2).1, (balances m r.balance.2).2)

/-- While the index does not wrap, the calls walk round the list. -/
theorem balances_eq_walk (m : Nat) : ∀ {r : RoundRobin}, r.hosts ≠ [] → r.hosts.length ≤ 2 ^ 64 →
    r.idx.toNat + m ≤ 2 ^ 64 →
    (balances m r).1 = (walk r.hosts r.idx.toNat m).map .ok := by
  induction m with
  | zero => intro r _ _ _; rfl
  | succ m ih =>
      intro r hne hlen hwrap
      obtain ⟨hempty, -⟩ | ⟨host, -, hbalance⟩ := r.balance_cases
      · exact absurd hempty hne
      -- the host of this call stands at the index, and the rest is the walk from the next one
      have hget : r.hosts[r.idx.toNat % r.hosts.length]? = some host := by
        unfold balance at hbalance
        rw [toNat_idx_mod hlen] at hbalance
        split at hbalance
        · cases hbalance
        · next host' hget =>
            cases hbalance
            exact hget
      have hrest : (balances m { r with idx := r.idx + 1 }).1 =
          (walk r.hosts (r.idx.toNat + 1) m).map .ok := by
        cases m with
        | zero => rfl
        | succ m =>
            have hidx : (r.idx + 1).toNat = r.idx.toNat + 1 := by
              rw [UInt64.toNat_add, UInt64.toNat_one, Nat.mod_eq_of_lt (by omega)]
            have hmore := ih (r := { r with idx := r.idx + 1 }) hne hlen
              (by show (r.idx + 1).toNat + (m + 1) ≤ 2 ^ 64; omega)
            rw [hmore]
            show (walk r.hosts (r.idx + 1).toNat (m + 1)).map _ = _
            rw [hidx]
      simp only [balances, hbalance, walk, hget, hrest]
      rfl

/-- In `k` rounds every host is answered `k` times as often as it is on the list, whatever the index
was, as long as it does not wrap. -/
theorem balances_fair (r : RoundRobin) (k : Nat)
    (hwrap : r.idx.toNat + k * r.hosts.length ≤ 2 ^ 64) :
    ∃ answers : List String, (balances (k * r.hosts.length) r).1 = answers.map .ok ∧
      ∀ host, answers.count host = k * r.hosts.count host := by
  refine ⟨walk r.hosts r.idx.toNat (k * r.hosts.length), ?_, fun host => count_walk _ _ _⟩
  rcases Nat.eq_zero_or_pos (k * r.hosts.length) with hzero | hpos
  · rw [hzero]
    rfl
  · have hk : 1 ≤ k := Nat.pos_of_mul_pos_right hpos
    have hlen : r.hosts.length ≤ k * r.hosts.length := Nat.le_mul_of_pos_left _ hk
    refine balances_eq_walk _ ?_ (by omega) hwrap
    intro hnil
    rw [hnil, List.length_nil, Nat.mul_zero] at hpos
    omega

/-- Two rounds, from the middle of a list with a host on it twice. -/
theorem balances_fair_twice : ∃ answers : List String,
    (balances (2 * 3) ⟨7, ["a:80", "b:80", "a:80"]⟩).1 = answers.map .ok ∧
      ∀ host, answers.count host = 2 * ["a:80", "b:80", "a:80"].count host :=
  balances_fair ⟨7, ["a:80", "b:80", "a:80"]⟩ 2 (by decide)

/-- Calls in a row, in two parts. -/
theorem balances_add (m m' : Nat) : ∀ {r : RoundRobin}, balances (m + m') r =
    ((balances m r).1 ++ (balances m' (balances m r).2).1, (balances m' (balances m r).2).2) := by
  induction m with
  | zero =>
      intro r
      rw [Nat.zero_add]
      rfl
  | succ m ih =>
      intro r
      rw [Nat.succ_add]
      simp only [balances, ih, List.cons_append]

theorem balances_snd (hne : r.hosts ≠ []) (m : Nat) :
    (balances m r).2 = { r with idx := r.idx + UInt64.ofNat m } := by
  induction m with
  | zero => simp [balances]
  | succ m ih =>
      obtain ⟨hempty, -⟩ | ⟨host, -, hbalance⟩ :=
        ({ r with idx := r.idx + UInt64.ofNat m } : RoundRobin).balance_cases
      · exact absurd hempty hne
      rw [balances_add, ih]
      simp only [balances, hbalance, UInt64.ofNat_add, ← UInt64.add_assoc]
      rfl

inductive Op
  | add (host : String)
  | remove (host : String)
  | balance

def Op.exec (r : RoundRobin) : Op → RoundRobin
  | .add host => r.add host
  | .remove host => r.remove host
  | .balance => r.balance.2

def Op.apply (M : Finset String) : Op → Finset String
  | .add host => insert host M
  | .remove host => M.erase host
  | .balance => M

/-- The hosts of the initial list, and those added and not removed since. -/
def members (hosts : List String) (ops : List Op) : Finset String := ops.foldl Op.apply hosts.toFinset

def Step (r : RoundRobin) (op : Op) (r' : RoundRobin) : Prop := r' = op.exec r

/-- A host that is removed is on the list once. -/
def Op.Single (r : RoundRobin) : Op → Prop
  | .remove host => r.hosts.count host ≤ 1
  | _ => True

/-- What a set of hosts promises: `Balance` answers with a host of it, or with `NoHostError` if and
only if it is empty; and none of its hosts is lost. -/
structure Serves (r : RoundRobin) (M : Finset String) : Prop where
  answers : ∀ host, r.balance.1 = .ok host → host ∈ M
  stays : ∀ host ∈ M, host ∈ r.hosts
  error_iff : r.balance.1 = .error noHostError ↔ M = ∅

theorem hosts_balance (r : RoundRobin) : r.balance.2.hosts = r.hosts := by
  obtain ⟨-, hbalance⟩ | ⟨host, -, hbalance⟩ := r.balance_cases <;> rw [hbalance]

/-- `Add` puts the host on the list, if it is not there. -/
theorem mem_hosts_add {h : String} : h ∈ (r.add host).hosts ↔ h = host ∨ h ∈ r.hosts := by
  unfold add
  split
  · next hmem =>
      refine ⟨.inr, fun hor => hor.elim (fun heq => ?_) id⟩
      rw [heq]
      exact hmem
  · simp only [List.mem_append, List.mem_singleton]
    exact Or.comm

/-- `Remove` takes the host off the list, if it is there once. -/
theorem mem_hosts_remove (hsingle : r.hosts.count host ≤ 1) {h : String} :
    h ∈ (r.remove host).hosts ↔ h ≠ host ∧ h ∈ r.hosts := by
  show h ∈ r.hosts.erase host ↔ _
  by_cases heq : h = host
  · subst heq
    have hcount : (r.hosts.erase h).count h = 0 := by
      rw [List.count_erase_self]
      omega
    simp [List.count_eq_zero.mp hcount]
  · simp [heq, List.mem_erase_of_ne heq]

/-- One call keeps the list and the set together. -/
theorem Step.toFinset {op : Op} (H : r.hosts.toFinset = M) (hstep : Step r op r') (hsingle : op.Single r) :
    r'.hosts.toFinset = op.apply M := by
  subst hstep
  subst H
  ext h
  cases op with
  | add host => simp [Op.exec, Op.apply, mem_hosts_add]
  | remove host => simp [Op.exec, Op.apply, mem_hosts_remove hsingle]
  | balance => simp [Op.exec, Op.apply, hosts_balance]

/-- A round robin serves the hosts on its list. -/
theorem serves_toFinset (r : RoundRobin) : Serves r r.hosts.toFinset := by
  obtain ⟨hempty, hbalance⟩ | ⟨host, hmem, hbalance⟩ := r.balance_cases
  · refine ⟨fun host hok => ?_, fun host hM => List.mem_toFinset.mp hM, ?_⟩
    · rw [hbalance] at hok
      cases hok
    · rw [hbalance, hempty]
      simp
  · refine ⟨fun host' hok => ?_, fun host hM => List.mem_toFinset.mp hM, ?_⟩
    · rw [hbalance] at hok
      cases hok
      exact List.mem_toFinset.mpr hmem
    · rw [hbalance]
      refine ⟨fun herr => (by cases herr), fun hempty => ?_⟩
      rw [← List.mem_toFinset, hempty] at hmem
      exact absurd hmem (Finset.notMem_empty host)

/-- In every run in which a host is removed only while it is on the list once: `Balance` serves the
hosts of the initial list and those added and not removed since. -/
theorem run_serves {hosts : List String} {ops : List Op}
    (hrun : Trace (fun r op r' => Step r op r' ∧ op.Single r) (newRoundRobin hosts) ops r) :
    Serves r (members hosts ops) := by
  have hset : r.hosts.toFinset = members hosts ops := by
    refine hrun.history (I := fun ops r => r.hosts.toFinset = members hosts ops) rfl ?_
    intro ops r op r' H hstep
    rw [Step.toFinset H hstep.1 hstep.2]
    simp [members]
  rw [← hset]
  exact serves_toFinset r

/-- A host is removed and added again. -/
theorem run_serves_again : Serves ⟨1, ["b:80", "a:80"]⟩ {"a:80", "b:80"} := by
  have hrun : Trace (fun r op r' => Step r op r' ∧ op.Single r) (newRoundRobin ["a:80", "b:80"])
      ([] ++ [.balance] ++ [.remove "a:80"] ++ [.add "a:80"]) ⟨1, ["b:80", "a:80"]⟩ :=
    .snoc (.snoc (.snoc .nil ⟨rfl, trivial⟩) ⟨rfl, show _ ≤ 1 by decide⟩) ⟨rfl, trivial⟩
  have hmembers : members ["a:80", "b:80"] ([] ++ [.balance] ++ [.remove "a:80"] ++ [.add "a:80"]) =
      {"a:80", "b:80"} := by decide
  rw [← hmembers]
  exact run_serves hrun

/-- No call puts a host on the list a second time. -/
theorem nodup_exec (op : Op) (hnodup : r.hosts.Nodup) : (op.exec r).hosts.Nodup := by
  cases op with
  | add host =>
      show (r.add host).hosts.Nodup
      unfold add
      split
      · exact hnodup
      · next hnew => exact List.nodup_append'.mpr ⟨hnodup, List.nodup_singleton _, by simpa using hnew⟩
  | remove host => exact hnodup.erase host
  | balance =>
      show r.balance.2.hosts.Nodup
      rw [hosts_balance]
      exact hnodup

/-- So for an initial list without repetitions every run is one that `run_serves` is about. -/
theorem run_single {hosts : List String} {ops : List Op} (hnodup : hosts.Nodup)
    (hrun : Trace Step (newRoundRobin hosts) ops r) :
    Trace (fun r op r' => Step r op r' ∧ op.Single r) (newRoundRobin hosts) ops r := by
  refine hrun.mono_of_invariant (I := fun r => r.hosts.Nodup) hnodup ?_ ?_
  · intro r op r' I hstep
    rw [hstep]
    exact nodup_exec op I
  · intro r op r' I hstep
    refine ⟨hstep, ?_⟩
    cases op with
    | add host => trivial
    | remove host => exact List.nodup_iff_count_le_one.mp I host
    | balance => trivial

/-- `http://a` and `http://a:80` are one host, which is on the list twice then. -/
theorem not_run_serves : ¬ ∀ (urls : List Utils.URL) (ops : List Op) (r : RoundRobin),
    Trace Step (newRoundRobin (urls.map Utils.getHost)) ops r →
    Serves r (members (urls.map Utils.getHost) ops) := by
  intro h
  have hrun : Trace Step (newRoundRobin ([⟨"http", "a"⟩, ⟨"http", "a:80"⟩].map Utils.getHost))
      ([] ++ [.remove "a:80"]) ⟨0, ["a:80"]⟩ :=
    .snoc .nil (show _ = _ by decide +kernel)
  have hmem := (h _ _ _ hrun).answers "a:80" rfl
  revert hmem
  decide +kernel

end RoundRobin

end Cheryl.Balancer
