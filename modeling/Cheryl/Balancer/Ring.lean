import Cheryl.Balancer
import Cheryl.Library.Ring

/-!
# `ConsistenceHash` as a set of hosts

Adding hosts to a `ConsistenceHash` and removing them should keep a set: `Balance` fails when the
set is empty and gives one of its hosts otherwise. `Holds` says that the keys and the map of the
ring carry a set of hosts in the sense of `Cheryl.Library.Ring`. `Add` always keeps that, also for a
host that is there. `Remove` keeps it when the hashes of the host are on the ring once
(`RemovesCleanly`); otherwise it leaves keys without a host, or cuts out those of another.
-/

namespace Cheryl.Balancer

open Library

namespace ConsistenceHash

variable {c c' : ConsistenceHash} {M : Finset String} {host : String}

/-! ## The set a ring stands for -/

/-- The hashes of the host are among the keys once, so that `Remove` takes these and all of them. -/
def RemovesCleanly (c : ConsistenceHash) (host : String) : Prop :=
  Unshared c.points c.keys host

instance (c : ConsistenceHash) (host : String) : Decidable (c.RemovesCleanly host) :=
  inferInstanceAs (Decidable (Unshared _ _ _))

/-- The ring represents the hosts `M`. -/
structure Holds (c : ConsistenceHash) (M : Finset String) : Prop where
  sorted : c.keys.Pairwise (· ≤ ·)
  carries : Carries c.points M c.keys fun k => c.hosts.lookup k

/-! ## `Add`

`Add` appends the hashes of the host to the keys and sorts, so each is there once more than before; in the
map the host takes over all of them. -/

/-- The map after one host has been put under several keys. -/
theorem lookup_foldl_insert (hashes : List Nat) (host : String) (k : Nat) :
    ∀ m : GoMap Nat String, (hashes.foldl (fun m h => m.insert h host) m).lookup k =
      if k ∈ hashes then some host else m.lookup k := by
  induction hashes with
  | nil => intro m; simp
  | cons h hashes ih =>
      intro m
      rw [List.foldl_cons, ih]
      by_cases hk : k = h
      · subst hk; simp
      · simp [hk, Finmap.lookup_insert_of_ne]

theorem count_keys_add (c : ConsistenceHash) (host : String) (k : Nat) :
    (c.add host).keys.count k = c.keys.count k + (c.points host).count k := by
  show ((c.keys ++ c.points host).insertionSort (· ≤ ·)).count k = _
  rw [(List.perm_insertionSort _ _).count_eq, List.count_append]

/-- `Add` puts the host into the set, whether it was there or not. -/
theorem Holds.add (H : Holds c M) (host : String) : Holds (c.add host) (insert host M) where
  sorted := List.pairwise_insertionSort _ _
  carries := H.carries.add host (count_keys_add c host) fun k => lookup_foldl_insert _ host k c.hosts

/-! ## `Remove`

Every round looks for one hash of the host and cuts the key found there, without a check that it is this
hash: when the hash is gone, that is the key of another host, or none and the slice expression panics. As
long as each hash is there for its round, a round is erasing one occurrence. -/

/-- One round takes the key itself, if it is there. -/
theorem cut_of_mem (hsorted : c.keys.Pairwise (· ≤ ·)) {hash : Nat} (hmem : hash ∈ c.keys) :
    c.cut hash = .ok { c with keys := c.keys.erase hash, hosts := c.hosts.erase hash } := by
  obtain ⟨hlt, herase⟩ := eraseIdx_firstNotBelow hsorted hmem
  unfold cut
  rw [show search c.keys hash = firstNotBelow c.keys hash from rfl, if_pos hlt, herase]

/-- The rounds of `Remove`, when the keys are there as often as they are asked for. -/
theorem foldlM_cut (hashes : List Nat) : ∀ {c : ConsistenceHash}, c.keys.Pairwise (· ≤ ·) →
    (∀ k ∈ hashes, hashes.count k ≤ c.keys.count k) →
    ∃ c', hashes.foldlM cut c = .ok c' ∧ c'.hash = c.hash ∧ c'.replicas = c.replicas ∧
      c'.keys.Pairwise (· ≤ ·) ∧ (∀ k, c'.keys.count k = c.keys.count k - hashes.count k) ∧
      ∀ k, c'.hosts.lookup k = if k ∈ hashes then none else c.hosts.lookup k := by
  induction hashes with
  | nil =>
      intro c hsorted _
      exact ⟨c, rfl, rfl, rfl, hsorted, by simp, by simp⟩
  | cons hash hashes ih =>
      intro c hsorted hcount
      -- this hash is still there, since it is counted at least once
      have hmem : hash ∈ c.keys := by
        have hfirst := hcount hash List.mem_cons_self
        rw [List.count_cons_self] at hfirst
        exact List.count_pos_iff.mp (by omega)
      -- the state after the first round
      let c₁ : ConsistenceHash :=
        { c with keys := c.keys.erase hash, hosts := c.hosts.erase hash }
      have hcount₁ : ∀ k, c₁.keys.count k = c.keys.count k - if hash = k then 1 else 0 := by
        intro k
        simp [c₁, List.count_erase]
      obtain ⟨c', hfold, hhash, hreplicas, hsorted', hkeys, hhosts⟩ :=
        ih (c := c₁) (hsorted.sublist List.erase_sublist) (by
          intro k hk
          have hle := hcount k (List.mem_cons_of_mem _ hk)
          rw [hcount₁]
          rw [List.count_cons] at hle
          simp only [beq_iff_eq] at hle
          omega)
      refine ⟨c', ?_, hhash, hreplicas, hsorted', ?_, ?_⟩
      · rw [List.foldlM_cons, cut_of_mem hsorted hmem]
        exact hfold
      · intro k
        rw [hkeys, hcount₁, List.count_cons]
        simp only [beq_iff_eq]
        omega
      · intro k
        rw [hhosts]
        by_cases hk : k = hash
        · subst hk
          simp [c₁]
        · simp [c₁, hk, Finmap.lookup_erase_ne]

/-- `Remove` takes a host out of the set when its hashes are on the ring once. -/
theorem Holds.remove (H : Holds c M) (hM : host ∈ M) (hclean : c.RemovesCleanly host) :
    ∃ c', c.remove host = .ok c' ∧ c'.hash = c.hash ∧ c'.replicas = c.replicas ∧
      Holds c' (M.erase host) := by
  obtain ⟨c', hremove, hhash, hreplicas, hsorted, hkeys, hhosts⟩ :=
    foldlM_cut (c.points host) H.sorted fun k hk => (hclean k hk).ge
  refine ⟨c', hremove, hhash, hreplicas, hsorted, ?_⟩
  -- `Remove` does not touch the hash function
  have hpoints : c'.points = c.points := by
    funext h
    simp only [points, hhash, hreplicas]
  rw [hpoints]
  exact H.carries.remove hM hclean hkeys hhosts

/-! ## `Balance`

An index into the keys modulo their number never misses when there are keys, so the only error is the empty
ring; and on a ring that carries a set every key has a host of the set. -/

/-- With a replica or more every host has nodes. -/
theorem points_ne_nil (hreplicas : 1 ≤ c.replicas) (host : String) : c.points host ≠ [] := by
  unfold points
  rw [Ne, List.map_eq_nil_iff, List.range_eq_nil]
  omega

/-- What a set of hosts promises: an error if and only if it is empty, and a host of it otherwise. -/
structure Balances (c : ConsistenceHash) (M : Finset String) : Prop where
  error_iff : ∀ url, (∃ err, c.balance url = .error err) ↔ M = ∅
  member : ∀ url host, c.balance url = .ok host → host ∈ M ∧ host ≠ ""

/-- `Balance` picks the host of a key, if there are keys. -/
theorem balance_eq (c : ConsistenceHash) (url : String) :
    (c.keys = [] ∧ ∃ err, c.balance url = .error err) ∨
      (∃ key ∈ c.keys, c.balance url = .ok ((c.hosts.lookup key).getD "")) := by
  unfold balance
  cases hkey : c.keys[search c.keys (c.hash url) % c.keys.length]? with
  | none =>
      refine .inl ⟨?_, _, rfl⟩
      rw [List.getElem?_eq_none_iff] at hkey
      cases hkeys : c.keys with
      | nil => rfl
      | cons k keys =>
          rw [hkeys] at hkey
          -- the index is taken modulo the number of keys
          have hlt := Nat.mod_lt (search (k :: keys) (c.hash url)) (List.length_pos_of_mem
            (List.mem_cons_self (a := k) (l := keys)))
          omega
  | some key => exact .inr ⟨key, List.mem_of_getElem? hkey, rfl⟩

/-- A ring that carries a set of hosts balances over it. -/
theorem Holds.balances (H : Holds c M) (hreplicas : 1 ≤ c.replicas) (hempty : "" ∉ M) :
    Balances c M := by
  have hnil := H.carries.keys_eq_nil fun h _ => points_ne_nil hreplicas h
  have hmember : ∀ url host, c.balance url = .ok host → host ∈ M := by
    intro url host hok
    rcases c.balance_eq url with ⟨-, err, herr⟩ | ⟨key, hkey, heq⟩
    · rw [herr] at hok
      cases hok
    · obtain ⟨h, hM, -, howner⟩ := H.carries.owned key hkey
      rw [heq, show c.hosts.lookup key = some h from howner] at hok
      cases hok
      exact hM
  refine ⟨fun url => ?_, fun url host hok => ⟨hmember url host hok, ?_⟩⟩
  · rw [← hnil]
    rcases c.balance_eq url with ⟨hkeys, herr⟩ | ⟨key, hkey, heq⟩
    · exact ⟨fun _ => hkeys, fun _ => herr⟩
    · refine ⟨fun ⟨err, herr⟩ => ?_, fun hkeys => ?_⟩
      · rw [heq] at herr
        cases herr
      · rw [hkeys] at hkey
        cases hkey
  · -- the empty string is what a missing key of `hosts` gives
    intro hhost
    subst hhost
    exact hempty (hmember url "" hok)

/-! ## Runs

The set a run should stand for is a fold over its calls. A run ends at the first call that panics, so the
theorem is also about no call panicking. -/

inductive Op
  | add (host : String)
  | remove (host : String)

def Op.exec (c : ConsistenceHash) : Op → Except Fault ConsistenceHash
  | .add host => .ok (c.add host)
  | .remove host => c.remove host

def Op.apply (M : Finset String) : Op → Finset String
  | .add host => insert host M
  | .remove host => M.erase host

/-- `NewConsistenceHash`, then the calls in turn. A panic ends them. -/
def run (env : Env) (hosts : List String) (ops : List Op) : Except Fault ConsistenceHash :=
  ops.foldlM Op.exec (newConsistenceHash env hosts)

/-- The hosts of the initial list, and those added and not removed since. -/
def members (hosts : List String) (ops : List Op) : Finset String := ops.foldl Op.apply hosts.toFinset

/-- No host is the empty string, and what is removed is there, with its hashes on the ring once. -/
def Op.Clean (c : ConsistenceHash) (M : Finset String) : Op → Prop
  | .add host => host ≠ ""
  | .remove host => host ∈ M ∧ c.RemovesCleanly host

variable {env : Env} {hosts : List String} {ops : List Op}

/-- The constructor carries the hosts of its list, given once or more often. -/
theorem holds_new (env : Env) (hosts : List String) :
    Holds (newConsistenceHash env hosts) hosts.toFinset ∧
      (newConsistenceHash env hosts).replicas = env.replicas := by
  suffices H : ∀ c M, Holds c M → Holds (hosts.foldl add c) (M ∪ hosts.toFinset) ∧
      (hosts.foldl add c).replicas = c.replicas by
    have hempty : Holds ⟨env.hash, env.replicas, [], ∅⟩ ∅ :=
      ⟨List.Pairwise.nil, Carries.empty _ _⟩
    have := H _ _ hempty
    rwa [Finset.empty_union] at this
  induction hosts with
  | nil => intro c M H; simpa using H
  | cons host hosts ih =>
      intro c M H
      obtain ⟨hholds, hreplicas⟩ := ih (c.add host) (insert host M) (H.add host)
      refine ⟨?_, hreplicas⟩
      rwa [List.toFinset_cons, Finset.union_insert, ← Finset.insert_union]

/-- One call on a ring that represents a set. -/
theorem Holds.exec (H : Holds c M) {op : Op} (hclean : op.Clean c M) :
    ∃ c', op.exec c = .ok c' ∧ c'.replicas = c.replicas ∧ Holds c' (op.apply M) := by
  cases op with
  | add host => exact ⟨c.add host, rfl, rfl, H.add host⟩
  | remove host =>
      obtain ⟨c', hremove, -, hreplicas, hholds⟩ := H.remove hclean.1 hclean.2
      exact ⟨c', hremove, hreplicas, hholds⟩

/-- No clean call brings the empty host in. -/
theorem Op.Clean.apply {op : Op} (hclean : op.Clean c M) (hempty : "" ∉ M) : "" ∉ op.apply M := by
  cases op with
  | add host => exact fun hmem => (Finset.mem_insert.mp hmem).elim (fun h => hclean h.symm) hempty
  | remove host => exact fun hmem => hempty (Finset.mem_of_mem_erase hmem)

theorem run_snoc {op : Op} (hrun : run env hosts ops = .ok c) :
    run env hosts (ops ++ [op]) = op.exec c := by
  unfold run at hrun ⊢
  rw [List.foldlM_append, hrun]
  exact bind_pure (op.exec c)

theorem members_snoc (hosts : List String) (ops : List Op) (op : Op) :
    members hosts (ops ++ [op]) = op.apply (members hosts ops) := by
  simp only [members, List.foldl_append, List.foldl_cons, List.foldl_nil]

/-- No call panics, and the ring represents the set. -/
theorem run_holds (hhosts : "" ∉ hosts) (hclean : ∀ es e fs c, ops = es ++ e :: fs →
      run env hosts es = .ok c → Op.Clean c (members hosts es) e) :
    ∃ c, run env hosts ops = .ok c ∧ c.replicas = env.replicas ∧ Holds c (members hosts ops) ∧
      "" ∉ members hosts ops := by
  -- from the end, since the condition is about the state before each call
  induction ops using List.reverseRecOn with
  | nil =>
      obtain ⟨hholds, hreplicas⟩ := holds_new env hosts
      exact ⟨_, rfl, hreplicas, hholds, by simpa [members] using hhosts⟩
  | append_singleton ops op ih =>
      obtain ⟨c, hrun, hreplicas, hholds, hempty⟩ := ih fun es e fs c heq hes =>
        hclean es e (fs ++ [op]) c (by rw [heq]; simp) hes
      have hop : op.Clean c (members hosts ops) := hclean ops op [] c rfl hrun
      obtain ⟨c', hexec, hreplicas', hholds'⟩ := hholds.exec hop
      refine ⟨c', ?_, hreplicas'.trans hreplicas, ?_, ?_⟩
      · rw [run_snoc hrun, hexec]
      · rw [members_snoc]
        exact hholds'
      · rw [members_snoc]
        exact hop.apply hempty

/-- In every run in which no host is the empty string, and a host is only removed when it is there
with its hashes on the ring once: no call panics, and `Balance` balances over the hosts there are. -/
theorem run_balances (hreplicas : 1 ≤ env.replicas) (hhosts : "" ∉ hosts)
    (hclean : ∀ es e fs c, ops = es ++ e :: fs → run env hosts es = .ok c →
      Op.Clean c (members hosts es) e) :
    ∃ c, run env hosts ops = .ok c ∧ Balances c (members hosts ops) := by
  obtain ⟨c, hrun, heq, hholds, hempty⟩ := run_holds hhosts hclean
  exact ⟨c, hrun, hholds.balances (heq ▸ hreplicas) hempty⟩

/-- Surroundings to try rings in: a host is hashed to its length, twice. -/
def lengths : Env := ⟨fun s => s.length, 2⟩

/-- A host comes and the one that was there goes. -/
theorem run_balances_replaced : ∃ c, run lengths ["a:80"] [.add "bb:80", .remove "a:80"] = .ok c ∧
    Balances c {"bb:80"} := by
  have hclean : ∀ es e fs c, [Op.add "bb:80", Op.remove "a:80"] = es ++ e :: fs →
      run lengths ["a:80"] es = .ok c → Op.Clean c (members ["a:80"] es) e := by
    intro es e fs c heq hrun
    match es, fs with
    | [], _ =>
        cases heq
        show "bb:80" ≠ ""
        decide
    | [_], _ =>
        cases heq
        cases hrun
        exact ⟨by decide, by decide +kernel⟩
    | _ :: _ :: es, _ => simp at heq
  exact run_balances (by decide) (by decide) hclean

/-- A host that is given twice leaves a key behind, and `Balance` answers with no host. -/
theorem not_run_balances : ¬ ∀ (env : Env) (hosts : List String) (ops : List Op), 1 ≤ env.replicas →
    ∃ c, run env hosts ops = .ok c ∧ Balances c (members hosts ops) := by
  intro h
  obtain ⟨c, hrun, hbalances⟩ := h lengths ["a:80", "a:80"] [.remove "a:80"] (by decide)
  have hok : c.balance "" = .ok "" := by
    revert hrun
    cases hrun : run lengths ["a:80", "a:80"] [.remove "a:80"] with
    | error fault => intro h; cases h
    | ok c' =>
        intro h
        cases h
        cases hrun
        rfl
  exact (hbalances.member "" "" hok).2 rfl

end ConsistenceHash

end Cheryl.Balancer
