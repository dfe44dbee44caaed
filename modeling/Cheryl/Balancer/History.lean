import Cheryl.Balancer.Lookup

/-!
# A `ConsistenceHash` does not remember how it was built

If no two virtual nodes have the same hash, `Remove` takes exactly what `Add` has put on the ring.
So the ring is a function of the set of hosts (`run_history`): two replicas with different histories
send a url to the same host, and so does a ring that was rebuilt in another order.
-/

namespace Cheryl.Balancer

open Library

namespace ConsistenceHash

def Op.host : Op → String
  | .add host => host
  | .remove host => host

variable {env : Env} {c c' : ConsistenceHash} {M : Finset String} {host : String} {ops : List Op}

/-! ## When the hosts determine the ring

Two hosts that share the hash of a virtual node compete for it: the one added last owns it, and to remove
one of them takes the node from both. Without such a clash (`DistinctNodes`) and with calls that make sense
(`Proper`: no host is added twice, or removed when it is not there) the ring is exactly what its hosts make
of it, and `Add` and `Remove` are inverse to each other. -/

def DistinctNodes (env : Env) (hosts : List String) : Prop :=
  ∀ h ∈ hosts, ∀ h' ∈ hosts, ∀ i j : Nat, (i : Int) < env.replicas → (j : Int) < env.replicas →
    env.hash (label i h) = env.hash (label j h') → i = j ∧ h = h'

/-- The numbers of the nodes are bounded, so the condition can be decided. -/
theorem distinctNodes_iff_bounded (env : Env) (hosts : List String) :
    (∀ h ∈ hosts, ∀ h' ∈ hosts, ∀ i < env.replicas.toNat, ∀ j < env.replicas.toNat,
      env.hash (label i h) = env.hash (label j h') → i = j ∧ h = h') ↔ DistinctNodes env hosts :=
  ⟨fun hall h hh h' hh' i j hi hj => hall h hh h' hh' i (by omega) j (by omega),
    fun hnodes h hh h' hh' i hi j hj => hnodes h hh h' hh' i j (by omega) (by omega)⟩

instance (env : Env) (hosts : List String) : Decidable (DistinctNodes env hosts) :=
  decidable_of_iff _ (distinctNodes_iff_bounded env hosts)

/-- What is added is absent, and what is removed is present. -/
def Op.Fits (M : Finset String) : Op → Prop
  | .add host => host ∉ M
  | .remove host => host ∈ M

def Proper (ops : List Op) : Prop :=
  ∀ es e fs, ops = es ++ e :: fs → e.Fits (members [] es)

/-- The ring is what these hosts make of it. -/
structure ExactlyHolds (env : Env) (M : Finset String) (c : ConsistenceHash) : Prop where
  hash : c.hash = env.hash
  replicas : c.replicas = env.replicas
  sorted : c.keys.Pairwise (· ≤ ·)
  represents : Exact (nodes env) M c.keys fun k => c.hosts.lookup k

namespace ExactlyHolds

theorem empty (env : Env) : ExactlyHolds env ∅ (newConsistenceHash env []) :=
  ⟨rfl, rfl, List.Pairwise.nil, Exact.empty (nodes env)⟩

/-- The hosts determine the ring. -/
theorem unique (H : ExactlyHolds env M c) (H' : ExactlyHolds env M c') : c = c' := by
  obtain ⟨hkeys, howner⟩ := H.represents.unique H'.represents H.sorted H'.sorted
  have hhosts : c.hosts = c'.hosts := Finmap.ext_lookup fun k => congrFun howner k
  have hhash := H.hash.trans H'.hash.symm
  have hreplicas := H.replicas.trans H'.replicas.symm
  cases c
  cases c'
  congr

/-- `Add` puts the nodes of the host on the ring, and takes none from the others. -/
theorem add (H : ExactlyHolds env M c) (hM : host ∉ M) (hapart : Apart (nodes env) M host) :
    ExactlyHolds env (insert host M) (c.add host) where
  hash := H.hash
  replicas := H.replicas
  sorted := List.pairwise_insertionSort _ _
  represents := by
    have hpoints := points_eq_nodes H.hash H.replicas
    refine H.represents.add hM hapart (fun k => ?_) fun k => ?_
    · rw [← hpoints]
      exact count_keys_add c host k
    · rw [← hpoints]
      exact lookup_hosts_add

/-- The rounds of `Remove` find every key of the host, and cut no other. -/
theorem remove (H : ExactlyHolds env M c) (hM : host ∈ M) (hapart : Apart (nodes env) M host) :
    ∃ c', c.remove host = .ok c' ∧ ExactlyHolds env (M.erase host) c' := by
  have hpoints := points_eq_nodes H.hash H.replicas
  have hthere : ∀ k ∈ nodes env host, (nodes env host).count k ≤ c.keys.count k :=
    fun k _ => H.represents.count_le hM k
  obtain ⟨c', hremove, hhash, hreplicas, hsorted, hkeys, hhosts⟩ :=
    foldlM_cut (nodes env host) H.sorted hthere
  refine ⟨c', ?_, hhash.trans H.hash, hreplicas.trans H.replicas, hsorted, ?_⟩
  · rw [← hpoints] at hremove
    exact hremove
  · exact H.represents.remove hM hapart hkeys hhosts

end ExactlyHolds

/-! ## Runs

A run of proper calls goes from one ring that is exactly its hosts to the next, by induction from the last
call; so what the run leaves depends on the hosts at the end only. -/

/-- Hosts with different hashes share no virtual node. -/
theorem DistinctNodes.apart {hosts : List String} (hnodes : DistinctNodes env hosts)
    (hM : ∀ h ∈ M, h ∈ hosts) (hhost : host ∈ hosts) : Apart (nodes env) M host := by
  intro h' hM' k hk hk'
  obtain ⟨i, hi, hhash⟩ := mem_nodes.mp hk
  obtain ⟨j, hj, hhash'⟩ := mem_nodes.mp hk'
  exact (hnodes h' (hM h' hM') host hhost j i hj hi (hhash'.trans hhash.symm)).2

theorem ExactlyHolds.exec {hosts : List String} (H : ExactlyHolds env M c)
    (hnodes : DistinctNodes env hosts) (hM : ∀ h ∈ M, h ∈ hosts) {op : Op} (hop : op.host ∈ hosts)
    (hfits : op.Fits M) : ∃ c', op.exec c = .ok c' ∧ ExactlyHolds env (op.apply M) c' := by
  have hapart := hnodes.apart hM hop
  cases op with
  | add host => exact ⟨_, rfl, H.add hfits hapart⟩
  | remove host => exact H.remove hfits hapart

/-- The hosts that are there are hosts of calls. -/
theorem mem_hosts_of_mem_members (ops : List Op) : ∀ h ∈ members [] ops, h ∈ ops.map Op.host := by
  induction ops using List.reverseRecOn with
  | nil =>
      intro h hM
      cases hM
  | append_singleton ops op ih =>
      intro h hM
      rw [members_snoc] at hM
      rw [List.map_append, List.mem_append]
      cases op with
      | add host =>
          rcases Finset.mem_insert.mp hM with rfl | hold
          · exact .inr (List.mem_singleton.mpr rfl)
          · exact .inl (ih h hold)
      | remove host => exact .inl (ih h (Finset.mem_of_mem_erase hM))

/-- A run from the empty ring in which every call fits. -/
theorem run_exactlyHolds {hosts : List String} (hnodes : DistinctNodes env hosts)
    (hops : ∀ h ∈ ops.map Op.host, h ∈ hosts) (hproper : Proper ops) :
    ∃ c, run env [] ops = .ok c ∧ ExactlyHolds env (members [] ops) c := by
  -- on the calls from the end, since whether a call fits is about the hosts before it
  induction ops using List.reverseRecOn with
  | nil => exact ⟨_, rfl, ExactlyHolds.empty env⟩
  | append_singleton ops op ih =>
      have hearlier : ∀ h ∈ ops.map Op.host, h ∈ hosts := fun h hmem =>
        hops h (by rw [List.map_append]; exact List.mem_append_left _ hmem)
      obtain ⟨c, hrun, H⟩ := ih hearlier fun es e fs heq =>
        hproper es e (fs ++ [op]) (by rw [heq]; simp)
      have hM : ∀ h ∈ members [] ops, h ∈ hosts := fun h hmem =>
        hearlier h (mem_hosts_of_mem_members ops h hmem)
      have hop : op.host ∈ hosts := hops _ (by simp)
      obtain ⟨c', hexec, H'⟩ := H.exec hnodes hM hop (hproper ops op [] rfl)
      refine ⟨c', ?_, ?_⟩
      · rw [run_snoc hrun, hexec]
      · rw [members_snoc]
        exact H'

/-- Two histories that leave the same hosts leave the same ring, with its keys sorted; and to add a
host and remove it again leaves the ring as it was. -/
theorem run_history (env : Env) (ops ops' : List Op)
    (hnodes : DistinctNodes env ((ops ++ ops').map Op.host)) (hproper : Proper ops)
    (hproper' : Proper ops') (hsame : members [] ops = members [] ops') :
    ∃ c c', run env [] ops = .ok c ∧ run env [] ops' = .ok c' ∧
      c.keys.Pairwise (· ≤ ·) ∧ c.keys = c'.keys ∧ c.hosts = c'.hosts ∧
      (∀ url, c.balance url = c'.balance url) ∧
      ∀ host, host ∉ members [] ops → DistinctNodes env (host :: ops.map Op.host) →
        (c.add host).remove host = .ok c := by
  have hleft : ∀ h ∈ ops.map Op.host, h ∈ (ops ++ ops').map Op.host := fun h hmem => by
    rw [List.map_append]
    exact List.mem_append_left _ hmem
  have hright : ∀ h ∈ ops'.map Op.host, h ∈ (ops ++ ops').map Op.host := fun h hmem => by
    rw [List.map_append]
    exact List.mem_append_right _ hmem
  obtain ⟨c, hrun, H⟩ := run_exactlyHolds hnodes hleft hproper
  obtain ⟨c', hrun', H'⟩ := run_exactlyHolds hnodes hright hproper'
  rw [← hsame] at H'
  -- both runs end with the same ring, so what is left is about one of them
  obtain rfl := H.unique H'
  refine ⟨c, c, hrun, hrun', H.sorted, rfl, rfl, fun url => rfl, fun host hnew hdistinct => ?_⟩
  have hapart : Apart (nodes env) (members [] ops) host :=
    hdistinct.apart (fun h hM => List.mem_cons_of_mem _ (mem_hosts_of_mem_members ops h hM))
      List.mem_cons_self
  have hadded := H.add hnew hapart
  have hagain : Apart (nodes env) (insert host (members [] ops)) host := by
    intro h' hM' k hk hk'
    rcases Finset.mem_insert.mp hM' with rfl | hold
    · rfl
    · exact hapart h' hold k hk hk'
  obtain ⟨c'', hremove, H''⟩ := hadded.remove (Finset.mem_insert_self _ _) hagain
  rw [Finset.erase_insert hnew] at H''
  rw [hremove, H''.unique H]

/-- A host that has come and gone leaves nothing behind. -/
theorem run_history_gone : ∃ c c',
    run ⟨fun s => s.length, 1⟩ [] [.add "a:80", .add "bb:80", .remove "a:80"] = .ok c ∧
    run ⟨fun s => s.length, 1⟩ [] [.add "bb:80"] = .ok c' ∧ c.keys = c'.keys ∧ c.hosts = c'.hosts := by
  have hproper : Proper [.add "a:80", .add "bb:80", .remove "a:80"] := by
    intro es e fs heq
    match es, fs with
    | [], _ => cases heq; show _ ∉ _; decide
    | [_], _ => cases heq; show _ ∉ _; decide
    | [_, _], _ => cases heq; show _ ∈ _; decide
    | _ :: _ :: _ :: es, _ => simp at heq
  have hproper' : Proper [.add "bb:80"] := by
    intro es e fs heq
    match es, fs with
    | [], _ => cases heq; show _ ∉ _; decide
    | _ :: es, _ => simp at heq
  obtain ⟨c, c', hrun, hrun', -, hkeys, hhosts, -⟩ :=
    run_history ⟨fun s => s.length, 1⟩ [.add "a:80", .add "bb:80", .remove "a:80"] [.add "bb:80"]
      (by decide +kernel) hproper hproper' (by decide)
  exact ⟨c, c', hrun, hrun', hkeys, hhosts⟩

end ConsistenceHash

end Cheryl.Balancer
