import Cheryl.Balancer.Members

/-!
# Where a `ConsistenceHash` sends a url

`NewConsistenceHash` and `Add` only let a ring grow. On such a ring `Balance` finds the first
virtual node that is not below the hash of the url, and answers with the host added last of those
that have it (`balance_grow`). One more host takes urls from the others, and moves none between them
(`balance_add`).
-/

namespace Cheryl.Balancer

open Library

namespace ConsistenceHash

variable {env : Env} {c : ConsistenceHash} {hosts : List String} {key : Nat}

/-! ## Rings that have only grown

What `NewConsistenceHash` makes of a list of hosts and what `Add` makes of the rest is one fold over all of
them, so a grown ring is a new one of the longer list. It carries these hosts in the order they were added
in (`BuiltFrom`), and of those that share a node the last one owns it. -/

/-- The key is the hash of a virtual node of the host. -/
def VirtualNode (env : Env) (key : Nat) (host : String) : Prop :=
  ∃ i : Nat, (i : Int) < env.replicas ∧ env.hash (label i host) = key

/-- `NewConsistenceHash`, then `Add` for each of these. -/
def grow (env : Env) (hosts adds : List String) : ConsistenceHash :=
  adds.foldl add (newConsistenceHash env hosts)

/-- It makes no difference which of the hosts the constructor was given. -/
theorem grow_eq_new (env : Env) (hosts adds : List String) :
    grow env hosts adds = newConsistenceHash env (hosts ++ adds) := by
  simp only [grow, newConsistenceHash, List.foldl_append]

/-- A host at the end of the list is one more call of `Add`. -/
theorem newConsistenceHash_snoc (env : Env) (hosts : List String) (host : String) :
    newConsistenceHash env (hosts ++ [host]) = (newConsistenceHash env hosts).add host := by
  simp only [newConsistenceHash, List.foldl_append, List.foldl_cons, List.foldl_nil]

def nodes (env : Env) (host : String) : List Nat := (newConsistenceHash env []).points host

theorem mem_nodes {host : String} : key ∈ nodes env host ↔ VirtualNode env key host := by
  show key ∈ (List.range env.replicas.toNat).map (fun i => env.hash (label i host)) ↔ _
  rw [List.mem_map]
  refine exists_congr fun i => and_congr_left fun _ => ?_
  rw [List.mem_range]
  omega

theorem points_eq_nodes (hhash : c.hash = env.hash) (hreplicas : c.replicas = env.replicas) :
    c.points = nodes env := by
  funext host
  show (List.range c.replicas.toNat).map _ = (List.range env.replicas.toNat).map _
  rw [hhash, hreplicas]
  rfl

/-- What the constructor builds from a list of hosts. -/
structure BuiltFrom (env : Env) (hosts : List String) (c : ConsistenceHash) : Prop where
  hash : c.hash = env.hash
  replicas : c.replicas = env.replicas
  sorted : c.keys.Pairwise (· ≤ ·)
  built : Built (nodes env) hosts c.keys fun k => c.hosts.lookup k

theorem BuiltFrom.add (B : BuiltFrom env hosts c) (host : String) :
    BuiltFrom env (hosts ++ [host]) (c.add host) where
  hash := B.hash
  replicas := B.replicas
  sorted := List.pairwise_insertionSort _ _
  built := by
    have hpoints := points_eq_nodes B.hash B.replicas
    refine B.built.add host (fun k => ?_) fun k => ?_
    · rw [← hpoints]
      exact mem_keys_add
    · rw [← hpoints]
      exact lookup_hosts_add

/-- The constructor, host by host. -/
theorem builtFrom_new (env : Env) (hosts : List String) :
    BuiltFrom env hosts (newConsistenceHash env hosts) := by
  induction hosts using List.reverseRecOn with
  | nil => exact ⟨rfl, rfl, List.Pairwise.nil, Built.nil (nodes env)⟩
  | append_singleton hosts host ih =>
      rw [newConsistenceHash_snoc]
      exact ih.add host

/-! ## `Balance`

`sort.Search` gives the first key that is not below the hash, or a position beyond the last, which the
modulus turns into the first key. On sorted keys that is the successor of the hash on the ring. -/

/-- The search finds the key the url goes to. -/
theorem balance_of_sorted (hsorted : c.keys.Pairwise (· ≤ ·)) (hne : c.keys ≠ []) (url : String) :
    ∃ key, IsSuccessor {k | k ∈ c.keys} (c.hash url) key ∧
      c.balance url = .ok ((c.hosts.lookup key).getD "") := by
  obtain ⟨key, hget, hsucc⟩ := isSuccessor_firstNotBelow hsorted hne (c.hash url)
  refine ⟨key, hsucc, ?_⟩
  unfold balance
  rw [show search c.keys (c.hash url) = firstNotBelow c.keys (c.hash url) from rfl, hget]

/-- An answer is one of the hosts. -/
theorem BuiltFrom.mem_of_balance {host url : String} (B : BuiltFrom env hosts c)
    (hok : c.balance url = .ok host) : host ∈ hosts := by
  have hne : c.keys ≠ [] := by
    intro hnil
    simp [balance, hnil] at hok
  obtain ⟨key, hsucc, hbalance⟩ := balance_of_sorted B.sorted hne url
  obtain ⟨owner, howner⟩ := B.built.owned hsucc.1
  have howner : c.hosts.lookup key = some owner := howner
  rw [hbalance, howner] at hok
  obtain rfl := Except.ok.inj hok
  exact (B.built.mem_of_owner howner).1

/-- On a ring with hosts `Balance` answers with the owner of the first virtual node that is not
below the hash of the url, or of the first of all: the host added last of those that have it. -/
theorem balance_grow (env : Env) (hosts adds : List String) (url : String)
    (hreplicas : 1 ≤ env.replicas) (hne : hosts ++ adds ≠ []) :
    ∃ key host, (grow env hosts adds).balance url = .ok host ∧
      IsSuccessor {k | ∃ h ∈ hosts ++ adds, VirtualNode env k h} (env.hash url) key ∧
      IsLast (VirtualNode env key) (hosts ++ adds) host := by
  rw [grow_eq_new]
  have B := builtFrom_new env (hosts ++ adds)
  have hkeys : {k | k ∈ (newConsistenceHash env (hosts ++ adds)).keys} =
      {k | ∃ h ∈ hosts ++ adds, VirtualNode env k h} := by
    ext k
    show k ∈ (newConsistenceHash env (hosts ++ adds)).keys ↔ ∃ h ∈ hosts ++ adds, VirtualNode env k h
    rw [B.built.mem k]
    simp only [mem_nodes]
  -- the first node of the first host is on the ring
  obtain ⟨first, hfirst⟩ := List.exists_mem_of_ne_nil _ hne
  have hnode : VirtualNode env (env.hash (label 0 first)) first := ⟨0, by omega, rfl⟩
  have hmem := (B.built.mem _).mpr ⟨first, hfirst, mem_nodes.mpr hnode⟩
  obtain ⟨key, hsucc, hbalance⟩ := balance_of_sorted B.sorted (List.ne_nil_of_mem hmem) url
  obtain ⟨host, howner⟩ := B.built.owned hsucc.1
  refine ⟨key, host, ?_, ?_, ?_⟩
  · rw [hbalance, show (newConsistenceHash env (hosts ++ adds)).hosts.lookup key = some host from howner,
      Option.getD_some]
  · rw [← hkeys, ← B.hash]
    exact hsucc
  · have hlast := (B.built.owner key host).mp howner
    simpa only [mem_nodes] using hlast

/-- Two hosts that hash alike share their nodes, and the later one has them. -/
theorem balance_grow_shared : ∃ key host, (grow lengths ["a:80"] ["b:80"]).balance "abc" = .ok host ∧
    IsSuccessor {k | ∃ h ∈ ["a:80"] ++ ["b:80"], VirtualNode lengths k h} (lengths.hash "abc") key ∧
    IsLast (VirtualNode lengths key) (["a:80"] ++ ["b:80"]) host :=
  balance_grow lengths ["a:80"] ["b:80"] "abc" (by decide) (by decide)

/-! ## One more host

A host that comes adds keys of its own between those that are there. So the successor of a hash is a new
key, which is the host's, or the old one, which is still owned by the same host unless the new host shares
it. -/

/-- A key that is not the new host's keeps its owner, and a url that does not go to the new host
goes to such a key. -/
theorem balance_add_of_sorted (hsorted : c.keys.Pairwise (· ≤ ·)) (host url : String) :
    (c.add host).balance url = .ok host ∨ (c.add host).balance url = c.balance url := by
  have hsorted' : (c.add host).keys.Pairwise (· ≤ ·) := List.pairwise_insertionSort _ _
  by_cases hne : (c.add host).keys = []
  · have hold : c.keys = [] := by
      rw [List.eq_nil_iff_forall_not_mem] at hne ⊢
      exact fun key hkey => hne key (mem_keys_add.mpr (.inl hkey))
    right
    simp only [balance, hne, hold, List.getElem?_nil]
  · obtain ⟨key, hsucc, hbalance⟩ := balance_of_sorted hsorted' hne url
    rw [hbalance, lookup_hosts_add]
    by_cases hkey : key ∈ c.points host
    · left
      rw [if_pos hkey, Option.getD_some]
    · right
      have hold : key ∈ c.keys := (mem_keys_add.mp hsucc.1).resolve_right hkey
      -- the successor on the larger ring is an old key, so it was the successor before
      have hbefore : IsSuccessor {k | k ∈ c.keys} (c.hash url) key :=
        hsucc.subset hold fun k hk => mem_keys_add.mpr (.inl hk)
      obtain ⟨key', hsucc', hbalance'⟩ := balance_of_sorted hsorted (List.ne_nil_of_mem hold) url
      rw [if_neg hkey, hbalance', hbefore.unique hsucc']

/-- `Add` moves urls to the new host only. -/
theorem balance_add (env : Env) (hosts adds : List String) (host url : String) :
    ((grow env hosts adds).add host).balance url = .ok host ∨
      ((grow env hosts adds).add host).balance url = (grow env hosts adds).balance url := by
  rw [grow_eq_new]
  exact balance_add_of_sorted (builtFrom_new env _).sorted host url

end ConsistenceHash

end Cheryl.Balancer
