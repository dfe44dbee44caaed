import Cheryl.Balancer.History
import Cheryl.ReverseProxy.Liveness

/-!
# Clients stay with their hosts

A proxy with a `ConsistenceHash` balancer gets hosts, and its checkers take hosts out of the ring and put
them back. If no two virtual nodes have the same hash, the ring is that of the hosts that are alive, so
no round of a checker panics, and where a client goes does not depend on what has happened to the proxy:
a client leaves its host when that dies, or for a host that has come (`clients_stay`).
-/

namespace Cheryl.Balancer.ConsistenceHash

open Library

variable {env : Env} {c c' : ConsistenceHash} {M M' : Finset String} {host url : String}

/-! ## Rings of hosts

Which client goes where depends on the hosts of a ring alone, and two rings differ for a client only where a
host of one is missing in the other. So the question how clients move is one about sets of hosts. -/

/-- What hosts make of a ring that is built from them in any order. -/
theorem exactlyHolds_new {hosts l : List String} (hnodes : DistinctNodes env hosts) (hnodup : l.Nodup)
    (hsub : ∀ h ∈ l, h ∈ hosts) : ExactlyHolds env l.toFinset (newConsistenceHash env l) := by
  induction l using List.reverseRecOn with
  | nil => exact ExactlyHolds.empty env
  | append_singleton l host ih =>
      -- the last host is new to the ring of the others
      obtain ⟨hnodup, -, hnot⟩ := List.nodup_append.mp hnodup
      have H := ih hnodup fun h hl => hsub h (List.mem_append_left _ hl)
      have hnew : host ∉ l.toFinset := fun hmem =>
        hnot host (List.mem_toFinset.mp hmem) host (List.mem_singleton_self host) rfl
      have hapart : Apart (nodes env) l.toFinset host :=
        hnodes.apart (fun h hl => hsub h (List.mem_append_left _ (List.mem_toFinset.mp hl)))
          (hsub host (by simp))
      rw [newConsistenceHash_snoc, List.toFinset_append]
      have hadded := H.add hnew hapart
      rwa [Finset.insert_eq, Finset.union_comm] at hadded

namespace ExactlyHolds

theorem mem_keys (H : ExactlyHolds env M c) {key : Nat} : key ∈ c.keys ↔ ∃ h ∈ M, key ∈ nodes env h := by
  rw [← List.count_pos_iff, H.represents.counted, Finset.sum_pos_iff]
  simp only [List.count_pos_iff]

/-- A client goes to the host that owns the key its hash leads to. -/
theorem balance_eq_ok (H : ExactlyHolds env M c) : c.balance url = .ok host ↔
    host ∈ M ∧ ∃ key ∈ nodes env host, IsSuccessor {k | k ∈ c.keys} (env.hash url) key := by
  rw [← H.hash]
  constructor
  · intro hok
    have hne : c.keys ≠ [] := by
      intro hnil
      simp [balance, hnil] at hok
    obtain ⟨key, hsucc, hbalance⟩ := balance_of_sorted H.sorted hne url
    obtain ⟨h, hM, hkey⟩ := H.mem_keys.mp hsucc.1
    have howner : c.hosts.lookup key = some h := (H.represents.owner key h).mpr ⟨hM, hkey⟩
    rw [howner] at hbalance
    obtain rfl : h = host := Except.ok.inj (hbalance.symm.trans hok)
    exact ⟨hM, key, hkey, hsucc⟩
  · rintro ⟨hM, key, hkey, hsucc⟩
    obtain ⟨key', hsucc', hbalance⟩ := balance_of_sorted H.sorted (List.ne_nil_of_mem hsucc.1) url
    obtain rfl := hsucc.unique hsucc'
    have howner : c.hosts.lookup key = some host := (H.represents.owner key host).mpr ⟨hM, hkey⟩
    rw [hbalance, howner, Option.getD_some]

/-- Somebody answers, if there is a host. -/
theorem exists_balance (H : ExactlyHolds env M c) (hreplicas : 1 ≤ env.replicas) (hM : M.Nonempty)
    (url : String) : ∃ host, c.balance url = .ok host := by
  obtain ⟨host, hhost⟩ := hM
  have hkey : env.hash (label 0 host) ∈ c.keys :=
    H.mem_keys.mpr ⟨host, hhost, mem_nodes.mpr ⟨0, by omega, rfl⟩⟩
  obtain ⟨key, -, hbalance⟩ := balance_of_sorted H.sorted (List.ne_nil_of_mem hkey) url
  exact ⟨_, hbalance⟩

/-- Between any two rings a client moves only if its host is gone, or to a host that has come. -/
theorem moves (H : ExactlyHolds env M c) (H' : ExactlyHolds env M' c') (hok : c.balance url = .ok host)
    (hstill : host ∈ M') :
    ∃ host', c'.balance url = .ok host' ∧ (host' = host ∨ host' ∉ M) := by
  obtain ⟨hM, key, hkey, hsucc⟩ := H.balance_eq_ok.mp hok
  have hkey' : key ∈ c'.keys := H'.mem_keys.mpr ⟨host, hstill, hkey⟩
  obtain ⟨key', hsucc', hbalance'⟩ := balance_of_sorted H'.sorted (List.ne_nil_of_mem hkey') url
  obtain ⟨host', hM', hnode'⟩ := H'.mem_keys.mp hsucc'.1
  have howner : c'.hosts.lookup key' = some host' := (H'.represents.owner key' host').mpr ⟨hM', hnode'⟩
  -- the key that answered is still there, so the new successor comes from a host that was not
  refine ⟨host', by rw [hbalance', howner, Option.getD_some], ?_⟩
  by_cases hold : host' ∈ M
  · -- both keys are on both rings
    rw [H'.hash] at hsucc'
    obtain rfl := hsucc.eq_of_mem hsucc' hkey' (H.mem_keys.mpr ⟨host', hold, hnode'⟩)
    have hsame := (H.represents.owner key host).mpr ⟨hM, hkey⟩
    rw [(H.represents.owner key host').mpr ⟨hold, hnode'⟩] at hsame
    exact .inl (Option.some.inj hsame)
  · exact .inr hold

end ExactlyHolds

end Cheryl.Balancer.ConsistenceHash

namespace Cheryl.ReverseProxy

open Library Utils Balancer

/-! ## A proxy on a ring

The counterpart of `InTurn` and `Turning` for rings. The hosts that are alive take the place of the list:
when a checker sets a flag, they gain or lose one host, and `Add` and `Remove` do the same to the ring,
which needs its nodes to be apart from those of the others. -/

/-- What happens to a proxy that goes on with a ring: hosts that come are new, none is removed, and the
balancer is only rebuilt while all hosts are alive. All hosts are from a list. -/
def HostEvent.OnRing (env : Env) (hosts : List String) (h : HTTPProxy) : HostEvent → Prop
  | .addProxy host => ∀ url, env.parse host = .ok url → getHost url ∉ h.hostMap ∧ getHost url ∈ hosts
  | .removeHost _ _ => False
  | .changeLb mode _ => mode = "consistence-hash" ∧ ∀ host ∈ h.hostMap, h.readAlive host = true
  | .healthCheck _ _ _ => True
  | .balance _ => True

namespace HTTPProxy

def living (h : HTTPProxy) : Finset String := h.hostMap.keys.filter fun host => h.readAlive host = true

theorem mem_living {h : HTTPProxy} {host : String} :
    host ∈ h.living ↔ host ∈ h.hostMap ∧ h.readAlive host = true := by
  rw [living, Finset.mem_filter, Finmap.mem_keys]

/-- The ring is that of the hosts that are alive. -/
structure OnRing (env : Env) (hosts : List String) (h : HTTPProxy) (c : ConsistenceHash) : Prop where
  lb : h.lb = .consistenceHash c
  ring : ConsistenceHash.ExactlyHolds env.toEnv h.living c
  known : ∀ host ∈ h.hostMap, host ∈ hosts
  started : ∀ host ∈ h.hostsShutDown, host ∈ h.hostMap

section OnRing

variable {env : Env} {hosts : List String} {h h' : HTTPProxy} {c : ConsistenceHash} {e : HostEvent}
  {host : String}

/-- The hosts that are alive, after the flag of a host is set. -/
theorem living_setAlive {m : GoMap String URL}
    (hm : ∀ other, other ∈ m ↔ other = host ∨ other ∈ h.hostMap) (b : Bool) (lb : Balancer) (channels : Finset String) :
    living { h with hostMap := m, alive := h.alive.insert host b, lb := lb, hostsShutDown := channels } =
      if b then insert host h.living else h.living.erase host := by
  ext other
  rw [mem_living]
  show other ∈ m ∧ ((h.alive.insert host b).lookup other).getD false = true ↔ _
  rw [readAlive_insert, hm]
  by_cases hother : other = host
  · subst hother
    cases b <;> simp
  · rw [if_neg hother]
    cases b <;> simp [hother, mem_living, readAlive]

/-- A map that has the host already, seen as the map with it put in. -/
theorem mem_or_eq {m : GoMap String URL} (hmem : host ∈ m) (other : String) :
    other ∈ m ↔ other = host ∨ other ∈ m :=
  ⟨.inr, fun hor => hor.elim (fun heq => heq ▸ hmem) id⟩

/-- A host shares no virtual node with those that are alive. -/
theorem OnRing.apart (hnodes : ConsistenceHash.DistinctNodes env.toEnv hosts) (T : h.OnRing env hosts c)
    (hhost : host ∈ hosts) : Apart (ConsistenceHash.nodes env.toEnv) h.living host :=
  hnodes.apart (fun other hmem => T.known other (mem_living.mp hmem).1) hhost

/-- A round of a checker returns. -/
theorem OnRing.healthCheck_ok (hnodes : ConsistenceHash.DistinctNodes env.toEnv hosts)
    (T : h.OnRing env hosts c) (started : host ∈ h.hostsShutDown) (first second : Bool) :
    ∃ h', h.healthCheck host first second = .ok h' := by
  unfold healthCheck
  split
  · next hdies =>
      have hmem := T.started host started
      obtain ⟨c', hremove, -⟩ := T.ring.remove (mem_living.mpr ⟨hmem, hdies.2⟩)
        (T.apart hnodes (T.known host hmem))
      have hlb : h.lb.remove host = .ok (.consistenceHash c') := by
        rw [T.lb]
        simp only [Balancer.remove, hremove]
      simp only [setAlive, hlb]
      exact ⟨_, rfl⟩
  · split <;> exact ⟨_, rfl⟩

/-- Every event of these keeps the ring that of the hosts that are alive. -/
theorem OnRing.effect (hnodes : ConsistenceHash.DistinctNodes env.toEnv hosts) (T : h.OnRing env hosts c)
    (E : HostEvent.Effect env h e h') (ht : e.OnRing env hosts h) : ∃ c', h'.OnRing env hosts c' := by
  cases E with
  | rejected parsed => exact ⟨c, T⟩
  | timedOut unanswered => exact ⟨c, T⟩
  | unsupported built => exact ⟨c, T⟩
  | unchanged dies recovers => exact ⟨c, T⟩
  | removeHost channel => cases ht
  | @addProxy target url parsed =>
      obtain ⟨hnew, hknown⟩ := ht url parsed
      have hliving : (h.addHost (getHost url) url).living = insert (getHost url) h.living :=
        living_setAlive (fun other => Finmap.mem_insert) true _ _
      refine ⟨c.add (getHost url), ?_, ?_, fun other hmem => ?_, fun other hmem => ?_⟩
      · show h.lb.add _ = _
        rw [T.lb]
        rfl
      · rw [hliving]
        exact T.ring.add (fun hmem => hnew (mem_living.mp hmem).1) (T.apart hnodes hknown)
      · rcases Finmap.mem_insert.mp hmem with rfl | hold
        · exact hknown
        · exact T.known other hold
      · rcases Finset.mem_insert.mp hmem with rfl | hold
        · exact Finmap.mem_insert.mpr (.inl rfl)
        · exact Finmap.mem_insert.mpr (.inr (T.started other hold))
  | @changeLb mode order lb visits built =>
      obtain ⟨rfl, halive⟩ := ht
      cases built
      -- all hosts are alive, and the ring is built from all of them
      have hall : order.toFinset = h.living := by
        ext other
        rw [List.mem_toFinset, visits.mem_iff, mem_living]
        exact ⟨fun hmem => ⟨hmem, halive other hmem⟩, fun hmem => hmem.1⟩
      refine ⟨_, rfl, ?_, T.known, T.started⟩
      have hnew := ConsistenceHash.exactlyHolds_new hnodes visits.nodup fun other hmem =>
        T.known other ((visits.mem_iff other).mp hmem)
      rw [hall] at hnew
      exact hnew
  | @died host second lb started alive removed =>
      have hmem := T.started host started
      -- the host is on the ring with its own nodes, so `Remove` returns and takes these
      obtain ⟨c', hremove, hring⟩ := T.ring.remove (mem_living.mpr ⟨hmem, alive⟩)
        (T.apart hnodes (T.known host hmem))
      rw [T.lb] at removed
      simp only [Balancer.remove, hremove] at removed
      cases removed
      have hliving : living { h.setAlive host false with lb := .consistenceHash c' } =
          h.living.erase host := living_setAlive (mem_or_eq hmem) false _ _
      exact ⟨c', rfl, by rw [hliving]; exact hring, T.known, T.started⟩
  | @recovered host first started dead =>
      have hmem := T.started host started
      have hnot : host ∉ h.living := fun hliving => by
        rw [(mem_living.mp hliving).2] at dead
        cases dead
      have hliving : living { h.setAlive host true with lb := h.lb.add host } = insert host h.living :=
        living_setAlive (mem_or_eq hmem) true _ _
      refine ⟨c.add host, ?_, ?_, T.known, T.started⟩
      · show h.lb.add host = _
        rw [T.lb]
        rfl
      · rw [hliving]
        exact T.ring.add hnot (T.apart hnodes (T.known host hmem))
  | balance client =>
      rw [T.lb]
      exact ⟨c, rfl, T.ring, T.known, T.started⟩

end OnRing

end HTTPProxy

/-! ## Runs

The invariant holds of a new proxy, whose hosts are all alive, and every event keeps it. Two proxies on
rings are then compared by their living hosts only, whatever has happened to either. -/

/-- A new proxy on a ring, for targets with different hosts from the list. -/
theorem newHTTPProxy_onRing {env : Env} {hosts : List String} {pattern : String} {targets : List String}
    {h : HTTPProxy} {m : Nat} (hnodes : ConsistenceHash.DistinctNodes env.toEnv hosts)
    (hnew : newHTTPProxy env pattern targets "consistence-hash" = .ok h)
    (htargets : ∀ hs, parseHosts env targets = .ok hs →
      (hs.map Prod.fst).Nodup ∧ ∀ host ∈ hs.map Prod.fst, host ∈ hosts) :
    ∃ c, HTTPProxy.OnRing env hosts { h with proxyMap := some m } c := by
  unfold newHTTPProxy at hnew
  split at hnew
  · cases hnew
  · next hs hhs =>
      cases hnew
      obtain ⟨hnodup, hknown⟩ := htargets hs hhs
      have hmem : ∀ {ν : Type} (f : URL → ν) host, host ∈ fill hs f ↔ host ∈ hs.map Prod.fst := by
        intro ν f host
        rw [← Finmap.mem_keys, keys_fill, List.mem_toFinset]
      refine ⟨_, rfl, ?_, fun host hhost => hknown host ((hmem id host).mp hhost),
        fun host hhost => (hmem id host).mpr (List.mem_toFinset.mp hhost)⟩
      have hring := ConsistenceHash.exactlyHolds_new hnodes hnodup hknown
      -- every host starts alive
      have hall : (hs.map Prod.fst).toFinset = HTTPProxy.living
          { hostMap := fill hs id, pattern := pattern
            lb := .consistenceHash (ConsistenceHash.newConsistenceHash env.toEnv (hs.map Prod.fst))
            alive := fill hs fun _ => true, methods := ∅
            hostsShutDown := (hs.map Prod.fst).toFinset, shutDownCheck := true, proxyMap := some m } := by
        ext host
        rw [List.mem_toFinset, HTTPProxy.mem_living, hmem id host]
        refine (and_iff_left_of_imp fun hhost => ?_).symm
        obtain ⟨b, hb⟩ := Finmap.mem_iff.mp ((hmem (fun _ => true) host).mpr hhost)
        show ((fill hs fun _ => true).lookup host).getD false = true
        rw [hb]
        exact lookup_fill_const hs hb
      rw [hall] at hring
      exact hring

/-- The proxy at `a` has been made on a ring and has gone on with it. -/
inductive OnRingSince (env : Env) (hosts : List String) : Node → Nat → Prop
  | intro {n₀ n₁ n : Node} {l : Location} {es : List HostEvent}
      (hnew : n₀.addProxyWithLocation env l = (.ok none, n₁)) (hmode : l.balanceMode = "consistence-hash")
      (htargets : ∀ hs, parseHosts env l.proxyPass = .ok hs →
        (hs.map Prod.fst).Nodup ∧ ∀ host ∈ hs.map Prod.fst, host ∈ hosts)
      (hrun : Trace (fun n e n' => HostEvent.Step env l.pattern n₀.nextProxy n e n' ∧
        e.OnRing env hosts (n.proxies n₀.nextProxy)) n₁ es n) :
      OnRingSince env hosts n n₀.nextProxy

section Runs

variable {env : Env} {hosts : List String} {n m : Node} {a b : Nat}

/-- Its ring is that of the living hosts. -/
theorem OnRingSince.onRing (hnodes : ConsistenceHash.DistinctNodes env.toEnv hosts)
    (h : OnRingSince env hosts n a) : ∃ c, (n.proxies a).OnRing env hosts c := by
  obtain @⟨n₀, n₁, n, l, es, hnew, hmode, htargets, hrun⟩ := h
  obtain ⟨proxy, hproxy, hp, hfirst⟩ := addProxyWithLocation_new hnew
  rw [hmode] at hproxy
  have hinit : ∃ c, (n₁.proxies n₀.nextProxy).OnRing env hosts c := by
    rw [hfirst]
    exact newHTTPProxy_onRing hnodes hproxy htargets
  have hinv : n.current.relations.lookup l.pattern = some n₀.nextProxy ∧
      ∃ c, (n.proxies n₀.nextProxy).OnRing env hosts c := by
    refine hrun.invariant (I := fun n => n.current.relations.lookup l.pattern = some n₀.nextProxy ∧
      ∃ c, (n.proxies n₀.nextProxy).OnRing env hosts c) ⟨hp, hinit⟩ ?_
    intro n e n' hI hstep
    obtain ⟨c, T⟩ := hI.2
    obtain ⟨hp', -, -, heffect⟩ := hstep.1.effect hI.1
    exact ⟨hp', T.effect hnodes heffect hstep.2⟩
  exact hinv.2

/-- In every two runs of proxies on rings, on the same node or on different ones: no round of a checker
panics; a client is answered a host that is alive, if there is one; and a client whose host in one run is
alive in the other goes there as well, or to a host that is not alive in the first. -/
theorem clients_stay (hnodes : ConsistenceHash.DistinctNodes env.toEnv hosts)
    (hreplicas : 1 ≤ env.replicas) (h : OnRingSince env hosts n a) (h' : OnRingSince env hosts m b) :
    (∀ host first second, host ∈ (n.proxies a).hostsShutDown →
      ∃ proxy, (n.proxies a).healthCheck host first second = .ok proxy) ∧
    (∀ client, (n.proxies a).living.Nonempty →
      ∃ host ∈ (n.proxies a).living, ((n.proxies a).lb.balance client).1 = .ok host) ∧
    ∀ client host, ((n.proxies a).lb.balance client).1 = .ok host → host ∈ (m.proxies b).living →
      ∃ host', ((m.proxies b).lb.balance client).1 = .ok host' ∧
        (host' = host ∨ host' ∉ (n.proxies a).living) := by
  obtain ⟨c, T⟩ := h.onRing hnodes
  obtain ⟨c', T'⟩ := h'.onRing hnodes
  rw [T.lb, T'.lb]
  refine ⟨fun host first second started => T.healthCheck_ok hnodes started first second,
    fun client hliving => ?_, fun client host hok hstill => T.ring.moves T'.ring hok hstill⟩
  obtain ⟨host, hok⟩ := T.ring.exists_balance hreplicas hliving client
  exact ⟨host, (T.ring.balance_eq_ok.mp hok).1, hok⟩

/-- Hosts are hashed to their lengths, once. -/
def ringEnv : Env := { Env.plain with hash := fun s => s.length }

def twoOnRing : Location := ⟨"/api", ["http://a:80", "http://bb:80"], "consistence-hash"⟩

def ringNode : Node := (Node.new.addProxyWithLocation ringEnv twoOnRing).2

/-- The shorter host dies, and the clients of the other stay. -/
theorem clients_stay_died : ∃ proxy, (ringNode.proxies 0).healthCheck "a:80" false false = .ok proxy ∧
    ∀ client, ((ringNode.proxies 0).lb.balance client).1 = .ok "bb:80" →
      ∃ host', (proxy.lb.balance client).1 = .ok host' ∧
        (host' = "bb:80" ∨ host' ∉ (ringNode.proxies 0).living) := by
  have hnodes : ConsistenceHash.DistinctNodes ringEnv.toEnv ["a:80", "bb:80"] := by decide
  have htargets : ∀ hs, parseHosts ringEnv twoOnRing.proxyPass = .ok hs →
      (hs.map Prod.fst).Nodup ∧ ∀ host ∈ hs.map Prod.fst, host ∈ ["a:80", "bb:80"] := by
    intro hs hhs
    obtain rfl := Except.ok.inj hhs
    decide
  have hnew : Node.new.addProxyWithLocation ringEnv twoOnRing = (.ok none, ringNode) := rfl
  have before : OnRingSince ringEnv ["a:80", "bb:80"] ringNode 0 := .intro hnew rfl htargets .nil
  obtain ⟨proxy, hround⟩ :=
    (clients_stay hnodes (by decide) before before).1 "a:80" false false (by decide)
  have after : OnRingSince ringEnv ["a:80", "bb:80"] (ringNode.modifyProxy 0 fun _ => proxy) 0 :=
    .intro hnew rfl htargets (Trace.snoc .nil ⟨.healthCheck (by decide) hround, trivial⟩)
  refine ⟨proxy, hround, fun client hok => ?_⟩
  have hstill : "bb:80" ∈ ((ringNode.modifyProxy 0 fun _ => proxy).proxies 0).living := by
    obtain rfl := Except.ok.inj hround
    decide
  exact (clients_stay hnodes (by decide) before after).2.2 client "bb:80" hok hstill

end Runs

end Cheryl.ReverseProxy
