import Cheryl.ReverseProxy.HealthCheck

/-!
# Balancer and liveness in step

Whether a host is alive is recorded twice, in `Alive` and by its being in the balancer. A checker
looks at `Alive` alone and acts when that changes, so it never repairs a difference. For a proxy with
round-robin balancing and no removed hosts, this file proves that only `ChangeLb` makes one: it puts
every host of `HostMap` back into the balancer, also those that are dead.
-/

namespace Cheryl.ReverseProxy

open Library Utils

/-! ## Steps that keep them together -/

/-- The events of a proxy that goes on balancing in turn: hosts that come are new, and none is
removed. -/
def HostEvent.InTurn (env : Env) (h : HTTPProxy) : HostEvent → Prop
  | .addProxy host => ∀ url, env.parse host = .ok url → getHost url ∉ h.hostMap
  | .removeHost _ _ => False
  | .changeLb mode _ => mode = "round-robin"
  | .healthCheck _ _ _ => True
  | .balance _ => True

/-- The balancer is only rebuilt while all hosts are alive. -/
def HostEvent.Steady (h : HTTPProxy) : HostEvent → Prop
  | .changeLb _ _ => ∀ host ∈ h.hostMap, h.readAlive host = true
  | _ => True

namespace HTTPProxy

variable {env : Env} {h h' : HTTPProxy} {e : HostEvent}

/-- The balancer has those hosts that are alive. -/
def InStep (h : HTTPProxy) : Prop := ∀ host ∈ h.hostMap, (h.lb.Has host ↔ h.readAlive host = true)

/-- The hosts of the balancer stand there once, and come from `HostMap`, as do those with a checker. -/
structure Turning (h : HTTPProxy) (hosts : List String) (idx : UInt64) : Prop where
  lb : h.lb = .roundRobin ⟨idx, hosts⟩
  nodup : hosts.Nodup
  backed : ∀ host ∈ hosts, host ∈ h.hostMap
  started : ∀ host ∈ h.hostsShutDown, host ∈ h.hostMap

/-! ### Flags and lists

A checker that sets the flag of its host moves this host in or out of the list, and no other. That keeps the
two together as long as every host stands on the list once, for a second one would stay behind when the
first is removed. -/

theorem readAlive_insert {alive : GoMap String Bool} {url host : String} {b : Bool} :
    ((alive.insert url b).lookup host).getD false =
      if host = url then b else (alive.lookup host).getD false := by
  by_cases heq : host = url
  · subst heq
    simp
  · rw [Finmap.lookup_insert_of_ne _ heq, if_neg heq]

/-- For a round robin, being in step is about the list. -/
theorem Turning.inStep_iff {hosts : List String} {idx : UInt64} (T : h.Turning hosts idx) :
    h.InStep ↔ ∀ host ∈ h.hostMap, (host ∈ hosts ↔ h.readAlive host = true) := by
  unfold InStep
  rw [T.lb]
  rfl

/-- The flag of one host is set, and the balancer follows. -/
theorem InStep.setAlive {hosts hosts' : List String} {idx : UInt64} {host : String} {b : Bool}
    (T : h.Turning hosts idx) (S : h.InStep) (hself : host ∈ hosts' ↔ b = true)
    (hothers : ∀ other, other ≠ host → (other ∈ hosts' ↔ other ∈ hosts)) :
    InStep { h.setAlive host b with lb := .roundRobin ⟨idx, hosts'⟩ } := by
  intro other hmem
  show other ∈ hosts' ↔ ((h.alive.insert host b).lookup other).getD false = true
  rw [readAlive_insert]
  by_cases heq : other = host
  · subst heq
    rw [if_pos rfl]
    exact hself
  · rw [if_neg heq, hothers other heq]
    exact T.inStep_iff.mp S other hmem

/-- A new host at the end of a list without repetitions. -/
theorem nodup_concat {hosts : List String} {host : String} (h : hosts.Nodup) (hnot : host ∉ hosts) :
    (hosts ++ [host]).Nodup := by
  rw [← List.concat_eq_append]
  exact h.concat hnot

/-- A round-robin balancer adds a host that is not there at the end. -/
theorem add_of_notMem {hosts : List String} {idx : UInt64} {host : String} (hnot : host ∉ hosts) :
    Balancer.add (.roundRobin ⟨idx, hosts⟩) host = .roundRobin ⟨idx, hosts ++ [host]⟩ := by
  show Balancer.roundRobin (Balancer.RoundRobin.add ⟨idx, hosts⟩ host) = _
  unfold Balancer.RoundRobin.add
  rw [if_neg hnot]

/-- A proxy that balances in turn goes on doing so. -/
theorem Turning.effect {hosts : List String} {idx : UInt64} (T : h.Turning hosts idx)
    (E : HostEvent.Effect env h e h') (ht : e.InTurn env h) :
    ∃ hosts' idx', h'.Turning hosts' idx' := by
  cases E with
  | rejected parsed => exact ⟨hosts, idx, T⟩
  | timedOut unanswered => exact ⟨hosts, idx, T⟩
  | unsupported built => exact ⟨hosts, idx, T⟩
  | unchanged dies recovers => exact ⟨hosts, idx, T⟩
  | removeHost channel => cases ht
  | @addProxy host url parsed =>
      -- the balancer has hosts of `HostMap` only, so the new one goes to its end
      have hnot : getHost url ∉ hosts := fun hmem => ht _ parsed (T.backed _ hmem)
      refine ⟨hosts ++ [getHost url], idx, ?_, nodup_concat T.nodup hnot, ?_, ?_⟩
      · show Balancer.add h.lb _ = _
        rw [T.lb, add_of_notMem hnot]
      · intro host hmem
        refine Finmap.mem_insert.mpr ?_
        rcases List.mem_append.mp hmem with hold | hnew
        · exact .inr (T.backed host hold)
        · exact .inl (List.mem_singleton.mp hnew)
      · intro host hmem
        refine Finmap.mem_insert.mpr ?_
        rcases Finset.mem_insert.mp hmem with hnew | hold
        · exact .inl hnew
        · exact .inr (T.started host hold)
  | @changeLb mode order lb visits built =>
      obtain rfl : mode = "round-robin" := ht
      cases built
      -- made anew from the keys of `HostMap`
      exact ⟨order, 0, rfl, visits.nodup, fun host => (visits.mem_iff host).mp, T.started⟩
  | @died host second lb started alive removed =>
      rw [T.lb] at removed
      cases removed
      exact ⟨hosts.erase host, idx, rfl, T.nodup.erase host,
        fun other hmem => T.backed other (List.mem_of_mem_erase hmem), T.started⟩
  | @recovered host first started dead =>
      -- a rebuild while the host was dead has put it back already
      by_cases hmem : host ∈ hosts
      · refine ⟨hosts, idx, ?_, T.nodup, T.backed, T.started⟩
        show Balancer.add h.lb host = _
        rw [T.lb]
        show Balancer.roundRobin (Balancer.RoundRobin.add ⟨idx, hosts⟩ host) = _
        unfold Balancer.RoundRobin.add
        rw [if_pos hmem]
      · refine ⟨hosts ++ [host], idx, ?_, nodup_concat T.nodup hmem, ?_, T.started⟩
        · show Balancer.add h.lb host = _
          rw [T.lb, add_of_notMem hmem]
        · intro other hother
          rcases List.mem_append.mp hother with hold | hnew
          · exact T.backed other hold
          · rw [List.mem_singleton.mp hnew]
            exact T.started host started
  | balance client =>
      -- only the index moves
      rw [T.lb]
      show ∃ hosts' idx', Turning { h with
        lb := .roundRobin (Balancer.RoundRobin.balance ⟨idx, hosts⟩).2 } hosts' idx'
      unfold Balancer.RoundRobin.balance
      split
      · exact ⟨hosts, idx, rfl, T.nodup, T.backed, T.started⟩
      · exact ⟨hosts, idx + 1, rfl, T.nodup, T.backed, T.started⟩

/-- It stays in step, unless the balancer is rebuilt while a host is dead. -/
theorem InStep.effect {hosts : List String} {idx : UInt64} (S : h.InStep) (T : h.Turning hosts idx)
    (E : HostEvent.Effect env h e h') (ht : e.InTurn env h) : h'.InStep ↔ e.Steady h := by
  have hsame : ∀ {P : Prop}, P → (h.InStep ↔ P) := fun hP => ⟨fun _ => hP, fun _ => S⟩
  cases E with
  | rejected parsed => exact hsame trivial
  | timedOut unanswered => exact hsame trivial
  | unchanged dies recovers => exact hsame trivial
  | removeHost channel => cases ht
  | @unsupported mode order err built =>
      -- this mode is supported
      obtain rfl : mode = "round-robin" := ht
      cases built
  | @addProxy host url parsed =>
      refine ⟨fun _ => trivial, fun _ => ?_⟩
      have hnot : getHost url ∉ hosts := fun hmem => ht _ parsed (T.backed _ hmem)
      intro other hmem
      show (Balancer.add h.lb _).Has other ↔ ((h.alive.insert _ true).lookup other).getD false = true
      rw [T.lb, add_of_notMem hnot, readAlive_insert, Balancer.has_roundRobin, List.mem_append,
        List.mem_singleton]
      by_cases hnew : other = getHost url
      · rw [if_pos hnew]
        simp [hnew]
      · have hold : other ∈ h.hostMap := (Finmap.mem_insert.mp hmem).resolve_left hnew
        rw [if_neg hnew, or_iff_left hnew]
        exact T.inStep_iff.mp S other hold
  | @changeLb mode order lb visits built =>
      obtain rfl : mode = "round-robin" := ht
      cases built
      -- the new balancer has every host there is
      have hhas : ∀ host ∈ h.hostMap, host ∈ order := fun host => (visits.mem_iff host).mpr
      exact ⟨fun S' host hmem => (S' host hmem).mp (hhas host hmem),
        fun halive host hmem => ⟨fun _ => halive host hmem, fun _ => hhas host hmem⟩⟩
  | @died host second lb started alive removed =>
      rw [T.lb] at removed
      cases removed
      -- each host is in the balancer once, so one `Remove` takes it out
      refine ⟨fun _ => trivial, fun _ => InStep.setAlive T S ?_ fun other hne => ?_⟩
      · exact iff_of_false T.nodup.not_mem_erase (by simp)
      · exact List.mem_erase_of_ne hne
  | @recovered host first started dead =>
      -- a dead host is not in the balancer
      have hnot : host ∉ hosts := fun hmem => by
        have halive := (T.inStep_iff.mp S host (T.started host started)).mp hmem
        rw [dead] at halive
        cases halive
      refine ⟨fun _ => trivial, fun _ => ?_⟩
      rw [T.lb, add_of_notMem hnot]
      refine InStep.setAlive T S (iff_of_true (by simp) rfl) fun other hne => ?_
      rw [List.mem_append, List.mem_singleton, or_iff_left hne]
  | balance client =>
      refine ⟨fun _ => trivial, fun _ host hmem => ?_⟩
      show (h.lb.balance client).2.Has host ↔ _
      rw [(Balancer.balance_keeps h.lb client _).2.1]
      exact S host hmem

end HTTPProxy

/-! ## Runs

A new proxy has all its hosts in the balancer and all flags set. From there both invariants go from step to
step: `Turning`, which no event breaks, and `InStep`, which only a rebuild at the wrong moment does. -/

/-- A new proxy, for targets with different hosts. -/
theorem newHTTPProxy_turning {env : Env} {pattern : String} {targets : List String}
    {h : HTTPProxy} {m : Nat} (hnew : newHTTPProxy env pattern targets "round-robin" = .ok h)
    (hdistinct : ∀ hosts, parseHosts env targets = .ok hosts → (hosts.map Prod.fst).Nodup) :
    ∃ hosts, HTTPProxy.Turning { h with proxyMap := some m } hosts 0 ∧
      HTTPProxy.InStep { h with proxyMap := some m } := by
  unfold newHTTPProxy at hnew
  split at hnew
  · cases hnew
  · next hosts hhosts =>
      cases hnew
      have hmem : ∀ {ν : Type} (f : URL → ν) host, host ∈ fill hosts f ↔ host ∈ hosts.map Prod.fst := by
        intro ν f host
        rw [← Finmap.mem_keys, keys_fill, List.mem_toFinset]
      -- every host starts alive
      have halive : ∀ host ∈ hosts.map Prod.fst,
          ((fill hosts fun _ => true).lookup host).getD false = true := by
        intro host hhost
        obtain ⟨b, hb⟩ := Finmap.mem_iff.mp ((hmem (fun _ => true) host).mpr hhost)
        rw [hb]
        exact lookup_fill_const hosts hb
      refine ⟨hosts.map Prod.fst, ⟨rfl, hdistinct hosts hhosts, fun host => (hmem id host).mpr,
        fun host hhost => (hmem id host).mpr (List.mem_toFinset.mp hhost)⟩, ?_⟩
      intro host hhost
      have hin := (hmem id host).mp hhost
      exact iff_of_true hin (halive host hin)

/-- In every run of a new round-robin proxy with different hosts, in which hosts that come are new, in
which none is removed, and in which the balancer is only rebuilt while all hosts are alive: the
balancer has exactly the hosts that are alive. A rebuild at any other time ends that. -/
theorem balancer_inStep {env : Env} {n₀ n₁ n : Node} {l : Location} {es : List HostEvent}
    (hnew : n₀.addProxyWithLocation env l = (.ok none, n₁)) (hmode : l.balanceMode = "round-robin")
    (hdistinct : ∀ hosts, parseHosts env l.proxyPass = .ok hosts → (hosts.map Prod.fst).Nodup)
    (hrun : Trace (fun n e n' => HostEvent.Step env l.pattern n₀.nextProxy n e n' ∧
      e.InTurn env (n.proxies n₀.nextProxy) ∧ e.Steady (n.proxies n₀.nextProxy)) n₁ es n) :
    (n.proxies n₀.nextProxy).InStep ∧
      ∀ e n', HostEvent.Step env l.pattern n₀.nextProxy n e n' →
        e.InTurn env (n.proxies n₀.nextProxy) →
        ((n'.proxies n₀.nextProxy).InStep ↔ e.Steady (n.proxies n₀.nextProxy)) := by
  obtain ⟨proxy, hproxy, hp, hfirst⟩ := addProxyWithLocation_new hnew
  rw [hmode] at hproxy
  have hinit : (∃ hosts idx, (n₁.proxies n₀.nextProxy).Turning hosts idx) ∧
      (n₁.proxies n₀.nextProxy).InStep := by
    obtain ⟨hosts, T, S⟩ := newHTTPProxy_turning (m := n₀.proxyMap) hproxy hdistinct
    rw [hfirst]
    exact ⟨⟨hosts, 0, T⟩, S⟩
  obtain ⟨hp', ⟨hosts, idx, T⟩, S⟩ : n.current.relations.lookup l.pattern = some n₀.nextProxy ∧
      (∃ hosts idx, (n.proxies n₀.nextProxy).Turning hosts idx) ∧
      (n.proxies n₀.nextProxy).InStep := by
    -- that the balancer takes its hosts in turn goes along with the invariant
    refine hrun.invariant (I := fun n => n.current.relations.lookup l.pattern = some n₀.nextProxy ∧
      (∃ hosts idx, (n.proxies n₀.nextProxy).Turning hosts idx) ∧
      (n.proxies n₀.nextProxy).InStep) ⟨hp, hinit⟩ ?_
    intro n e n' hI hstep
    obtain ⟨hp, ⟨hosts, idx, T⟩, S⟩ := hI
    obtain ⟨hp', -, -, heffect⟩ := hstep.1.effect hp
    exact ⟨hp', T.effect heffect hstep.2.1, (S.effect T heffect hstep.2.1).mpr hstep.2.2⟩
  refine ⟨S, fun e n' hstep ht => ?_⟩
  obtain ⟨-, -, -, heffect⟩ := hstep.effect hp'
  exact S.effect T heffect ht

/-- A host dies and comes back, and the balancer is rebuilt. -/
theorem balancer_inStep_recovered : ∃ n es, es.length = 3 ∧
    Trace (HostEvent.Step Env.plain "/api" 0) (Node.new.addProxyWithLocation Env.plain twoHosts).2
      es n ∧ (n.proxies 0).InStep := by
  have hrun : Trace (fun n e n' => HostEvent.Step Env.plain "/api" 0 n e n' ∧
      e.InTurn Env.plain (n.proxies 0) ∧ e.Steady (n.proxies 0))
      (Node.new.addProxyWithLocation Env.plain twoHosts).2 [] _ := .nil
  have hrun := hrun.snoc (e := HostEvent.healthCheck "a:80" false false)
    ⟨.healthCheck (by decide) rfl, trivial, trivial⟩
  have hrun := hrun.snoc (e := HostEvent.healthCheck "a:80" true true)
    ⟨.healthCheck (by decide) rfl, trivial, trivial⟩
  have hrun := hrun.snoc (e := HostEvent.changeLb "round-robin" ["a:80", "b:80"])
    ⟨.changeLb (.of_keys (by decide) (by decide)) rfl, rfl, by
      refine fun host hmem => ?_
      have hkeys := Finmap.mem_keys.mpr hmem
      revert host
      decide⟩
  have hnew : Node.new.addProxyWithLocation Env.plain twoHosts =
      (.ok none, (Node.new.addProxyWithLocation Env.plain twoHosts).2) := rfl
  exact ⟨_, _, rfl, hrun.mono fun h => h.1,
    (balancer_inStep hnew rfl (by rintro hosts ⟨⟩; decide) hrun).1⟩

/-- The balancer is rebuilt while a host is dead: the dead host is back in it. -/
theorem not_balancer_inStep : ¬ ∀ (env : Env) (n₀ n₁ n : Node) (l : Location) (es : List HostEvent),
    n₀.addProxyWithLocation env l = (.ok none, n₁) → l.balanceMode = "round-robin" →
    (∀ hosts, parseHosts env l.proxyPass = .ok hosts → (hosts.map Prod.fst).Nodup) →
    Trace (fun n e n' => HostEvent.Step env l.pattern n₀.nextProxy n e n' ∧
      e.InTurn env (n.proxies n₀.nextProxy)) n₁ es n → (n.proxies n₀.nextProxy).InStep := by
  intro h
  have hrun : Trace (fun n e n' => HostEvent.Step Env.plain "/api" 0 n e n' ∧
      e.InTurn Env.plain (n.proxies 0))
      (Node.new.addProxyWithLocation Env.plain twoHosts).2 [] _ := .nil
  have hrun := hrun.snoc (e := HostEvent.healthCheck "a:80" false false)
    ⟨.healthCheck (by decide) rfl, trivial⟩
  have hrun := hrun.snoc (e := HostEvent.changeLb "round-robin" ["a:80", "b:80"])
    ⟨.changeLb (.of_keys (by decide) (by decide)) rfl, rfl⟩
  have hnew : Node.new.addProxyWithLocation Env.plain twoHosts =
      (.ok none, (Node.new.addProxyWithLocation Env.plain twoHosts).2) := rfl
  have hinStep := h _ _ _ _ _ _ hnew rfl (by rintro hosts ⟨⟩; decide) hrun
  have halive := (hinStep "a:80" (by decide)).mp (show "a:80" ∈ ["a:80", "b:80"] by decide)
  revert halive
  decide

end Cheryl.ReverseProxy
