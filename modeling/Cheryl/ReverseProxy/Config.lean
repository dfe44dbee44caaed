import Cheryl.ReverseProxy.ProxyMap

/-!
# The proxy configuration of a node

What a node is configured to do is a table: for each pattern the hosts, the balancing mode and the
limiters it is served with, its location, and the limiters recorded for it. `Node.config` reads
this table off the objects in memory, and each function of `Cheryl.ReverseProxy.ProxyMap` is shown
to do to the table what its name says. This takes the invariant `Linked`: the proxies in
`Relations` are the proxies of their own patterns, so no two patterns share one.
-/

namespace Cheryl.ReverseProxy

open RateLimit

/-! ## The table

What a pattern is served with does not say where its objects are or which state the balancer has. Two nodes
with the same table answer alike up to whose turn it is, and it is tables that replication and snapshots are
about. -/

/-- What a pattern is served with. -/
@[ext] structure Service where
  hosts : Finset String
  mode : String
  methods : String → Option QpsRateLimiter

@[ext] structure Config where
  services : String → Option Service
  locations : String → Option Location
  limiters : String → List LimiterInfo

namespace Service

def addHost (s : Service) (host : String) : Service := { s with hosts := insert host s.hosts }

def removeHost (s : Service) (host : String) : Service := { s with hosts := s.hosts.erase host }

def setMode (s : Service) (mode : String) : Service := { s with mode := mode }

def setLimiter (s : Service) (path : String) (limiter : QpsRateLimiter) : Service :=
  { s with methods := Function.update s.methods path (some limiter) }

end Service

namespace Config

def put (c : Config) (l : Location) (s : Service) : Config :=
  { c with
    services := Function.update c.services l.pattern (some s)
    locations := Function.update c.locations l.pattern (some l) }

/-- Serve a pattern no more. What was recorded for it stays. -/
def remove (c : Config) (pattern : String) : Config :=
  { c with
    services := Function.update c.services pattern none
    locations := Function.update c.locations pattern none }

/-- Change what a pattern is served with, if it is served. -/
def modify (c : Config) (pattern : String) (f : Service → Service) : Config :=
  { c with services := Function.update c.services pattern ((c.services pattern).map f) }

def record (c : Config) (pattern : String) (info : LimiterInfo) : Config :=
  { c with limiters := Function.update c.limiters pattern (c.limiters pattern ++ [info]) }

variable {c : Config} {l : Location} {s : Service} {p q : String} {f : Service → Service}

/-! ### Reading a changed table

Each change is to one pattern. The table reads as it was changed at this pattern, and as before at all
others. -/

@[simp] theorem services_put_self : (c.put l s).services l.pattern = some s := by simp [put]

theorem services_put_of_ne (h : q ≠ l.pattern) : (c.put l s).services q = c.services q := by
  simp [put, h]

@[simp] theorem locations_put_self : (c.put l s).locations l.pattern = some l := by simp [put]

theorem locations_put_of_ne (h : q ≠ l.pattern) : (c.put l s).locations q = c.locations q := by
  simp [put, h]

@[simp] theorem services_remove_self : (c.remove p).services p = none := by simp [remove]

theorem services_remove_of_ne (h : q ≠ p) : (c.remove p).services q = c.services q := by
  simp [remove, h]

@[simp] theorem locations_remove_self : (c.remove p).locations p = none := by simp [remove]

theorem locations_remove_of_ne (h : q ≠ p) : (c.remove p).locations q = c.locations q := by
  simp [remove, h]

@[simp] theorem services_modify_self : (c.modify p f).services p = (c.services p).map f := by
  simp [modify]

theorem services_modify_of_ne (h : q ≠ p) : (c.modify p f).services q = c.services q := by
  simp [modify, h]

/-- A change to one service neither adds nor removes one. -/
theorem services_modify_eq_none : (c.modify p f).services q = none ↔ c.services q = none := by
  by_cases hq : q = p
  · subst hq
    rw [services_modify_self, Option.map_eq_none_iff]
  · rw [services_modify_of_ne hq]

end Config

/-- A modification that leaves the service as it is leaves the configuration as it is. -/
theorem Config.modify_eq_self {c : Config} {p : String} {f : Service → Service}
    (h : ∀ s, c.services p = some s → f s = s) : c.modify p f = c := by
  refine Config.ext ?_ rfl rfl
  funext q
  by_cases hq : q = p
  · subst hq
    rw [services_modify_self]
    cases hs : c.services q with
    | none => rfl
    | some s => rw [Option.map_some, h s hs]
  · exact services_modify_of_ne hq

/-- To remove a host that is not there changes nothing. -/
theorem Service.removeHost_eq_self {s : Service} {host : String} (h : host ∉ s.hosts) :
    s.removeHost host = s :=
  Service.ext (Finset.erase_eq_of_notMem h) rfl rfl

/-! ## What a node holds

`Config` is read off the objects by following `Relations`. That this is a faithful reading, so that an
assignment to one proxy shows in one row, needs the proxies of different patterns to be different objects;
`Linked` says so by giving each proxy in `Relations` the pattern it was made for. -/

/-- What the proxy serves its pattern with. -/
def HTTPProxy.service (h : HTTPProxy) : Service where
  hosts := h.hostMap.keys
  mode := h.lb.mode
  methods := fun path => h.methods.lookup path

/-- The service of a new proxy for a location. -/
def Location.service (env : Env) (l : Location) : Service where
  hosts := hostsOf env l.proxyPass
  mode := l.balanceMode
  methods := fun _ => none

/-- The limiter a `LimiterInfo` of the type `qps` describes. -/
def LimiterInfo.described (info : LimiterInfo) : QpsRateLimiter := info.limiter newQpsRateLimiter

/-- A proxy can be made for the location. -/
def Location.Constructible (env : Env) (l : Location) : Prop :=
  ∃ proxy, newHTTPProxy env l.pattern l.proxyPass l.balanceMode = .ok proxy

def Node.config (n : Node) : Config where
  services := fun p => (n.current.relations.lookup p).map fun a => (n.proxies a).service
  locations := fun p => n.current.locations.lookup p
  limiters := fun p => (n.current.limiters.lookup p).getD []

/-- What holds of every proxy in `Relations`. -/
structure HTTPProxy.Serves (h : HTTPProxy) (pattern : String) (m : Nat) : Prop where
  pattern : h.pattern = pattern
  proxyMap : h.proxyMap = some m
  waiting : h.shutDownCheck = true
  channels : h.hostMap.keys ⊆ h.hostsShutDown

/-- The proxies in `Relations` serve their patterns, and are allocated. The router type is the one
`NewProxyMap` sets. -/
structure Linked (n : Node) : Prop where
  routerType : n.current.routerType = "default"
  serves : ∀ {p a}, n.current.relations.lookup p = some a → (n.proxies a).Serves p n.proxyMap
  allocated : ∀ {p a}, n.current.relations.lookup p = some a → a < n.nextProxy

/-- The patterns that are served are those in `Relations`. -/
theorem Node.services_eq_none {n : Node} {p : String} :
    n.config.services p = none ↔ n.current.relations.lookup p = none := by
  simp [Node.config]

/-- The service of a pattern is that of its proxy. -/
theorem Node.services_of_lookup {n : Node} {p : String} {a : Nat}
    (h : n.current.relations.lookup p = some a) :
    n.config.services p = some (n.proxies a).service := by
  simp [Node.config, h]

/-! ## Assignments

What an assignment through a pointer leaves alone, field by field; and what the two calls that change
`Relations` have done when they succeed. -/

namespace Node

variable {n : Node} {p : String} {a : Nat}

@[simp] theorem current_modifyProxy (n : Node) (a : Nat) (f : HTTPProxy → HTTPProxy) :
    (n.modifyProxy a f).current = n.current := rfl

@[simp] theorem acl_modifyProxy (n : Node) (a : Nat) (f : HTTPProxy → HTTPProxy) :
    (n.modifyProxy a f).acl = n.acl := rfl

@[simp] theorem router_modifyProxy (n : Node) (a : Nat) (f : HTTPProxy → HTTPProxy) :
    (n.modifyProxy a f).router = n.router := rfl

@[simp] theorem proxyMap_modifyProxy (n : Node) (a : Nat) (f : HTTPProxy → HTTPProxy) :
    (n.modifyProxy a f).proxyMap = n.proxyMap := rfl

@[simp] theorem proxies_modifyProxy_self (n : Node) (a : Nat) (f : HTTPProxy → HTTPProxy) :
    (n.modifyProxy a f).proxies a = f (n.proxies a) := by
  simp [modifyProxy]

theorem proxies_modifyProxy_of_ne (n : Node) {a b : Nat} (h : b ≠ a) (f : HTTPProxy → HTTPProxy) :
    (n.modifyProxy a f).proxies b = n.proxies b := by
  simp [modifyProxy, h]

@[simp] theorem current_modifyMap (n : Node) (f : ProxyMap → ProxyMap) :
    (n.modifyMap n.proxyMap f).current = f n.current := by
  simp [modifyMap, current]

@[simp] theorem proxies_modifyMap (n : Node) (m : Nat) (f : ProxyMap → ProxyMap) :
    (n.modifyMap m f).proxies = n.proxies := rfl

@[simp] theorem acl_modifyMap (n : Node) (m : Nat) (f : ProxyMap → ProxyMap) :
    (n.modifyMap m f).acl = n.acl := rfl

@[simp] theorem router_modifyMap (n : Node) (m : Nat) (f : ProxyMap → ProxyMap) :
    (n.modifyMap m f).router = n.router := rfl

/-- `AddRelations` up to the point where it asks for the router. -/
def related (n : Node) (l : Location) (proxy : HTTPProxy) : Node :=
  (n.allocProxy { proxy with proxyMap := some n.proxyMap }).modifyMap n.proxyMap fun m =>
    { m with
      relations := m.relations.insert l.pattern n.nextProxy
      locations := m.locations.insert l.pattern l }

/-! ### Hanging in and taking out

What the functions do is said first of the tables themselves: `AddRelations` writes `Relations` and
`Locations` before it asks for the router, and `RemoveProxy` takes the pattern out of all three. The proofs
below read the tables through these lemmas. -/

/-- The pattern is hung in first; then the router, if there is one, gets it too. -/
theorem addRelations_eq (n : Node) (l : Location) (proxy : HTTPProxy) :
    n.addRelations l.pattern proxy l =
      n.router.elim (.error .nilDereference, n.related l proxy) fun hosts =>
        (.ok none, { n.related l proxy with router := some (hosts.insert l.pattern n.nextProxy) }) := by
  cases hr : n.router <;> simp [addRelations, related, allocProxy, modifyMap, hr]

theorem current_related (n : Node) (l : Location) (proxy : HTTPProxy) :
    (n.related l proxy).current = { n.current with
      relations := n.current.relations.insert l.pattern n.nextProxy
      locations := n.current.locations.insert l.pattern l } := by
  simp [related, current, modifyMap, allocProxy]

/-- The relations after `AddRelations`: one pattern leads to the new proxy. -/
theorem lookup_related (n : Node) (l : Location) (proxy : HTTPProxy) (q : String) :
    (n.related l proxy).current.relations.lookup q =
      if q = l.pattern then some n.nextProxy else n.current.relations.lookup q := by
  rw [current_related]
  by_cases hq : q = l.pattern
  · subst hq
    simp
  · simp [hq, Finmap.lookup_insert_of_ne]

theorem proxies_related (n : Node) (l : Location) (proxy : HTTPProxy) :
    (n.related l proxy).proxies =
      Function.update n.proxies n.nextProxy { proxy with proxyMap := some n.proxyMap } := rfl

/-- `AddProxyWithLocation` that succeeds has made a proxy and hung it in. -/
theorem addProxyWithLocation_eq_ok {env : Env} {n n' : Node} {l : Location}
    (h : n.addProxyWithLocation env l = (.ok none, n')) :
    ∃ proxy hosts, newHTTPProxy env l.pattern l.proxyPass l.balanceMode = .ok proxy ∧
      n.router = some hosts ∧
      n' = { n.related l proxy with router := some (hosts.insert l.pattern n.nextProxy) } := by
  unfold addProxyWithLocation at h
  split at h
  · cases h
  · next proxy hproxy =>
      rw [addRelations_eq] at h
      -- without a router the call has panicked, so it has not succeeded
      cases hr : n.router with
      | none => rw [hr] at h; cases h
      | some hosts =>
          rw [hr] at h
          cases h
          exact ⟨proxy, hosts, hproxy, rfl, rfl⟩

/-- After `AddProxyWithLocation` the pattern is there. -/
theorem lookup_addProxyWithLocation {env : Env} {n n' : Node} {l : Location}
    (h : n.addProxyWithLocation env l = (.ok none, n')) :
    n'.current.relations.lookup l.pattern = some n.nextProxy := by
  obtain ⟨proxy, hosts, -, -, rfl⟩ := addProxyWithLocation_eq_ok h
  show (n.related l proxy).current.relations.lookup l.pattern = _
  rw [n.lookup_related, if_pos rfl]

/-- `RemoveProxy` that succeeds has ended `shutDownCheck` and taken the pattern out everywhere. -/
theorem removeProxy_eq_ok {n n' : Node} {pattern : String}
    (h : n.removeProxy pattern = (.ok none, n')) :
    ∃ a hosts, n.current.relations.lookup pattern = some a ∧ (n.proxies a).shutDownCheck = true ∧
      n.router = some hosts ∧
      n' = ({ n.modifyProxy a fun h => { h with shutDownCheck := false } with
        router := some (hosts.erase pattern) }).modifyMap n.proxyMap fun m =>
          { m with
            relations := m.relations.erase pattern
            locations := m.locations.erase pattern } := by
  unfold removeProxy at h
  split at h
  · cases h
  · next a hp =>
      split at h
      · next hwait =>
          simp only [router_modifyProxy] at h
          cases hr : n.router with
          | none => rw [hr] at h; cases h
          | some hosts =>
              rw [hr] at h
              cases h
              exact ⟨a, hosts, hp, hwait, rfl, rfl⟩
      · cases h

/-! A call that fails leaves the node as it was. -/

theorem addProxyWithLocation_failed {env : Env} {n n' : Node} {l : Location} {err : GoError}
    (h : n.addProxyWithLocation env l = (.ok (some err), n')) : n' = n := by
  unfold addProxyWithLocation at h
  split at h
  · cases h
    rfl
  · rw [addRelations_eq] at h
    cases hr : n.router <;> rw [hr] at h <;> cases h

theorem addProxy_failed {env : Env} {n n' : Node} {pattern host : String} {err : GoError}
    (h : n.addProxy env pattern host = (.ok (some err), n')) : n' = n := by
  unfold addProxy at h
  split at h
  · cases h
    rfl
  · split at h <;> cases h
    rfl

theorem removeProxy_failed {n n' : Node} {pattern : String} {err : GoError}
    (h : n.removeProxy pattern = (.ok (some err), n')) : n' = n := by
  unfold removeProxy at h
  split at h
  · cases h
    rfl
  · split at h
    · simp only at h
      split at h <;> cases h
    · cases h

end Node

namespace Linked

variable {n : Node} {p q : String} {a b : Nat}

/-! ### Links

A node is read as a configuration by following the link from a pattern to its proxy. For this to be sound
under assignments no two patterns may share a proxy, which `Linked` has from the field `pattern`. -/

/-- No two patterns share a proxy. -/
theorem ne (L : Linked n) (hp : n.current.relations.lookup p = some a)
    (hq : n.current.relations.lookup q = some b) (hpq : q ≠ p) : b ≠ a := by
  rintro rfl
  exact hpq ((L.serves hq).pattern.symm.trans (L.serves hp).pattern)

/-- An assignment to a proxy that goes on serving keeps the links. -/
theorem modifyProxy (L : Linked n) (hp : n.current.relations.lookup p = some a)
    {f : HTTPProxy → HTTPProxy} (hf : (f (n.proxies a)).Serves p n.proxyMap) :
    Linked (n.modifyProxy a f) where
  routerType := L.routerType
  serves := by
    intro q b hq
    rw [Node.current_modifyProxy] at hq
    -- another pattern has another proxy, which the assignment does not reach
    by_cases hpq : q = p
    · subst hpq
      obtain rfl : a = b := Option.some.inj (hp.symm.trans hq)
      simpa using hf
    · rw [Node.proxies_modifyProxy_of_ne _ (L.ne hp hq hpq)]
      exact L.serves hq
  allocated := fun hq => L.allocated hq

/-- The same, for an assignment to any proxy. -/
theorem modify (L : Linked n) {f : HTTPProxy → HTTPProxy}
    (hf : ∀ p m, (n.proxies a).Serves p m → (f (n.proxies a)).Serves p m) :
    Linked (n.modifyProxy a f) where
  routerType := L.routerType
  serves := by
    intro q b hq
    rw [Node.current_modifyProxy] at hq
    by_cases hb : b = a
    · subst hb
      rw [Node.proxies_modifyProxy_self]
      exact hf q _ (L.serves hq)
    · rw [Node.proxies_modifyProxy_of_ne _ hb]
      exact L.serves hq
  allocated := fun hq => L.allocated hq

/-- An assignment to the proxy of a pattern changes the service of that pattern alone. -/
theorem config_modifyProxy (L : Linked n) (hp : n.current.relations.lookup p = some a)
    {f : HTTPProxy → HTTPProxy} {g : Service → Service}
    (hg : (f (n.proxies a)).service = g (n.proxies a).service) :
    (n.modifyProxy a f).config = n.config.modify p g := by
  refine Config.ext ?_ rfl rfl
  funext q
  show (n.current.relations.lookup q).map _ = _
  -- the row of this pattern is the changed service, and that of any other is read off another object
  by_cases hpq : q = p
  · subst hpq
    simp [Node.services_of_lookup hp, hp, hg]
  · rw [Config.services_modify_of_ne hpq]
    cases hq : n.current.relations.lookup q with
    | none => simp [Node.services_eq_none.mpr hq]
    | some b =>
        rw [Node.services_of_lookup hq, Option.map_some,
          Node.proxies_modifyProxy_of_ne _ (L.ne hp hq hpq)]

/-- The links do not depend on what is recorded. -/
theorem modifyMap (L : Linked n) {f : ProxyMap → ProxyMap}
    (hf : (f n.current).relations = n.current.relations)
    (hf' : (f n.current).routerType = n.current.routerType) :
    Linked (n.modifyMap n.proxyMap f) where
  routerType := by rw [Node.current_modifyMap, hf', L.routerType]
  serves := by
    intro q b hq
    rw [Node.current_modifyMap, hf] at hq
    exact L.serves hq
  allocated := by
    intro q b hq
    rw [Node.current_modifyMap, hf] at hq
    exact L.allocated hq

end Linked

/-! ## What the functions do to the configuration

One lemma for each call: under `Linked` it succeeds in the cases it should, keeps `Linked`, and changes one
row of the table as its name says. These are the only facts about the calls that the later modules use. -/

section Spec

variable {env : Env} {n : Node} {p host mode : String} {a : Nat}

/-- A new proxy for a location is what the location says. -/
theorem newHTTPProxy_service {l : Location} {proxy : HTTPProxy}
    (h : newHTTPProxy env l.pattern l.proxyPass l.balanceMode = .ok proxy) :
    proxy.service = l.service env ∧ (∀ m, { proxy with proxyMap := some m }.Serves l.pattern m) := by
  obtain ⟨hpattern, hhosts, hmode, hmethods, hwait, hchan⟩ := newHTTPProxy_ok h
  refine ⟨?_, fun m => ⟨hpattern, rfl, hwait, hchan⟩⟩
  ext1
  · exact hhosts
  · exact hmode
  · funext path
    simp [HTTPProxy.service, Location.service, hmethods]

/-- `AddRelations` puts the pattern into the configuration, also where it panics for want of a
router. -/
theorem addRelations_spec (L : Linked n) {l : Location} {proxy : HTTPProxy}
    (hserves : { proxy with proxyMap := some n.proxyMap }.Serves l.pattern n.proxyMap) :
    Linked (n.addRelations l.pattern proxy l).2 ∧
      (n.addRelations l.pattern proxy l).2.config = n.config.put l proxy.service ∧
      (n.addRelations l.pattern proxy l).2.acl = n.acl ∧
      (n.addRelations l.pattern proxy l).2.router =
        n.router.map (fun hosts => hosts.insert l.pattern n.nextProxy) ∧
      (n.addRelations l.pattern proxy l).2.current.relations =
        n.current.relations.insert l.pattern n.nextProxy ∧
      (n.addRelations l.pattern proxy l).1 =
        if n.router = none then .error .nilDereference else .ok none := by
  -- the state before the router is asked for
  let n₁ : Node := n.related l proxy
  have hcur := n.current_related l proxy
  have hproxies := n.proxies_related l proxy
  have hlookup := n.lookup_related l proxy
  -- the new proxy is the first free address, so it is none of those that are hung in
  have hlinked : Linked n₁ := by
    refine ⟨by rw [hcur]; exact L.routerType, fun {q b} hq => ?_, fun {q b} hq => ?_⟩
    · rw [hlookup] at hq
      rw [hproxies]
      split at hq
      · next heq =>
          cases hq; subst heq
          rw [Function.update_self]
          exact hserves
      · have hlt := L.allocated hq
        rw [Function.update_of_ne (by omega)]
        exact L.serves hq
    · rw [hlookup] at hq
      show b < n.nextProxy + 1
      split at hq
      · cases hq; omega
      · have hlt := L.allocated hq
        omega
  -- of the three columns the services and locations change in one row, and the limiters in none
  have hconfig : n₁.config = n.config.put l proxy.service := by
    refine Config.ext ?_ ?_ ?_
    · funext q
      show (n₁.current.relations.lookup q).map _ = _
      rw [hlookup, hproxies]
      by_cases hq : q = l.pattern
      · subst hq
        simp [HTTPProxy.service]
      · rw [if_neg hq, Config.services_put_of_ne hq]
        cases hb : n.current.relations.lookup q with
        | none => simp [Node.services_eq_none.mpr hb]
        | some b =>
            have hlt := L.allocated hb
            rw [Node.services_of_lookup hb, Option.map_some, Function.update_of_ne (by omega)]
    · funext q
      show n₁.current.locations.lookup q = _
      rw [hcur]
      by_cases hq : q = l.pattern
      · subst hq; simp
      · rw [Config.locations_put_of_ne hq]
        exact Finmap.lookup_insert_of_ne _ hq
    · funext q
      show (n₁.current.limiters.lookup q).getD [] = _
      rw [hcur]
      rfl
  rw [Node.addRelations_eq]
  cases hr : n.router with
  | none => exact ⟨hlinked, hconfig, rfl, hr, congrArg ProxyMap.relations hcur, by simp⟩
  | some hosts =>
      exact ⟨⟨hlinked.routerType, hlinked.serves, hlinked.allocated⟩, hconfig, rfl, rfl,
        congrArg ProxyMap.relations hcur, by simp⟩

/-- `AddProxyWithLocation` fails, and changes nothing, when no proxy can be made. -/
theorem addProxyWithLocation_error {l : Location} {err : GoError}
    (h : newHTTPProxy env l.pattern l.proxyPass l.balanceMode = .error err) :
    n.addProxyWithLocation env l = (.ok (some err), n) := by
  unfold Node.addProxyWithLocation
  rw [h]

/-- Such a call returns the error of the constructor. -/
theorem addProxyWithLocation_of_not (n : Node) {l : Location} (h : ¬ l.Constructible env) :
    ∃ err, n.addProxyWithLocation env l = (.ok (some err), n) := by
  cases hproxy : newHTTPProxy env l.pattern l.proxyPass l.balanceMode with
  | ok proxy => exact absurd ⟨proxy, hproxy⟩ h
  | error err => exact ⟨err, addProxyWithLocation_error hproxy⟩

/-- Otherwise it puts the location into the configuration. -/
theorem addProxyWithLocation_spec (L : Linked n) {l : Location} (h : l.Constructible env) :
    Linked (n.addProxyWithLocation env l).2 ∧
      (n.addProxyWithLocation env l).2.config = n.config.put l (l.service env) ∧
      (n.addProxyWithLocation env l).2.acl = n.acl ∧
      (n.addProxyWithLocation env l).2.router =
        n.router.map (fun hosts => hosts.insert l.pattern n.nextProxy) ∧
      (n.addProxyWithLocation env l).2.current.relations =
        n.current.relations.insert l.pattern n.nextProxy ∧
      (n.addProxyWithLocation env l).1 =
        if n.router = none then .error .nilDereference else .ok none := by
  obtain ⟨proxy, hproxy⟩ := h
  obtain ⟨hservice, hserves⟩ := newHTTPProxy_service hproxy
  have hspec := addRelations_spec L (hserves n.proxyMap)
  rw [hservice] at hspec
  unfold Node.addProxyWithLocation
  rw [hproxy]
  exact hspec

/-! ### Assignments to one proxy

`AddProxy`, `RemoveHost` and `ChangeLb` look up the proxy of the pattern and assign to it. What they have in
common is `Reconfigured`, with the configuration that comes out. -/

/-- A call that has changed the configuration to `c`, and neither the ACL nor which proxies there
are. -/
structure Reconfigured (n n' : Node) (c : Config) : Prop where
  linked : Linked n'
  config : n'.config = c
  acl : n'.acl = n.acl
  router : n'.router = n.router
  relations : n'.current.relations = n.current.relations

/-- An assignment to the proxy of a pattern. -/
theorem Linked.reconfigured (L : Linked n) (hp : n.current.relations.lookup p = some a)
    {f : HTTPProxy → HTTPProxy} {g : Service → Service}
    (hf : (f (n.proxies a)).Serves p n.proxyMap)
    (hg : (f (n.proxies a)).service = g (n.proxies a).service) :
    Reconfigured n (n.modifyProxy a f) (n.config.modify p g) :=
  ⟨L.modifyProxy hp hf, L.config_modifyProxy hp hg, rfl, rfl, rfl⟩

theorem addProxy_spec (L : Linked n) (hp : n.current.relations.lookup p = some a) {url : Utils.URL}
    (hurl : env.parse host = .ok url) :
    ∃ n', n.addProxy env p host = (.ok none, n') ∧
      Reconfigured n n' (n.config.modify p fun s => s.addHost (Utils.getHost url)) := by
  -- the host that comes in brings a channel with it, so every host of the map has one still
  have S := L.serves hp
  refine ⟨_, by unfold Node.addProxy; rw [hp]; simp only [hurl]; rfl, L.reconfigured hp ?_ ?_⟩
  · refine ⟨S.pattern, S.proxyMap, S.waiting, ?_⟩
    intro h hh
    rcases Finmap.mem_insert.mp (Finmap.mem_keys.mp hh) with rfl | hh
    · exact Finset.mem_insert_self _ _
    · exact Finset.mem_insert_of_mem (S.channels (Finmap.mem_keys.mpr hh))
  · refine Service.ext ?_ (Balancer.mode_add _ _) rfl
    ext h
    simp [HTTPProxy.service, Service.addHost, Finmap.mem_keys, Finmap.mem_insert]

/-- `RemoveHost` takes the host out when its checker answers. -/
theorem removeHost_spec (L : Linked n) (hp : n.current.relations.lookup p = some a)
    (hhost : host ∈ (n.proxies a).hostsShutDown) :
    ∃ n', n.removeHost p host true = (.ok none, n') ∧
      Reconfigured n n' (n.config.modify p fun s => s.removeHost host) := by
  have S := L.serves hp
  refine ⟨_, by unfold Node.removeHost; rw [hp]; simp only [hhost, and_self, if_true]; rfl,
    L.reconfigured hp ?_ ?_⟩
  · refine ⟨S.pattern, S.proxyMap, S.waiting, ?_⟩
    intro h hh
    have hmem := (Finmap.mem_erase.mp (Finmap.mem_keys.mp hh)).2
    exact S.channels (Finmap.mem_keys.mpr hmem)
  · refine Service.ext ?_ rfl rfl
    exact Finmap.keys_erase _ _

/-- `ChangeLb` sets the mode, if there is a balancer of that name. -/
theorem changeLb_spec (L : Linked n) (hp : n.current.relations.lookup p = some a)
    {order : List String} {lb : Balancer} (hlb : Balancer.build env.toEnv mode order = .ok lb) :
    ∃ n', n.changeLb env p mode order = (.ok none, n') ∧
      Reconfigured n n' (n.config.modify p fun s => s.setMode mode) := by
  have S := L.serves hp
  refine ⟨_, by unfold Node.changeLb; rw [hp]; simp only [hlb]; rfl, L.reconfigured hp ?_ ?_⟩
  · exact ⟨S.pattern, S.proxyMap, S.waiting, S.channels⟩
  · exact Service.ext rfl (Balancer.mode_build hlb) rfl

/-- `RemoveProxy` takes the pattern out, of the router too. -/
theorem removeProxy_spec (L : Linked n) (hp : n.current.relations.lookup p = some a)
    {hosts : GoMap String Nat} (hr : n.router = some hosts) :
    ∃ n', n.removeProxy p = (.ok none, n') ∧ Linked n' ∧ n'.config = n.config.remove p ∧
      n'.acl = n.acl ∧ n'.router = some (hosts.erase p) ∧
      n'.current.relations = n.current.relations.erase p := by
  let n₁ : Node := { n.modifyProxy a fun h => { h with shutDownCheck := false } with
    router := some (hosts.erase p) }
  let f : ProxyMap → ProxyMap := fun m =>
    { m with relations := m.relations.erase p, locations := m.locations.erase p }
  have hcur : (n₁.modifyMap n₁.proxyMap f).current = f n.current := Node.current_modifyMap n₁ f
  -- whatever is left in the relations was there before, for another pattern
  have hkept : ∀ {q b}, (f n.current).relations.lookup q = some b →
      q ≠ p ∧ n.current.relations.lookup q = some b := by
    intro q b hq
    have hqp : q ≠ p := by
      rintro rfl
      simp [f] at hq
    exact ⟨hqp, by rwa [show (f n.current).relations = n.current.relations.erase p from rfl,
      Finmap.lookup_erase_ne hqp] at hq⟩
  refine ⟨n₁.modifyMap n₁.proxyMap f, ?_, ⟨?_, ?_, ?_⟩, ?_, rfl, rfl, ?_⟩
  · simp [Node.removeProxy, hp, (L.serves hp).waiting, hr, n₁, f]
  · rw [hcur]
    exact L.routerType
  · intro q b hq
    rw [hcur] at hq
    obtain ⟨hqp, hq⟩ := hkept hq
    show ((n.modifyProxy a fun h => { h with shutDownCheck := false }).proxies b).Serves q n.proxyMap
    rw [Node.proxies_modifyProxy_of_ne _ (L.ne hp hq hqp)]
    exact L.serves hq
  · intro q b hq
    rw [hcur] at hq
    exact L.allocated (hkept hq).2
  · refine Config.ext ?_ ?_ ?_
    · funext q
      show ((n₁.modifyMap n₁.proxyMap f).current.relations.lookup q).map _ = _
      rw [hcur]
      by_cases hqp : q = p
      · subst hqp
        simp [f]
      · rw [Config.services_remove_of_ne hqp,
          show (f n.current).relations = n.current.relations.erase p from rfl,
          Finmap.lookup_erase_ne hqp]
        cases hq : n.current.relations.lookup q with
        | none => simp [Node.services_eq_none.mpr hq]
        | some b =>
            rw [Node.services_of_lookup hq, Option.map_some]
            show some ((n.modifyProxy a fun h => { h with shutDownCheck := false }).proxies b).service
              = _
            rw [Node.proxies_modifyProxy_of_ne _ (L.ne hp hq hqp)]
    · funext q
      show (n₁.modifyMap n₁.proxyMap f).current.locations.lookup q = _
      rw [hcur]
      by_cases hqp : q = p
      · subst hqp
        simp [f]
      · rw [Config.locations_remove_of_ne hqp]
        exact Finmap.lookup_erase_ne hqp
    · funext q
      show ((n₁.modifyMap n₁.proxyMap f).current.limiters.lookup q).getD [] = _
      rw [hcur]
      rfl
  · rw [hcur]

/-! ### Limiters

`SetRateLimiter` assigns to the proxy and then appends to the list that its proxy map has for the pattern.
The proxy knows its map by a pointer, so the specification needs that the pointer is right. -/

/-- Recording a limiter for the proxy of a pattern. -/
theorem recordLimiter_spec (L : Linked n) (hp : n.current.relations.lookup p = some a)
    (info : LimiterInfo) :
    ∃ n', n.recordLimiter a info = (.ok none, n') ∧
      Reconfigured n n' (n.config.record p info) := by
  have S := L.serves hp
  refine ⟨_, by unfold Node.recordLimiter; simp only [S.proxyMap, S.pattern]; rfl,
    L.modifyMap rfl rfl, ?_, rfl, rfl, by rw [Node.current_modifyMap]⟩
  refine Config.ext ?_ ?_ ?_
  · funext q
    show ((n.modifyMap n.proxyMap _).current.relations.lookup q).map _ = _
    rw [Node.current_modifyMap]
    rfl
  · funext q
    show (n.modifyMap n.proxyMap _).current.locations.lookup q = _
    rw [Node.current_modifyMap]
    rfl
  · funext q
    show ((n.modifyMap n.proxyMap _).current.limiters.lookup q).getD [] = _
    rw [Node.current_modifyMap]
    by_cases hqp : q = p
    · subst hqp
      simp only [Finmap.lookup_insert, Option.getD_some, Config.record, Function.update_self]
      rw [S.pattern]
      rfl
    · simp [Config.record, Node.config, hqp, Finmap.lookup_insert_of_ne]

/-- Setting the limiter of a path and recording it. -/
theorem setLimiter_spec (L : Linked n) (hp : n.current.relations.lookup p = some a) (path : String)
    (limiter : QpsRateLimiter) (info : LimiterInfo) :
    ∃ n', (n.modifyProxy a fun h => { h with methods := h.methods.insert path limiter }).recordLimiter
        a info = (.ok none, n') ∧
      Reconfigured n n' ((n.config.modify p fun s => s.setLimiter path limiter).record p info) := by
  have S := L.serves hp
  -- the assignment to `Methods`, and then the record, which finds the pattern where it was
  have R := L.reconfigured (f := fun h => { h with methods := h.methods.insert path limiter })
    (g := fun s => s.setLimiter path limiter) hp ⟨S.pattern, S.proxyMap, S.waiting, S.channels⟩ (by
      refine Service.ext rfl rfl ?_
      funext q
      by_cases hq : q = path
      · subst hq; simp [HTTPProxy.service, Service.setLimiter]
      · simp [HTTPProxy.service, Service.setLimiter, hq, Finmap.lookup_insert_of_ne])
  obtain ⟨n', heq, R'⟩ := recordLimiter_spec R.linked (by rw [R.relations]; exact hp) info
  refine ⟨n', heq, R'.linked, by rw [R'.config, R.config], by rw [R'.acl, R.acl],
    by rw [R'.router, R.router], by rw [R'.relations, R.relations]⟩

theorem setRateLimiter_spec (L : Linked n) (hp : n.current.relations.lookup p = some a)
    {info : LimiterInfo} {limiter : QpsRateLimiter}
    (hbuild : RateLimit.build info.limiterType = .ok limiter) :
    ∃ n', n.setRateLimiter a info = (.ok none, n') ∧
      Reconfigured n n'
        ((n.config.modify p fun s => s.setLimiter info.pathName (info.limiter limiter)).record p
          info) := by
  obtain ⟨n', heq, R⟩ := setLimiter_spec L hp info.pathName (info.limiter limiter) info
  exact ⟨n', by unfold Node.setRateLimiter; rw [hbuild]; exact heq, R⟩

/-- `SetRateLimiter` with any other type changes nothing. -/
theorem setRateLimiter_error {info : LimiterInfo} {err : GoError}
    (hbuild : RateLimit.build info.limiterType = .error err) :
    n.setRateLimiter a info = (.ok (some err), n) := by
  unfold Node.setRateLimiter
  rw [hbuild]

end Spec

end Cheryl.ReverseProxy
