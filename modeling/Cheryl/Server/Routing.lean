import Cheryl.ReverseProxy.Requests
import Cheryl.Server.Run

/-!
# Router, `Relations` and `Locations`

Three tables say which patterns are served: the router's, `Relations` and `Locations`. Adding and
removing a proxy keep them in step. `Restore` makes the last two anew from the snapshot, but only
adds to the router, which outlives the proxy map. So they stay in step when the snapshot has all the
patterns the router had (`Snapshot.Replaces`), each filed under its own name.
-/

namespace Cheryl.Server

open Library ReverseProxy Acl

/-- The three tables have the same patterns, with the same proxies, and the proxies know their
patterns. -/
structure TablesAgree (n : Node) : Prop where
  router : ∀ hosts, n.router = some hosts → hosts = n.current.relations
  unrouted : n.router = none → n.current.relations = ∅
  locations : ∀ p, p ∈ n.current.locations ↔ p ∈ n.current.relations
  pattern : ∀ p a, n.current.relations.lookup p = some a → (n.proxies a).pattern = p

/-- A request is only routed to proxies of the proxy map. -/
def RoutesHome (n : Node) : Prop :=
  ∀ req a path, n.Routes req a path → ∃ p, n.current.relations.lookup p = some a

/-! ## Runs

Admin handlers and the log call `AddProxyWithLocation` and `RemoveProxy`, and raft calls `Restore`. The
calls may come in any order. What an order can do wrong is to add a proxy while there is no router, which
fails half way, or to restore a snapshot that lacks a pattern the router has. -/

def Snapshot.Constructible (env : Env) (s : Snapshot) : Prop :=
  ∀ p l, s.locations.lookup p = some l → l.Constructible env

/-- Every location is filed under its own pattern. -/
def Snapshot.Filed (s : Snapshot) : Prop := ∀ p l, s.locations.lookup p = some l → l.pattern = p

/-- The snapshot has all patterns that the router has. -/
def Snapshot.Replaces (s : Snapshot) (n : Node) : Prop :=
  ∀ hosts, n.router = some hosts → ∀ p ∈ hosts, p ∈ s.locations

namespace Routing

inductive Event
  | addProxyWithLocation (l : Location)
  | removeProxy (pattern : String)
  | restore (s : Snapshot) (o : Orders)

/-- One operation. The first two are called by handlers, and a handler that panics is recovered: what it
has changed stays. A `Restore` that panics takes the process down. -/
inductive Step (env : Env) : Node → Event → Node → Prop
  | addProxyWithLocation {n n' : Node} {l : Location} {out : Outcome}
      (h : n.addProxyWithLocation env l = (out, n')) : Step env n (.addProxyWithLocation l) n'
  | removeProxy {n n' : Node} {pattern : String} {out : Outcome}
      (h : n.removeProxy pattern = (out, n')) : Step env n (.removeProxy pattern) n'
  | restore {n n' : Node} {s : Snapshot} {o : Orders} {err : Option GoError}
      (constructible : s.Constructible env) (order : o.Of s)
      (h : FSM.restore env s o n = (.ok err, n')) : Step env n (.restore s o) n'

/-- An `AddProxyWithLocation` that has made its proxy finds the router, and a `Restore` has all patterns
that were served, each filed under its own name. -/
def Event.Complete (env : Env) (n : Node) : Event → Prop
  | .addProxyWithLocation l => l.Constructible env → n.router ≠ none
  | .restore s _ => s.Replaces n ∧ s.Filed
  | _ => True

end Routing

/-! ## The invariant

To be kept by a run the agreement of the tables needs two facts beside it: a proxy that is hung in has an
address that no other one has, and every location has its own pattern, so that the loop of `Restore`, which
takes the pattern from the location, files it where it was. -/

/-- The tables agree, the proxies are allocated, and every location is filed under its pattern. -/
structure Filing (n : Node) : Prop extends TablesAgree n where
  allocated : ∀ p a, n.current.relations.lookup p = some a → a < n.nextProxy
  filed : ∀ p l, n.current.locations.lookup p = some l → l.pattern = p

section Filing

variable {env : Env} {n n' n₀ : Node} {l : Location} {p : String} {err : Option GoError}

/-- Nothing is served by a node as it is made. -/
theorem Start.filing (h : Start n) : Filing n where
  router := by
    intro hosts hr
    rcases h.router with hr' | hr' <;> rw [hr'] at hr <;> cases hr
    rw [h.current]
    rfl
  unrouted := fun _ => by rw [h.current]; rfl
  locations := fun p => by rw [h.current]; exact Iff.rfl
  pattern := by
    intro p a hp
    rw [h.current] at hp
    simp [newProxyMap] at hp
  allocated := by
    intro p a hp
    rw [h.current] at hp
    simp [newProxyMap] at hp
  filed := by
    intro p l hp
    rw [h.current] at hp
    simp [newProxyMap] at hp

/-- What the router has, the proxy map has, so a request goes nowhere else. -/
theorem TablesAgree.routesHome (h : TablesAgree n) : RoutesHome n := by
  rintro req a path ⟨-, -, hosts, hr, hroute⟩
  obtain ⟨p, hp⟩ := mem_of_route hroute
  rw [h.router hosts hr] at hp
  exact ⟨p, hp⟩

/-- An assignment that is not to the pattern leaves all patterns as they are. -/
theorem pattern_modifyProxy (n : Node) (a : Nat) {f : HTTPProxy → HTTPProxy}
    (hf : ∀ h, (f h).pattern = h.pattern) (b : Nat) :
    ((n.modifyProxy a f).proxies b).pattern = (n.proxies b).pattern := by
  by_cases hb : b = a
  · subst hb
    rw [Node.proxies_modifyProxy_self, hf]
  · rw [Node.proxies_modifyProxy_of_ne _ hb]

/-- A proxy is hung in, in place of the one that was there. -/
theorem Filing.related (F : Filing n) {proxy : HTTPProxy} {hosts : GoMap String Nat}
    (hr : n.router = some hosts) (hpattern : proxy.pattern = l.pattern) :
    Filing { n.related l proxy with router := some (hosts.insert l.pattern n.nextProxy) } := by
  have hcur := n.current_related l proxy
  have hproxies := n.proxies_related l proxy
  have hlookup : ∀ {q a}, (n.related l proxy).current.relations.lookup q = some a →
      q = l.pattern ∧ a = n.nextProxy ∨ q ≠ l.pattern ∧ n.current.relations.lookup q = some a := by
    intro q a hq
    rw [n.lookup_related] at hq
    split at hq
    · next heq =>
        cases hq
        exact .inl ⟨heq, rfl⟩
    · next hne => exact .inr ⟨hne, hq⟩
  refine ⟨⟨?_, fun h => (by cases h), ?_, ?_⟩, ?_, ?_⟩
  · -- both tables get the same entry
    intro hosts' h
    cases h
    show hosts.insert _ _ = (n.related l proxy).current.relations
    rw [hcur, F.router hosts hr]
  · intro q
    show q ∈ (n.related l proxy).current.locations ↔ q ∈ (n.related l proxy).current.relations
    rw [hcur]
    simp only [Finmap.mem_insert, F.locations q]
  · intro q a hq
    show ((n.related l proxy).proxies a).pattern = q
    rw [hproxies]
    rcases hlookup hq with ⟨rfl, rfl⟩ | ⟨-, hq⟩
    · rw [Function.update_self]
      exact hpattern
    · -- the new proxy has an address of its own
      have hlt := F.allocated q a hq
      rw [Function.update_of_ne (by omega)]
      exact F.pattern q a hq
  · intro q a hq
    show a < n.nextProxy + 1
    rcases hlookup hq with ⟨-, rfl⟩ | ⟨-, hq⟩
    · omega
    · have hlt := F.allocated q a hq
      omega
  · intro q l' hq
    have hq : (n.related l proxy).current.locations.lookup q = some l' := hq
    rw [hcur] at hq
    by_cases hne : q = l.pattern
    · subst hne
      rw [Finmap.lookup_insert] at hq
      cases hq
      rfl
    · rw [Finmap.lookup_insert_of_ne _ hne] at hq
      exact F.filed q l' hq

/-- `AddProxyWithLocation` only panics for want of a router. -/
theorem addProxyWithLocation_panics {fault : Fault} (h : n.addProxyWithLocation env l = (.error fault, n')) :
    l.Constructible env ∧ n.router = none := by
  unfold Node.addProxyWithLocation at h
  split at h
  · cases h
  · next proxy hproxy =>
      rw [Node.addRelations_eq] at h
      cases hr : n.router with
      | none => exact ⟨⟨proxy, hproxy⟩, rfl⟩
      | some hosts =>
          rw [hr] at h
          cases h

/-- And when it does, the pattern is in the proxy map already, and in no router. -/
theorem not_tablesAgree_of_panic (hcon : l.Constructible env) (hr : n.router = none) :
    (n.addProxyWithLocation env l).1 = .error .nilDereference ∧
      ¬ TablesAgree (n.addProxyWithLocation env l).2 := by
  obtain ⟨proxy, hproxy⟩ := hcon
  simp only [Node.addProxyWithLocation, hproxy, Node.addRelations_eq, hr, Option.elim_none, true_and]
  intro T
  have hserved := n.lookup_related l proxy l.pattern
  rw [T.unrouted hr, if_pos rfl, Finmap.lookup_empty] at hserved
  cases hserved

/-! ### Proxies that are added and removed

The two operations write to all three tables, if they come to an end. If they do not, what they have written
stays. -/

/-- A proxy is added to all three tables or to none, where a router is there. -/
theorem Filing.addProxyWithLocation {out : Outcome} (F : Filing n)
    (hrouter : l.Constructible env → n.router ≠ none)
    (h : n.addProxyWithLocation env l = (out, n')) : Filing n' := by
  rcases out with fault | _ | err
  · obtain ⟨hcon, hr⟩ := addProxyWithLocation_panics h
    exact absurd hr (hrouter hcon)
  · obtain ⟨proxy, hosts, hproxy, hr, rfl⟩ := Node.addProxyWithLocation_eq_ok h
    exact F.related hr (newHTTPProxy_ok hproxy).1
  · obtain rfl := Node.addProxyWithLocation_failed h
    exact F

/-- `RemoveProxy` of a pattern that is served finds the router, so all it can do instead of returning is
to wait for ever, before it has changed anything. -/
theorem Filing.removeProxy_stuck {fault : Fault} (F : Filing n)
    (h : n.removeProxy p = (.error fault, n')) : n' = n := by
  unfold Node.removeProxy at h
  split at h
  · cases h
  · next a hp =>
      split at h
      · simp only [Node.router_modifyProxy] at h
        cases hr : n.router with
        | none =>
            -- the pattern is served, so there is a router
            rw [F.unrouted hr, Finmap.lookup_empty] at hp
            cases hp
        | some hosts =>
            rw [hr] at h
            cases h
      · cases h
        rfl

/-- A pattern is taken out. -/
theorem Filing.removeProxy {out : Outcome} (F : Filing n) (h : n.removeProxy p = (out, n')) :
    Filing n' := by
  rcases out with fault | _ | err
  · obtain rfl := F.removeProxy_stuck h
    exact F
  · obtain ⟨a, hosts, hp, -, hr, rfl⟩ := Node.removeProxy_eq_ok h
    let n₁ : Node := { n.modifyProxy a fun h => { h with shutDownCheck := false } with
      router := some (hosts.erase p) }
    let f : ProxyMap → ProxyMap := fun m =>
      { m with relations := m.relations.erase p, locations := m.locations.erase p }
    have hcur : (n₁.modifyMap n₁.proxyMap f).current = f n.current := Node.current_modifyMap n₁ f
    have hpattern : ∀ b, (n₁.proxies b).pattern = (n.proxies b).pattern :=
      pattern_modifyProxy n a (f := fun h => { h with shutDownCheck := false }) fun _ => rfl
    -- what is left was there
    have hkept : ∀ {q b}, (f n.current).relations.lookup q = some b →
        n.current.relations.lookup q = some b := by
      intro q b hq
      have hne : q ≠ p := by
        rintro rfl
        simp [f] at hq
      rwa [show (f n.current).relations = n.current.relations.erase p from rfl,
        Finmap.lookup_erase_ne hne] at hq
    refine ⟨⟨?_, fun h => (by cases h), fun q => ?_, fun q b hq => ?_⟩, fun q b hq => ?_,
      fun q l hq => ?_⟩
    · intro hosts' h
      cases h
      show hosts.erase p = (n₁.modifyMap n₁.proxyMap f).current.relations
      rw [hcur, F.router hosts hr]
    · show q ∈ (n₁.modifyMap n₁.proxyMap f).current.locations ↔
        q ∈ (n₁.modifyMap n₁.proxyMap f).current.relations
      rw [hcur]
      simp only [f, Finmap.mem_erase, F.locations q]
    · have hq : (n₁.modifyMap n₁.proxyMap f).current.relations.lookup q = some b := hq
      rw [hcur] at hq
      exact (hpattern b).trans (F.pattern q b (hkept hq))
    · have hq : (n₁.modifyMap n₁.proxyMap f).current.relations.lookup q = some b := hq
      rw [hcur] at hq
      exact F.allocated q b (hkept hq)
    · have hq : (n₁.modifyMap n₁.proxyMap f).current.locations.lookup q = some l := hq
      rw [hcur] at hq
      have hne : q ≠ p := by
        rintro rfl
        simp [f] at hq
      rw [show (f n.current).locations = n.current.locations.erase p from rfl,
        Finmap.lookup_erase_ne hne] at hq
      exact F.filed q l hq
  · obtain rfl := Node.removeProxy_failed h
    exact F

end Filing

/-! ## `Restore`

The new proxy map begins with the decoded locations and no relations. The first loop hangs in one proxy for
each location it visits, in the router over what was there. So after the loop the router is the new
relations with the old patterns that were not visited, and these are none if the snapshot has them all. The
other two loops set limiters and build the tree of the access list. -/

/-- A call that leaves the tables and the patterns of the proxies as they are. -/
structure SameTables (n n' : Node) : Prop where
  router : n'.router = n.router
  relations : n'.current.relations = n.current.relations
  locations : n'.current.locations = n.current.locations
  pattern : ∀ a, (n'.proxies a).pattern = (n.proxies a).pattern
  nextProxy : n'.nextProxy = n.nextProxy

section Restore

variable {env : Env} {n n' n'' : Node} {a : Nat} {out : Outcome}

theorem SameTables.refl (n : Node) : SameTables n n := ⟨rfl, rfl, rfl, fun _ => rfl, rfl⟩

theorem SameTables.trans (h : SameTables n n') (h' : SameTables n' n'') : SameTables n n'' where
  router := h'.router.trans h.router
  relations := h'.relations.trans h.relations
  locations := h'.locations.trans h.locations
  pattern := fun a => (h'.pattern a).trans (h.pattern a)
  nextProxy := h'.nextProxy.trans h.nextProxy

theorem SameTables.filing (h : SameTables n n') (F : Filing n) : Filing n' where
  router := by rw [h.router, h.relations]; exact F.router
  unrouted := by rw [h.router, h.relations]; exact F.unrouted
  locations := by rw [h.locations, h.relations]; exact F.locations
  pattern := by
    intro p a hp
    rw [h.relations] at hp
    exact (h.pattern a).trans (F.pattern p a hp)
  allocated := by rw [h.relations, h.nextProxy]; exact F.allocated
  filed := by rw [h.locations]; exact F.filed

/-- Recording a limiter is none of the business of the tables, in whichever map it is. -/
theorem sameTables_recordLimiter {info : LimiterInfo} (h : n.recordLimiter a info = (out, n')) :
    SameTables n n' := by
  unfold Node.recordLimiter at h
  split at h
  · cases h
    exact .refl n
  · next m hm =>
      cases h
      refine ⟨rfl, ?_, ?_, fun _ => rfl, rfl⟩
      all_goals
        unfold Node.current Node.modifyMap
        by_cases hmap : n.proxyMap = m
        · subst hmap; simp
        · simp [hmap]

/-- Setting a limiter changes the methods of a proxy and the record. -/
theorem sameTables_setRateLimiter {info : LimiterInfo} (h : n.setRateLimiter a info = (out, n')) :
    SameTables n n' := by
  unfold Node.setRateLimiter at h
  split at h
  · cases h
    exact .refl n
  · next limiter hbuild =>
      have hset : SameTables n (n.modifyProxy a fun h =>
          { h with methods := h.methods.insert info.pathName (info.limiter limiter) }) :=
        ⟨rfl, rfl, rfl, pattern_modifyProxy n a fun _ => rfl, rfl⟩
      exact hset.trans (sameTables_recordLimiter h)

theorem sameTables_replayLimiters (infos : List LimiterInfo) : ∀ {n n' : Node} {out : Outcome},
    FSM.replayLimiters a infos n = (out, n') → SameTables n n' := by
  induction infos with
  | nil =>
      intro n n' out h
      cases h
      exact .refl n
  | cons info infos ih =>
      intro n n' out h
      unfold FSM.replayLimiters at h
      split at h
      · next hset =>
          cases h
          exact sameTables_setRateLimiter hset
      · next hset => exact (sameTables_setRateLimiter hset).trans (ih h)

theorem sameTables_restoreLimiters (keys : List String) : ∀ {n n' : Node} {out : Outcome},
    FSM.restoreLimiters keys n = (out, n') → SameTables n n' := by
  induction keys with
  | nil =>
      intro n n' out h
      cases h
      exact .refl n
  | cons key keys ih =>
      intro n n' out h
      unfold FSM.restoreLimiters at h
      split at h
      · exact ih h
      · split at h
        · next hreplay =>
            cases h
            exact sameTables_replayLimiters _ hreplay
        · next hreplay => exact (sameTables_replayLimiters _ hreplay).trans (ih h)

/-! ### The loop over the locations

While the loop runs, the tables do not agree. What is true then is `PutBack`: which patterns are there
depends on the keys visited so far. -/

/-- What `Restore` has done when it has put back the locations of `visited`: these are in `Relations`
and in the router, which for the rest is as it was found. -/
structure PutBack (s : Snapshot) (found : Option (GoMap String Nat)) (visited : List String) (n : Node) :
    Prop where
  locations : n.current.locations = s.locations
  relations : ∀ p, p ∈ n.current.relations ↔ p ∈ visited ∧ p ∈ s.locations
  router : ∀ hosts, n.router = some hosts → ∃ before, found = some before ∧ ∀ p, hosts.lookup p =
    if p ∈ n.current.relations then n.current.relations.lookup p else before.lookup p
  unrouted : n.router = none → n.current.relations = ∅
  pattern : ∀ p a, n.current.relations.lookup p = some a → (n.proxies a).pattern = p
  allocated : ∀ p a, n.current.relations.lookup p = some a → a < n.nextProxy

variable {s : Snapshot} {found : Option (GoMap String Nat)}

theorem insert_eq_self {κ ν : Type} [DecidableEq κ] {m : GoMap κ ν} {k : κ} {v : ν}
    (h : m.lookup k = some v) : m.insert k v = m := by
  refine Finmap.ext_lookup fun q => ?_
  by_cases hq : q = k
  · subst hq
    rw [Finmap.lookup_insert, h]
  · exact Finmap.lookup_insert_of_ne _ hq

/-- One round of the first loop. -/
theorem PutBack.related {visited : List String} {l : Location} {proxy : HTTPProxy}
    {hosts : GoMap String Nat} (B : PutBack s found visited n) (hr : n.router = some hosts)
    (hl : s.locations.lookup l.pattern = some l) (hpattern : proxy.pattern = l.pattern) :
    PutBack s found (l.pattern :: visited)
      { n.related l proxy with router := some (hosts.insert l.pattern n.nextProxy) } := by
  have hcur := n.current_related l proxy
  have hproxies := n.proxies_related l proxy
  have hmem : l.pattern ∈ s.locations := Finmap.mem_of_lookup_eq_some hl
  have hlookup := n.lookup_related l proxy
  have hrel : ∀ q, q ∈ (n.related l proxy).current.relations ↔
      q = l.pattern ∨ q ∈ n.current.relations := by
    intro q
    rw [hcur]
    exact Finmap.mem_insert
  refine ⟨?_, fun q => ?_, fun hosts' h => ?_, fun h => (by cases h), fun q a hq => ?_, fun q a hq => ?_⟩
  · show (n.related l proxy).current.locations = s.locations
    -- `AddRelations` writes down the location that it is read from
    rw [hcur, B.locations]
    exact insert_eq_self hl
  · show q ∈ (n.related l proxy).current.relations ↔ _
    rw [hrel, B.relations, List.mem_cons]
    constructor
    · rintro (rfl | ⟨hq, hs⟩)
      · exact ⟨.inl rfl, hmem⟩
      · exact ⟨.inr hq, hs⟩
    · rintro ⟨rfl | hq, hs⟩
      · exact .inl rfl
      · exact .inr ⟨hq, hs⟩
  · cases h
    obtain ⟨before, hfound, hbefore⟩ := B.router hosts hr
    refine ⟨before, hfound, fun q => ?_⟩
    show _ = if q ∈ (n.related l proxy).current.relations then
      (n.related l proxy).current.relations.lookup q else _
    rw [hlookup]
    by_cases hq : q = l.pattern
    · subst hq
      simp [hrel]
    · rw [Finmap.lookup_insert_of_ne _ hq, hbefore]
      simp [hrel, hq]
  · have hq : (n.related l proxy).current.relations.lookup q = some a := hq
    rw [hlookup] at hq
    show ((n.related l proxy).proxies a).pattern = q
    rw [hproxies]
    split at hq
    · next heq =>
        cases hq
        rw [Function.update_self, heq]
        exact hpattern
    · have hlt := B.allocated q a hq
      rw [Function.update_of_ne (by omega)]
      exact B.pattern q a hq
  · have hq : (n.related l proxy).current.relations.lookup q = some a := hq
    rw [hlookup] at hq
    show a < n.nextProxy + 1
    split at hq
    · cases hq
      omega
    · have hlt := B.allocated q a hq
      omega

/-- The first loop, over locations that are filed under their patterns. -/
theorem PutBack.restoreLocations (hfiled : s.Filed) (keys : List String) :
    ∀ {visited : List String} {n n' : Node} {err : Option GoError}, PutBack s found visited n →
      FSM.restoreLocations env keys n = (.ok err, n') →
      ∃ visited', PutBack s found visited' n' ∧ ∀ p, p ∈ visited' ↔ p ∈ visited ∨
        p ∈ keys ∧ p ∈ s.locations := by
  induction keys with
  | nil =>
      intro visited n n' err B h
      cases h
      exact ⟨visited, B, fun p => by simp⟩
  | cons key keys ih =>
      intro visited n n' err B h
      unfold FSM.restoreLocations at h
      rw [B.locations] at h
      split at h
      -- a key the snapshot does not have is skipped
      · next hnone =>
          obtain ⟨visited', B', hmem⟩ := ih B h
          refine ⟨visited', B', fun p => ?_⟩
          rw [hmem, List.mem_cons]
          have hkey : key ∉ s.locations := Finmap.lookup_eq_none.mp hnone
          grind
      -- the proxy is filed under the pattern of its location, which is the key
      · next l hl =>
          have hkey : l.pattern = key := hfiled key l hl
          split at h
          · cases h
          · cases h
          · next n₁ hadd =>
              obtain ⟨proxy, hosts, hproxy, hr, rfl⟩ := Node.addProxyWithLocation_eq_ok hadd
              subst hkey
              obtain ⟨visited', B', hmem⟩ := ih (B.related hr hl (newHTTPProxy_ok hproxy).1) h
              refine ⟨visited', B', fun p => ?_⟩
              rw [hmem, List.mem_cons, List.mem_cons]
              have hin : l.pattern ∈ s.locations := Finmap.mem_of_lookup_eq_some hl
              grind

/-- The state in which the first loop begins. -/
theorem putBack_decoded (s : Snapshot) (n : Node) :
    PutBack s ((FSM.decoded s n).getRouterInstance s.routerType).router []
      ((FSM.decoded s n).getRouterInstance s.routerType) := by
  have hcur : ((FSM.decoded s n).getRouterInstance s.routerType).current =
      ⟨∅, s.locations, s.limiters, s.routerType⟩ := by
    unfold Node.getRouterInstance
    split <;> simp [FSM.decoded, Node.current]
  refine ⟨by rw [hcur], fun p => ?_, fun hosts h => ⟨hosts, h, fun p => ?_⟩, fun _ => by rw [hcur],
    fun p a hp => ?_, fun p a hp => ?_⟩
  · rw [hcur]
    exact ⟨fun h => absurd h Finmap.notMem_empty, fun h => absurd h.1 List.not_mem_nil⟩
  · rw [hcur, if_neg Finmap.notMem_empty]
  · rw [hcur] at hp
    simp at hp
  · rw [hcur] at hp
    simp at hp

/-! ### The router is left with what the snapshot has

After the first loop the router has the new relations, over those of before. All patterns of before are in
the snapshot, so the loop has put each one back, and nothing of the old tables is left. -/

/-- `Restore` of a snapshot that has all patterns of the router leaves nothing of the old ones. -/
theorem Filing.restore {o : Orders} {err : Option GoError} (ho : o.Of s) (hfiled : s.Filed)
    (hreplaces : s.Replaces n) (h : FSM.restore env s o n = (.ok err, n')) : Filing n' := by
  unfold FSM.restore at h
  split at h
  · cases h
  · next out n₁ hloop =>
      obtain ⟨visited, B, hvisited⟩ := (putBack_decoded s n).restoreLocations hfiled o.locations hloop
      -- what the router had before, it has got from the snapshot again
      have hbefore : ∀ before, ((FSM.decoded s n).getRouterInstance s.routerType).router = some before →
          ∀ p, p ∉ s.locations → before.lookup p = none := by
        intro before hr p hp
        unfold Node.getRouterInstance at hr
        split at hr
        · cases hr
          rfl
        · exact Finmap.lookup_eq_none.mpr fun hmem => hp (hreplaces before hr p hmem)
      have hrel : ∀ p, p ∈ n₁.current.relations ↔ p ∈ s.locations := by
        intro p
        rw [B.relations, hvisited]
        have hall := ho.locations.mem_iff p
        grind
      have F : Filing n₁ := by
        refine ⟨⟨fun hosts hr => ?_, B.unrouted, fun p => ?_, B.pattern⟩, B.allocated, ?_⟩
        · obtain ⟨before, hfound, hhosts⟩ := B.router hosts hr
          refine Finmap.ext_lookup fun p => ?_
          rw [hhosts]
          split
          · rfl
          · next hp =>
              rw [hbefore before hfound p fun hmem => hp ((hrel p).mpr hmem),
                Finmap.lookup_eq_none.mpr hp]
        · rw [B.locations, hrel]
        · rw [B.locations]
          exact hfiled
      split at h
      · cases h
      · next hlimiters =>
          -- limiters are none of the tables' business
          have F₂ := (sameTables_restoreLimiters _ hlimiters).filing F
          split at h
          · cases h
          · cases h
            exact ⟨⟨F₂.router, F₂.unrouted, F₂.locations, F₂.pattern⟩, F₂.allocated, F₂.filed⟩

end Restore

/-! ## What every run keeps

Each operation that is complete keeps the invariant, so a run of them does; and a snapshot taken at its end
is filed, so that it may be restored on another node. -/

namespace Routing

variable {env : Env} {n n' n₀ : Node} {e : Event} {es : List Event}

/-- Every operation that is complete keeps the invariant. -/
theorem Step.filing (F : Filing n) (h : Step env n e n') (hcomplete : e.Complete env n) : Filing n' := by
  cases h with
  | addProxyWithLocation h => exact F.addProxyWithLocation hcomplete h
  | removeProxy h => exact F.removeProxy h
  | restore constructible order h => exact Filing.restore order hcomplete.2 hcomplete.1 h

/-- In every run in which proxies are only added once the router is there, and a `Restore` has all
patterns that were served: the tables agree, and a request is routed to proxies of the proxy map. A
snapshot taken of such a node is filed. -/
theorem run_tablesAgree (h₀ : Start n₀)
    (hrun : Trace (fun n e n' => Step env n e n' ∧ e.Complete env n) n₀ es n) :
    TablesAgree n ∧ RoutesHome n ∧ (FSM.snapshot n).Filed := by
  have F : Filing n := hrun.invariant h₀.filing fun F h => Step.filing F h.1 h.2
  exact ⟨F.toTablesAgree, F.routesHome, F.filed⟩

/-- A snapshot of `/api` and `/web`, to put on a node that has `/api`. -/
def bothLocations : Snapshot where
  locations := ((∅ : GoMap String Location).insert "/api" ⟨"/api", ["http://b:80"], "round-robin"⟩).insert
    "/web" ⟨"/web", ["http://c:80"], "round-robin"⟩
  limiters := ∅
  routerType := "default"
  record := ∅

/-- `/api` and `/web` are served, `/web` is removed, and `Restore` brings it back. -/
theorem run_tablesAgree_restored : ∃ n es, es.length = 4 ∧
    Trace (Step Env.plain) Node.new es n ∧ TablesAgree n ∧ RoutesHome n ∧ (FSM.snapshot n).Filed := by
  have hrun : Trace (fun n e n' => Step Env.plain n e n' ∧ e.Complete Env.plain n) Node.new [] _ := .nil
  have hrun := hrun.snoc (e := Event.addProxyWithLocation ⟨"/api", ["http://a:80"], "round-robin"⟩)
    ⟨.addProxyWithLocation rfl, fun _ => Option.some_ne_none _⟩
  have hrun := hrun.snoc (e := Event.addProxyWithLocation ⟨"/web", ["http://c:80"], "round-robin"⟩)
    ⟨.addProxyWithLocation rfl, fun _ => Option.some_ne_none _⟩
  have hrun := hrun.snoc (e := Event.removeProxy "/web") ⟨.removeProxy rfl, trivial⟩
  have hlookup : ∀ p l, bothLocations.locations.lookup p = some l →
      p = "/api" ∧ l = ⟨"/api", ["http://b:80"], "round-robin"⟩ ∨
        p = "/web" ∧ l = ⟨"/web", ["http://c:80"], "round-robin"⟩ := by
    intro p l hl
    have hmem : p ∈ bothLocations.locations.keys := Finmap.mem_keys.mpr (Finmap.mem_of_lookup_eq_some hl)
    have hkeys : bothLocations.locations.keys = {"/web", "/api"} := by decide
    rw [hkeys, Finset.mem_insert, Finset.mem_singleton] at hmem
    rcases hmem with rfl | rfl
    · cases hl
      exact .inr ⟨rfl, rfl⟩
    · cases hl
      exact .inl ⟨rfl, rfl⟩
  have hrun := hrun.snoc (e := Event.restore bothLocations ⟨["/web", "/api"], [], []⟩)
    ⟨.restore ?_ ⟨.of_keys (by decide) (by decide), .of_keys (by decide) (by decide), by decide,
      by simp [bothLocations]⟩ rfl, ?_, ?_⟩
  · exact ⟨_, _, rfl, hrun.mono fun h => h.1, run_tablesAgree ⟨rfl, .inr rfl, rfl⟩ hrun⟩
  · intro p l hl
    rcases hlookup p l hl with ⟨-, rfl⟩ | ⟨-, rfl⟩
    · exact ⟨_, rfl⟩
    · exact ⟨_, rfl⟩
  · intro hosts hr p hp
    cases hr
    have hkeys := Finmap.mem_keys.mpr hp
    revert p
    decide
  · intro p l hl
    rcases hlookup p l hl with ⟨rfl, rfl⟩ | ⟨rfl, rfl⟩
    · rfl
    · rfl

/-- `/api` is served, and an empty snapshot restored: the router still routes to the old proxy. -/
theorem not_run_tablesAgree : ¬ ∀ (env : Env) (n₀ n : Node) (es : List Event), Start n₀ →
    Trace (Step env) n₀ es n → TablesAgree n ∧ RoutesHome n := by
  intro h
  have hrun : Trace (Step Env.plain) Node.new [] _ := .nil
  have hrun := hrun.snoc (e := Event.addProxyWithLocation ⟨"/api", ["http://a:80"], "round-robin"⟩)
    (.addProxyWithLocation rfl)
  have hrun := hrun.snoc (e := Event.restore ⟨∅, ∅, "default", ∅⟩ ⟨[], [], []⟩)
    (.restore (fun p l hl => (by simp at hl)) ⟨.of_keys (by decide) (by decide),
      .of_keys (by decide) (by decide), by decide, by simp⟩ rfl)
  obtain ⟨-, hhome⟩ := h _ _ _ _ ⟨rfl, .inr rfl, rfl⟩ hrun
  obtain ⟨p, hp⟩ := hhome ⟨"1.2.3.4:80", "/api/x", none, true⟩ 0 "/x"
    ⟨by decide, rfl, _, rfl, by decide⟩
  have hp : (∅ : GoMap String Nat).lookup p = some 0 := hp
  rw [Finmap.lookup_empty] at hp
  cases hp

end Routing

end Cheryl.Server
