import Cheryl.ReverseProxy.Requests
import Cheryl.Server.Run

/-!
# What a request can touch

A `Gateway` is a node with what is left in its limiters: a `rate.Limiter` is behind each entry of
`Methods` of each proxy, and takes a token when a request comes to it. Between operations a gateway is
`Ready`, so the proxy a request is routed to is that of one pattern, and records in `Limiters` under
that pattern. `serveHTTP_isolated` says that a request touches nothing else.
-/

namespace Cheryl.Server

open Library ReverseProxy Acl RateLimit Utils

/-! ## Balancers that have answered

To answer a request moves the rotation index of a `RoundRobin`, and nothing in a ring. The hosts stay. -/

/-- Equal but for the rotation index of a round-robin balancer. -/
def Balancer.SameHosts : Balancer → Balancer → Prop
  | .roundRobin r, .roundRobin r' => r'.hosts = r.hosts
  | .consistenceHash c, .consistenceHash c' => c' = c
  | _, _ => False

theorem Balancer.sameHosts_refl (b : Balancer) : Balancer.SameHosts b b := by
  cases b <;> exact rfl

theorem Balancer.SameHosts.trans {b b' b'' : Balancer} (h : Balancer.SameHosts b b')
    (h' : Balancer.SameHosts b' b'') : Balancer.SameHosts b b'' := by
  cases b <;> cases b' <;> cases b'' <;> simp_all [Balancer.SameHosts]

/-- To answer changes no host. -/
theorem Balancer.sameHosts_balance (b : Balancer) (client : String) :
    Balancer.SameHosts b (b.balance client).2 := by
  cases b with
  | consistenceHash c => exact rfl
  | roundRobin r =>
      show r.balance.2.hosts = r.hosts
      unfold Balancer.RoundRobin.balance
      split <;> rfl

/-! ## Gateways

The tokens of a limiter are kept behind the path it is for, as the source keeps a `rate.Limiter` in each
`QpsRateLimiter`. Any rate limiter will do: `Rate` says how a new one looks and what taking a token does to
it. -/

/-- `rate.Limiter`: a new one, and `Allow` or `Wait`, which says whether there was a token. -/
structure Rate (β : Type) where
  new : QpsRateLimiter → β
  take : QpsRateLimiter → β → Bool × β

/-- A node with what is left in the limiter behind `Methods[path]` of the proxy at an address. -/
structure Gateway (β : Type) where
  node : Node
  buckets : Nat → String → β

namespace Gateway

variable {β : Type}

def setBucket (g : Gateway β) (a : Nat) (path : String) (b : β) : Gateway β :=
  { g with buckets := Function.update g.buckets a (Function.update (g.buckets a) path b) }

/-- The limiter a request comes to: that of the rewritten path, at the proxy `Route` returns. -/
def limiterOf (n : Node) (req : Request) : Option (Nat × String) :=
  if n.acl.accessControl req.remoteAddr = .ok false ∧ req.filtered = none then
    n.router.bind fun hosts => Node.route hosts req.path.toList req.path.toList.length
  else none

/-- `DefaultRouter.ServeHTTP`. Whether there is a token is for the limiter to say; a path without one
gets a new one. -/
def serveHTTP (rate : Rate β) (g : Gateway β) (req : Request) : Except Fault Response × Gateway β :=
  match limiterOf g.node req with
  | none =>
      let res := g.node.serveHTTP req
      (res.1, { g with node := res.2 })
  | some (a, path) =>
      match (g.node.proxies a).methods.lookup path with
      | none =>
          let res := g.node.serveHTTP req
          (res.1, { g with node := res.2 }.setBucket a path (rate.new newQpsRateLimiter))
      | some limiter =>
          let taken := rate.take limiter (g.buckets a path)
          let res := g.node.serveHTTP { req with token := taken.1 }
          (res.1, { g with node := res.2 }.setBucket a path taken.2)

def setRateLimiter (rate : Rate β) (g : Gateway β) (a : Nat) (info : LimiterInfo) :
    Outcome × Gateway β :=
  match RateLimit.build info.limiterType with
  | .error _ =>
      let res := g.node.setRateLimiter a info
      (res.1, { g with node := res.2 })
  | .ok limiter =>
      let res := g.node.setRateLimiter a info
      (res.1, { g with node := res.2 }.setBucket a info.pathName (rate.new (info.limiter limiter)))

/-- A node that has a router, and no proxies yet. -/
structure Fresh (g : Gateway β) : Prop where
  current : g.node.current = newProxyMap
  router : g.node.router = some ∅

inductive Event
  | addProxyWithLocation (l : Location)
  | removeProxy (pattern : String)
  | setRateLimiter (pattern : String) (info : LimiterInfo)
  /-- the access list is changed -/
  | acl (t : RadixTree)
  | serve (req : Request)

inductive Step (env : Env) (rate : Rate β) : Gateway β → Event → Gateway β → Prop
  | addProxyWithLocation {g : Gateway β} {l : Location} {err : Option GoError} {n : Node}
      (h : g.node.addProxyWithLocation env l = (.ok err, n)) :
      Step env rate g (.addProxyWithLocation l) { g with node := n }
  | removeProxy {g : Gateway β} {pattern : String} {err : Option GoError} {n : Node}
      (h : g.node.removeProxy pattern = (.ok err, n)) :
      Step env rate g (.removeProxy pattern) { g with node := n }
  | setRateLimiter {g : Gateway β} {pattern : String} {a : Nat} (info : LimiterInfo)
      (hp : g.node.current.relations.lookup pattern = some a) :
      Step env rate g (.setRateLimiter pattern info) (g.setRateLimiter rate a info).2
  | acl {g : Gateway β} (t : RadixTree) :
      Step env rate g (.acl t) { g with node := { g.node with acl := t } }
  | serve {g : Gateway β} (req : Request) : Step env rate g (.serve req) (g.serveHTTP rate req).2

end Gateway

/-! ## What belongs to one path of one pattern

`Confined` lists the fields of a node one by one and says of each that it is the same, or the same outside
one path of one proxy. `Isolated` says this of the tokens too. -/

/-- The proxy at `a` serves the pattern, and only what belongs to the path has changed, of the proxy
and of what is recorded for the pattern. -/
structure Confined (n n' : Node) (pattern : String) (a : Nat) (path : String) : Prop where
  served : n.current.relations.lookup pattern = some a
  proxies : ∀ b, b ≠ a → n'.proxies b = n.proxies b
  proxy : n'.proxies a =
    { n.proxies a with methods := (n'.proxies a).methods, lb := (n'.proxies a).lb }
  methods : ∀ q, q ≠ path → (n'.proxies a).methods.lookup q = (n.proxies a).methods.lookup q
  balancer : Balancer.SameHosts (n.proxies a).lb (n'.proxies a).lb
  maps : ∀ m, m ≠ n.proxyMap → n'.proxyMaps m = n.proxyMaps m
  map : n'.current = { n.current with limiters := n'.current.limiters }
  limiters : ∀ q, q ≠ pattern → n'.current.limiters.lookup q = n.current.limiters.lookup q
  rest : n' = { n with proxies := n'.proxies, proxyMaps := n'.proxyMaps }

/-- Of the limiters too, only that of the path has changed; and nothing that another pattern is
served with. -/
structure Isolated {β : Type} (g g' : Gateway β) (pattern : String) (a : Nat) (path : String) : Prop
    extends Confined g.node g'.node pattern a path where
  buckets : ∀ b q, ¬ (b = a ∧ q = path) → g'.buckets b q = g.buckets b q
  others : ∀ q b, q ≠ pattern → g.node.current.relations.lookup q = some b →
    g'.node.proxies b = g.node.proxies b ∧ g'.buckets b = g.buckets b

section Confined

variable {n n' n'' : Node} {pattern path : String} {a : Nat}

theorem Confined.refl (hp : n.current.relations.lookup pattern = some a) :
    Confined n n pattern a path where
  served := hp
  proxies := fun _ _ => rfl
  proxy := rfl
  methods := fun _ _ => rfl
  balancer := Balancer.sameHosts_refl _
  maps := fun _ _ => rfl
  map := rfl
  limiters := fun _ _ => rfl
  rest := rfl

/-- Two operations confined to one path are so together. -/
theorem Confined.trans (h : Confined n n' pattern a path) (h' : Confined n' n'' pattern a path) :
    Confined n n'' pattern a path where
  served := h.served
  proxies := fun b hb => (h'.proxies b hb).trans (h.proxies b hb)
  proxy := by rw [h'.proxy, h.proxy]
  methods := fun q hq => (h'.methods q hq).trans (h.methods q hq)
  balancer := h.balancer.trans h'.balancer
  maps := by
    intro m hm
    have hsame : n'.proxyMap = n.proxyMap := by rw [h.rest]
    exact (h'.maps m (hsame ▸ hm)).trans (h.maps m hm)
  map := by rw [h'.map, h.map]
  limiters := fun q hq => (h'.limiters q hq).trans (h.limiters q hq)
  rest := by rw [h'.rest, h.rest]

/-- A path seen for the first time. -/
theorem Confined.seen (L : Linked n) (hp : n.current.relations.lookup pattern = some a) :
    Confined n (n.seen a n.proxyMap path) pattern a path := by
  have S := L.serves hp
  refine ⟨hp, fun b hb => ?_, ?_, fun q hq => ?_, ?_, fun m hm => ?_, ?_, fun q hq => ?_, rfl⟩
  · simp [Node.seen, Node.proxies_modifyProxy_of_ne _ hb]
  · simp [Node.seen]
  · simp [Node.seen, Finmap.lookup_insert_of_ne _ hq]
  · simp [Node.seen, Balancer.sameHosts_refl]
  · simp [Node.seen, Node.modifyMap, Node.modifyProxy, hm]
  · simp [Node.seen, Node.current, Node.modifyMap, Node.modifyProxy]
  · simp [Node.seen, Node.current, Node.modifyMap, Node.modifyProxy, S.pattern,
      Finmap.lookup_insert_of_ne _ hq]

/-- The balancer has answered. -/
theorem Confined.balanced (hp : n.current.relations.lookup pattern = some a) (client : String) :
    Confined n (n.balanced a client) pattern a path := by
  refine ⟨hp, fun b hb => ?_, ?_, fun q hq => ?_, ?_, fun m hm => rfl, rfl, fun q hq => rfl, rfl⟩
  · exact Node.proxies_modifyProxy_of_ne _ hb _
  · simp [Node.balanced]
  · simp [Node.balanced]
  · simp [Node.balanced, Balancer.sameHosts_balance]

end Confined

/-! ## Serving a request

A request is confined step by step: the limiter that may be made for its path, the record of it, and the
answer of the balancer. That all of this is at one pattern comes from the links between router and
relations, which every step keeps. -/

namespace Gateway

variable {β : Type} {env : Env} {rate : Rate β} {g g' g₀ : Gateway β} {req : Request} {a : Nat}
  {pattern path : String} {e : Event} {es : List Event}

/-- A limiter is asked just when the request is routed. -/
theorem limiterOf_eq_some {n : Node} : limiterOf n req = some (a, path) ↔ n.Routes req a path := by
  unfold limiterOf Node.Routes
  constructor
  · intro h
    split at h
    · next hpass =>
        obtain ⟨hosts, hr, hroute⟩ := Option.bind_eq_some_iff.mp h
        exact ⟨hpass.1, hpass.2, hosts, hr, hroute⟩
    · cases h
  · rintro ⟨hacl, hfiltered, hosts, hr, hroute⟩
    rw [if_pos ⟨hacl, hfiltered⟩, hr]
    exact hroute

theorem serveHTTP_of_not_routes (h : ∀ a path, ¬ g.node.Routes req a path) :
    (g.serveHTTP rate req).2 = g := by
  have hnone : limiterOf g.node req = none := by
    refine Option.eq_none_iff_forall_not_mem.mpr fun (a, path) hmem => ?_
    exact h a path (limiterOf_eq_some.mp hmem)
  unfold serveHTTP
  rw [hnone]
  show ({ g with node := (g.node.serveHTTP req).2 } : Gateway β) = g
  rw [Node.serveHTTP_of_not_routes h]

/-- What the request does to the node, whatever the limiter says. -/
theorem confined_serveHTTP (L : Linked g.node)
    (hp : g.node.current.relations.lookup pattern = some a) (h : g.node.Routes req a path) :
    Confined g.node (g.node.serveHTTP req).2 pattern a path := by
  -- turned away for want of a token, or balanced
  rcases Node.serveHTTP_of_routes h (L.serves hp).proxyMap with ⟨-, -, hn, -⟩ | ⟨hn, -⟩
  · rw [hn]
    exact .refl hp
  rw [hn]
  split
  · exact .balanced hp _
  · have hseen : Confined g.node (g.node.seen a g.node.proxyMap path) pattern a path := .seen L hp
    refine hseen.trans (.balanced ?_ _)
    rw [hseen.map]
    exact hp

/-! ### Limiters asked one at a time

The node and the limiters behind it are kept apart: a request is the request of the node with some verdict
of the limiter, and an assignment to one limiter. -/

/-- Tokens are not part of the node. -/
theorem node_setBucket : (g.setBucket a path x).node = g.node := rfl

/-- Only one limiter is assigned to. -/
theorem buckets_setBucket {b : Nat} {q : String} {x : β} (h : ¬ (b = a ∧ q = path)) :
    (g.setBucket a path x).buckets b q = g.buckets b q := by
  unfold setBucket
  by_cases hb : b = a
  · subst hb
    have hq : q ≠ path := fun hq => h ⟨rfl, hq⟩
    simp [hq]
  · simp [hb]

/-- An assignment to the limiter of the path, besides. -/
theorem isolated_of_confined {n' : Node} {x : β} (h : Confined g.node n' pattern a path)
    (L : Linked g.node) : Isolated g ({ g with node := n' }.setBucket a path x) pattern a path where
  toConfined := h
  buckets := fun b q hbq => buckets_setBucket hbq
  others := by
    intro q b hq hb
    -- no proxy serves two patterns
    have hba : b ≠ a := L.ne h.served hb hq
    exact ⟨h.proxies b hba, funext fun q' => buckets_setBucket fun hbq => hba hbq.1⟩

/-- The node does what it does for some verdict of the limiter, and one limiter is assigned to. -/
theorem serveHTTP_eq (rate : Rate β) (h : g.node.Routes req a path) :
    ∃ token x, (g.serveHTTP rate req).2 =
      { g with node := (g.node.serveHTTP { req with token := token }).2 }.setBucket a path x := by
  unfold serveHTTP
  simp only [limiterOf_eq_some.mpr h]
  split
  · exact ⟨req.token, _, rfl⟩
  · exact ⟨_, _, rfl⟩

/-- Whether there is a token has no part in the routing. -/
theorem routes_token {n : Node} {token : Bool} :
    n.Routes { req with token := token } a path ↔ n.Routes req a path := Iff.rfl

/-- A request that is routed touches what belongs to its path, at the proxy of one pattern. -/
theorem serveHTTP_of_routes (R : Ready g.node) (h : g.node.Routes req a path) :
    ∃ pattern, Isolated g (g.serveHTTP rate req).2 pattern a path := by
  have hroutes := h
  obtain ⟨-, -, hosts, hr, hroute⟩ := hroutes
  obtain ⟨pattern, hp⟩ := mem_of_route hroute
  -- the router answers from the table it was given last, and that is the map's
  have hrel : hosts = g.node.current.relations := by
    -- with no router there is no route at all
    rcases R.synced with hs | ⟨hs, -⟩ <;> rw [hs] at hr <;> cases hr
    rfl
  rw [hrel] at hp
  obtain ⟨token, x, heq⟩ := serveHTTP_eq rate h
  have hconfined : Confined g.node (g.node.serveHTTP { req with token := token }).2 pattern a path :=
    confined_serveHTTP R.linked hp (routes_token.mpr h)
  rw [heq]
  exact ⟨pattern, isolated_of_confined hconfined R.linked⟩

/-- On the node it is `SetRateLimiter`. -/
theorem node_setRateLimiter (info : LimiterInfo) :
    (g.setRateLimiter rate a info).2.node = (g.node.setRateLimiter a info).2 := by
  unfold Gateway.setRateLimiter
  split <;> rfl

/-- A fresh gateway is ready. -/
theorem Fresh.ready (h : Fresh g) : Ready g.node where
  linked := by
    refine ⟨by rw [h.current]; rfl, fun {p a} hp => ?_, fun {p a} hp => ?_⟩ <;>
      simp [h.current, newProxyMap] at hp
  synced := .inl (by rw [h.router, h.current]; rfl)

/-! ### Gateways that are reached

What was shown of one request holds of every gateway that is reached from a fresh one. -/

/-- Every step keeps router, proxies and maps linked. -/
theorem Step.ready (R : Ready g.node) (h : Step env rate g e g') : Ready g'.node := by
  cases h with
  | addProxyWithLocation h =>
      rcases R.addProxyWithLocation h with ⟨-, rfl, -⟩ | ⟨-, -, hchanged⟩
      · exact R
      · exact hchanged.ready
  | removeProxy h =>
      rcases R.removeProxy env h with ⟨-, rfl, -⟩ | ⟨-, -, hchanged⟩
      · exact R
      · exact hchanged.ready
  | setRateLimiter info hp =>
      rw [node_setRateLimiter]
      rcases R.setRateLimiter env hp (Prod.eta (g.node.setRateLimiter _ info)).symm with
        ⟨-, hn, -⟩ | ⟨-, -, hchanged⟩
      · rw [hn]
        exact R
      · exact hchanged.ready
  | acl t => exact ⟨⟨R.linked.routerType, R.linked.serves, R.linked.allocated⟩, R.synced⟩
  | serve req =>
      by_cases hroutes : ∃ a path, g.node.Routes req a path
      · obtain ⟨a, path, hroutes⟩ := hroutes
        obtain ⟨token, x, heq⟩ := serveHTTP_eq rate hroutes
        simp only [heq, node_setBucket]
        exact (R.serveHTTP env _).ready
      · rw [serveHTTP_of_not_routes fun a path h => hroutes ⟨a, path, h⟩]
        exact R

/-- In every state reached, a request that is denied, filtered or has no route changes nothing, and
any other what belongs to its path at the proxy it is routed to. -/
theorem serveHTTP_isolated (h₀ : Fresh g₀) (hrun : Trace (Step env rate) g₀ es g) (req : Request) :
    (g.node.acl.accessControl req.remoteAddr ≠ .ok false ∨ req.filtered ≠ none ∨
        (∀ hosts, g.node.router = some hosts →
          Node.route hosts req.path.toList req.path.toList.length = none) →
      (g.serveHTTP rate req).2 = g) ∧
    ∀ a path, g.node.Routes req a path →
      ∃ pattern, Isolated g (g.serveHTTP rate req).2 pattern a path := by
  have R : Ready g.node := hrun.invariant h₀.ready fun R h => Step.ready R h
  refine ⟨fun hout => serveHTTP_of_not_routes fun a path h => ?_, fun a path h => serveHTTP_of_routes R h⟩
  obtain ⟨hacl, hfiltered, hosts, hr, hroute⟩ := h
  rcases hout with hout | hout | hout
  · exact hout hacl
  · exact hout hfiltered
  · rw [hout hosts hr] at hroute
    cases hroute

def counted : Rate Int := ⟨fun limiter => limiter.burst, fun _ tokens => (decide (0 < tokens), tokens - 1)⟩

/-- A gateway with two patterns; `/v1` of one has a limiter. -/
def limited : Gateway Int :=
  let g : Gateway Int := ⟨(Node.new.addProxyWithLocation Env.plain
    ⟨"/api", ["http://a:80", "http://b:80"], "round-robin"⟩).2, fun _ _ => 0⟩
  let g : Gateway Int := { g with node := (g.node.addProxyWithLocation Env.plain
    ⟨"/web", ["http://c:80"], "round-robin"⟩).2 }
  (g.setRateLimiter counted 0 ⟨"/api", "/v1", "qps", 5, 1, 0, 0⟩).2

theorem serveHTTP_isolated_limited : ∃ pattern, Isolated limited
    (limited.serveHTTP counted ⟨"1.2.3.4:80", "/api/v1", none, true⟩).2 pattern 0 "/v1" := by
  have hrun : Trace (Step Env.plain counted) ⟨Node.new, fun _ _ => 0⟩ [] _ := .nil
  have hrun := hrun.snoc (e := Event.addProxyWithLocation ⟨"/api", ["http://a:80", "http://b:80"],
    "round-robin"⟩) (.addProxyWithLocation rfl)
  have hrun := hrun.snoc (e := Event.addProxyWithLocation ⟨"/web", ["http://c:80"], "round-robin"⟩)
    (.addProxyWithLocation rfl)
  have hrun := hrun.snoc (e := Event.setRateLimiter "/api" ⟨"/api", "/v1", "qps", 5, 1, 0, 0⟩)
    (.setRateLimiter (a := 0) _ (by decide))
  have hroutes : limited.node.Routes ⟨"1.2.3.4:80", "/api/v1", none, true⟩ 0 "/v1" :=
    ⟨by decide, rfl, _, rfl, by decide⟩
  exact (serveHTTP_isolated ⟨rfl, rfl⟩ hrun ⟨"1.2.3.4:80", "/api/v1", none, true⟩).2 0 "/v1" hroutes

end Gateway

end Cheryl.Server
