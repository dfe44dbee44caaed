import Cheryl.ReverseProxy.Config

/-!
# What a request does

`DefaultRouter.ServeHTTP` turns a request away, or routes it to a proxy (`Node.Routes`). Then it asks
the limiter of the rewritten path, which may be a new one (`Node.seen`), and the balancer. Everything
that serving a request can do to a node is said by `serveHTTP_of_not_routes` and
`serveHTTP_of_routes`.
-/

namespace Cheryl.ReverseProxy

open RateLimit Utils

namespace Node

/-! ## The course of a request -/

/-- The request is not denied, passes the filters, and has a route: to the proxy at `a`, with the
rewritten path. -/
def Routes (n : Node) (req : Request) (a : Nat) (path : String) : Prop :=
  n.acl.accessControl req.remoteAddr = .ok false ∧ req.filtered = none ∧
    ∃ hosts, n.router = some hosts ∧
      route hosts req.path.toList req.path.toList.length = some (a, path)

/-- The path is seen for the first time: the proxy at `a` gets a limiter for it, and the proxy map at
`m` a record. -/
def seen (n : Node) (a m : Nat) (path : String) : Node :=
  (n.modifyProxy a fun h => { h with methods := h.methods.insert path newQpsRateLimiter }).modifyMap m
    fun pm =>
      { pm with
        limiters := pm.limiters.insert (n.proxies a).pattern
          ((pm.limiters.lookup (n.proxies a).pattern).getD [] ++ [defaultLimiterInfo path]) }

/-- The balancer of the proxy at `a` has answered. -/
def balanced (n : Node) (a : Nat) (client : String) : Node :=
  n.modifyProxy a fun h => { h with lb := (h.lb.balance client).2 }

variable {n : Node} {req : Request} {a m : Nat} {path : String} {token : Bool}

/-- The limiter lets the request pass or not; a path without one gets one. -/
theorem invaildToken_of_mem (h : path ∈ (n.proxies a).methods) :
    n.invaildToken a path token = (.ok (if token then none else some noReaminTokenError), n) := by
  unfold invaildToken
  rw [if_pos h]

/-- A path seen for the first time lets its request pass. -/
theorem invaildToken_of_notMem (h : path ∉ (n.proxies a).methods)
    (hm : (n.proxies a).proxyMap = some m) :
    n.invaildToken a path token = (.ok none, n.seen a m path) := by
  unfold invaildToken configRate
  rw [if_neg h, if_neg h]
  unfold recordLimiter
  simp only [proxies_modifyProxy_self, hm]
  rw [proxies_modifyProxy_self]
  rfl

theorem serveHTTP_of_not_routes (h : ∀ a path, ¬ n.Routes req a path) : (n.serveHTTP req).2 = n := by
  unfold serveHTTP
  split
  · rfl
  · rfl
  · rfl
  · next hosts hacl hr =>
      split
      · rfl
      · rfl
      · next a path hfiltered hroute => exact absurd ⟨hacl, hfiltered, hosts, hr, hroute⟩ (h a path)

/-- A request that is routed is stopped by the limiter, or comes to the balancer. Only there can it
end in a panic, with a host that is not in `HostMap`. -/
theorem serveHTTP_of_routes (h : n.Routes req a path) (hm : (n.proxies a).proxyMap = some m) :
    (path ∈ (n.proxies a).methods ∧ req.token = false ∧ (n.serveHTTP req).2 = n ∧
        ∃ err, (n.serveHTTP req).1 = .ok (.badRequest err)) ∨
      ((n.serveHTTP req).2 = (if path ∈ (n.proxies a).methods then n else n.seen a m path).balanced a
          (getIP req.remoteAddr) ∧
        ∀ fault, (n.serveHTTP req).1 = .error fault → ∃ host,
          ((n.proxies a).lb.balance (getIP req.remoteAddr)).1 = .ok host ∧
            host ∉ (n.proxies a).hostMap) := by
  obtain ⟨hacl, hfiltered, hosts, hr, hroute⟩ := h
  -- what is left to do after the limiter
  have hrest : ∀ n₁ : Node, n.invaildToken a path req.token = (.ok none, n₁) →
      (n₁.proxies a).lb = (n.proxies a).lb → (n₁.proxies a).hostMap = (n.proxies a).hostMap →
      (n.serveHTTP req).2 = n₁.balanced a (getIP req.remoteAddr) ∧
        ∀ fault, (n.serveHTTP req).1 = .error fault → ∃ host,
          ((n.proxies a).lb.balance (getIP req.remoteAddr)).1 = .ok host ∧
            host ∉ (n.proxies a).hostMap := by
    intro n₁ htoken hlb hhosts
    unfold serveHTTP
    simp only [hacl, hfiltered, hr, hroute, htoken]
    cases hres : ((n₁.proxies a).lb.balance (getIP req.remoteAddr)).1 with
    | error err => exact ⟨rfl, fun fault hfault => by cases hfault⟩
    | ok host =>
        simp only [proxies_modifyProxy_self]
        cases hlookup : (n₁.proxies a).hostMap.lookup host with
        | some url => exact ⟨rfl, fun fault hfault => by cases hfault⟩
        | none =>
            refine ⟨rfl, fun fault _ => ⟨host, hlb ▸ hres, ?_⟩⟩
            rw [← hhosts]
            exact Finmap.lookup_eq_none.mp hlookup
  by_cases hmem : path ∈ (n.proxies a).methods
  · rw [if_pos hmem]
    have htoken : n.invaildToken a path req.token =
        (.ok (if req.token then none else some noReaminTokenError), n) := invaildToken_of_mem hmem
    -- a path that has a limiter asks it, and without a token the request ends there
    cases hreq : req.token with
    | true =>
        rw [hreq] at htoken
        exact .inr (hrest n (by rw [hreq]; exact htoken) rfl rfl)
    | false =>
        rw [hreq] at htoken
        refine .inl ⟨hmem, rfl, ?_⟩
        unfold serveHTTP
        simp only [hacl, hfiltered, hr, hroute, hreq, htoken]
        exact ⟨rfl, _, rfl⟩
  · rw [if_neg hmem]
    refine .inr (hrest _ (invaildToken_of_notMem hmem hm) ?_ ?_)
    · simp [seen]
    · simp [seen]

end Node

end Cheryl.ReverseProxy
