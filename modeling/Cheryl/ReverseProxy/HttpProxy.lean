import Cheryl.Balancer
import Cheryl.RateLimit

/-!
# `reverse_proxy/http_proxy.go`: the proxy of one pattern
-/

namespace Cheryl.ReverseProxy

open Utils RateLimit

/-- What the proxies read of their surroundings: `url.Parse`, and what the balancers read. -/
structure Env extends Balancer.Env where
  parse : String → Except GoError URL

/-- Surroundings to try things in: every target is a URL of the form `http://host`. -/
def Env.plain : Env where
  hash := fun s => s.length
  replicas := 1
  parse := fun s => .ok ⟨"http", String.ofList (s.toList.drop 7)⟩

/-! ## The proxy and its parts

What a proxy keeps per host sits in three maps with the same keys, `HostMap`, `Alive` and the channels of
`HostsShutDown`, and in the balancer beside them. The constructor fills all of them from one list of
targets; the calls on a running proxy do not always keep them together. -/

structure Location where
  pattern : String
  proxyPass : List String
  balanceMode : String
  deriving DecidableEq, Repr

structure LimiterInfo where
  Prefix : String
  pathName : String
  limiterType : String
  volumn : Int
  speed : Int
  maxThread : Int
  duration : Int
  deriving DecidableEq, Repr

/-- `HTTPProxy`. A `ReverseProxy` is the URL it forwards to. `hostsShutDown` are the hosts with a
channel; `shutDownCheck` says that the goroutine of that name still waits on `ShutDown`. The
`ProxyMap` is an address, `none` before `AddRelations`. -/
structure HTTPProxy where
  hostMap : GoMap String URL
  pattern : String
  lb : Balancer
  alive : GoMap String Bool
  methods : GoMap String QpsRateLimiter
  hostsShutDown : Finset String
  shutDownCheck : Bool
  proxyMap : Option Nat

/-! ## `NewHTTPProxy`

The first target that is no URL ends the constructor. After it the balancer is built, so an unknown
algorithm is found after the health checkers of the hosts could have started; they are started only when
both are well. -/

/-- `url.Parse` for each target in turn, up to the first error. -/
def parseHosts (env : Env) : List String → Except GoError (List (String × URL))
  | [] => .ok []
  | targetHost :: targetHosts =>
      match env.parse targetHost with
      | .error err => .error err
      | .ok url =>
          match parseHosts env targetHosts with
          | .error err => .error err
          | .ok hosts => .ok ((getHost url, url) :: hosts)

/-- The maps of the loop: a later target of the same host overwrites an earlier one. -/
def fill {ν : Type} (hosts : List (String × URL)) (f : URL → ν) : GoMap String ν :=
  hosts.foldl (fun m h => m.insert h.1 (f h.2)) ∅

/-- `NewHTTPProxy`; it starts the goroutine `shutDownCheck`. -/
def newHTTPProxy (env : Env) (pattern : String) (targetHosts : List String) (algo : String) :
    Except GoError HTTPProxy :=
  match parseHosts env targetHosts with
  | .error err => .error err
  | .ok hosts =>
      match Balancer.build env.toEnv algo (hosts.map Prod.fst) with
      | .error err => .error err
      | .ok lb =>
          .ok
            { hostMap := fill hosts id
              pattern := pattern
              lb := lb
              alive := fill hosts fun _ => true
              methods := ∅
              hostsShutDown := (hosts.map Prod.fst).toFinset
              shutDownCheck := true
              proxyMap := none }

/-- The limiter `SetRateLimiter` makes from a `LimiterInfo` of a supported type. -/
def LimiterInfo.limiter (info : LimiterInfo) (limiter : QpsRateLimiter) : QpsRateLimiter :=
  let limiter := if info.speed ≠ 0 then limiter.setRate info.volumn info.speed else limiter
  -- `time.Duration(info.Duration) * time.Millisecond`
  if info.duration ≠ 0 then limiter.setTimeout (wrap64 (info.duration * 1000000)) else limiter

/-- The entry `configRate` records for a path seen for the first time. -/
def defaultLimiterInfo (path : String) : LimiterInfo where
  Prefix := ""
  pathName := path
  limiterType := "qps"
  volumn := -1
  speed := 0
  maxThread := -1
  duration := 0

/-! ## The hosts of a location

Two targets can stand for one host, `http://a` and `http://a:80`. The maps have such a host once, and the
list that the balancer is built from has it twice. -/

/-- The hosts a list of targets stands for. -/
def hostsOf (env : Env) (targets : List String) : Finset String :=
  match parseHosts env targets with
  | .error _ => ∅
  | .ok hosts => (hosts.map Prod.fst).toFinset

/-- The keys of the maps are the hosts. -/
theorem keys_fill {ν : Type} (hosts : List (String × URL)) (f : URL → ν) :
    (fill hosts f).keys = (hosts.map Prod.fst).toFinset := by
  -- for any map to begin with, since the loop fills the one it has
  suffices H : ∀ m : GoMap String ν, (hosts.foldl (fun m h => m.insert h.1 (f h.2)) m).keys =
      m.keys ∪ (hosts.map Prod.fst).toFinset by
    rw [fill, H]; simp
  induction hosts with
  | nil => intro m; simp
  | cons h hosts ih =>
      intro m
      rw [List.foldl_cons, ih]
      ext s
      simp only [Finset.mem_union, Finmap.mem_keys, Finmap.mem_insert, List.map_cons,
        List.toFinset_cons, Finset.mem_insert]
      rw [or_assoc, or_left_comm]

/-- A map that is filled with one value has no other. -/
theorem lookup_fill_const {ν : Type} (hosts : List (String × URL)) {b v : ν} {host : String}
    (h : (fill hosts fun _ => b).lookup host = some v) : v = b := by
  suffices H : ∀ m : GoMap String ν, (∀ v, m.lookup host = some v → v = b) →
      (hosts.foldl (fun m h => m.insert h.1 b) m).lookup host = some v → v = b by
    exact H ∅ (fun v hv => by simp at hv) h
  clear h
  induction hosts with
  | nil => exact fun m hm hv => hm v hv
  | cons h hosts ih =>
      intro m hm
      refine ih (m.insert h.1 b) fun v hv => ?_
      by_cases heq : host = h.1
      · subst heq
        rw [Finmap.lookup_insert] at hv
        exact (Option.some.inj hv).symm
      · rw [Finmap.lookup_insert_of_ne _ heq] at hv
        exact hm v hv

/-- The proxy of a location, as far as its routing goes. -/
theorem newHTTPProxy_ok {env : Env} {pattern algo : String} {targets : List String}
    {proxy : HTTPProxy} (h : newHTTPProxy env pattern targets algo = .ok proxy) :
    proxy.pattern = pattern ∧ proxy.hostMap.keys = hostsOf env targets ∧ proxy.lb.mode = algo ∧
      proxy.methods = ∅ ∧ proxy.shutDownCheck = true ∧
      proxy.hostMap.keys ⊆ proxy.hostsShutDown := by
  unfold newHTTPProxy at h
  split at h
  · cases h
  · next hosts hhosts =>
      split at h
      · cases h
      · next lb hlb =>
          cases h
          refine ⟨rfl, ?_, Balancer.mode_build hlb, rfl, rfl, ?_⟩
          · show (fill hosts id).keys = _
            rw [keys_fill, hostsOf, hhosts]
          · show (fill hosts id).keys ⊆ _
            rw [keys_fill]

end Cheryl.ReverseProxy
