import Cheryl.Acl.RadixTree
import Cheryl.ReverseProxy.HttpProxy

/-!
# `reverse_proxy/`: the proxy map and the router

A `Node` holds what the packages keep in memory: the objects behind the pointers `*HTTPProxy` and
`*ProxyMap`, by address, and the globals `State.ProxyMap`, `RouterSingleton` and
`AccessControlList`. A function of the source is a function on nodes. It returns the state also
where it panics: the handlers of an `http.Server` are recovered, and what they changed stays.
-/

namespace Cheryl.ReverseProxy

open Acl RateLimit Utils

/-- `ProxyMap`. The keys of `Locations` and `Relations` are patterns. -/
structure ProxyMap where
  relations : GoMap String Nat
  locations : GoMap String Location
  limiters : GoMap String (List LimiterInfo)
  routerType : String

def newProxyMap : ProxyMap := ⟨∅, ∅, ∅, "default"⟩

/-! ## Nodes and requests

Addresses are numbers that are given out in order, so a proxy that a pattern no longer leads to keeps its
object, as it does in the source as long as a goroutine holds it. -/

structure Node where
  proxies : Nat → HTTPProxy
  nextProxy : Nat
  proxyMaps : Nat → ProxyMap
  nextMap : Nat
  /-- `State.ProxyMap` -/
  proxyMap : Nat
  /-- `RouterSingleton`: `nil`, or the table `hosts` of the `DefaultRouter` -/
  router : Option (GoMap String Nat)
  /-- `AccessControlList` -/
  acl : RadixTree

/-- A request, as far as the router looks at it, with what is decided elsewhere: the verdict of the
filter chain, and whether a configured limiter has a token. -/
structure Request where
  remoteAddr : String
  path : String
  filtered : Option GoError
  token : Bool

inductive Response
  | forbidden
  | filtered (err : GoError)
  | notFound
  | badRequest (err : GoError)
  | badGateway (err : GoError)
  | forwarded (url : URL) (path : String)

/-! ## `HTTPProxy.ServeHTTP`

The gate of the proxy, the balancer, and the host that `HostMap` has for the answer. A host the balancer
knows and the map does not is a `nil` `*ReverseProxy`, whose `ServeHTTP` panics. -/

/-- `accessControl` of a proxy: whether the address may pass. The address is searched for as it is,
with its port. -/
def HTTPProxy.accessControl (t : RadixTree) (ip : String) : Except Fault Bool :=
  (t.Search ip).map fun ret => decide (ret = "")

/-- `HTTPProxy.ServeHTTP`, for a request for the path. -/
def HTTPProxy.serveHTTP (h : HTTPProxy) (t : RadixTree) (remoteAddr path : String) :
    Except Fault Response × HTTPProxy :=
  match HTTPProxy.accessControl t remoteAddr with
  | .error fault => (.error fault, h)
  | .ok false => (.ok .forbidden, h)
  | .ok true =>
      let res := h.lb.balance (getIP remoteAddr)
      let h := { h with lb := res.2 }
      match res.1 with
      | .error err => (.ok (.badGateway err), h)
      | .ok host =>
          match h.hostMap.lookup host with
          | none => (.error .nilDereference, h)
          | some url => (.ok (.forwarded url path), h)

/-! ## Assignments through pointers

A `*HTTPProxy` or `*ProxyMap` in hand is an address, and an assignment through it is a change of the object
there: everyone who has the pointer sees it. -/

/-- How a call that returns an `error` ends. -/
abbrev Outcome := Except Fault (Option GoError)

namespace Node

def new : Node where
  proxies := fun _ => ⟨∅, "", .roundRobin ⟨0, []⟩, ∅, ∅, ∅, false, none⟩
  nextProxy := 0
  proxyMaps := fun _ => newProxyMap
  nextMap := 1
  proxyMap := 0
  router := some ∅
  acl := .new

/-- The object behind `State.ProxyMap`. -/
def current (n : Node) : ProxyMap := n.proxyMaps n.proxyMap

def modifyProxy (n : Node) (a : Nat) (f : HTTPProxy → HTTPProxy) : Node :=
  { n with proxies := Function.update n.proxies a (f (n.proxies a)) }

def modifyMap (n : Node) (m : Nat) (f : ProxyMap → ProxyMap) : Node :=
  { n with proxyMaps := Function.update n.proxyMaps m (f (n.proxyMaps m)) }

/-- `GetRouterInstance`; `once.Do` is reached only while there is no router, so it does run. -/
def getRouterInstance (n : Node) (name : String) : Node :=
  if n.router = none ∧ name = "default" then { n with router := some ∅ } else n

/-! ## `proxyMap.go`

The four calls that the administration of a node comes down to. Each looks the pattern up in `Relations` and
goes on from the pointer it finds; what it has changed before it panics stays changed. -/

def allocProxy (n : Node) (proxy : HTTPProxy) : Node :=
  { n with proxies := Function.update n.proxies n.nextProxy proxy, nextProxy := n.nextProxy + 1 }

/-- `AddRelations` on `State.ProxyMap`. The pattern is in the map before the router is asked for. -/
def addRelations (n : Node) (pattern : String) (proxy : HTTPProxy) (location : Location) :
    Outcome × Node :=
  let a := n.nextProxy
  let n := n.allocProxy { proxy with proxyMap := some n.proxyMap }
  let n := n.modifyMap n.proxyMap fun m =>
    { m with
      relations := m.relations.insert pattern a
      locations := m.locations.insert pattern location }
  match n.router with
  | none => (.error .nilDereference, n)
  | some hosts => (.ok none, { n with router := some (hosts.insert pattern a) })

def addProxyWithLocation (env : Env) (n : Node) (l : Location) : Outcome × Node :=
  match newHTTPProxy env l.pattern l.proxyPass l.balanceMode with
  | .error err => (.ok (some err), n)
  | .ok httpProxy => n.addRelations l.pattern httpProxy l

/-- The error of `AddProxy` for an unknown pattern. -/
def patternNotExists : GoError := ⟨"pattern is not exists, please use config or webui first"⟩

/-- `AddProxy`: one more host for a pattern. -/
def addProxy (env : Env) (n : Node) (pattern host : String) : Outcome × Node :=
  match n.current.relations.lookup pattern with
  | none => (.ok (some patternNotExists), n)
  | some httpProxy =>
      match env.parse host with
      | .error err => (.ok (some err), n)
      | .ok url =>
          let host := getHost url
          (.ok none, n.modifyProxy httpProxy fun h =>
            { h with
              hostMap := h.hostMap.insert host url
              alive := h.alive.insert host true
              hostsShutDown := insert host h.hostsShutDown
              lb := h.lb.add host })

/-- The error of `RemoveProxy` for an unknown pattern. -/
def cantFindReverseproxy (pattern : String) : GoError :=
  ⟨"can't find the reverseproxy with the pattern " ++ pattern⟩

/-- `RemoveProxy`. The send on `ShutDown` needs its goroutine, which ends with the first one. -/
def removeProxy (n : Node) (pattern : String) : Outcome × Node :=
  match n.current.relations.lookup pattern with
  | none => (.ok (some (cantFindReverseproxy pattern)), n)
  | some httpProxy =>
      if (n.proxies httpProxy).shutDownCheck = true then
        let n := n.modifyProxy httpProxy fun h => { h with shutDownCheck := false }
        match n.router with
        | none => (.error .nilDereference, n)
        | some hosts =>
            let n := { n with router := some (hosts.erase pattern) }
            (.ok none, n.modifyMap n.proxyMap fun m =>
              { m with
                relations := m.relations.erase pattern
                locations := m.locations.erase pattern })
      else (.error .hang, n)

/-- The error of `RemoveHost` when nobody receives in time. -/
def shutDownTimeout : GoError := ⟨"shut down reverproxy timeout"⟩

/-- `RemoveHost`. It reads a field of the proxy before it tests whether there is one. `received`
says whether a health checker of the host takes the message within the five seconds; a host
without a channel has a `nil` one, on which nobody receives. -/
def removeHost (n : Node) (pattern host : String) (received : Bool) : Outcome × Node :=
  match n.current.relations.lookup pattern with
  | none => (.error .nilDereference, n)
  | some httpProxy =>
      if received = true ∧ host ∈ (n.proxies httpProxy).hostsShutDown then
        (.ok none, n.modifyProxy httpProxy fun h => { h with hostMap := h.hostMap.erase host })
      else (.ok (some shutDownTimeout), n)

/-! ## The methods of `HTTPProxy` that reach the proxy map

A limiter is kept twice: in `Methods` of the proxy as what takes tokens, and in `Limiters` of the proxy map
as what is written into snapshots. The two are reached through different pointers, `HTTPProxy.ProxyMap`
being the map the proxy was added to. -/

/-- Record a limiter: `limiters[httpProxy.Pattern] = append(limiters[httpProxy.Pattern], info)` -/
def recordLimiter (n : Node) (a : Nat) (info : LimiterInfo) : Outcome × Node :=
  match (n.proxies a).proxyMap with
  | none => (.error .nilDereference, n)
  | some m =>
      let pattern := (n.proxies a).pattern
      (.ok none, n.modifyMap m fun pm =>
        { pm with
          limiters := pm.limiters.insert pattern ((pm.limiters.lookup pattern).getD [] ++ [info]) })

def setRateLimiter (n : Node) (a : Nat) (info : LimiterInfo) : Outcome × Node :=
  match RateLimit.build info.limiterType with
  | .error err => (.ok (some err), n)
  | .ok limiter =>
      let n := n.modifyProxy a fun h =>
        { h with methods := h.methods.insert info.pathName (info.limiter limiter) }
      n.recordLimiter a info

def configRate (n : Node) (a : Nat) (path : String) : Outcome × Node :=
  if path ∈ (n.proxies a).methods then (.ok (some limiterAlreadyExists), n)
  else
    let n := n.modifyProxy a fun h => { h with methods := h.methods.insert path newQpsRateLimiter }
    n.recordLimiter a (defaultLimiterInfo path)

/-- `invaildToken` on the proxy at `a`. `token` says whether a configured limiter has one left. -/
def invaildToken (n : Node) (a : Nat) (api : String) (token : Bool) : Outcome × Node :=
  if api ∈ (n.proxies a).methods then
    (.ok (if token then none else some noReaminTokenError), n)
  else n.configRate a api

/-- `ChangeLb` on `Relations[pattern]`, which may be `nil`. The hosts come in the order in which
`range` visits `HostMap`. -/
def changeLb (env : Env) (n : Node) (pattern mode : String) (order : List String) : Outcome × Node :=
  match n.current.relations.lookup pattern with
  | none => (.error .nilDereference, n)
  | some a =>
      match Balancer.build env.toEnv mode order with
      | .error err => (.ok (some err), n)
      | .ok lb => (.ok none, n.modifyProxy a fun h => { h with lb := lb })

/-! ## `default_router.go`

A request goes through the access list, the filter chain, the route, the limiter of the rewritten path and
the balancer, in this order, and each can end it. The limiter of a path that is seen for the first time is
made on the way. -/

/-- `Route`: the proxy of the longest prefix of the path that ends before a slash, and the rest of
the path from that slash. `i` counts down from the end. -/
def route (hosts : GoMap String Nat) (path : List Char) : Nat → Option (Nat × String)
  | 0 => none
  | i + 1 =>
      if path[i]? = some '/' then
        match hosts.lookup (String.ofList (path.take i)) with
        | some a => some (a, String.ofList (path.drop i))
        | none => route hosts path i
      else route hosts path i

def serveHTTP (n : Node) (req : Request) : Except Fault Response × Node :=
  match n.acl.accessControl req.remoteAddr, n.router with
  | .error fault, _ => (.error fault, n)
  | .ok true, _ => (.ok .forbidden, n)
  | .ok false, none => (.error .nilDereference, n)
  | .ok false, some hosts =>
      match req.filtered, route hosts req.path.toList req.path.toList.length with
      | some err, _ => (.ok (.filtered err), n)
      | none, none => (.ok .notFound, n)
      | none, some (a, realpath) =>
          match n.invaildToken a realpath req.token with
          | (.error fault, n) => (.error fault, n)
          | (.ok (some err), n) => (.ok (.badRequest err), n)
          | (.ok none, n) =>
              let res := (n.proxies a).lb.balance (getIP req.remoteAddr)
              let n := n.modifyProxy a fun h => { h with lb := res.2 }
              match res.1 with
              | .error err => (.ok (.badGateway err), n)
              | .ok host =>
                  match (n.proxies a).hostMap.lookup host with
                  | none => (.error .nilDereference, n)
                  | some url => (.ok (.forwarded url realpath), n)

end Node

end Cheryl.ReverseProxy
