import Cheryl.Library.Locks
import Cheryl.ReverseProxy.HealthCheck

/-!
# The locks of `reverse_proxy/`

The functions of the packages once more, with the locks they take and with `RemoveProxy` waiting for the
goroutine `shutDownCheck`. What a function does between two of these is one step. Each of them does what
its definition on nodes says when it is alone (`alone_addRelations` and those that follow it). Some accesses
to maps have no lock around them. They are steps like any other here: that Go ends the process when two of
them collide is left out.

The functions get the rest of the call as `k`. A panic runs the deferred `Unlock`s, so it is handed on
like a result.
-/

namespace Cheryl.ReverseProxy.Locking

open Library.Locks Acl RateLimit Utils

inductive Mutex
  /-- raft applies one entry at a time -/
  | fsm
  | proxyMap (m : Nat)
  | httpProxy (a : Nat)
  | router
  /-- the balancers of a proxy, of which there is one at a time -/
  | lb (a : Nat)
  /-- the limiters of a path -/
  | limiter (a : Nat) (path : String)
  deriving DecidableEq

/-- A call, with `ρ` for what it returns. -/
abbrev Call (ρ : Type) := Prog Node Mutex ρ

section Calls

variable {ρ : Type}

/-! ## `default_router.go`

The router has a lock around each access to its table, and no lock around two of them. `HasPrefix` and the
lookup that follows it in `Route` are two. -/

def routerAdd (pattern : String) (a : Nat) (k : Outcome → Call ρ) : Call ρ :=
  .read fun n =>
    match n.router with
    | none => k (.error .nilDereference)
    | some _ =>
        .lock .write .router <|
          .set (fun n => { n with router := n.router.map fun hosts => hosts.insert pattern a }) fun _ =>
            .unlock .router (k (.ok none))

def routerRemove (pattern : String) (k : Outcome → Call ρ) : Call ρ :=
  .read fun n =>
    match n.router with
    | none => k (.error .nilDereference)
    | some _ =>
        .lock .write .router <|
          .set (fun n => { n with router := n.router.map fun hosts => hosts.erase pattern }) fun _ =>
            .unlock .router (k (.ok none))

/-- What the router has for the pattern. -/
def routed (n : Node) (pattern : String) : Option Nat := n.router.bind fun hosts => hosts.lookup pattern

def hasPrefix (pattern : String) (k : Bool → Call ρ) : Call ρ :=
  .lock .read .router <| .read fun n => .unlock .router (k (routed n pattern).isSome)

/-- `Route`. The table is looked into again for a prefix that it has; when this one has been removed in
the meantime, there is no proxy. -/
def route (path : List Char) : Nat → (Option (Nat × String) → Call ρ) → Call ρ
  | 0, k => k none
  | i + 1, k =>
      if path[i]? = some '/' then
        hasPrefix (String.ofList (path.take i)) fun has =>
          if has = true then
            .read fun n =>
              k ((routed n (String.ofList (path.take i))).map fun a => (a, String.ofList (path.drop i)))
          else route path i k
      else route path i k

/-! ## `proxyMap.go`

`RemoveProxy` holds the lock of the proxy map from its lookup to its last `delete`, and waits for a
goroutine and for the lock of the router meanwhile. `AddProxy`, `AddRelations` and `RemoveHost` take no lock
of the map at all. -/

/-- The object of a new proxy, in the maps of its proxy map. -/
def related (m : Nat) (pattern : String) (proxy : HTTPProxy) (location : Location) (n : Node) : Node :=
  (n.allocProxy { proxy with proxyMap := some m }).modifyMap m fun pm =>
    { pm with
      relations := pm.relations.insert pattern n.nextProxy
      locations := pm.locations.insert pattern location }

def addRelations (m : Nat) (pattern : String) (proxy : HTTPProxy) (location : Location)
    (k : Outcome → Call ρ) : Call ρ :=
  .set (related m pattern proxy location) fun n => routerAdd pattern n.nextProxy k

def addProxyWithLocation (env : Env) (m : Nat) (l : Location) (k : Outcome → Call ρ) : Call ρ :=
  match newHTTPProxy env l.pattern l.proxyPass l.balanceMode with
  | .error err => k (.ok (some err))
  | .ok httpProxy => addRelations m l.pattern httpProxy l k

def lbAdd (a : Nat) (host : String) (k : Call ρ) : Call ρ :=
  .lock .write (.lb a) <|
    .set (fun n => n.modifyProxy a fun h => { h with lb := h.lb.add host }) fun _ => .unlock (.lb a) k

/-- The new host in the maps of a proxy. -/
def hosted (a : Nat) (url : URL) (n : Node) : Node :=
  n.modifyProxy a fun h =>
    { h with
      hostMap := h.hostMap.insert (getHost url) url
      alive := h.alive.insert (getHost url) true
      hostsShutDown := insert (getHost url) h.hostsShutDown }

def addProxy (env : Env) (m : Nat) (pattern host : String) (k : Outcome → Call ρ) : Call ρ :=
  .read fun n =>
    match (n.proxyMaps m).relations.lookup pattern with
    | none => k (.ok (some Node.patternNotExists))
    | some httpProxy =>
        match env.parse host with
        | .error err => k (.ok (some err))
        | .ok url => .set (hosted httpProxy url) fun _ => lbAdd httpProxy (getHost url) (k (.ok none))

/-- The message on `ShutDown` has been received. -/
def shutDown (a : Nat) (n : Node) : Node := n.modifyProxy a fun h => { h with shutDownCheck := false }

/-- `delete` from the maps of a proxy map. -/
def unrelated (m : Nat) (pattern : String) (n : Node) : Node :=
  n.modifyMap m fun pm =>
    { pm with
      relations := pm.relations.erase pattern
      locations := pm.locations.erase pattern }

/-- `RemoveProxy`. The send on `ShutDown` waits for the goroutine of the proxy. -/
def removeProxy (m : Nat) (pattern : String) (k : Outcome → Call ρ) : Call ρ :=
  .lock .write (.proxyMap m) <| .read fun n =>
    match (n.proxyMaps m).relations.lookup pattern with
    | none => .unlock (.proxyMap m) (k (.ok (some (Node.cantFindReverseproxy pattern))))
    | some httpProxy =>
        .act (fun n => (n.proxies httpProxy).shutDownCheck) (shutDown httpProxy) fun _ =>
          routerRemove pattern fun out =>
            match out with
            | .error fault => .unlock (.proxyMap m) (k (.error fault))
            | .ok _ => .set (unrelated m pattern) fun _ => .unlock (.proxyMap m) (k (.ok none))

def removeHost (m : Nat) (pattern host : String) (received : Bool) (k : Outcome → Call ρ) : Call ρ :=
  .read fun n =>
    match (n.proxyMaps m).relations.lookup pattern with
    | none => k (.error .nilDereference)
    | some httpProxy =>
        if received = true ∧ host ∈ (n.proxies httpProxy).hostsShutDown then
          .set (fun n => n.modifyProxy httpProxy fun h => { h with hostMap := h.hostMap.erase host })
            fun _ => k (.ok none)
        else k (.ok (some Node.shutDownTimeout))

/-! ## `http_proxy.go`

The proxy has one lock for its maps, each limiter one for its timeout, and each balancer one for its list.
-/

/-- The limiter is in `Methods`, and recorded. -/
def limited (a : Nat) (info : LimiterInfo) (limiter : QpsRateLimiter) (n : Node) : Outcome × Node :=
  (n.modifyProxy a fun h =>
    { h with methods := h.methods.insert info.pathName (info.limiter limiter) }).recordLimiter a info

/-- `SetRateLimiter`; `SetTimeout` takes the lock of the limiter. -/
def setRateLimiter (a : Nat) (info : LimiterInfo) (k : Outcome → Call ρ) : Call ρ :=
  .lock .write (.httpProxy a) <|
    match RateLimit.build info.limiterType with
    | .error err => .unlock (.httpProxy a) (k (.ok (some err)))
    | .ok limiter =>
        let rest : Call ρ := .set (fun n => (limited a info limiter n).2) fun n =>
          .unlock (.httpProxy a) (k (limited a info limiter n).1)
        if info.duration ≠ 0 then
          .lock .write (.limiter a info.pathName) (.unlock (.limiter a info.pathName) rest)
        else rest

/-- `invaildToken`; `GetTimeout` takes the lock of the limiter. -/
def invaildToken (a : Nat) (api : String) (token : Bool) (k : Outcome → Call ρ) : Call ρ :=
  .read fun n =>
    if api ∈ (n.proxies a).methods then
      .lock .read (.limiter a api) <| .unlock (.limiter a api) <|
        k (.ok (if token then none else some noReaminTokenError))
    else
      .lock .write (.httpProxy a) <| .set (fun n => (n.configRate a api).2) fun n =>
        .unlock (.httpProxy a) (k (n.configRate a api).1)

def balance (a : Nat) (client : String) (k : Except GoError String → Call ρ) : Call ρ :=
  .lock .read (.lb a) <| .set (fun n => n.balanced a client) fun n =>
    .unlock (.lb a) (k ((n.proxies a).lb.balance client).1)

/-- `ChangeLb` on `Relations[pattern]` -/
def changeLb (env : Env) (pattern mode : String) (order : List String) (k : Outcome → Call ρ) :
    Call ρ :=
  .set (fun n => (n.changeLb env pattern mode order).2) fun n => k (n.changeLb env pattern mode order).1

/-! ## `health_check.go`

A round takes the locks of the proxy and of the balancer one after the other, and never two at once. -/

def readAlive (a : Nat) (url : String) (k : Bool → Call ρ) : Call ρ :=
  .lock .read (.httpProxy a) <| .read fun n => .unlock (.httpProxy a) (k ((n.proxies a).readAlive url))

def setAlive (a : Nat) (url : String) (alive : Bool) (k : Call ρ) : Call ρ :=
  .lock .write (.httpProxy a) <| .set (fun n => n.modifyProxy a fun h => h.setAlive url alive) fun _ =>
    .unlock (.httpProxy a) k

/-- What `Lb.Remove` comes to. -/
def lbRemoved (a : Nat) (host : String) (n : Node) : Outcome × Node :=
  match (n.proxies a).lb.remove host with
  | .error fault => (.error fault, n)
  | .ok lb => (.ok none, n.modifyProxy a fun h => { h with lb := lb })

def lbRemove (a : Nat) (host : String) (k : Outcome → Call ρ) : Call ρ :=
  .lock .write (.lb a) <| .set (fun n => (lbRemoved a host n).2) fun n =>
    .unlock (.lb a) (k (lbRemoved a host n).1)

def healthCheck (a : Nat) (host : String) (first second : Bool) (k : Outcome → Call ρ) : Call ρ :=
  let recover : Call ρ :=
    if second = true then
      readAlive a host fun alive =>
        if alive = false then setAlive a host true (lbAdd a host (k (.ok none))) else k (.ok none)
    else k (.ok none)
  if first = false then
    readAlive a host fun alive =>
      if alive = true then setAlive a host false (lbRemove a host k) else recover
  else recover

/-! ## `DefaultRouter.ServeHTTP`

A request goes through the locks of the router, of the proxy or a limiter, and of the balancer, and lets go
of each before it takes the next. -/

def forward (req : Request) (a : Nat) (realpath : String) (k : Except Fault Response → Call ρ) :
    Call ρ :=
  balance a (getIP req.remoteAddr) fun res =>
    match res with
    | .error err => k (.ok (.badGateway err))
    | .ok host =>
        .read fun n =>
          match (n.proxies a).hostMap.lookup host with
          | none => k (.error .nilDereference)
          | some url => k (.ok (.forwarded url realpath))

def serveHTTP (req : Request) (k : Except Fault Response → Call ρ) : Call ρ :=
  .read fun n =>
    match n.acl.accessControl req.remoteAddr, n.router with
    | .error fault, _ => k (.error fault)
    | .ok true, _ => k (.ok .forbidden)
    | .ok false, none => k (.error .nilDereference)
    | .ok false, some _ =>
        match req.filtered with
        | some err => k (.ok (.filtered err))
        | none =>
            route req.path.toList req.path.toList.length fun found =>
              match found with
              | none => k (.ok .notFound)
              | some (a, realpath) =>
                  invaildToken a realpath req.token fun out =>
                    match out with
                    | .error fault => k (.error fault)
                    | .ok (some err) => k (.ok (.badRequest err))
                    | .ok none => forward req a realpath k

/-! ## Calls that are alone

When nobody else takes a step, a call runs through and does what its definition on nodes does. This connects
the two descriptions of each function: the theorems about nodes are about calls that are alone, those of
this file about calls that are not. -/

section Alone

variable {env : Env} {n : Node} {pattern host : String} {k : Outcome → Call ρ} {a : Nat}

theorem modifyProxy_modifyProxy (n : Node) (a : Nat) (f g : HTTPProxy → HTTPProxy) :
    (n.modifyProxy a f).modifyProxy a g = n.modifyProxy a fun h => g (f h) := by
  simp [Node.modifyProxy]

theorem alone_routerAdd {hosts : GoMap String Nat} (hr : n.router = some hosts) :
    (routerAdd pattern a k).alone n =
      (k (.ok none)).alone { n with router := some (hosts.insert pattern a) } := by
  simp [routerAdd, hr]

/-- Without a router it panics. -/
theorem alone_routerAdd_none (hr : n.router = none) :
    (routerAdd pattern a k).alone n = (k (.error .nilDereference)).alone n := by
  simp [routerAdd, hr]

theorem alone_addRelations (proxy : HTTPProxy) (location : Location) :
    (addRelations n.proxyMap pattern proxy location k).alone n =
      (k (n.addRelations pattern proxy location).1).alone (n.addRelations pattern proxy location).2 := by
  unfold addRelations Node.addRelations
  rw [Prog.alone_set]
  cases hr : n.router with
  | none =>
      rw [alone_routerAdd_none (n := related n.proxyMap pattern proxy location n) hr]
      simp [related, Node.allocProxy, Node.modifyMap, hr]
  | some hosts =>
      rw [alone_routerAdd (n := related n.proxyMap pattern proxy location n) hr]
      simp [related, Node.allocProxy, Node.modifyMap, hr]

/-- `AddProxyWithLocation` makes the proxy outside all locks. -/
theorem alone_addProxyWithLocation (l : Location) :
    (addProxyWithLocation env n.proxyMap l k).alone n =
      (k (n.addProxyWithLocation env l).1).alone (n.addProxyWithLocation env l).2 := by
  unfold addProxyWithLocation Node.addProxyWithLocation
  cases newHTTPProxy env l.pattern l.proxyPass l.balanceMode with
  | error err => rfl
  | ok httpProxy => exact alone_addRelations httpProxy l

/-- `AddProxy` sets the maps and then the balancer, which alone is one change. -/
theorem alone_addProxy :
    (addProxy env n.proxyMap pattern host k).alone n =
      (k (n.addProxy env pattern host).1).alone (n.addProxy env pattern host).2 := by
  unfold addProxy Node.addProxy Node.current
  rw [Prog.alone_read]
  cases (n.proxyMaps n.proxyMap).relations.lookup pattern with
  | none => rfl
  | some httpProxy =>
      cases env.parse host with
      | error err => rfl
      | ok url =>
          simp only [lbAdd, Prog.alone_lock, Prog.alone_set, Prog.alone_unlock, hosted,
            modifyProxy_modifyProxy]

/-! ### The calls of the handlers

`RemoveProxy` is the only one that waits for something other than a lock. -/

/-- `RemoveProxy` returns, unless it would hang. -/
theorem alone_removeProxy (h : (n.removeProxy pattern).1 ≠ .error .hang) :
    (removeProxy n.proxyMap pattern k).alone n =
      (k (n.removeProxy pattern).1).alone (n.removeProxy pattern).2 := by
  unfold removeProxy
  unfold Node.removeProxy Node.current at h ⊢
  rw [Prog.alone_lock, Prog.alone_read]
  cases hp : (n.proxyMaps n.proxyMap).relations.lookup pattern with
  | none => rfl
  | some httpProxy =>
      simp only [hp] at h ⊢
      by_cases hwaits : (n.proxies httpProxy).shutDownCheck = true
      · rw [Prog.alone, if_pos hwaits, if_pos hwaits]
        cases hr : n.router with
        | none => simp [routerRemove, shutDown, Node.modifyProxy, hr]
        | some hosts => simp [routerRemove, shutDown, unrelated, Node.modifyProxy, Node.modifyMap, hr]
      · rw [if_neg hwaits] at h
        exact absurd rfl h

/-- `RemoveHost` takes no lock. -/
theorem alone_removeHost (received : Bool) :
    (removeHost n.proxyMap pattern host received k).alone n =
      (k (n.removeHost pattern host received).1).alone (n.removeHost pattern host received).2 := by
  unfold removeHost Node.removeHost Node.current
  rw [Prog.alone_read]
  cases (n.proxyMaps n.proxyMap).relations.lookup pattern with
  | none => rfl
  | some httpProxy =>
      dsimp only
      split <;> rfl

/-- `SetRateLimiter` runs to its end under the lock of the proxy. -/
theorem alone_setRateLimiter (info : LimiterInfo) :
    (setRateLimiter a info k).alone n =
      (k (n.setRateLimiter a info).1).alone (n.setRateLimiter a info).2 := by
  unfold setRateLimiter Node.setRateLimiter
  rw [Prog.alone_lock]
  cases RateLimit.build info.limiterType with
  | error err => rfl
  | ok limiter =>
      dsimp only
      split <;> rfl

theorem alone_invaildToken (api : String) (token : Bool) :
    (invaildToken a api token k).alone n =
      (k (n.invaildToken a api token).1).alone (n.invaildToken a api token).2 := by
  unfold invaildToken Node.invaildToken
  rw [Prog.alone_read]
  split <;> rfl

theorem alone_changeLb (mode : String) (order : List String) :
    (changeLb env pattern mode order k).alone n =
      (k (n.changeLb env pattern mode order).1).alone (n.changeLb env pattern mode order).2 := rfl

/-! ### Requests and rounds

The search of `Route` takes the lock for each prefix it tries. Alone, the table is the same every time. -/

theorem alone_route {hosts : GoMap String Nat} (hr : n.router = some hosts) (path : List Char) (i : Nat)
    (k : Option (Nat × String) → Call ρ) :
    (route path i k).alone n = (k (Node.route hosts path i)).alone n := by
  induction i with
  | zero => rfl
  | succ i ih =>
      -- `HasPrefix` and the lookup see the same table, since nobody comes between
      unfold route Node.route
      split
      · have hrouted : routed n (String.ofList (path.take i)) =
            hosts.lookup (String.ofList (path.take i)) := by
          rw [routed, hr, Option.bind_some]
        rw [hasPrefix, Prog.alone_lock, Prog.alone_read, Prog.alone_unlock, hrouted]
        cases hlookup : hosts.lookup (String.ofList (path.take i)) with
        | none => simpa [hlookup] using ih
        | some a => simp [hrouted, hlookup]
      · exact ih

/-- A round does to the proxy what `HTTPProxy.healthCheck` says. Where `Lb.Remove` panics, the host has
been marked already. -/
theorem alone_healthCheck (first second : Bool) :
    (healthCheck a host first second k).alone n =
      match (n.proxies a).healthCheck host first second with
      | .error fault => (k (.error fault)).alone (n.modifyProxy a fun h => h.setAlive host false)
      | .ok h => (k (.ok none)).alone (n.modifyProxy a fun _ => h) := by
  have hself : n.modifyProxy a (fun _ => n.proxies a) = n := by simp [Node.modifyProxy]
  unfold HTTPProxy.healthCheck
  cases halive : (n.proxies a).readAlive host with
  | true =>
      cases first with
      | true => cases second <;> simp [healthCheck, readAlive, halive, hself]
      | false =>
          -- the host has died
          cases hremove : (n.proxies a).lb.remove host with
          | error fault =>
              simp [healthCheck, readAlive, setAlive, lbRemove, lbRemoved, halive, HTTPProxy.setAlive,
                hremove]
          | ok lb =>
              simp [healthCheck, readAlive, setAlive, lbRemove, lbRemoved, halive, HTTPProxy.setAlive,
                hremove, modifyProxy_modifyProxy]
              rfl
  | false =>
      cases second with
      | true =>
          -- the host is back
          cases first <;>
            simp [healthCheck, readAlive, setAlive, lbAdd, halive, HTTPProxy.setAlive,
              modifyProxy_modifyProxy] <;>
            rfl
      | false => cases first <;> simp [healthCheck, readAlive, halive, hself]

theorem alone_forward (req : Request) (realpath : String) (k : Except Fault Response → Call ρ) :
    (forward req a realpath k).alone n =
      match ((n.proxies a).lb.balance (getIP req.remoteAddr)).1 with
      | .error err => (k (.ok (.badGateway err))).alone (n.balanced a (getIP req.remoteAddr))
      | .ok host =>
          match (n.proxies a).hostMap.lookup host with
          | none => (k (.error .nilDereference)).alone (n.balanced a (getIP req.remoteAddr))
          | some url =>
              (k (.ok (.forwarded url realpath))).alone (n.balanced a (getIP req.remoteAddr)) := by
  rw [forward, balance, Prog.alone_lock, Prog.alone_set, Prog.alone_unlock]
  cases ((n.proxies a).lb.balance (getIP req.remoteAddr)).1 with
  | error err => rfl
  | ok host =>
      have hhosts : ((n.balanced a (getIP req.remoteAddr)).proxies a).hostMap =
          (n.proxies a).hostMap := by
        rw [Node.balanced, Node.proxies_modifyProxy_self]
      simp only [Prog.alone_read, hhosts]
      split <;> rfl

theorem alone_serveHTTP (req : Request) (k : Except Fault Response → Call ρ) :
    (serveHTTP req k).alone n = (k (n.serveHTTP req).1).alone (n.serveHTTP req).2 := by
  unfold serveHTTP Node.serveHTTP
  rw [Prog.alone_read]
  rcases n.acl.accessControl req.remoteAddr with fault | _ | _
  · rfl
  · cases hr : n.router with
    | none => rfl
    | some hosts =>
        cases hfiltered : req.filtered with
        | some err => rfl
        | none =>
            -- the table is the same at every prefix
            simp only [alone_route hr]
            cases Node.route hosts req.path.toList req.path.toList.length with
            | none => rfl
            | some found =>
                obtain ⟨a, realpath⟩ := found
                simp only [alone_invaildToken]
                rcases hout : n.invaildToken a realpath req.token with ⟨fault | _ | err, n₁⟩
                · rfl
                · simp only [alone_forward, Node.proxies_modifyProxy_self]
                  cases ((n₁.proxies a).lb.balance (getIP req.remoteAddr)).1 with
                  | error err => rfl
                  | ok host =>
                      dsimp only
                      cases (n₁.proxies a).hostMap.lookup host <;> rfl
                · rfl
  · rfl

end Alone

end Calls

/-! ## The discipline

Deadlock is excluded by an order of the locks and by what is true whenever nobody holds a lock. The order is
`Mutex.rank`. The lock of a proxy map guards that every proxy of the map can be shut down, which is what
`RemoveProxy` needs to come through its send; others may add proxies to the map while it is locked, which is
why it needs `Rely` and not only the lock. -/

/-- There is a router, and the proxies of the proxy maps are theirs and of their patterns. -/
structure Owned (n : Node) : Prop where
  router : n.router ≠ none
  relations : ∀ m p a, (n.proxyMaps m).relations.lookup p = some a →
    a < n.nextProxy ∧ (n.proxies a).proxyMap = some m ∧ (n.proxies a).pattern = p

/-- All proxies of the proxy map can be shut down. -/
def Removable (m : Nat) (n : Node) : Prop :=
  ∀ p a, (n.proxyMaps m).relations.lookup p = some a → (n.proxies a).shutDownCheck = true

/-- What others do while a call has the lock of a proxy map. They add to it, but shut no proxy down. -/
structure Rely (m : Nat) (n n' : Node) : Prop where
  allocated : n.nextProxy ≤ n'.nextProxy
  proxies : ∀ a, a < n.nextProxy → (n.proxies a).proxyMap = some m →
    (n'.proxies a).proxyMap = some m ∧ (n'.proxies a).pattern = (n.proxies a).pattern ∧
      ((n.proxies a).shutDownCheck = true → (n'.proxies a).shutDownCheck = true)
  relations : ∀ p a, (n'.proxyMaps m).relations.lookup p = some a →
    (n.proxyMaps m).relations.lookup p = some a ∨ (n'.proxies a).shutDownCheck = true

/-- The order in which locks are taken. -/
def Mutex.rank : Mutex → Nat
  | fsm => 0
  | proxyMap _ => 1
  | httpProxy _ => 2
  | router => 3
  | lb _ => 3
  | limiter _ _ => 3

/-- What is true while nobody has the lock for writing. -/
def Mutex.guarded : Mutex → Node → Prop
  | proxyMap m, n => Removable m n
  | _, _ => True

/-- What others keep to while somebody has. -/
def Mutex.rely : Mutex → Node → Node → Prop
  | proxyMap m, n, n' => Rely m n n'
  | _, _, _ => True

theorem Rely.refl (m : Nat) (n : Node) : Rely m n n :=
  ⟨Nat.le_refl _, fun _ _ hm => ⟨hm, rfl, id⟩, fun _ _ hp => .inl hp⟩

/-- Others leave it possible to shut the proxies down. -/
theorem Rely.removable {m : Nat} {n n' : Node} (h : Rely m n n') (O : Owned n) (hm : Removable m n) :
    Removable m n' := by
  intro p a hp
  rcases h.relations p a hp with hold | hnew
  · obtain ⟨ha, hback, -⟩ := O.relations m p a hold
    exact (h.proxies a ha hback).2.2 (hm p a hold)
  · exact hnew

def discipline : Discipline Node Mutex where
  rank := Mutex.rank
  inv := Owned
  guarded := Mutex.guarded
  rely := Mutex.rely
  rely_refl := by
    intro l n
    cases l <;> first | exact .refl _ _ | trivial
  rely_guarded := by
    intro l n n' hrely O _ hguarded
    cases l <;> first | exact hrely.removable O hguarded | trivial

/-! ### Steps and the discipline

Most changes are `Quiet`: they write fields that the discipline does not look at. The exceptions are three,
a proxy that comes to a map, the message on `ShutDown` and the `delete` in `RemoveProxy`. -/

/-- Nothing changes of what the discipline looks at. -/
structure Quiet (n n' : Node) : Prop where
  router : n.router ≠ none → n'.router ≠ none
  allocated : n'.nextProxy = n.nextProxy
  relations : ∀ m, (n'.proxyMaps m).relations = (n.proxyMaps m).relations
  proxies : ∀ a, (n'.proxies a).proxyMap = (n.proxies a).proxyMap ∧
    (n'.proxies a).pattern = (n.proxies a).pattern ∧
    (n'.proxies a).shutDownCheck = (n.proxies a).shutDownCheck

section Steps

variable {n n' n'' : Node} {m a : Nat} {pattern : String} {held : Mutex → Option Mode}

/-- A step is fair if it keeps what is guarded, and does what others rely on. -/
theorem fair_of (O : Owned n') (hremovable : ∀ m, held (.proxyMap m) ≠ some .write → Removable m n →
      Removable m n') (hrely : ∀ m, held (.proxyMap m) ≠ some .write → Rely m n n') :
    discipline.Fair held n n' where
  inv := O
  guarded := by
    -- only proxy maps guard anything
    intro l hl hguarded
    cases l <;> first | exact hremovable _ hl hguarded | trivial
  rely := by
    intro l hl
    cases l <;> first | exact hrely _ hl | trivial

namespace Quiet

theorem refl (n : Node) : Quiet n n := ⟨id, rfl, fun _ => rfl, fun _ => ⟨rfl, rfl, rfl⟩⟩

theorem trans (h : Quiet n n') (h' : Quiet n' n'') : Quiet n n'' where
  router := fun hr => h'.router (h.router hr)
  allocated := h'.allocated.trans h.allocated
  relations := fun m => (h'.relations m).trans (h.relations m)
  proxies := fun a =>
    ⟨(h'.proxies a).1.trans (h.proxies a).1, (h'.proxies a).2.1.trans (h.proxies a).2.1,
      (h'.proxies a).2.2.trans (h.proxies a).2.2⟩

/-- A quiet step keeps everything owned. -/
theorem owned (h : Quiet n n') (O : Owned n) : Owned n' where
  router := h.router O.router
  relations := by
    intro m p a hp
    rw [h.relations m] at hp
    obtain ⟨ha, hback, hpattern⟩ := O.relations m p a hp
    exact ⟨h.allocated ▸ ha, (h.proxies a).1.trans hback, (h.proxies a).2.1.trans hpattern⟩

/-- And is relied upon. -/
theorem rely (h : Quiet n n') (m : Nat) : Rely m n n' where
  allocated := h.allocated.ge
  proxies := fun a _ hback =>
    ⟨(h.proxies a).1.trans hback, (h.proxies a).2.1, fun hwaits => (h.proxies a).2.2.trans hwaits⟩
  relations := fun p a hp => .inl (by rwa [h.relations m] at hp)

/-- So it is fair, whatever locks are held. -/
theorem fair (h : Quiet n n') (O : Owned n) : discipline.Fair held n n' :=
  fair_of (h.owned O) (fun m _ hm => (h.rely m).removable O hm) fun m _ => h.rely m

/-- An assignment to a proxy that keeps its map, its pattern and its goroutine is quiet. -/
theorem modifyProxy {f : HTTPProxy → HTTPProxy} (hmap : ∀ h, (f h).proxyMap = h.proxyMap)
    (hpattern : ∀ h, (f h).pattern = h.pattern) (hwaits : ∀ h, (f h).shutDownCheck = h.shutDownCheck) :
    Quiet n (n.modifyProxy a f) where
  router := id
  allocated := rfl
  relations := fun _ => rfl
  proxies := by
    intro b
    by_cases hb : b = a
    · subst hb
      rw [Node.proxies_modifyProxy_self]
      exact ⟨hmap _, hpattern _, hwaits _⟩
    · rw [Node.proxies_modifyProxy_of_ne _ hb]
      exact ⟨rfl, rfl, rfl⟩

theorem recordLimiter (info : LimiterInfo) : Quiet n (n.recordLimiter a info).2 := by
  unfold Node.recordLimiter
  split
  · exact .refl n
  · next m hm =>
      refine ⟨id, rfl, fun m' => ?_, fun _ => ⟨rfl, rfl, rfl⟩⟩
      by_cases hmap : m' = m
      · subst hmap
        simp [Node.modifyMap]
      · simp [Node.modifyMap, hmap]

theorem configRate (path : String) : Quiet n (n.configRate a path).2 := by
  unfold Node.configRate
  split
  · exact .refl n
  · have hmethods : Quiet n (n.modifyProxy a fun h =>
        { h with methods := h.methods.insert path newQpsRateLimiter }) :=
      .modifyProxy (fun _ => rfl) (fun _ => rfl) fun _ => rfl
    exact hmethods.trans (.recordLimiter _)

end Quiet

/-- A new proxy comes to a proxy map. -/
theorem fair_related {proxy : HTTPProxy} {location : Location} (O : Owned n)
    (hpattern : proxy.pattern = pattern) (hwaits : proxy.shutDownCheck = true) :
    discipline.Fair held n (related m pattern proxy location n) := by
  -- the maps have what they had, and the new proxy
  have hold : ∀ {a}, a < n.nextProxy →
      (related m pattern proxy location n).proxies a = n.proxies a := by
    intro a ha
    show Function.update n.proxies n.nextProxy _ a = _
    rw [Function.update_of_ne (Nat.ne_of_lt ha)]
  have hself : (related m pattern proxy location n).proxies n.nextProxy =
      { proxy with proxyMap := some m } := by
    show Function.update n.proxies n.nextProxy _ n.nextProxy = _
    rw [Function.update_self]
  have hrelations : ∀ {m' p a},
      ((related m pattern proxy location n).proxyMaps m').relations.lookup p = some a →
      (n.proxyMaps m').relations.lookup p = some a ∨ (a = n.nextProxy ∧ m' = m ∧ p = pattern) := by
    intro m' p a hp
    by_cases hm : m' = m
    · subst hm
      simp only [related, Node.modifyMap, Node.allocProxy, Function.update_self] at hp
      by_cases hpp : p = pattern
      · subst hpp
        rw [Finmap.lookup_insert] at hp
        exact .inr ⟨(Option.some.inj hp).symm, rfl, rfl⟩
      · rw [Finmap.lookup_insert_of_ne _ hpp] at hp
        exact .inl hp
    · simp only [related, Node.modifyMap, Node.allocProxy, Function.update_of_ne hm] at hp
      exact .inl hp
  have hrely : ∀ m', Rely m' n (related m pattern proxy location n) := by
    intro m'
    refine ⟨Nat.le_succ _, fun a ha hback => ?_, fun p a hp => ?_⟩
    · rw [hold ha]
      exact ⟨hback, rfl, id⟩
    · refine (hrelations hp).imp_right fun hnew => ?_
      rw [hnew.1, hself]
      exact hwaits
  refine fair_of ⟨O.router, fun m' p a hp => ?_⟩ (fun m' _ hm => (hrely m').removable O hm)
    fun m' _ => hrely m'
  rcases hrelations hp with hp | ⟨rfl, rfl, rfl⟩
  · obtain ⟨ha, hback, hpat⟩ := O.relations m' p a hp
    rw [hold ha]
    exact ⟨Nat.lt_succ_of_lt ha, hback, hpat⟩
  · rw [hself]
    exact ⟨Nat.lt_succ_self _, rfl, hpattern⟩

end Steps

/-! ## Calls that keep to it

Every call but `RemoveProxy` is a row of short sections, each under one lock and with nothing to remember
between them. `keeps_section` is such a section, and the lemmas after it follow the definitions of the
calls. -/

section Sound

variable {ρ : Type} {env : Env} {n : Node} {m a r r' : Nat} {pattern host : String} {l : Mutex}
  {mode : Mode} {held : Mutex → Option Mode} {k : Outcome → Call ρ}

abbrev Keeps (held : Mutex → Option Mode) (p : Call ρ) : Prop :=
  discipline.Sound held (discipline.Clean held) p

/-- A call only has locks of lower ranks. -/
def Below (r : Nat) (held : Mutex → Option Mode) : Prop := ∀ l, held l ≠ none → l.rank < r

theorem Below.mono (h : Below r held) (hr : r ≤ r') : Below r' held :=
  fun l hl => lt_of_lt_of_le (h l hl) hr

/-- With a lock more, the rank goes up. -/
theorem Below.update (h : Below l.rank held) (hr : l.rank < r) :
    Below r (Function.update held l (some mode)) := by
  intro l' hl'
  by_cases hl : l' = l
  · subst hl
    exact hr
  · rw [Function.update_of_ne hl] at hl'
    exact (h l' hl').trans hr

/-- A lock that comes after those that are held is not held. -/
theorem Below.not_held (h : Below l.rank held) : held l = none := Discipline.not_held (D := discipline) h

/-- One step under a lock that comes after those that are held. -/
theorem keeps_section (l : Mutex) (hb : Below l.rank held) {effect : Node → Node}
    (hquiet : ∀ n, Quiet n (effect n)) {k : Node → Call ρ} (hk : ∀ n, Owned n → Keeps held (k n)) :
    Keeps held (.lock mode l (.set effect fun n => .unlock l (k n))) := by
  refine .lock_clean hb <| .set_clean (fun n O => (hquiet n).fair O) fun n O => ?_
  exact .unlock_clean hb.not_held (hk n O)

/-- There is a router, so `Add` comes to its section. -/
theorem keeps_routerAdd (hb : Below 3 held) (hk : Keeps held (k (.ok none))) :
    Keeps held (routerAdd pattern a k) := by
  refine .read_clean fun n O => ?_
  obtain ⟨hosts, hr⟩ := Option.ne_none_iff_exists'.mp O.router
  rw [hr]
  dsimp only
  refine keeps_section .router hb (fun n => ?_) fun _ _ => hk
  exact ⟨fun hr => by simpa using hr, rfl, fun _ => rfl, fun _ => ⟨rfl, rfl, rfl⟩⟩

/-- `AddRelations` brings a proxy that can be shut down. -/
theorem keeps_addRelations (hb : Below 3 held) {proxy : HTTPProxy} {location : Location}
    (hpattern : proxy.pattern = pattern) (hwaits : proxy.shutDownCheck = true)
    (hk : Keeps held (k (.ok none))) : Keeps held (addRelations m pattern proxy location k) :=
  .set_clean (fun _ O => fair_related O hpattern hwaits) fun _ _ => keeps_routerAdd hb hk

/-! ### Calls that add

Whatever they bring can be shut down, so they keep what the lock of a proxy map guards without having it. -/

theorem keeps_addProxyWithLocation (hb : Below 3 held) {l : Location}
    (hk : ∀ err, Keeps held (k (.ok err))) :
    Keeps held (addProxyWithLocation env m l k) := by
  unfold addProxyWithLocation
  split
  · exact hk _
  · next httpProxy hnew =>
      obtain ⟨hpattern, -, -, -, hwaits, -⟩ := newHTTPProxy_ok hnew
      exact keeps_addRelations hb hpattern hwaits (hk none)

theorem keeps_lbAdd (hb : Below 3 held) {k : Call ρ} (hk : Keeps held k) :
    Keeps held (lbAdd a host k) := by
  refine keeps_section (.lb a) hb (fun n => ?_) fun _ _ => hk
  exact .modifyProxy (fun _ => rfl) (fun _ => rfl) fun _ => rfl

theorem keeps_addProxy (hb : Below 3 held) (hk : ∀ out, Keeps held (k out)) :
    Keeps held (addProxy env m pattern host k) := by
  refine .read_clean fun n _ => ?_
  split
  · exact hk _
  · split
    · exact hk _
    · refine .set_clean (fun n O => Quiet.fair ?_ O) fun _ _ => keeps_lbAdd hb (hk _)
      exact .modifyProxy (fun _ => rfl) (fun _ => rfl) fun _ => rfl

theorem keeps_removeHost {received : Bool} (hk : ∀ out, Keeps held (k out)) :
    Keeps held (removeHost m pattern host received k) := by
  refine .read_clean fun n _ => ?_
  split
  · exact hk _
  · split
    · refine .set_clean (fun n O => Quiet.fair ?_ O) fun _ _ => hk _
      exact .modifyProxy (fun _ => rfl) (fun _ => rfl) fun _ => rfl
    · exact hk _

/-- `SetRateLimiter` takes the lock of the limiter under that of the proxy. -/
theorem keeps_setRateLimiter (hb : Below 2 held) {info : LimiterInfo} (hk : ∀ out, Keeps held (k out)) :
    Keeps held (setRateLimiter a info k) := by
  have hheld : Below 3 (Function.update held (.httpProxy a) (some .write)) :=
    Below.update hb (Nat.lt_succ_self 2)
  have hnot : held (.httpProxy a) = none := Below.not_held hb
  have hrest : ∀ limiter, Keeps (Function.update held (.httpProxy a) (some .write))
      (.set (fun n => (limited a info limiter n).2) fun n =>
        .unlock (.httpProxy a) (k (limited a info limiter n).1)) := by
    refine fun limiter => .set_clean (fun n O => Quiet.fair ?_ O) fun n _ => .unlock_clean hnot (hk _)
    have hmethods : Quiet n (n.modifyProxy a fun h =>
        { h with methods := h.methods.insert info.pathName (info.limiter limiter) }) :=
      .modifyProxy (fun _ => rfl) (fun _ => rfl) fun _ => rfl
    exact hmethods.trans (.recordLimiter info)
  refine .lock_clean hb ?_
  split
  · exact .unlock_clean hnot (hk _)
  · next limiter _ =>
      dsimp only
      split
      · -- `SetTimeout` has its lock for itself
        exact .lock_clean hheld (.unlock_clean (Below.not_held hheld) (hrest limiter))
      · exact hrest limiter

/-! ### Requests

A request reads and writes under one lock at a time. -/

theorem keeps_invaildToken (hb : Below 2 held) {api : String} {token : Bool}
    (hk : ∀ out, Keeps held (k out)) :
    Keeps held (invaildToken a api token k) := by
  refine .read_clean fun n _ => ?_
  split
  · have hb' : Below 3 held := hb.mono (by decide)
    exact .lock_clean hb' (.unlock_clean (Below.not_held hb') (hk _))
  · exact keeps_section (.httpProxy a) hb (fun _ => .configRate api) fun _ _ => hk _

theorem keeps_balance (hb : Below 3 held) {client : String} {k : Except GoError String → Call ρ}
    (hk : ∀ res, Keeps held (k res)) : Keeps held (balance a client k) := by
  refine keeps_section (.lb a) hb (fun n => ?_) fun _ _ => hk _
  exact .modifyProxy (fun _ => rfl) (fun _ => rfl) fun _ => rfl

/-- `Route` is as many sections as it tries prefixes. -/
theorem keeps_route (hb : Below 3 held) (path : List Char) (i : Nat) {k : Option (Nat × String) → Call ρ}
    (hk : ∀ found, Keeps held (k found)) : Keeps held (route path i k) := by
  induction i with
  | zero => exact hk none
  | succ i ih =>
      unfold route
      split
      -- the lookup after `HasPrefix` is without a lock, and whatever it finds the call goes on
      · refine keeps_section .router hb .refl fun n _ => ?_
        dsimp only
        split
        · exact .read_clean fun _ _ => hk _
        · exact ih
      · exact ih

/-- A round is a section for each flag it reads or sets, and one at the balancer. -/
theorem keeps_healthCheck (hb : Below 2 held) {first second : Bool} (hk : ∀ out, Keeps held (k out)) :
    Keeps held (healthCheck a host first second k) := by
  have hread : ∀ {k : Bool → Call ρ}, (∀ alive, Keeps held (k alive)) →
      Keeps held (readAlive a host k) :=
    fun hk => keeps_section (.httpProxy a) hb .refl fun _ _ => hk _
  have hset : ∀ {alive : Bool} {k : Call ρ}, Keeps held k → Keeps held (setAlive a host alive k) := by
    refine fun hk => keeps_section (.httpProxy a) hb (fun n => ?_) fun _ _ => hk
    exact .modifyProxy (fun _ => rfl) (fun _ => rfl) fun _ => rfl
  have hremove : Keeps held (lbRemove a host k) := by
    refine keeps_section (.lb a) (hb.mono (Nat.le_succ 2)) (fun n => ?_) fun _ _ => hk _
    unfold lbRemoved
    split
    · exact .refl n
    · dsimp only
      exact .modifyProxy (fun _ => rfl) (fun _ => rfl) fun _ => rfl
  -- the second half of a round, which the first half leads to in two of its branches
  have hrecover : Keeps held (if second = true then
      readAlive a host fun alive =>
        if alive = false then setAlive a host true (lbAdd a host (k (.ok none))) else k (.ok none)
    else k (.ok none)) := by
    split
    · refine hread fun alive => ?_
      split
      · exact hset (keeps_lbAdd (hb.mono (Nat.le_succ 2)) (hk _))
      · exact hk _
    · exact hk _
  unfold healthCheck
  dsimp only
  split
  · refine hread fun alive => ?_
    split
    · exact hset hremove
    · exact hrecover
  · exact hrecover

theorem keeps_forward (hb : Below 3 held) {req : Request} {realpath : String}
    {k : Except Fault Response → Call ρ} (hk : ∀ res, Keeps held (k res)) :
    Keeps held (forward req a realpath k) := by
  refine keeps_balance hb fun res => ?_
  split
  · exact hk _
  · refine .read_clean fun n _ => ?_
    split <;> exact hk _

/-- A request gives every lock back before it takes the next one. -/
theorem keeps_serveHTTP (hb : Below 2 held) {req : Request} {k : Except Fault Response → Call ρ}
    (hk : ∀ res, Keeps held (k res)) : Keeps held (serveHTTP req k) := by
  refine .read_clean fun n _ => ?_
  split
  · exact hk _
  · exact hk _
  · exact hk _
  · split
    · exact hk _
    · refine keeps_route (hb.mono (Nat.le_succ 2)) _ _ fun found => ?_
      split
      · exact hk _
      · refine keeps_invaildToken hb fun out => ?_
        split
        · exact hk _
        · exact hk _
        · exact keeps_forward (hb.mono (Nat.le_succ 2)) hk

/-! ## `RemoveProxy`

`RemoveProxy` breaks what its lock guards and mends it before it unlocks: after the message on `ShutDown`
the proxy of the pattern cannot be shut down a second time, and it stays in the map until the `delete`. In
between `ShutDown` holds, which is stable because others do not touch the patterns of a locked map. -/

/-- A proxy of the map that waits for its shutdown. -/
structure Waits (m : Nat) (pattern : String) (a : Nat) (n : Node) : Prop where
  allocated : a < n.nextProxy
  proxyMap : (n.proxies a).proxyMap = some m
  pattern : (n.proxies a).pattern = pattern
  shutDownCheck : (n.proxies a).shutDownCheck = true

/-- Only the proxy of the pattern has been shut down. -/
def ShutDown (m : Nat) (pattern : String) (n : Node) : Prop :=
  ∀ p a, (n.proxyMaps m).relations.lookup p = some a → (n.proxies a).shutDownCheck = true ∨ p = pattern

/-- Others leave such a proxy waiting. -/
theorem Waits.rely {n' : Node} (h : Waits m pattern a n) (hrely : Rely m n n') :
    Waits m pattern a n' := by
  obtain ⟨hmap, hpattern, hwaits⟩ := hrely.proxies a h.allocated h.proxyMap
  exact ⟨h.allocated.trans_le hrely.allocated, hmap, hpattern.trans h.pattern, hwaits h.shutDownCheck⟩

/-- And shut no other one down. -/
theorem ShutDown.rely {n' : Node} (h : ShutDown m pattern n) (O : Owned n) (hrely : Rely m n n') :
    ShutDown m pattern n' := by
  intro p a hp
  rcases hrely.relations p a hp with hold | hnew
  · obtain ⟨ha, hback, -⟩ := O.relations m p a hold
    exact (h p a hold).imp_left (hrely.proxies a ha hback).2.2
  · exact .inl hnew

/-- What the message does to the proxies: it ends one goroutine. -/
theorem proxies_shutDown (n : Node) (a b : Nat) :
    ((shutDown a n).proxies b).proxyMap = (n.proxies b).proxyMap ∧
      ((shutDown a n).proxies b).pattern = (n.proxies b).pattern ∧
      (b ≠ a → ((shutDown a n).proxies b).shutDownCheck = (n.proxies b).shutDownCheck) := by
  by_cases hb : b = a
  · subst hb
    rw [shutDown, Node.proxies_modifyProxy_self]
    exact ⟨rfl, rfl, fun hne => absurd rfl hne⟩
  · rw [shutDown, Node.proxies_modifyProxy_of_ne _ hb]
    exact ⟨rfl, rfl, fun _ => rfl⟩

/-- The message on `ShutDown` is received. It is for a proxy of a map that the call has. -/
theorem fair_shutDown (hheld : held (.proxyMap m) = some .write) (O : Owned n)
    (hmap : (n.proxies a).proxyMap = some m) : discipline.Fair held n (shutDown a n) := by
  have hother : ∀ {m' b}, held (.proxyMap m') ≠ some .write → (n.proxies b).proxyMap = some m' →
      b ≠ a := by
    rintro m' b hm' hback rfl
    obtain rfl : m = m' := Option.some.inj (hmap.symm.trans hback)
    exact hm' hheld
  refine fair_of ⟨O.router, fun m' p b hp => ?_⟩ (fun m' hm' hremovable p b hp => ?_) fun m' hm' =>
    ⟨Nat.le_refl _, fun b _ hback => ?_, fun p b hp => .inl hp⟩
  · obtain ⟨hb, hback, hpattern⟩ := O.relations m' p b hp
    obtain ⟨hmap', hpattern', -⟩ := proxies_shutDown n a b
    exact ⟨hb, hmap'.trans hback, hpattern'.trans hpattern⟩
  · rw [(proxies_shutDown n a b).2.2 (hother hm' (O.relations m' p b hp).2.1)]
    exact hremovable p b hp
  · obtain ⟨hmap', hpattern', hwaits'⟩ := proxies_shutDown n a b
    exact ⟨hmap'.trans hback, hpattern', fun hwaits => (hwaits' (hother hm' hback)).trans hwaits⟩

/-- After the message only the pattern of the proxy is without its goroutine. -/
theorem shutDown_shutDown (O : Owned n) (hguarded : Removable m n) (hwaits : Waits m pattern a n) :
    ShutDown m pattern (shutDown a n) := by
  intro p b hp
  by_cases hb : b = a
  · subst hb
    exact .inr ((O.relations m p b hp).2.2.symm.trans hwaits.pattern)
  · rw [(proxies_shutDown n a b).2.2 hb]
    exact .inl (hguarded p b hp)

/-- What a proxy map has without the pattern. -/
theorem relations_unrelated {m' : Nat} {p : String}
    (hp : ((unrelated m pattern n).proxyMaps m').relations.lookup p = some a) :
    (n.proxyMaps m').relations.lookup p = some a ∧ (m' = m → p ≠ pattern) := by
  by_cases hm : m' = m
  · subst hm
    simp only [unrelated, Node.modifyMap, Function.update_self] at hp
    by_cases hpp : p = pattern
    · subst hpp
      simp at hp
    · rw [Finmap.lookup_erase_ne hpp] at hp
      exact ⟨hp, fun _ => hpp⟩
  · simp only [unrelated, Node.modifyMap, Function.update_of_ne hm] at hp
    exact ⟨hp, fun heq => absurd heq hm⟩

/-- The `delete` takes a pattern away, and leaves the proxies as they are. -/
theorem fair_unrelated (O : Owned n) : discipline.Fair held n (unrelated m pattern n) := by
  refine fair_of ⟨O.router, fun m' p a hp => ?_⟩ (fun m' _ hremovable p a hp => ?_) fun m' _ =>
    ⟨Nat.le_refl _, fun _ _ hback => ⟨hback, rfl, id⟩, fun p a hp => .inl (relations_unrelated hp).1⟩
  · exact O.relations m' p a (relations_unrelated hp).1
  · exact hremovable p a (relations_unrelated hp).1

/-- What holds between the two is stable under the lock of the map. -/
theorem ShutDown.stable (hheld : held (.proxyMap m) = some .write) :
    discipline.Stable held (ShutDown m pattern) :=
  fun _ _ hrely O _ h => h.rely O (hrely _ hheld)

/-- The proxy is taken from the router, while the map is missing it. -/
theorem sound_routerRemove (hheld : held (.proxyMap m) = some .write) (hb : Below 2 held)
    (hk : discipline.Sound held (ShutDown m pattern) (k (.ok none))) :
    discipline.Sound held (ShutDown m pattern) (routerRemove pattern k) := by
  have hb' : Below 3 held := hb.mono (Nat.le_succ 2)
  have hrouter : held .router = none := Below.not_held hb'
  have hheld' : Function.update held .router (some .write) (.proxyMap m) = some .write := hheld
  -- to lock and to unlock leaves the locks as they were
  have hback : Function.update (Function.update held .router (some .write)) .router none = held :=
    calc Function.update (Function.update held .router (some .write)) .router none
      _ = Function.update held .router none := Function.update_idem ..
      _ = Function.update held .router (held .router) := by rw [hrouter]
      _ = held := Function.update_eq_self ..
  refine .act (Q := fun _ => ShutDown m pattern) (fun _ _ _ => rfl) (fun n O _ => .refl O)
    (fun _ _ h => h) (fun _ _ _ => .stable hheld) fun n O _ => ?_
  obtain ⟨hosts, hr⟩ := Option.ne_none_iff_exists'.mp O.router
  rw [hr]
  dsimp only
  have hquiet : ∀ n : Node, Quiet n { n with router := n.router.map fun hosts => hosts.erase pattern } :=
    fun n => ⟨fun hr => by simpa using hr, rfl, fun _ => rfl, fun _ => ⟨rfl, rfl, rfl⟩⟩
  refine .lock hb' (fun _ _ h _ => h) (.stable hheld') <| .act (Q := fun _ => ShutDown m pattern)
    (fun _ _ _ => rfl) (fun n O _ => (hquiet n).fair O) (fun n O h => h.rely O ((hquiet n).rely m))
    (fun _ _ _ => .stable hheld') fun _ _ _ => ?_
  refine .unlock (fun _ _ _ _ => trivial) (fun _ _ h => h) (.stable ?_) ?_
  · rw [hback]
    exact hheld
  · rw [hback]
    exact hk

/-- `RemoveProxy` keeps to the discipline: it comes through its send, and mends what it breaks. -/
theorem keeps_removeProxy (hb : Below 1 held) (hk : ∀ out, Keeps held (k out)) :
    Keeps held (removeProxy m pattern k) := by
  have hnot : held (.proxyMap m) = none := Below.not_held hb
  have hself : Function.update held (.proxyMap m) (some .write) (.proxyMap m) = some .write :=
    Function.update_self _ _ _
  have hlow : Below 2 (Function.update held (.proxyMap m) (some .write)) :=
    Below.update hb (Nat.lt_succ_self 1)
  refine .lock_clean hb ?_
  refine .act (Q := fun n n' => discipline.Clean (Function.update held (.proxyMap m) (some .write)) n' ∧
    ∀ a, (n.proxyMaps m).relations.lookup pattern = some a → Waits m pattern a n') (fun _ _ _ => rfl)
    (fun n O _ => .refl O) (fun n O hclean => ⟨hclean, fun a ha => ?_⟩) (fun n O hclean => ?_)
    fun n O hclean => ?_
  · obtain ⟨hlt, hback, hpattern⟩ := O.relations m pattern a ha
    exact ⟨hlt, hback, hpattern, hclean _ hself pattern a ha⟩
  · intro n' n'' hrely O' O'' h
    exact ⟨Discipline.Clean.stable n' n'' hrely O' O'' h.1, fun a ha => (h.2 a ha).rely (hrely _ hself)⟩
  · cases hp : (n.proxyMaps m).relations.lookup pattern with
    | none => exact (Discipline.Sound.unlock_clean hnot (hk _)).mono fun _ _ h => h.1
    | some a =>
        -- the goroutine of the proxy waits, since the map is locked
        refine .act (Q := fun _ => ShutDown m pattern) (fun n' O' h => (h.2 a rfl).shutDownCheck)
          (fun n' O' h => fair_shutDown hself O' (h.2 a rfl).proxyMap)
          (fun n' O' h => shutDown_shutDown O' (h.1 _ hself) (h.2 a rfl)) (fun _ _ _ => .stable hself)
          fun n' O' h => sound_routerRemove hself hlow ?_
        refine .act (Q := fun _ => discipline.Clean (Function.update held (.proxyMap m) (some .write)))
          (fun _ _ _ => rfl) (fun n' O' _ => fair_unrelated O') (fun n' O' h l hl => ?_)
          (fun _ _ _ => Discipline.Clean.stable) fun _ _ _ => .unlock_clean hnot (hk _)
        -- what is left in the map can be shut down, and other locks that the call has guard nothing
        by_cases hlm : l = .proxyMap m
        · subst hlm
          intro p b hpb
          obtain ⟨hpb, hpp⟩ := relations_unrelated hpb
          exact (h p b hpb).resolve_right (hpp rfl)
        · rw [Function.update_of_ne hlm] at hl
          have hrank := hb l (by rw [hl]; simp)
          cases l <;> trivial

end Sound

end Cheryl.ReverseProxy.Locking
