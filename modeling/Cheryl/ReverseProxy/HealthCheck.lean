import Cheryl.Balancer.Members
import Cheryl.Library.Trace
import Cheryl.ReverseProxy.Requests

/-!
# `reverse_proxy/health_check.go`

The hosts of a proxy are kept in `HostMap`, in `Alive` and in the balancer. `AddProxy`, `RemoveHost`,
`ChangeLb`, the rounds of the health checkers and the requests change them while the proxy serves;
`Step` is one of these on the proxy of a pattern, and `Step.effect` says what each can do to it. Two
questions are asked of the runs: does the balancer answer with hosts that are in `HostMap`, and does
it hold exactly those that are alive?
-/

namespace Cheryl.ReverseProxy

open Library Utils

/-! ## Rounds

A checker looks at its host every few seconds. It acts on a change only: a host that was alive and does not
answer leaves the balancer, and one that was dead and answers comes back into it. What the two have become
in the meantime is not looked at. -/

namespace HTTPProxy

def readAlive (h : HTTPProxy) (url : String) : Bool := (h.alive.lookup url).getD false

def setAlive (h : HTTPProxy) (url : String) (alive : Bool) : HTTPProxy :=
  { h with alive := h.alive.insert url alive }

/-- A round of `healthCheck`. `first` and `second` are what the two calls of `IsBackendAlive` say;
the second is made when the first test fails. -/
def healthCheck (h : HTTPProxy) (host : String) (first second : Bool) : Except Fault HTTPProxy :=
  if first = false ∧ h.readAlive host = true then
    let h := h.setAlive host false
    match h.lb.remove host with
    | .error fault => .error fault
    | .ok lb => .ok { h with lb := lb }
  else if second = true ∧ h.readAlive host = false then
    let h := h.setAlive host true
    .ok { h with lb := h.lb.add host }
  else .ok h

/-- A round sets `Alive` and changes the balancer, and nothing else. -/
theorem healthCheck_keeps {h h' : HTTPProxy} {host : String} {first second : Bool}
    (heq : h.healthCheck host first second = .ok h') : h'.hostMap = h.hostMap ∧
      h'.hostsShutDown = h.hostsShutDown ∧ h'.shutDownCheck = h.shutDownCheck ∧
      h'.pattern = h.pattern ∧ h'.proxyMap = h.proxyMap ∧ h'.methods = h.methods := by
  unfold HTTPProxy.healthCheck at heq
  split at heq
  · simp only at heq
    split at heq
    · cases heq
    · cases heq
      exact ⟨rfl, rfl, rfl, rfl, rfl, rfl⟩
  · split at heq <;> cases heq <;> exact ⟨rfl, rfl, rfl, rfl, rfl, rfl⟩

def addHost (h : HTTPProxy) (host : String) (url : URL) : HTTPProxy :=
  { h with
    hostMap := h.hostMap.insert host url
    alive := h.alive.insert host true
    hostsShutDown := insert host h.hostsShutDown
    lb := h.lb.add host }

end HTTPProxy

/-- A round has no part in the links. -/
theorem Linked.healthCheck {n : Node} (L : Linked n) {a : Nat} {host : String} {first second : Bool}
    {proxy : HTTPProxy} (h : (n.proxies a).healthCheck host first second = .ok proxy) :
    Linked (n.modifyProxy a fun _ => proxy) := by
  obtain ⟨hhosts, hchannels, hwait, hpattern, hmap, -⟩ := HTTPProxy.healthCheck_keeps h
  refine L.modify fun p m S => ⟨hpattern.trans S.pattern, hmap.trans S.proxyMap, hwait.trans S.waiting, ?_⟩
  rw [hhosts, hchannels]
  exact S.channels

/-! ## Steps

A step is a call as `ProxyMap` has it, a round, or a request at the balancer, on a node whose `Relations`
lead from the pattern to the proxy. `Effect` is the same seen from the proxy alone: one case for each way a
call can end. All invariants of this proxy are proved by cases on it. -/

inductive HostEvent
  /-- `ProxyMap.AddProxy` -/
  | addProxy (host : String)
  /-- `ProxyMap.RemoveHost`; `received` says whether a checker takes the message -/
  | removeHost (host : String) (received : Bool)
  /-- `ChangeLb`; `order` is the order in which it visits `HostMap` -/
  | changeLb (mode : String) (order : List String)
  /-- a round of a checker -/
  | healthCheck (host : String) (first second : Bool)
  /-- a request asks the balancer for a host -/
  | balance (client : String)

namespace HostEvent

/-- One step on the proxy at `a`, which serves the pattern. Only a host with a channel has been
given a checker. -/
inductive Step (env : Env) (pattern : String) (a : Nat) : Node → HostEvent → Node → Prop
  | addProxy {n n' : Node} {host : String} {out : Outcome}
      (h : n.addProxy env pattern host = (out, n')) : Step env pattern a n (.addProxy host) n'
  | removeHost {n n' : Node} {host : String} {received : Bool} {out : Outcome}
      (h : n.removeHost pattern host received = (out, n')) :
      Step env pattern a n (.removeHost host received) n'
  | changeLb {n n' : Node} {mode : String} {order : List String} {out : Outcome}
      (visits : RangeOrder (n.proxies a).hostMap order)
      (h : n.changeLb env pattern mode order = (out, n')) :
      Step env pattern a n (.changeLb mode order) n'
  | healthCheck {n : Node} {host : String} {first second : Bool} {proxy : HTTPProxy}
      (started : host ∈ (n.proxies a).hostsShutDown)
      (h : (n.proxies a).healthCheck host first second = .ok proxy) :
      Step env pattern a n (.healthCheck host first second) (n.modifyProxy a fun _ => proxy)
  | balance {n : Node} (client : String) :
      Step env pattern a n (.balance client) (n.balanced a client)

/-- What an event can do to the proxy. -/
inductive Effect (env : Env) (h : HTTPProxy) : HostEvent → HTTPProxy → Prop
  | rejected {host : String} {err : GoError} (parsed : env.parse host = .error err) :
      Effect env h (.addProxy host) h
  | addProxy {host : String} {url : URL} (parsed : env.parse host = .ok url) :
      Effect env h (.addProxy host) (h.addHost (getHost url) url)
  | timedOut {host : String} {received : Bool}
      (unanswered : ¬ (received = true ∧ host ∈ h.hostsShutDown)) :
      Effect env h (.removeHost host received) h
  | removeHost {host : String} (channel : host ∈ h.hostsShutDown) :
      Effect env h (.removeHost host true) { h with hostMap := h.hostMap.erase host }
  | unsupported {mode : String} {order : List String} {err : GoError}
      (built : Balancer.build env.toEnv mode order = .error err) :
      Effect env h (.changeLb mode order) h
  | changeLb {mode : String} {order : List String} {lb : Balancer}
      (visits : RangeOrder h.hostMap order)
      (built : Balancer.build env.toEnv mode order = .ok lb) :
      Effect env h (.changeLb mode order) { h with lb := lb }
  /-- a round that finds nothing new -/
  | unchanged {host : String} {first second : Bool}
      (dies : ¬ (first = false ∧ h.readAlive host = true))
      (recovers : ¬ (second = true ∧ h.readAlive host = false)) :
      Effect env h (.healthCheck host first second) h
  | died {host : String} {second : Bool} {lb : Balancer} (started : host ∈ h.hostsShutDown)
      (alive : h.readAlive host = true) (removed : h.lb.remove host = .ok lb) :
      Effect env h (.healthCheck host false second) { h.setAlive host false with lb := lb }
  | recovered {host : String} {first : Bool} (started : host ∈ h.hostsShutDown)
      (dead : h.readAlive host = false) :
      Effect env h (.healthCheck host first true) { h.setAlive host true with lb := h.lb.add host }
  | balance (client : String) :
      Effect env h (.balance client) { h with lb := (h.lb.balance client).2 }

variable {env : Env} {pattern : String} {a : Nat} {n n' : Node} {e : HostEvent}

theorem Effect.of_healthCheck {h h' : HTTPProxy} {host : String} {first second : Bool}
    (started : host ∈ h.hostsShutDown) (heq : h.healthCheck host first second = .ok h') :
    Effect env h (.healthCheck host first second) h' := by
  unfold HTTPProxy.healthCheck at heq
  -- a round in which the host dies does not look at it a second time
  split at heq
  · next hdied =>
      obtain ⟨rfl, halive⟩ := hdied
      simp only at heq
      split at heq
      · cases heq
      · next lb hremove =>
          cases heq
          exact .died started halive hremove
  · next hdies =>
      split at heq
      · next hrecovered =>
          obtain ⟨rfl, hdead⟩ := hrecovered
          cases heq
          exact .recovered started hdead
      · next hrecovers =>
          cases heq
          exact .unchanged hdies hrecovers

/-- A step is on the proxy of the pattern, which stays there, and has one of the effects. -/
theorem Step.effect (hp : n.current.relations.lookup pattern = some a)
    (h : Step env pattern a n e n') :
    n'.current.relations.lookup pattern = some a ∧ n'.router = n.router ∧ n'.acl = n.acl ∧
      Effect env (n.proxies a) e (n'.proxies a) := by
  cases h with
  | @addProxy _ host out h =>
      unfold Node.addProxy at h
      rw [hp] at h
      cases hurl : env.parse host with
      | error err =>
          simp only [hurl] at h
          cases h
          exact ⟨hp, rfl, rfl, .rejected hurl⟩
      | ok url =>
          -- the host has come to the map, the balancer, and the checkers
          simp only [hurl] at h
          cases h
          refine ⟨hp, rfl, rfl, ?_⟩
          rw [Node.proxies_modifyProxy_self]
          exact .addProxy hurl
  | removeHost h =>
      unfold Node.removeHost at h
      rw [hp] at h
      simp only at h
      split at h
      · next hcond =>
          obtain ⟨rfl, hchannel⟩ := hcond
          cases h
          refine ⟨hp, rfl, rfl, ?_⟩
          rw [Node.proxies_modifyProxy_self]
          exact .removeHost hchannel
      -- nobody has taken the message in time
      · next hcond =>
          cases h
          exact ⟨hp, rfl, rfl, .timedOut hcond⟩
  | @changeLb _ mode order out visits h =>
      unfold Node.changeLb at h
      rw [hp] at h
      cases hlb : Balancer.build env.toEnv mode order with
      | error err =>
          simp only [hlb] at h
          cases h
          exact ⟨hp, rfl, rfl, .unsupported hlb⟩
      | ok lb =>
          simp only [hlb] at h
          cases h
          refine ⟨hp, rfl, rfl, ?_⟩
          rw [Node.proxies_modifyProxy_self]
          exact .changeLb visits hlb
  | healthCheck started h =>
      refine ⟨hp, rfl, rfl, ?_⟩
      rw [Node.proxies_modifyProxy_self]
      exact .of_healthCheck started h
  | balance client =>
      refine ⟨hp, rfl, rfl, ?_⟩
      unfold Node.balanced
      rw [Node.proxies_modifyProxy_self]
      exact .balance client

/-- No event gives the proxy another map, and channels are not taken away. -/
theorem Effect.keeps {h h' : HTTPProxy} (E : Effect env h e h') : h'.proxyMap = h.proxyMap := by
  cases E <;> rfl

end HostEvent

/-! ### A new proxy

Runs begin where a proxy has just been made, for a pattern that may have had another one before. -/

/-- The proxy of a pattern that has just been added. -/
theorem addProxyWithLocation_new {env : Env} {n n' : Node} {l : Location}
    (hnew : n.addProxyWithLocation env l = (.ok none, n')) :
    ∃ proxy, newHTTPProxy env l.pattern l.proxyPass l.balanceMode = .ok proxy ∧
      n'.current.relations.lookup l.pattern = some n.nextProxy ∧
      n'.proxies n.nextProxy = { proxy with proxyMap := some n.proxyMap } := by
  have hserved := Node.lookup_addProxyWithLocation hnew
  obtain ⟨proxy, hosts, hproxy, -, rfl⟩ := Node.addProxyWithLocation_eq_ok hnew
  refine ⟨proxy, hproxy, hserved, ?_⟩
  show (n.related l proxy).proxies n.nextProxy = _
  rw [Node.proxies_related, Function.update_self]

/-! ## The balancer answers with hosts of `HostMap`

`RemoveHost` takes a host out of `HostMap` and leaves it in the balancer, and a checker that has not heard
of it can bring it back there. So a client can be sent to a host that the map has no proxy for. What has to
be ruled out step by step is `Orderly`; under it the hosts of the balancer stay inside the map. -/

/-- What keeps the balancer inside `HostMap`: a host is only removed when the balancer does not have
it, a checker that finds its host dead takes it out of a ring cleanly, and one that finds its host
back finds it in `HostMap`. -/
def HostEvent.Orderly (h : HTTPProxy) : HostEvent → Prop
  | .removeHost host received => received = true → ¬ h.lb.Has host
  | .healthCheck host first second =>
      (first = false → h.readAlive host = true → h.lb.RemovesCleanly host) ∧
        (second = true → h.readAlive host = false → host ∈ h.hostMap)
  | _ => True

/-- The balancer has hosts of `HostMap` only. -/
structure HTTPProxy.Backed (h : HTTPProxy) : Prop where
  sound : h.lb.Sound
  backed : ∀ host, h.lb.Has host → host ∈ h.hostMap
  linked : h.proxyMap ≠ none

/-- What the balancer answers is a key of `HostMap`, and a request is never forwarded through a
missing reverse proxy: not by the proxy itself, and not by the router. -/
structure Node.Forwards (n : Node) (a : Nat) : Prop where
  member : ∀ client host, ((n.proxies a).lb.balance client).1 = .ok host →
    host ∈ (n.proxies a).hostMap
  own : ∀ remoteAddr path, HTTPProxy.accessControl n.acl remoteAddr = .ok true →
    ∃ res, ((n.proxies a).serveHTTP n.acl remoteAddr path).1 = .ok res
  routed : ∀ req path, n.Routes req a path → ∃ res, (n.serveHTTP req).1 = .ok res

section Backed

variable {env : Env} {h h' : HTTPProxy} {e : HostEvent} {n : Node} {a : Nat}

/-- The balancer of a new proxy is built from the keys of its map. -/
theorem newHTTPProxy_backed {pattern algo : String} {targets : List String} {m : Nat}
    (hnew : newHTTPProxy env pattern targets algo = .ok h) :
    HTTPProxy.Backed { h with proxyMap := some m } := by
  unfold newHTTPProxy at hnew
  split at hnew
  · cases hnew
  · next hosts hhosts =>
      split at hnew
      · cases hnew
      · next lb hlb =>
          cases hnew
          obtain ⟨hsound, hmem⟩ := Balancer.build_spec hlb
          refine ⟨hsound, fun host hhas => ?_, by simp⟩
          rw [← Finmap.mem_keys]
          show host ∈ (fill hosts id).keys
          rw [keys_fill]
          exact List.mem_toFinset.mpr (hmem host hhas)

/-- Every orderly event keeps the balancer inside `HostMap`. -/
theorem HTTPProxy.Backed.effect (B : h.Backed) (E : HostEvent.Effect env h e h')
    (ho : e.Orderly h) : h'.Backed := by
  refine ⟨?_, ?_, by rw [E.keeps]; exact B.linked⟩
  · cases E with
    | rejected parsed => exact B.sound
    | timedOut unanswered => exact B.sound
    | unsupported built => exact B.sound
    | unchanged dies recovers => exact B.sound
    | addProxy parsed => exact B.sound.add _
    | removeHost channel => exact B.sound
    | changeLb visits built => exact (Balancer.build_spec built).1
    | died started alive removed =>
        obtain ⟨lb, hremove, hsound, -⟩ := B.sound.remove (ho.1 rfl alive)
        rw [removed] at hremove
        cases hremove
        exact hsound
    | recovered started dead => exact B.sound.add _
    | balance client => exact (Balancer.balance_keeps _ client "").1.mpr B.sound
  · intro host hhas
    cases E with
    | rejected parsed => exact B.backed host hhas
    | timedOut unanswered => exact B.backed host hhas
    | unsupported built => exact B.backed host hhas
    | unchanged dies recovers => exact B.backed host hhas
    | addProxy parsed =>
        refine Finmap.mem_insert.mpr ?_
        rcases Balancer.has_of_has_add hhas with rfl | hold
        · exact .inl rfl
        · exact .inr (B.backed host hold)
    | removeHost channel =>
        -- the balancer does not have the host that goes
        refine Finmap.mem_erase.mpr ⟨?_, B.backed host hhas⟩
        rintro rfl
        exact ho rfl hhas
    | changeLb visits built => exact (visits.mem_iff host).mp ((Balancer.build_spec built).2 host hhas)
    | died started alive removed =>
        obtain ⟨lb, hremove, -, hsub⟩ := B.sound.remove (ho.1 rfl alive)
        rw [removed] at hremove
        cases hremove
        exact B.backed host (hsub host hhas)
    | recovered started dead =>
        -- the checker has put its host back, which is in `HostMap`
        rcases Balancer.has_of_has_add hhas with rfl | hold
        · exact ho.2 rfl dead
        · exact B.backed host hold
    | balance client => exact B.backed host ((Balancer.balance_keeps _ client _).2.1.mp hhas)

/-- A proxy whose balancer stays inside the map has somewhere to forward every request to. -/
theorem HTTPProxy.Backed.forwards (B : (n.proxies a).Backed) : n.Forwards a := by
  have hmember : ∀ client host, ((n.proxies a).lb.balance client).1 = .ok host →
      host ∈ (n.proxies a).hostMap := fun client host hok =>
    B.backed host (B.sound.has_of_balance hok)
  refine ⟨hmember, fun remoteAddr path hpass => ?_, fun req path hroutes => ?_⟩
  · unfold HTTPProxy.serveHTTP
    simp only [hpass]
    cases hres : ((n.proxies a).lb.balance (getIP remoteAddr)).1 with
    | error err => exact ⟨_, rfl⟩
    | ok host =>
        obtain ⟨url, hurl⟩ := Finmap.mem_iff.mp (hmember _ host hres)
        simp only [hurl]
        exact ⟨_, rfl⟩
  · obtain ⟨m, hm⟩ := Option.ne_none_iff_exists'.mp B.linked
    rcases Node.serveHTTP_of_routes hroutes hm with ⟨-, -, -, err, herr⟩ | ⟨-, hpanic⟩
    · exact ⟨_, herr⟩
    · cases hres : (n.serveHTTP req).1 with
      | ok res => exact ⟨res, rfl⟩
      | error fault =>
          -- the only panic is at a host that is not in `HostMap`
          obtain ⟨host, hok, hnot⟩ := hpanic fault hres
          exact absurd (hmember _ host hok) hnot

end Backed

/-! ### Every orderly run

One event keeps the balancer inside the map, so a run of orderly ones does. -/

/-- In every orderly run of the proxy of a new pattern: whatever host the balancer answers with is a
key of `HostMap`. -/
theorem balance_mem_hostMap {env : Env} {n₀ n₁ n : Node} {l : Location} {es : List HostEvent}
    (hnew : n₀.addProxyWithLocation env l = (.ok none, n₁))
    (hrun : Trace (fun n e n' => HostEvent.Step env l.pattern n₀.nextProxy n e n' ∧
      e.Orderly (n.proxies n₀.nextProxy)) n₁ es n) : n.Forwards n₀.nextProxy := by
  obtain ⟨proxy, hproxy, hp, hfirst⟩ := addProxyWithLocation_new hnew
  have hinit : (n₁.proxies n₀.nextProxy).Backed := by
    rw [hfirst]
    exact newHTTPProxy_backed hproxy
  have hinv : n.current.relations.lookup l.pattern = some n₀.nextProxy ∧
      (n.proxies n₀.nextProxy).Backed := by
    refine hrun.invariant (I := fun n => n.current.relations.lookup l.pattern = some n₀.nextProxy ∧
      (n.proxies n₀.nextProxy).Backed) ⟨hp, hinit⟩ ?_
    intro n e n' hI hstep
    obtain ⟨hp', -, -, heffect⟩ := hstep.1.effect hI.1
    exact ⟨hp', hI.2.effect heffect hstep.2⟩
  exact hinv.2.forwards

def twoHosts : Location := ⟨"/api", ["http://a:80", "http://b:80"], "round-robin"⟩

/-- One host dies, and is removed. -/
theorem balance_mem_hostMap_dead : ∃ n es, es.length = 3 ∧
    Trace (HostEvent.Step Env.plain "/api" 0) (Node.new.addProxyWithLocation Env.plain twoHosts).2
      es n ∧ n.Forwards 0 := by
  have hrun : Trace (fun n e n' => HostEvent.Step Env.plain "/api" 0 n e n' ∧
      e.Orderly (n.proxies 0)) (Node.new.addProxyWithLocation Env.plain twoHosts).2 [] _ := .nil
  have hrun := hrun.snoc (e := HostEvent.healthCheck "a:80" false false)
    ⟨.healthCheck (by decide) rfl, fun _ _ => trivial, fun h => by cases h⟩
  have hrun := hrun.snoc (e := HostEvent.removeHost "a:80" true) ⟨.removeHost rfl, fun _ => by
    show "a:80" ∉ ["b:80"]
    decide⟩
  have hrun := hrun.snoc (e := HostEvent.balance "c") ⟨.balance "c", trivial⟩
  have hnew : Node.new.addProxyWithLocation Env.plain twoHosts =
      (.ok none, (Node.new.addProxyWithLocation Env.plain twoHosts).2) := rfl
  exact ⟨_, _, rfl, hrun.mono fun h => h.1, balance_mem_hostMap hnew hrun⟩

/-- A host is removed while it is alive: the balancer goes on answering with it. -/
theorem not_balance_mem_hostMap : ¬ ∀ (env : Env) (n₀ n₁ n : Node) (l : Location)
    (es : List HostEvent), n₀.addProxyWithLocation env l = (.ok none, n₁) →
    Trace (HostEvent.Step env l.pattern n₀.nextProxy) n₁ es n →
    ∀ client host, ((n.proxies n₀.nextProxy).lb.balance client).1 = .ok host →
      host ∈ (n.proxies n₀.nextProxy).hostMap := by
  intro h
  have hmem := h Env.plain Node.new _ _ ⟨"/api", ["http://a:80"], "round-robin"⟩
    ([] ++ [.removeHost "a:80" true]) rfl (.snoc .nil (.removeHost rfl)) "c" "a:80" rfl
  revert hmem
  decide

end Cheryl.ReverseProxy
