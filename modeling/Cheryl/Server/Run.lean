import Cheryl.Acl.Texts
import Cheryl.Library.Trace
import Cheryl.ReverseProxy.Route
import Cheryl.Server.Changes

/-!
# Runs of a node

From its start on a node applies entries, gets its router, changes the balancing mode of a pattern
and serves requests. `Sane` collects what holds of it at any time: the state is `Ready`, the tree of
the ACL is `Intact`, and what a snapshot would store of it can be restored (`Storable`). Each step
makes at most one change of the configuration, of those the event may ask for (`Step.spec`).
-/

namespace Cheryl.Server

open Library ReverseProxy Acl RateLimit

/-! ## Serving a request

A request can change the configuration in one way: a path that is seen for the first time gets the default
limiter, and the record of it. What it does to the balancer is not configured. -/

section Serve

variable {env : Env} {n n' : Node} {p path : String} {a : Nat} {out : Outcome}

/-- An operation that may have set the default limiter of a path, and nothing else. -/
structure Served (env : Env) (n n' : Node) : Prop where
  ready : Ready n'
  config : n'.config = n.config ∨ ∃ p path, n.config.services p ≠ none ∧
    n'.config = (Change.setLimiter p (defaultLimiterInfo path)).apply env n.config
  acl : n'.acl = n.acl

theorem Served.refl (R : Ready n) : Served env n n := ⟨R, .inl rfl, rfl⟩

/-- `invaildToken` on the proxy of a pattern. A path seen for the first time gets a limiter. -/
theorem Ready.invaildToken (env : Env) (R : Ready n) (hp : n.current.relations.lookup p = some a) {token : Bool}
    (h : n.invaildToken a path token = (out, n')) :
    Served env n n' ∧ n'.current.relations = n.current.relations := by
  unfold Node.invaildToken at h
  split at h
  · cases h
    exact ⟨.refl R, rfl⟩
  · next hnew =>
      obtain ⟨n₁, heq, hrec⟩ :=
        setLimiter_spec R.linked hp path newQpsRateLimiter (defaultLimiterInfo path)
      unfold Node.configRate at h
      rw [if_neg hnew, heq] at h
      cases h
      have hchanged : Changed env n n' (.setLimiter p (defaultLimiterInfo path)) :=
        R.of_reconfigured hrec
      refine ⟨⟨hchanged.ready, .inr ⟨p, path, ?_, hchanged.config⟩, hchanged.acl⟩, hrec.relations⟩
      rw [Node.services_of_lookup hp]
      simp

/-- Moving on the balancer of a pattern changes nothing that is configured. -/
theorem Ready.balance (R : Ready n) (hp : n.current.relations.lookup p = some a) (url : String) :
    Reconfigured n (n.modifyProxy a fun h => { h with lb := (h.lb.balance url).2 }) n.config := by
  have S := R.linked.serves hp
  have h := R.linked.reconfigured (f := fun h => { h with lb := (h.lb.balance url).2 })
    (g := fun s => s) hp ⟨S.pattern, S.proxyMap, S.waiting, S.channels⟩
    (Service.ext rfl (Balancer.mode_balance _ _) rfl)
  rwa [Config.modify_eq_self fun _ _ => rfl] at h

/-- Serving a request, whatever comes of it. -/
theorem Ready.serveHTTP (env : Env) (R : Ready n) (req : Request) : Served env n (n.serveHTTP req).2 := by
  unfold Node.serveHTTP
  split
  · exact .refl R
  · exact .refl R
  · exact .refl R
  · next hosts hacl hrouter =>
      split
      · exact .refl R
      · exact .refl R
      · next a rest hfilter hroute =>
          -- the route leads to a proxy of the router, which is in `Relations` as well
          obtain ⟨p, hp⟩ := mem_of_route hroute
          have hrel : n.current.relations.lookup p = some a := by
            rcases R.synced with h | ⟨h, -⟩
            · rw [hrouter] at h
              cases h
              exact hp
            · rw [hrouter] at h
              cases h
          rcases htoken : n.invaildToken a rest req.token with ⟨out, n₁⟩
          obtain ⟨hserved, hsame⟩ := R.invaildToken env hrel htoken
          rw [← hsame] at hrel
          have hmoved := hserved.ready.balance hrel (Utils.getIP req.remoteAddr)
          have hboth : Served env n (n₁.modifyProxy a fun h =>
              { h with lb := ((n₁.proxies a).lb.balance (Utils.getIP req.remoteAddr)).2 }) := by
            refine ⟨⟨hmoved.linked, ?_⟩, ?_, hmoved.acl.trans hserved.acl⟩
            · exact hserved.ready.synced
            · rw [show (n₁.modifyProxy a fun h =>
                { h with lb := ((n₁.proxies a).lb.balance (Utils.getIP req.remoteAddr)).2 }).config
                  = n₁.config from hmoved.config]
              exact hserved.config
          rcases out with fault | _ | err
          · exact hserved
          · simp only
            split
            · exact hboth
            · split
              · exact hboth
              · exact hboth
          · exact hserved

end Serve

/-! ## What can be stored

A snapshot keeps the locations and the records of the limiters, and `Restore` has to make the services of
these again. `Storable` is what that takes, as a condition on the table; it is shown here that every change
a node makes keeps it. -/

/-- A configuration that a snapshot can restore: exactly the patterns with a location are served,
under their own names, by proxies that can be made again; and the limiters recorded can be set
again. A pattern without a record has no limiters. -/
structure Config.Storable (env : Env) (c : Config) : Prop where
  served : ∀ p, c.services p = none ↔ c.locations p = none
  pattern : ∀ {p l}, c.locations p = some l → l.pattern = p
  constructible : ∀ {p l}, c.locations p = some l → l.Constructible env
  supported : ∀ {p info}, info ∈ c.limiters p → info.limiterType = "qps"
  recorded : ∀ {p s}, c.services p = some s → c.limiters p = [] → s.methods = fun _ => none

/-- What a change takes for granted. -/
def Change.Permitted (env : Env) : Change → Prop
  | .create l => l.Constructible env
  | .setLimiter _ info => info.limiterType = "qps"
  | _ => True

section Storable

variable {env : Env} {c : Config}

/-- A change to one service that leaves its limiters alone. -/
theorem Config.Storable.modify (h : Config.Storable env c) (p : String) {f : Service → Service}
    (hf : ∀ s, (f s).methods = s.methods) : Config.Storable env (c.modify p f) where
  served := by
    intro q
    rw [Config.services_modify_eq_none]
    exact h.served q
  pattern := h.pattern
  constructible := h.constructible
  supported := h.supported
  recorded := by
    intro q s hs hnil
    by_cases hq : q = p
    · subst hq
      rw [Config.services_modify_self] at hs
      obtain ⟨s₀, hs₀, rfl⟩ := Option.map_eq_some_iff.mp hs
      rw [hf, h.recorded hs₀ hnil]
    · rw [Config.services_modify_of_ne hq] at hs
      exact h.recorded hs hnil

/-- A location that is served: its pattern has a location and a service then. -/
theorem Config.Storable.put (h : Config.Storable env c) {l : Location} (hcon : l.Constructible env) :
    Config.Storable env (c.put l (l.service env)) where
  served := by
    intro q
    by_cases hq : q = l.pattern
    · subst hq
      simp
    · rw [Config.services_put_of_ne hq, Config.locations_put_of_ne hq]
      exact h.served q
  pattern := by
    intro q l' hl
    by_cases hq : q = l.pattern
    · subst hq
      rw [Config.locations_put_self, Option.some.injEq] at hl
      rw [hl]
    · rw [Config.locations_put_of_ne hq] at hl
      exact h.pattern hl
  constructible := by
    intro q l' hl
    by_cases hq : q = l.pattern
    · subst hq
      rw [Config.locations_put_self, Option.some.injEq] at hl
      rw [← hl]
      exact hcon
    · rw [Config.locations_put_of_ne hq] at hl
      exact h.constructible hl
  supported := h.supported
  recorded := by
    intro q s hs hnil
    by_cases hq : q = l.pattern
    · -- a new proxy has no limiters, whatever is still recorded for its pattern
      subst hq
      rw [Config.services_put_self, Option.some.injEq] at hs
      rw [← hs]
      rfl
    · rw [Config.services_put_of_ne hq] at hs
      exact h.recorded hs hnil

/-- And one that is served no more has neither. -/
theorem Config.Storable.remove (h : Config.Storable env c) (p : String) :
    Config.Storable env (c.remove p) where
  served := by
    intro q
    by_cases hq : q = p
    · subst hq
      simp
    · rw [Config.services_remove_of_ne hq, Config.locations_remove_of_ne hq]
      exact h.served q
  pattern := by
    intro q l hl
    by_cases hq : q = p
    · subst hq
      simp at hl
    · rw [Config.locations_remove_of_ne hq] at hl
      exact h.pattern hl
  constructible := by
    intro q l hl
    by_cases hq : q = p
    · subst hq
      simp at hl
    · rw [Config.locations_remove_of_ne hq] at hl
      exact h.constructible hl
  supported := h.supported
  recorded := by
    intro q s hs hnil
    by_cases hq : q = p
    · subst hq
      simp at hs
    · rw [Config.services_remove_of_ne hq] at hs
      exact h.recorded hs hnil

/-- A limiter is set and recorded. -/
theorem Config.Storable.limited (h : Config.Storable env c) (p : String) {info : LimiterInfo}
    (hqps : info.limiterType = "qps") (f : Service → Service) :
    Config.Storable env ((c.modify p f).record p info) where
  served := by
    intro q
    show (c.modify p f).services q = none ↔ _
    rw [Config.services_modify_eq_none]
    exact h.served q
  pattern := h.pattern
  constructible := h.constructible
  supported := by
    intro q info' hmem
    by_cases hq : q = p
    · subst hq
      simp only [Config.record, Config.modify, Function.update_self, List.mem_append,
        List.mem_singleton] at hmem
      rcases hmem with hmem | rfl
      · exact h.supported hmem
      · exact hqps
    · simp only [Config.record, Config.modify, Function.update_of_ne hq] at hmem
      exact h.supported hmem
  recorded := by
    intro q s hs hnil
    by_cases hq : q = p
    · -- the record of the pattern is not empty now
      subst hq
      simp [Config.record, Config.modify] at hnil
    · simp only [Config.record, Config.modify, Function.update_of_ne hq] at hs hnil
      exact h.recorded hs hnil

/-- Every permitted change keeps a configuration storable. -/
theorem Config.Storable.change (h : Config.Storable env c) {change : Change}
    (hp : change.Permitted env) : Config.Storable env (change.apply env c) := by
  cases change with
  | create l => exact h.put hp
  | remove p => exact h.remove p
  | addHost p host => exact h.modify p fun _ => rfl
  | removeHost p host => exact h.modify p fun _ => rfl
  | setMode p mode => exact h.modify p fun _ => rfl
  | setLimiter p info => exact h.limited p hp _

end Storable

/-! ## Steps

A node takes steps that come from the log, from its start, from the administration of balancing modes and
from clients. A run is a trace of them from a node as it is made. -/

inductive Event (δ : Type)
  /-- `FSM.Apply`; `received` is for the `RemoveHost` it may come to -/
  | apply (entry : LogEntry δ) (received : Bool)
  /-- `GetRouterInstance` in `startRouter` -/
  | startRouter (name : String)
  /-- `ChangeLb`; `order` is the order in which it visits `HostMap` -/
  | changeLb (pattern mode : String) (order : List String)
  /-- a request is served -/
  | serve (req : Request)

/-- One step. An entry that panics takes the node down. A handler that panics is recovered, and
what it changed stays. -/
inductive Step {δ : Type} (env : Env) (enc : Encoding δ) : Node → Event δ → Node → Prop
  | apply {n n' : Node} {entry : LogEntry δ} {received : Bool} {ret : Option GoError}
      (h : FSM.apply env enc n entry received = (.ok ret, n')) : Step env enc n (.apply entry received) n'
  | startRouter {n : Node} (name : String) :
      Step env enc n (.startRouter name) (n.getRouterInstance name)
  | changeLb {n n' : Node} {pattern mode : String} {order : List String} {out : Outcome}
      (visits : ∀ a, n.current.relations.lookup pattern = some a →
        RangeOrder (n.proxies a).hostMap order)
      (h : n.changeLb env pattern mode order = (out, n')) :
      Step env enc n (.changeLb pattern mode order) n'
  | serve {n : Node} (req : Request) : Step env enc n (.serve req) (n.serveHTTP req).2

/-- The changes an event may ask for. -/
def Event.Asks {δ : Type} (env : Env) (enc : Encoding δ) (c : Config) : Event δ → Option Change → Prop
  | .apply entry received, change => change = FSM.asked env enc c entry received
  | .startRouter _, change => change = none
  | .changeLb pattern mode order, change =>
      change = none ∨ change = some (.setMode pattern mode) ∧
        ∃ lb, Balancer.build env.toEnv mode order = .ok lb
  | .serve _, change =>
      change = none ∨ ∃ p path, c.services p ≠ none ∧
        change = some (.setLimiter p (defaultLimiterInfo path))

/-- A node as it is made: `NewProxyMap`, `NewRadixTree`, the router made or not. -/
structure Start (n : Node) : Prop where
  current : n.current = newProxyMap
  router : n.router = none ∨ n.router = some ∅
  acl : n.acl = RadixTree.new

/-- A node that has just been made is at its start. -/
theorem start_new : Start Node.new := ⟨rfl, .inr rfl, rfl⟩

def Reachable {δ : Type} (env : Env) (enc : Encoding δ) (n : Node) : Prop :=
  ∃ n₀ es, Start n₀ ∧ Trace (Step env enc) n₀ es n

/-- What holds of a node at any time. -/
structure Sane (env : Env) (n : Node) : Prop extends Ready n where
  intact : RadixTree.Intact n.acl
  accepted : ∀ s ∈ n.acl.record, RadixTree.Accepted s
  storable : Config.Storable env n.config

section Run

variable {δ : Type} {env : Env} {enc : Encoding δ} {n n' n₀ : Node} {e : Event δ} {es : List (Event δ)}

/-! ### Nodes that are sane

A sane node is ready, has an intact tree with a record of accepted texts, and has a configuration that can
be stored. A start is sane, and a step makes at most one permitted change or one call on the tree. -/

/-- Nothing is configured then. -/
theorem Start.config (h : Start n) : n.config = ⟨fun _ => none, fun _ => none, fun _ => []⟩ := by
  unfold Node.config
  rw [h.current]
  simp [newProxyMap]

/-- And it is sane. -/
theorem Start.sane (h : Start n) : Sane env n where
  linked := by
    refine ⟨by rw [h.current]; rfl, fun {p a} hp => ?_, fun {p a} hp => ?_⟩ <;>
      simp [h.current, newProxyMap] at hp
  synced := by
    rcases h.router with hr | hr
    · exact .inr ⟨hr, by rw [h.current]; rfl⟩
    · exact .inl (by rw [hr, h.current]; rfl)
  intact := by rw [h.acl]; exact RadixTree.intact_new
  accepted := by
    intro s hs
    rw [h.acl] at hs
    simp [RadixTree.new] at hs
  storable := by
    rw [h.config]
    exact ⟨fun _ => by simp, fun h => (by cases h), fun h => (by cases h), fun h => (by cases h),
      fun h => (by cases h)⟩

/-- The router is made when there is none; there are no proxies then. -/
theorem Ready.getRouterInstance (R : Ready n) (name : String) : Ready (n.getRouterInstance name) := by
  unfold Node.getRouterInstance
  split
  · next h =>
      have hnone : n.current.relations = ∅ := by
        rcases R.synced with hs | ⟨-, hs⟩
        · rw [h.1] at hs
          cases hs
        · exact hs
      refine ⟨⟨R.linked.routerType, R.linked.serves, R.linked.allocated⟩, .inl ?_⟩
      show some (∅ : GoMap String Nat) = some n.current.relations
      rw [hnone]
  · exact R

/-- The router is there, made or found. -/
theorem router_getRouterInstance (n : Node) {name : String} (hname : name = "default") :
    (n.getRouterInstance name).router ≠ none := by
  unfold Node.getRouterInstance
  split
  · exact Option.some_ne_none _
  · next h => exact fun hnone => h ⟨hnone, hname⟩

/-- The router is not part of the configuration. -/
theorem config_getRouterInstance (n : Node) (name : String) :
    (n.getRouterInstance name).config = n.config ∧ (n.getRouterInstance name).acl = n.acl := by
  unfold Node.getRouterInstance
  split <;> exact ⟨rfl, rfl⟩

/-- What an entry asks for is permitted. -/
theorem FSM.asked_permitted {c : Config} {entry : LogEntry δ} {received : Bool} {change : Change}
    (h : FSM.asked env enc c entry received = some change) : change.Permitted env := by
  unfold FSM.asked at h
  split at h
  · split at h
    · cases h
    · split at h
      · next proxy hnew hproxy =>
          cases h
          exact ⟨proxy, hproxy⟩
      · cases h
  split at h
  · split at h
    · cases h
    · split at h
      -- a limiter is only asked for when its type is known
      · next hqps =>
          cases h
          exact hqps.2
      · cases h
  split at h
  · split at h <;> cases h
    trivial
  split at h
  · split at h
    · cases h
    · split at h <;> cases h
      trivial
  split at h
  · split at h
    · cases h
    · split at h
      · cases h
      · split at h <;> cases h
        trivial
  · cases h

/-- The same of any event. -/
theorem Event.Asks.permitted {c : Config} {change : Change} (h : e.Asks env enc c (some change)) :
    change.Permitted env := by
  cases e with
  | apply entry received => exact FSM.asked_permitted h.symm
  | startRouter name => cases h
  | changeLb pattern mode order =>
      rcases h with h | ⟨h, -⟩ <;> cases h
      trivial
  | serve req =>
      rcases h with h | ⟨p, path, -, h⟩ <;> cases h
      rfl

/-! ### Step by step

A step is looked at once, in `Step.spec`, which says what has become of configuration, tree and readiness.
What a run keeps follows from it. -/

/-- A step makes at most one change, of those its event may ask for. It calls the tree only for
an entry of the ACL. -/
theorem Step.spec (R : Ready n) (h : Step env enc n e n') :
    Ready n' ∧ (∃ change, e.Asks env enc n.config change ∧
      n'.config = Change.perform env n.config change) ∧
    (n'.acl = n.acl ∨ ∃ aclLog err, FSM.switchAcl n.acl aclLog = .ok (err, n'.acl)) := by
  cases h with
  | apply h =>
      have A := FSM.apply_spec R h
      refine ⟨A.ready, ⟨_, rfl, A.config⟩, ?_⟩
      rcases A.acl with hacl | ⟨aclLog, err, -, -, hcall⟩
      · exact .inl hacl
      · exact .inr ⟨aclLog, err, hcall⟩
  | startRouter name =>
      obtain ⟨hconfig, hacl⟩ := config_getRouterInstance n name
      exact ⟨R.getRouterInstance name, ⟨none, rfl, hconfig⟩, .inl hacl⟩
  | changeLb visits h =>
      rcases R.changeLb h with ⟨-, rfl, -⟩ | ⟨-, -, rfl, -⟩ | ⟨-, -, hlb, hchanged⟩
      · exact ⟨R, ⟨none, .inl rfl, rfl⟩, .inl rfl⟩
      · exact ⟨R, ⟨none, .inl rfl, rfl⟩, .inl rfl⟩
      · exact ⟨hchanged.ready, ⟨_, .inr ⟨rfl, hlb⟩, hchanged.config⟩, .inl hchanged.acl⟩
  | serve req =>
      obtain ⟨hready, hconfig, hacl⟩ := R.serveHTTP env req
      refine ⟨hready, ?_, .inl hacl⟩
      rcases hconfig with h | ⟨p, path, hp, h⟩
      · exact ⟨none, .inl rfl, h⟩
      · exact ⟨_, .inr ⟨p, path, hp, rfl⟩, h⟩

/-- A call on the tree keeps it intact, and adds only texts that can be added. -/
theorem switchAcl_intact {t t' : RadixTree} (I : RadixTree.Intact t)
    (hacc : ∀ s ∈ t.record, RadixTree.Accepted s) {aclLog : AclLog} {err : Option GoError}
    (h : FSM.switchAcl t aclLog = .ok (err, t')) :
    RadixTree.Intact t' ∧ ∀ s ∈ t'.record, RadixTree.Accepted s := by
  unfold FSM.switchAcl at h
  split at h
  · rcases I.Delete aclLog.ipAddress with ⟨-, fault, heq⟩ | ⟨-, err', heq⟩ | ⟨-, t₁, heq, I', hrec⟩
    · rw [heq] at h
      cases h
    · rw [heq] at h
      cases h
      exact ⟨I, hacc⟩
    · rw [heq] at h
      cases h
      refine ⟨I', fun s hs => hacc s ?_⟩
      rw [hrec] at hs
      exact Finset.mem_of_mem_erase hs
  split at h
  -- a text that is added has been accepted, and joins those that were
  · rcases I.add aclLog.ipAddress with ⟨-, fault, heq⟩ | ⟨-, -, err', heq⟩ | ⟨-, hnew, t₁, heq, I', hrec⟩
    · rw [heq] at h
      cases h
    · rw [heq] at h
      cases h
      exact ⟨I, hacc⟩
    · rw [heq] at h
      cases h
      refine ⟨I', fun s hs => ?_⟩
      rw [hrec] at hs
      rcases Finset.mem_insert.mp hs with rfl | hs
      · exact hnew
      · exact hacc s hs
  · cases h
    exact ⟨I, hacc⟩

/-- Every step keeps a node sane. -/
theorem Sane.step (S : Sane env n) (h : Step env enc n e n') : Sane env n' := by
  obtain ⟨hready, ⟨change, hasks, hconfig⟩, hacl⟩ := h.spec S.toReady
  have htree : RadixTree.Intact n'.acl ∧ ∀ s ∈ n'.acl.record, RadixTree.Accepted s := by
    rcases hacl with heq | ⟨aclLog, err, hcall⟩
    · rw [heq]
      exact ⟨S.intact, S.accepted⟩
    · exact switchAcl_intact S.intact S.accepted hcall
  refine ⟨hready, htree.1, htree.2, ?_⟩
  rw [hconfig]
  cases change with
  | none => exact S.storable
  | some change => exact S.storable.change hasks.permitted

/-- Every node is sane at any time. -/
theorem run_sane (h₀ : Start n₀) (hrun : Trace (Step env enc) n₀ es n) : Sane env n :=
  hrun.invariant h₀.sane fun S hstep => S.step hstep

/-- So does being reached by steps. -/
theorem Reachable.sane (h : Reachable env enc n) : Sane env n := by
  obtain ⟨n₀, es, h₀, hrun⟩ := h
  exact run_sane h₀ hrun

theorem reachable_new : Reachable env enc Node.new := ⟨_, [], start_new, .nil⟩

end Run

def Node.api : Node := (FSM.apply Env.plain Payload.encoding Node.new createApi false).2

theorem reachable_api : Reachable Env.plain Payload.encoding Node.api :=
  ⟨_, _, start_new, .snoc (e := Event.apply createApi false) .nil (.apply rfl)⟩

end Cheryl.Server
