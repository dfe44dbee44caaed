import Cheryl.ReverseProxy.HealthCheck
import Cheryl.ReverseProxy.Tokens
import Cheryl.Server.Run

/-!
# Requests in flight

`DefaultRouter.ServeHTTP` looks at the node one thing after the other: the access list, the filters, the
router, the limiter of the path, the balancer, and `HostMap`. Between any two of these other requests get
on, the handlers and the log change the proxies, and the health checkers make their rounds. `Stage` is
where a request is, and `Stage.next` takes it on; a request that is on its own does what `Node.serveHTTP`
says (`Stage.ends_serveHTTP`). In a run that keeps clear of the hazards in `Traffic.Orderly`, no request
panics, also one whose proxy has been removed or replaced in the meantime (`flights_answered`). A stage is
one step, and so is a call of a handler or of the log: accesses to a map that collide are not looked at.
-/

namespace Cheryl.Server

open Library ReverseProxy Acl RateLimit Utils

/-! ## The stages

Each stage ends where `ServeHTTP` has read something that another goroutine may change: what was read is in
the stage, and everything else is read from the node again. The proxy is kept as an address, so a request
goes on with a proxy that is no longer served. -/

/-- Where a request is in `DefaultRouter.ServeHTTP`. -/
inductive Stage
  | arrived
  /-- the access list has let it pass -/
  | admitted
  /-- the filters have let it pass -/
  | filtered
  /-- `Route` has found a proxy and the rewritten path -/
  | routed (a : Nat) (realpath : String)
  /-- the lookup found no limiter -/
  | absent (a : Nat) (realpath : String)
  | found (a : Nat) (realpath : String)
  /-- the limiter has let it pass -/
  | allowed (a : Nat) (realpath : String)
  /-- the balancer has chosen a host -/
  | balanced (a : Nat) (realpath host : String)
  | answered (res : Except Fault Response)

namespace Stage

/-- The next stage of a request. -/
def next (n : Node) (req : Request) : Stage → Stage × Node
  | .arrived =>
      match n.acl.accessControl req.remoteAddr with
      | .error fault => (.answered (.error fault), n)
      | .ok true => (.answered (.ok .forbidden), n)
      | .ok false => (.admitted, n)
  | .admitted =>
      match req.filtered with
      | some err => (.answered (.ok (.filtered err)), n)
      | none => (.filtered, n)
  | .filtered =>
      match n.router with
      | none => (.answered (.error .nilDereference), n)
      | some hosts =>
          match Node.route hosts req.path.toList req.path.toList.length with
          | none => (.answered (.ok .notFound), n)
          | some (a, realpath) => (.routed a realpath, n)
  | .routed a realpath =>
      if realpath ∈ (n.proxies a).methods then (.found a realpath, n) else (.absent a realpath, n)
  | .absent a realpath =>
      -- between the lookup and the lock another request may have made the limiter
      match n.configRate a realpath with
      | (.error fault, n) => (.answered (.error fault), n)
      | (.ok (some err), n) => (.answered (.ok (.badRequest err)), n)
      | (.ok none, n) => (.allowed a realpath, n)
  | .found a realpath =>
      if req.token then (.allowed a realpath, n)
      else (.answered (.ok (.badRequest noReaminTokenError)), n)
  | .allowed a realpath =>
      let res := (n.proxies a).lb.balance (getIP req.remoteAddr)
      let n := n.modifyProxy a fun h => { h with lb := res.2 }
      match res.1 with
      | .error err => (.answered (.ok (.badGateway err)), n)
      | .ok host => (.balanced a realpath host, n)
  | .balanced a realpath host =>
      match (n.proxies a).hostMap.lookup host with
      | none => (.answered (.error .nilDereference), n)
      | some url => (.answered (.ok (.forwarded url realpath)), n)
  | .answered res => (.answered res, n)

/-- So many stages on. -/
def ahead (req : Request) : Nat → Stage × Node → Stage × Node
  | 0, s => s
  | k + 1, s => ahead req k (next s.2 req s.1)

/-- What `ServeHTTP` does after the limiter. -/
def forward (n : Node) (req : Request) (a : Nat) (realpath : String) : Except Fault Response × Node :=
  let res := (n.proxies a).lb.balance (getIP req.remoteAddr)
  let n := n.modifyProxy a fun h => { h with lb := res.2 }
  match res.1 with
  | .error err => (.ok (.badGateway err), n)
  | .ok host =>
      match (n.proxies a).hostMap.lookup host with
      | none => (.error .nilDereference, n)
      | some url => (.ok (.forwarded url realpath), n)

theorem ahead_succ (req : Request) (k : Nat) (stage : Stage) (n : Node) :
    ahead req (k + 1) (stage, n) = ahead req k (next n req stage) := rfl

theorem ahead_answered (req : Request) (k : Nat) (res : Except Fault Response) (n : Node) :
    ahead req k (.answered res, n) = (.answered res, n) := by
  induction k with
  | zero => rfl
  | succ k ih => exact ih

theorem ahead_allowed (n : Node) (req : Request) (a : Nat) (realpath : String) (k : Nat) :
    ahead req (k + 2) (.allowed a realpath, n) =
      (.answered (forward n req a realpath).1, (forward n req a realpath).2) := by
  unfold forward
  cases hres : ((n.proxies a).lb.balance (getIP req.remoteAddr)).1 with
  | error err => simp [ahead, next, hres, ahead_answered]
  | ok host =>
      cases hlookup : (n.proxies a).hostMap.lookup host with
      | none => simp [ahead, next, hres, hlookup, ahead_answered]
      | some url => simp [ahead, next, hres, hlookup, ahead_answered]

/-- What it does after the route. -/
def limit (n : Node) (req : Request) (a : Nat) (realpath : String) : Except Fault Response × Node :=
  match n.invaildToken a realpath req.token with
  | (.error fault, n) => (.error fault, n)
  | (.ok (some err), n) => (.ok (.badRequest err), n)
  | (.ok none, n) => forward n req a realpath

theorem ahead_routed (n : Node) (req : Request) (a : Nat) (realpath : String) :
    ahead req 4 (.routed a realpath, n) =
      (.answered (limit n req a realpath).1, (limit n req a realpath).2) := by
  unfold limit Node.invaildToken
  by_cases hmem : realpath ∈ (n.proxies a).methods
  · cases htoken : req.token with
    | false => simp [ahead, next, hmem, htoken]
    | true =>
        have hfound : next n req (.routed a realpath) = (.found a realpath, n) := if_pos hmem
        have hallowed : next n req (.found a realpath) = (.allowed a realpath, n) := if_pos htoken
        rw [ahead_succ, hfound, ahead_succ, hallowed, ahead_allowed n req a realpath 0]
        simp [hmem]
  · rcases hconfig : n.configRate a realpath with ⟨fault | _ | err, n₁⟩
    · simp [ahead, next, hmem, hconfig]
    · have habsent : next n req (.routed a realpath) = (.absent a realpath, n) := if_neg hmem
      have hallowed : next n req (.absent a realpath) = (.allowed a realpath, n₁) := by
        simp only [next, hconfig]
      rw [ahead_succ, habsent, ahead_succ, hallowed, ahead_allowed n₁ req a realpath 0]
      simp [hmem]
    · simp [ahead, next, hmem, hconfig]

/-- What `ServeHTTP` does with a request that is routed. -/
theorem serveHTTP_eq_limit {n : Node} {req : Request} {a : Nat} {realpath : String}
    (h : n.Routes req a realpath) : n.serveHTTP req = limit n req a realpath := by
  obtain ⟨hacl, hfiltered, hosts, hr, hroute⟩ := h
  unfold Node.serveHTTP limit
  simp only [hacl, hr, hfiltered, hroute]
  rfl

/-- A request that is on its own is answered as `ServeHTTP` answers it, and leaves the node as it does. -/
theorem ends_serveHTTP (n : Node) (req : Request) (hrouter : n.router ≠ none) :
    ahead req 7 (.arrived, n) = (.answered (n.serveHTTP req).1, (n.serveHTTP req).2) := by
  obtain ⟨hosts, hr⟩ := Option.ne_none_iff_exists'.mp hrouter
  -- routed, it has four stages left; else one of the first three answers it
  by_cases hroutes : ∃ a realpath, n.Routes req a realpath
  · obtain ⟨a, realpath, hroutes⟩ := hroutes
    rw [serveHTTP_eq_limit hroutes, ← ahead_routed]
    obtain ⟨hacl, hfiltered, hosts, hr, hroute⟩ := hroutes
    simp [ahead, next, hacl, hfiltered, hr, hroute]
  · unfold Node.serveHTTP
    rcases hacl : n.acl.accessControl req.remoteAddr with fault | _ | _
    · simp [ahead, next, hacl]
    · cases hfiltered : req.filtered with
      | some err => simp [ahead, next, hacl, hfiltered, hr]
      | none =>
          cases hroute : Node.route hosts req.path.toList req.path.toList.length with
          | none => simp [ahead, next, hacl, hfiltered, hr, hroute]
          | some found => exact absurd ⟨found.1, found.2, hacl, hfiltered, hosts, hr, hroute⟩ hroutes
    · simp [ahead, next, hacl]

end Stage

/-! ## The node between the stages

What a request relies on must hold until its next stage, whatever happens in between. `Standing` is about
the node alone, and is kept by all that happens to it. `Kept` is what two states of the node have to do with
each other: proxies are never freed and hosts stay. Only `RemoveHost` takes a host away, and has lemmas of
its own. -/

/-- All proxies there are, also those that are not served any more, can forward what their balancers
answer; router and `Relations` have none but these. -/
structure Standing (n : Node) : Prop where
  router : ∃ hosts, n.router = some hosts ∧ ∀ p a, hosts.lookup p = some a → a < n.nextProxy
  relations : ∀ p a, n.current.relations.lookup p = some a → a < n.nextProxy
  proxies : ∀ a, a < n.nextProxy → (n.proxies a).Backed

/-- Proxies stay, and keep their hosts. -/
structure Kept (n n' : Node) : Prop where
  allocated : n.nextProxy ≤ n'.nextProxy
  hostMap : ∀ a, a < n.nextProxy → ∀ host, host ∈ (n.proxies a).hostMap → host ∈ (n'.proxies a).hostMap

/-- What a request at this stage relies on. -/
def Stage.Fits (n : Node) : Stage → Prop
  | .arrived => True
  | .admitted => True
  | .filtered => True
  | .routed a _ => a < n.nextProxy
  | .absent a _ => a < n.nextProxy
  | .found a _ => a < n.nextProxy
  | .allowed a _ => a < n.nextProxy
  | .balanced a _ host => a < n.nextProxy ∧ host ∈ (n.proxies a).hostMap
  | .answered res => ∃ response, res = .ok response

section Standing

variable {env : Env} {n n' n'' : Node} {a : Nat} {p : String} {h : HTTPProxy} {f : HTTPProxy → HTTPProxy}

theorem Kept.refl (n : Node) : Kept n n := ⟨Nat.le_refl _, fun _ _ _ hhost => hhost⟩

/-- What a request relies on stays there. -/
theorem Stage.Fits.kept {stage : Stage} (hfits : stage.Fits n) (hkept : Kept n n') : stage.Fits n' := by
  cases stage with
  | arrived => trivial
  | admitted => trivial
  | filtered => trivial
  | routed a realpath => exact lt_of_lt_of_le hfits hkept.allocated
  | absent a realpath => exact lt_of_lt_of_le hfits hkept.allocated
  | found a realpath => exact lt_of_lt_of_le hfits hkept.allocated
  | allowed a realpath => exact lt_of_lt_of_le hfits hkept.allocated
  | balanced a realpath host =>
      exact ⟨lt_of_lt_of_le hfits.1 hkept.allocated, hkept.hostMap a hfits.1 host hfits.2⟩
  | answered res => exact hfits

/-! ### Assignments

A call assigns to one proxy at most. What has to be seen of each assignment is that the proxy stays fit to
forward, and that its `HostMap` loses no host that a request may have been given. -/

/-- An assignment to a proxy that stays fit to forward. -/
theorem Standing.modifyProxy (S : Standing n) (hbacked : a < n.nextProxy → (f (n.proxies a)).Backed) :
    Standing (n.modifyProxy a f) where
  router := S.router
  relations := S.relations
  proxies := by
    intro b hb
    by_cases hba : b = a
    · subst hba
      rw [Node.proxies_modifyProxy_self]
      exact hbacked hb
    · rw [Node.proxies_modifyProxy_of_ne _ hba]
      exact S.proxies b hb

/-- An assignment that takes no host away. -/
theorem Kept.modifyProxy (hsub : ∀ host, host ∈ (n.proxies a).hostMap → host ∈ (f (n.proxies a)).hostMap) :
    Kept n (n.modifyProxy a f) where
  allocated := Nat.le_refl _
  hostMap := by
    intro b _ host hhost
    by_cases hba : b = a
    · subst hba
      rw [Node.proxies_modifyProxy_self]
      exact hsub host hhost
    · rw [Node.proxies_modifyProxy_of_ne _ hba]
      exact hhost

/-- Changes that are not to the proxies. -/
theorem Standing.frame (S : Standing n) (hproxies : n'.proxies = n.proxies)
    (hnext : n'.nextProxy = n.nextProxy)
    (hrouter : ∃ hosts, n'.router = some hosts ∧ ∀ p a, hosts.lookup p = some a → a < n.nextProxy)
    (hrelations : ∀ p a, n'.current.relations.lookup p = some a → a < n.nextProxy) : Standing n' where
  router := by rwa [hnext]
  relations := by rwa [hnext]
  proxies := by rw [hproxies, hnext]; exact S.proxies

theorem Kept.frame (hproxies : n'.proxies = n.proxies) (hnext : n'.nextProxy = n.nextProxy) :
    Kept n n' where
  allocated := hnext.ge
  hostMap := by rw [hproxies]; exact fun _ _ _ hhost => hhost

theorem relations_recordLimiter (n : Node) (a : Nat) (info : LimiterInfo) :
    (n.recordLimiter a info).2.current.relations = n.current.relations := by
  unfold Node.recordLimiter
  split
  · rfl
  · next m hm =>
      dsimp only
      by_cases hmap : m = n.proxyMap
      · subst hmap
        rw [Node.current_modifyMap]
      · simp [Node.modifyMap, Node.current, Function.update_of_ne (Ne.symm hmap)]

theorem frame_recordLimiter (n : Node) (a : Nat) (info : LimiterInfo) :
    (n.recordLimiter a info).2.router = n.router ∧
      (n.recordLimiter a info).2.nextProxy = n.nextProxy := by
  unfold Node.recordLimiter
  split <;> exact ⟨rfl, rfl⟩

theorem Standing.recordLimiter (S : Standing n) (info : LimiterInfo) :
    Standing (n.recordLimiter a info).2 := by
  obtain ⟨hrouter, hnext⟩ := frame_recordLimiter n a info
  refine S.frame Node.proxies_recordLimiter hnext ?_ ?_
  · rw [hrouter]
    exact S.router
  · rw [relations_recordLimiter]
    exact S.relations

theorem Kept.recordLimiter (info : LimiterInfo) : Kept n (n.recordLimiter a info).2 :=
  .frame Node.proxies_recordLimiter (frame_recordLimiter n a info).2

theorem Kept.trans (h : Kept n n') (h' : Kept n' n'') : Kept n n'' where
  allocated := h.allocated.trans h'.allocated
  hostMap := fun b hb host hhost =>
    h'.hostMap b (lt_of_lt_of_le hb h.allocated) host (h.hostMap b hb host hhost)

/-- A limiter is no part of what a proxy needs to forward. -/
theorem Backed.methods (B : h.Backed) (methods : GoMap String QpsRateLimiter) :
    HTTPProxy.Backed { h with methods := methods } := ⟨B.sound, B.backed, B.linked⟩

/-- The limiter of a path is set, and recorded. -/
theorem Standing.limiter (S : Standing n) (g : GoMap String QpsRateLimiter → GoMap String QpsRateLimiter)
    (info : LimiterInfo) :
    Standing ((n.modifyProxy a fun h => { h with methods := g h.methods }).recordLimiter a info).2 ∧
      Kept n ((n.modifyProxy a fun h => { h with methods := g h.methods }).recordLimiter a info).2 := by
  have S₁ : Standing (n.modifyProxy a fun h => { h with methods := g h.methods }) :=
    S.modifyProxy fun ha => Backed.methods (S.proxies a ha) _
  have K₁ : Kept n (n.modifyProxy a fun h => { h with methods := g h.methods }) :=
    .modifyProxy fun _ hhost => hhost
  exact ⟨S₁.recordLimiter info, K₁.trans (.recordLimiter info)⟩

/-! ## The stages of a request

A stage is taken on a node that is fit, with what the request relies on, and leaves both. The stages that
answer do so without a panic, as the host that a fit balancer gives is in `HostMap`. -/

/-- `configRate` returns, and turns the request away or not. -/
theorem configRate_fits (S : Standing n) (ha : a < n.nextProxy) (realpath : String) :
    (∃ err, (n.configRate a realpath).1 = .ok err) ∧ Standing (n.configRate a realpath).2 ∧
      Kept n (n.configRate a realpath).2 := by
  unfold Node.configRate
  split
  · exact ⟨⟨_, rfl⟩, S, .refl n⟩
  · obtain ⟨hstanding, hkept⟩ :=
      S.limiter (a := a) (fun methods => methods.insert realpath newQpsRateLimiter)
        (defaultLimiterInfo realpath)
    refine ⟨?_, hstanding, hkept⟩
    obtain ⟨m, hm⟩ := Option.ne_none_iff_exists'.mp (S.proxies a ha).linked
    unfold Node.recordLimiter
    simp only [Node.proxies_modifyProxy_self, hm]
    exact ⟨none, rfl⟩

/-- A request at its next stage finds what it relies on there, and leaves the node fit. -/
theorem Stage.Fits.next {stage : Stage} {req : Request} (S : Standing n) (hfits : stage.Fits n)
    (hgate : stage = .arrived → ∃ denied, n.acl.accessControl req.remoteAddr = .ok denied) :
    Standing (stage.next n req).2 ∧ Kept n (stage.next n req).2 ∧
      (stage.next n req).1.Fits (stage.next n req).2 := by
  cases stage with
  | arrived =>
      obtain ⟨denied, hdenied⟩ := hgate rfl
      simp only [Stage.next, hdenied]
      cases denied with
      | true => exact ⟨S, .refl n, _, rfl⟩
      | false => exact ⟨S, .refl n, trivial⟩
  | admitted =>
      simp only [Stage.next]
      cases req.filtered with
      | some err => exact ⟨S, .refl n, _, rfl⟩
      | none => exact ⟨S, .refl n, trivial⟩
  | filtered =>
      obtain ⟨hosts, hr, hallocated⟩ := S.router
      simp only [Stage.next, hr]
      cases hroute : Node.route hosts req.path.toList req.path.toList.length with
      | none => exact ⟨S, .refl n, _, rfl⟩
      | some found =>
          -- the router has nothing but proxies there are
          obtain ⟨p, hp⟩ := mem_of_route hroute
          exact ⟨S, .refl n, hallocated p _ hp⟩
  | routed a realpath =>
      simp only [Stage.next]
      split
      · exact ⟨S, .refl n, hfits⟩
      · exact ⟨S, .refl n, hfits⟩
  | absent a realpath =>
      obtain ⟨⟨err, herr⟩, hstanding, hkept⟩ := configRate_fits S hfits realpath
      simp only [Stage.next]
      rcases hconfig : n.configRate a realpath with ⟨out, n₁⟩
      rw [hconfig] at herr hstanding hkept
      cases herr
      cases err with
      | some err => exact ⟨hstanding, hkept, _, rfl⟩
      | none => exact ⟨hstanding, hkept, lt_of_lt_of_le hfits hkept.allocated⟩
  | found a realpath =>
      simp only [Stage.next]
      split
      · exact ⟨S, .refl n, hfits⟩
      · exact ⟨S, .refl n, _, rfl⟩
  | allowed a realpath =>
      have B := S.proxies a hfits
      have hstanding : Standing (n.modifyProxy a fun h =>
          { h with lb := ((n.proxies a).lb.balance (getIP req.remoteAddr)).2 }) := by
        refine S.modifyProxy fun _ => ⟨?_, fun host hhas => ?_, B.linked⟩
        · exact (Balancer.balance_keeps _ _ "").1.mpr B.sound
        · exact B.backed host ((Balancer.balance_keeps _ _ _).2.1.mp hhas)
      have hkept : Kept n (n.modifyProxy a fun h =>
          { h with lb := ((n.proxies a).lb.balance (getIP req.remoteAddr)).2 }) :=
        .modifyProxy fun _ hhost => hhost
      simp only [Stage.next]
      cases hres : ((n.proxies a).lb.balance (getIP req.remoteAddr)).1 with
      | error err => exact ⟨hstanding, hkept, _, rfl⟩
      | ok host =>
          -- the balancer has the host it answers, and `HostMap` has those of the balancer
          refine ⟨hstanding, hkept, hfits, hkept.hostMap a hfits host ?_⟩
          exact B.backed host (B.sound.has_of_balance hres)
  | balanced a realpath host =>
      obtain ⟨url, hurl⟩ := Finmap.mem_iff.mp hfits.2
      simp only [Stage.next, hurl]
      exact ⟨S, .refl n, _, rfl⟩
  | answered res => exact ⟨S, .refl n, hfits⟩

/-! ### How many stages are left

The stages are in a row, with two that are alternatives, and no stage leads back. So a request that nobody
disturbs is at its end after as many stages as are left. -/

/-- How many stages are left. -/
def Stage.left : Stage → Nat
  | .arrived => 7
  | .admitted => 6
  | .filtered => 5
  | .routed _ _ => 4
  | .absent _ _ => 3
  | .found _ _ => 3
  | .allowed _ _ => 2
  | .balanced _ _ _ => 1
  | .answered _ => 0

theorem Stage.left_next (stage : Stage) (n : Node) (req : Request) :
    (stage.next n req).1.left ≤ stage.left - 1 := by
  cases stage with
  | answered res => exact Nat.le_refl _
  | _ =>
      simp only [Stage.next]
      grind [Stage.left]

/-- No request has more than seven before it. -/
theorem Stage.left_le (stage : Stage) : stage.left ≤ 7 := by
  cases stage <;> simp [Stage.left]

/-- Left alone, a request is answered. -/
theorem Stage.Fits.ahead {req : Request} {k : Nat} {stage : Stage} (S : Standing n) (hfits : stage.Fits n)
    (hgate : stage = .arrived → ∃ denied, n.acl.accessControl req.remoteAddr = .ok denied)
    (hk : stage.left ≤ k) :
    ∃ response n', Stage.ahead req k (stage, n) = (.answered (.ok response), n') := by
  induction k generalizing stage n with
  | zero =>
      cases stage with
      | answered res =>
          obtain ⟨response, rfl⟩ := hfits
          exact ⟨response, n, rfl⟩
      | _ => cases hk
  | succ k ih =>
      obtain ⟨hstanding, -, hnext⟩ := hfits.next S hgate
      have hleft : (stage.next n req).1.left ≤ stage.left - 1 := stage.left_next n req
      have hle := stage.left_le
      rw [Stage.ahead_succ]
      rcases hres : stage.next n req with ⟨stage', n'⟩
      rw [hres] at hstanding hnext hleft
      have hleft : stage'.left ≤ stage.left - 1 := hleft
      refine ih hstanding hnext (fun harrived => ?_) (by omega)
      -- nobody gets back to the beginning
      subst harrived
      have hall : Stage.arrived.left = 7 := rfl
      omega

/-! ## What else happens to the node

One lemma for each call of a handler or of the log, and for a round of a checker. -/

/-- A proxy is added, which has an address of its own and forwards to all its hosts. -/
theorem Standing.addProxyWithLocation (S : Standing n) (l : Location) :
    Standing (n.addProxyWithLocation env l).2 ∧ Kept n (n.addProxyWithLocation env l).2 := by
  obtain ⟨hosts, hr, hallocated⟩ := S.router
  unfold Node.addProxyWithLocation
  cases hnew : newHTTPProxy env l.pattern l.proxyPass l.balanceMode with
  | error err => exact ⟨S, .refl n⟩
  | ok proxy =>
      simp only [Node.addRelations_eq, hr, Option.elim]
      have hinsert : ∀ {m : GoMap String Nat}, (∀ p a, m.lookup p = some a → a < n.nextProxy) → ∀ p a,
          (m.insert l.pattern n.nextProxy).lookup p = some a → a < n.nextProxy + 1 := by
        intro m hm p a hp
        by_cases hpattern : p = l.pattern
        · subst hpattern
          rw [Finmap.lookup_insert] at hp
          cases hp
          exact Nat.lt_succ_self _
        · rw [Finmap.lookup_insert_of_ne _ hpattern] at hp
          exact Nat.lt_succ_of_lt (hm p a hp)
      -- the address is new, so the other proxies are where they were
      have hothers : ∀ b, b < n.nextProxy → (n.related l proxy).proxies b = n.proxies b := by
        intro b hb
        rw [Node.proxies_related, Function.update_of_ne hb.ne]
      refine ⟨⟨⟨_, rfl, hinsert hallocated⟩, ?_, ?_⟩, Nat.le_succ _, ?_⟩
      · show ∀ p a, (n.related l proxy).current.relations.lookup p = some a → a < n.nextProxy + 1
        rw [Node.current_related]
        exact hinsert S.relations
      · intro b hb
        show ((n.related l proxy).proxies b).Backed
        rcases Nat.lt_succ_iff_lt_or_eq.mp hb with hb | rfl
        · rw [hothers b hb]
          exact S.proxies b hb
        · rw [Node.proxies_related, Function.update_self]
          exact newHTTPProxy_backed hnew
      · intro b hb host hhost
        show host ∈ ((n.related l proxy).proxies b).hostMap
        rw [hothers b hb]
        exact hhost

/-- A host is added to the balancer and to `HostMap`. -/
theorem Standing.addProxy (S : Standing n) (p host : String) :
    Standing (n.addProxy env p host).2 ∧ Kept n (n.addProxy env p host).2 := by
  unfold Node.addProxy
  split
  · exact ⟨S, .refl n⟩
  · next a hp =>
      split
      · exact ⟨S, .refl n⟩
      · next url hurl =>
          have B := S.proxies a (S.relations p a hp)
          have hbacked : ((n.proxies a).addHost (getHost url) url).Backed :=
            B.effect (.addProxy hurl) trivial
          dsimp only
          refine ⟨S.modifyProxy fun _ => hbacked, .modifyProxy fun other hother => ?_⟩
          exact Finmap.mem_insert.mpr (.inr hother)

/-- A pattern goes; its proxy stays for those who have it. -/
theorem Standing.removeProxy (S : Standing n) (p : String) :
    Standing (n.removeProxy p).2 ∧ Kept n (n.removeProxy p).2 := by
  obtain ⟨hosts, hr, hallocated⟩ := S.router
  have herase : ∀ {m : GoMap String Nat}, (∀ q a, m.lookup q = some a → a < n.nextProxy) → ∀ q a,
      (m.erase p).lookup q = some a → a < n.nextProxy := by
    intro m hm q a hq
    by_cases hqp : q = p
    · subst hqp
      rw [Finmap.lookup_erase] at hq
      cases hq
    · rw [Finmap.lookup_erase_ne hqp] at hq
      exact hm q a hq
  unfold Node.removeProxy
  split
  · exact ⟨S, .refl n⟩
  · next a hp =>
      split
      · have B := S.proxies a (S.relations p a hp)
        have S₁ : Standing (n.modifyProxy a fun h => { h with shutDownCheck := false }) :=
          S.modifyProxy fun _ => ⟨B.sound, B.backed, B.linked⟩
        have K₁ : Kept n (n.modifyProxy a fun h => { h with shutDownCheck := false }) :=
          .modifyProxy fun _ hhost => hhost
        simp only [Node.router_modifyProxy, hr]
        -- router and `Relations` have one pattern less
        refine ⟨S₁.frame rfl rfl ⟨_, rfl, herase hallocated⟩ ?_, K₁.trans (.frame rfl rfl)⟩
        intro q b hq
        rw [Node.current_modifyMap] at hq
        exact herase S.relations q b hq
      · exact ⟨S, .refl n⟩

/-! ### Balancers, limiters and rounds

These change one proxy. What it needs to forward, a balancer with hosts of `HostMap` only, is kept by
orderly events. -/

/-- The new balancer has the hosts of `HostMap`. -/
theorem Standing.changeLb (S : Standing n) {mode : String} {order : List String}
    (hvisits : ∀ a, n.current.relations.lookup p = some a → RangeOrder (n.proxies a).hostMap order) :
    Standing (n.changeLb env p mode order).2 ∧ Kept n (n.changeLb env p mode order).2 := by
  unfold Node.changeLb
  split
  · exact ⟨S, .refl n⟩
  · next a hp =>
      split
      · exact ⟨S, .refl n⟩
      · next lb hlb =>
          have B := S.proxies a (S.relations p a hp)
          dsimp only
          refine ⟨S.modifyProxy fun _ => ?_, .modifyProxy fun _ hhost => hhost⟩
          exact B.effect (.changeLb (hvisits a hp) hlb) trivial

theorem Standing.setRateLimiter (S : Standing n) (info : LimiterInfo) :
    Standing (n.setRateLimiter a info).2 ∧ Kept n (n.setRateLimiter a info).2 := by
  unfold Node.setRateLimiter
  split
  · exact ⟨S, .refl n⟩
  · exact S.limiter _ info

/-- A round of a checker that is orderly. -/
theorem Standing.healthCheck {host : String} {first second : Bool} (S : Standing n) (ha : a < n.nextProxy)
    (started : host ∈ (n.proxies a).hostsShutDown)
    (hround : (n.proxies a).healthCheck host first second = .ok h)
    (horderly : (HostEvent.healthCheck host first second).Orderly (n.proxies a)) :
    Standing (n.modifyProxy a fun _ => h) ∧ Kept n (n.modifyProxy a fun _ => h) := by
  have E : HostEvent.Effect Env.plain (n.proxies a) (.healthCheck host first second) h :=
    .of_healthCheck started hround
  refine ⟨S.modifyProxy fun _ => (S.proxies a ha).effect E horderly, .modifyProxy fun other hother => ?_⟩
  cases E <;> exact hother

/-- `Restore` begins with no proxies in `Relations`, and leaves the router as it is. -/
theorem Standing.restore (S : Standing n) (snap : Snapshot) :
    Standing ((FSM.decoded snap n).getRouterInstance snap.routerType) ∧
      Kept n ((FSM.decoded snap n).getRouterInstance snap.routerType) := by
  obtain ⟨hosts, hr, hallocated⟩ := S.router
  have hsame : (FSM.decoded snap n).getRouterInstance snap.routerType = FSM.decoded snap n := by
    unfold Node.getRouterInstance
    rw [if_neg]
    rintro ⟨hnone, -⟩
    have hrouter : (FSM.decoded snap n).router = some hosts := hr
    rw [hrouter] at hnone
    cases hnone
  rw [hsame]
  refine ⟨S.frame rfl rfl ⟨hosts, hr, hallocated⟩ fun p a hp => ?_, .frame rfl rfl⟩
  simp [Node.current, FSM.decoded] at hp

/-! ### Hosts that are taken out

The one thing that can take from a request what it relies on. -/

/-- `RemoveHost` for a host that the balancer does not have. -/
theorem Standing.removeHost {host : String} {received : Bool} (S : Standing n)
    (horderly : ∀ a, n.current.relations.lookup p = some a →
      (HostEvent.removeHost host received).Orderly (n.proxies a)) :
    Standing (n.removeHost p host received).2 := by
  unfold Node.removeHost
  split
  · exact S
  · next a hp =>
      split
      · next hremoved =>
          dsimp only
          refine S.modifyProxy fun ha => ?_
          have E : HostEvent.Effect Env.plain (n.proxies a) (.removeHost host true)
            { n.proxies a with hostMap := (n.proxies a).hostMap.erase host } := .removeHost hremoved.2
          exact (S.proxies a ha).effect E fun _ => horderly a hp hremoved.1
      · exact S

/-- A request that has not been given the host keeps what it relies on. -/
theorem Stage.Fits.removeHost {stage : Stage} {host : String} {received : Bool} (hfits : stage.Fits n)
    (hother : ∀ a realpath, n.current.relations.lookup p = some a → received = true →
      stage ≠ .balanced a realpath host) : stage.Fits (n.removeHost p host received).2 := by
  unfold Node.removeHost
  split
  · exact hfits
  · next a hp =>
      split
      · next hremoved =>
          cases stage with
          | balanced b realpath chosen =>
              refine ⟨hfits.1, ?_⟩
              dsimp only
              by_cases hba : b = a
              · subst hba
                rw [Node.proxies_modifyProxy_self]
                refine Finmap.mem_erase.mpr ⟨?_, hfits.2⟩
                rintro rfl
                exact hother b realpath hp hremoved.1 rfl
              · rw [Node.proxies_modifyProxy_of_ne _ hba]
                exact hfits.2
          | _ => exact hfits
      · exact hfits

end Standing

/-! ## Runs

All requests that will ever come are there from the start, each at its own stage, so a request that arrives
late is one that is taken to its first stage late. The invariant has one part about the node and one about
each request. -/

/-- The node, and where the requests are. -/
structure Traffic (ρ : Type) where
  node : Node
  stage : ρ → Stage

namespace Traffic

variable {ρ : Type}

inductive Action (ρ : Type)
  /-- a request gets to its next stage -/
  | advance (r : ρ)
  | addProxyWithLocation (l : Location)
  | addProxy (pattern host : String)
  | removeProxy (pattern : String)
  | removeHost (pattern host : String) (received : Bool)
  | changeLb (pattern mode : String) (order : List String)
  /-- `SetRateLimiter` on a proxy that a handler has looked up, and that may be removed by now -/
  | setRateLimiter (a : Nat) (info : LimiterInfo)
  /-- a round of a checker, also of one whose proxy is removed -/
  | healthCheck (a : Nat) (host : String) (first second : Bool)
  /-- the access list is changed -/
  | acl (t : RadixTree)
  /-- `Restore` begins; the proxies and limiters it makes follow as actions of their own -/
  | restore (s : Snapshot)

/-- One step. A panic of a handler is recovered, and what it did stays. -/
inductive Step [DecidableEq ρ] (env : Env) (req : ρ → Request) : Traffic ρ → Action ρ → Traffic ρ → Prop
  | advance {s : Traffic ρ} (r : ρ) :
      Step env req s (.advance r)
        ⟨((s.stage r).next s.node (req r)).2,
          Function.update s.stage r ((s.stage r).next s.node (req r)).1⟩
  | addProxyWithLocation {s : Traffic ρ} (l : Location) :
      Step env req s (.addProxyWithLocation l) { s with node := (s.node.addProxyWithLocation env l).2 }
  | addProxy {s : Traffic ρ} (pattern host : String) :
      Step env req s (.addProxy pattern host) { s with node := (s.node.addProxy env pattern host).2 }
  | removeProxy {s : Traffic ρ} (pattern : String) :
      Step env req s (.removeProxy pattern) { s with node := (s.node.removeProxy pattern).2 }
  | removeHost {s : Traffic ρ} (pattern host : String) (received : Bool) :
      Step env req s (.removeHost pattern host received)
        { s with node := (s.node.removeHost pattern host received).2 }
  | changeLb {s : Traffic ρ} (pattern mode : String) {order : List String}
      (visits : ∀ a, s.node.current.relations.lookup pattern = some a →
        RangeOrder (s.node.proxies a).hostMap order) :
      Step env req s (.changeLb pattern mode order)
        { s with node := (s.node.changeLb env pattern mode order).2 }
  | setRateLimiter {s : Traffic ρ} (a : Nat) (info : LimiterInfo) :
      Step env req s (.setRateLimiter a info) { s with node := (s.node.setRateLimiter a info).2 }
  | healthCheck {s : Traffic ρ} {a : Nat} {host : String} {first second : Bool} {h : HTTPProxy}
      (allocated : a < s.node.nextProxy) (started : host ∈ (s.node.proxies a).hostsShutDown)
      (hround : (s.node.proxies a).healthCheck host first second = .ok h) :
      Step env req s (.healthCheck a host first second) { s with node := s.node.modifyProxy a fun _ => h }
  | acl {s : Traffic ρ} (t : RadixTree) :
      Step env req s (.acl t) { s with node := { s.node with acl := t } }
  | restore {s : Traffic ρ} (snap : Snapshot) :
      Step env req s (.restore snap)
        { s with node := (FSM.decoded snap s.node).getRouterInstance snap.routerType }

/-- A step keeps clear of the hazards: the access list returns, a host is only removed when neither the
balancer has it nor a request has been given it, a checker that finds its host dead takes it out of a
ring cleanly, and one that finds its host back finds it in `HostMap`. -/
def Orderly (req : ρ → Request) (s : Traffic ρ) : Action ρ → Prop
  | .advance r => s.stage r = .arrived →
      ∃ denied, s.node.acl.accessControl (req r).remoteAddr = .ok denied
  | .removeHost pattern host received => ∀ a, s.node.current.relations.lookup pattern = some a →
      (HostEvent.removeHost host received).Orderly (s.node.proxies a) ∧
        (received = true → ∀ r realpath, s.stage r ≠ .balanced a realpath host)
  | .healthCheck a host first second =>
      (HostEvent.healthCheck host first second).Orderly (s.node.proxies a)
  | _ => True

def OrderlyStep [DecidableEq ρ] (env : Env) (req : ρ → Request) (s : Traffic ρ) (e : Action ρ)
    (s' : Traffic ρ) : Prop := Step env req s e s' ∧ Orderly req s e

def start (n : Node) : Traffic ρ := ⟨n, fun _ => .arrived⟩

/-- The node is fit, and all requests find what they rely on. -/
structure Flowing (s : Traffic ρ) : Prop where
  standing : Standing s.node
  fits : ∀ r, (s.stage r).Fits s.node

variable {env : Env} {req : ρ → Request} {s s' : Traffic ρ} {e : Action ρ} {es : List (Action ρ)}

/-- A change that all requests survive. -/
theorem Flowing.kept (F : Flowing s) {n : Node} (h : Standing n ∧ Kept s.node n) :
    Flowing { s with node := n } where
  standing := h.1
  fits := fun r => (F.fits r).kept h.2

theorem flowing_start : Flowing (start Node.new : Traffic ρ) where
  standing :=
    { router := ⟨∅, rfl, fun p a hp => by simp at hp⟩
      relations := fun p a hp => by
        have hnone : (∅ : GoMap String Nat).lookup p = some a := hp
        simp at hnone
      proxies := fun a ha => absurd ha (Nat.not_lt_zero a) }
  fits := fun _ => trivial

variable [DecidableEq ρ]

/-- An orderly step, of a request or of something else. -/
theorem Flowing.step (F : Flowing s) (h : OrderlyStep env req s e s') : Flowing s' := by
  obtain ⟨hstep, horderly⟩ := h
  cases hstep with
  | advance r =>
      obtain ⟨hstanding, hkept, hnext⟩ := (F.fits r).next F.standing horderly
      refine ⟨hstanding, fun r' => ?_⟩
      show (Function.update s.stage r ((s.stage r).next s.node (req r)).1 r').Fits _
      -- the request itself is at its next stage, the others are where they were
      by_cases hr : r' = r
      · subst hr
        rw [Function.update_self]
        exact hnext
      · rw [Function.update_of_ne hr]
        exact (F.fits r').kept hkept
  | addProxyWithLocation l => exact F.kept (F.standing.addProxyWithLocation l)
  | addProxy pattern host => exact F.kept (F.standing.addProxy pattern host)
  | removeProxy pattern => exact F.kept (F.standing.removeProxy pattern)
  | removeHost pattern host received =>
      refine ⟨F.standing.removeHost fun a hp => (horderly a hp).1, fun r => ?_⟩
      exact (F.fits r).removeHost fun a realpath hp hreceived => (horderly a hp).2 hreceived r realpath
  | changeLb pattern mode visits => exact F.kept (F.standing.changeLb visits)
  | setRateLimiter a info => exact F.kept (F.standing.setRateLimiter info)
  | healthCheck allocated started hround =>
      exact F.kept (F.standing.healthCheck allocated started hround horderly)
  | acl t =>
      exact F.kept ⟨F.standing.frame rfl rfl F.standing.router F.standing.relations, .frame rfl rfl⟩
  | restore snap => exact F.kept (F.standing.restore snap)

theorem run_flowing (hrun : Trace (OrderlyStep env req) (start Node.new) es s) : Flowing s :=
  hrun.invariant flowing_start fun F hstep => F.step hstep

/-! ### Every request

The invariant says that an answer which is there is no panic, and that a request under way has all that its
next stage relies on. -/

/-- In every run of orderly steps, in which any number of requests get on while proxies are added, removed
and changed, limiters are set, checkers make their rounds and a snapshot is restored: no request is
answered by a panic, and each that is under way will be answered in seven stages, if it is left alone. -/
theorem flights_answered (hrun : Trace (OrderlyStep env req) (start Node.new) es s) :
    (∀ r res, s.stage r = .answered res → ∃ response, res = .ok response) ∧
    ∀ r, (s.stage r = .arrived → ∃ denied, s.node.acl.accessControl (req r).remoteAddr = .ok denied) →
      ∃ response n, Stage.ahead (req r) 7 (s.stage r, s.node) = (.answered (.ok response), n) := by
  have F := run_flowing hrun
  refine ⟨fun r res hres => ?_, fun r hgate => ?_⟩
  · have hfits := F.fits r
    rw [hres] at hfits
    exact hfits
  · exact (F.fits r).ahead F.standing hgate (Stage.left_le _)

/-- One request, which has been routed to a proxy when its pattern is removed. -/
theorem flights_answered_removed : ∃ (es : List (Action Unit)) (s : Traffic Unit),
    Trace (OrderlyStep Env.plain fun _ => ⟨"1.2.3.4:80", "/api/x", none, true⟩) (start Node.new) es s ∧
    s.node.router = some ∅ ∧ s.stage () = .routed 0 "/x" ∧
    ∃ response n, Stage.ahead ⟨"1.2.3.4:80", "/api/x", none, true⟩ 7 (s.stage (), s.node) =
      (.answered (.ok response), n) := by
  have hrun : Trace (OrderlyStep Env.plain fun _ : Unit => ⟨"1.2.3.4:80", "/api/x", none, true⟩)
    (start Node.new) [] (start Node.new) := .nil
  have hrun := hrun.snoc (e := Action.addProxyWithLocation apiLocation) ⟨.addProxyWithLocation _, trivial⟩
  have hrun := hrun.snoc (e := Action.advance ()) ⟨.advance (), fun _ => ⟨false, by decide⟩⟩
  have hrun := hrun.snoc (e := Action.advance ()) ⟨.advance (), fun h => by cases h⟩
  have hrun := hrun.snoc (e := Action.advance ()) ⟨.advance (), fun h => by cases h⟩
  have hrun := hrun.snoc (e := Action.removeProxy "/api") ⟨.removeProxy _, trivial⟩
  exact ⟨_, _, hrun, rfl, rfl, (flights_answered hrun).2 () fun h => by cases h⟩

end Traffic

end Cheryl.Server
