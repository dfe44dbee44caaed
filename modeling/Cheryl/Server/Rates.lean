import Cheryl.Library.TokenBucket
import Cheryl.ReverseProxy.HealthCheck
import Cheryl.ReverseProxy.Tokens
import Cheryl.Server.Isolation
import Cheryl.Server.Routing

/-!
# How many requests a limiter lets through

A request comes to a gateway at a time, and the `rate.Limiter` behind its path is asked at that time, one
request after the other. What is promised of a `rate.Limiter` is that it is a token bucket, which is full at
first and gets its tokens back one by one; whoever waits for a token gets none when the deadline comes
first (`TokenBuckets`). From the success of `SetRateLimiter` until the limiter of the path is set again or
the pattern gets a new proxy, and whatever else happens to the node, the requests that are let through keep
to the volume and the speed of the `LimiterInfo` (`rate_kept`), and where no timeout is configured a client
that leaves a token's time between its requests is let through (`spaced_served`).
-/

namespace Cheryl.Server

open Library ReverseProxy Acl RateLimit Utils

/-! ## What is promised

The package behind the limiters is not part of the gateway. `TokenBuckets` says what is relied on: an
unlimited limiter aside, there is a bucket `k` at each time that explains what was granted, with the size
and the interval of the limiter. Upper bounds need only that nothing is granted that the bucket lacks. That
a request is let through needs `allow`, which is promised where no timeout makes the limiter wait. -/

/-- What `rate.Limiter` promises: where it is not unlimited, it has no more in it than a bucket. Time is
counted in nanoseconds. `Wait` gives nothing that the bucket does not have within the timeout, and may
give nothing at all, as when the context has expired. `Allow` gives what the bucket has. -/
structure TokenBuckets {β : Type} (rate : Int → Rate β)
    (Is : QpsRateLimiter → β → TokenBucket Int → Prop) : Prop where
  new : ∀ (limiter : QpsRateLimiter) (now interval : Int), limiter.limit = .every interval →
    Is limiter ((rate now).new limiter) (.full interval limiter.burst now)
  granted : ∀ (limiter : QpsRateLimiter) (b : β) (k : TokenBucket Int) (now : Int), Is limiter b k →
    limiter.limit = .every k.interval → limiter.burst = k.size → k.last ≤ now →
    ((rate now).take limiter b).1 = true → (k.take now limiter.getTimeout).1 = true ∧
      Is limiter ((rate now).take limiter b).2 (k.take now limiter.getTimeout).2
  refused : ∀ (limiter : QpsRateLimiter) (b : β) (k : TokenBucket Int) (now : Int), Is limiter b k →
    limiter.limit = .every k.interval → limiter.burst = k.size → k.last ≤ now →
    ((rate now).take limiter b).1 = false → Is limiter ((rate now).take limiter b).2 k
  allow : ∀ (limiter : QpsRateLimiter) (b : β) (k : TokenBucket Int) (now : Int), Is limiter b k →
    limiter.limit = .every k.interval → limiter.burst = k.size → k.last ≤ now →
    limiter.getTimeout = 0 → (k.take now 0).1 = true → ((rate now).take limiter b).1 = true

/-- A request that no limiter has turned away: the pattern of the proxy it was routed to, the path, and
when. -/
structure Passage where
  pattern : String
  path : String
  time : Int
  deriving DecidableEq, Repr

/-- A gateway, the time, and the requests it has let through, the last one first. -/
structure Timed (β : Type) where
  gateway : Gateway β
  now : Int
  passed : List Passage

namespace Gateway

variable {β : Type}

/-- Where a request was routed to, if the limiter there has not turned it away. -/
def letsPass (rate : Rate β) (g : Gateway β) (req : Request) : Option (Nat × String) :=
  match (g.serveHTTP rate req).1 with
  | .ok (.badRequest _) => none
  | _ => limiterOf g.node req

end Gateway

namespace Timed

variable {β : Type}

inductive Event
  | gateway (e : Gateway.Event)
  | addProxy (pattern host : String)
  | removeHost (pattern host : String) (received : Bool)
  | changeLb (pattern mode : String) (order : List String)
  /-- a round of a checker -/
  | healthCheck (a : Nat) (host : String) (first second : Bool)

/-- What it does to the gateway. -/
inductive Happens (env : Env) (rate : Rate β) : Gateway β → Event → Gateway β → Prop
  | gateway {g g' : Gateway β} {e : Gateway.Event} (h : Gateway.Step env rate g e g') :
      Happens env rate g (.gateway e) g'
  | addProxy {g : Gateway β} (pattern host : String) :
      Happens env rate g (.addProxy pattern host) { g with node := (g.node.addProxy env pattern host).2 }
  | removeHost {g : Gateway β} (pattern host : String) (received : Bool) :
      Happens env rate g (.removeHost pattern host received)
        { g with node := (g.node.removeHost pattern host received).2 }
  | changeLb {g : Gateway β} (pattern mode : String) (order : List String) :
      Happens env rate g (.changeLb pattern mode order)
        { g with node := (g.node.changeLb env pattern mode order).2 }
  | healthCheck {g : Gateway β} {a : Nat} {host : String} {first second : Bool} {proxy : HTTPProxy}
      (h : (g.node.proxies a).healthCheck host first second = .ok proxy) :
      Happens env rate g (.healthCheck a host first second)
        { g with node := g.node.modifyProxy a fun _ => proxy }

/-- The passage there is, if it is a request that is let through. -/
def passage (rate : Rate β) (g : Gateway β) (t : Int) : Event → List Passage
  | .gateway (.serve req) =>
      (g.letsPass rate req).toList.map fun l => ⟨(g.node.proxies l.1).pattern, l.2, t⟩
  | _ => []

/-- One step, not before the last one. -/
structure Step (env : Env) (rate : Int → Rate β) (f : Timed β) (e : Int × Event) (f' : Timed β) : Prop where
  later : f.now ≤ e.1
  happens : Happens env (rate e.1) f.gateway e.2 f'.gateway
  now : f'.now = e.1
  passed : f'.passed = passage (rate e.1) f.gateway e.1 e.2 ++ f.passed

/-- The event does not set the limiter of the path, and makes no new proxy for the pattern. -/
structure Spares (pattern path : String) (e : Event) : Prop where
  limiter : ∀ info, e = .gateway (.setRateLimiter pattern info) → info.pathName ≠ path
  proxy : ∀ l, e = .gateway (.addProxyWithLocation l) → l.pattern ≠ pattern

def SparingStep (env : Env) (rate : Int → Rate β) (pattern path : String) (f : Timed β)
    (e : Int × Event) (f' : Timed β) : Prop := Step env rate f e f' ∧ Spares pattern path e.2

/-- The times at which requests for the path were let through. -/
def times (f : Timed β) (pattern path : String) : List Int :=
  (f.passed.filter fun p => decide (p.pattern = pattern ∧ p.path = path)).map Passage.time

/-- `SetRateLimiter` at a time; nothing has been let through since. -/
def limited (rate : Int → Rate β) (g : Gateway β) (a : Nat) (info : LimiterInfo) (t : Int) : Timed β :=
  ⟨(g.setRateLimiter (rate t) a info).2, t, []⟩

end Timed

/-! ## Proxies and their limiters

What else happens to a node leaves `Methods` and `Pattern` of its proxies alone, one lemma for each call.
Only `SetRateLimiter` and a request for a path that has no limiter change `Methods`. -/

/-- Proxies stay where they are, with their patterns and the limiters they have. -/
structure SameMethods (n n' : Node) : Prop where
  allocated : n.nextProxy ≤ n'.nextProxy
  methods : ∀ a, a < n.nextProxy → (n'.proxies a).methods = (n.proxies a).methods
  pattern : ∀ a, a < n.nextProxy → (n'.proxies a).pattern = (n.proxies a).pattern

section SameMethods

variable {env : Env} {n : Node} {p host mode : String} {a : Nat}

theorem SameMethods.refl (n : Node) : SameMethods n n := ⟨Nat.le_refl _, fun _ _ => rfl, fun _ _ => rfl⟩

/-- An assignment to a proxy that is not to its `Methods`, nor to its `Pattern`. -/
theorem SameMethods.modifyProxy {f : HTTPProxy → HTTPProxy}
    (h : (f (n.proxies a)).methods = (n.proxies a).methods)
    (hpattern : (f (n.proxies a)).pattern = (n.proxies a).pattern) : SameMethods n (n.modifyProxy a f) where
  allocated := Nat.le_refl _
  methods := by
    intro b hb
    by_cases hba : b = a
    · subst hba
      rw [Node.proxies_modifyProxy_self, h]
    · rw [Node.proxies_modifyProxy_of_ne _ hba]
  pattern := by
    intro b hb
    by_cases hba : b = a
    · subst hba
      rw [Node.proxies_modifyProxy_self, hpattern]
    · rw [Node.proxies_modifyProxy_of_ne _ hba]

/-- A new proxy has an address that none has had before. -/
theorem sameMethods_addProxyWithLocation (env : Env) (n : Node) (l : Location) :
    SameMethods n (n.addProxyWithLocation env l).2 := by
  unfold Node.addProxyWithLocation
  cases newHTTPProxy env l.pattern l.proxyPass l.balanceMode with
  | error err => exact .refl n
  | ok proxy =>
      have hrelated : SameMethods n (n.related l proxy) := by
        refine ⟨Nat.le_succ _, fun b hb => ?_, fun b hb => ?_⟩
        · rw [Node.proxies_related, Function.update_of_ne hb.ne]
        · rw [Node.proxies_related, Function.update_of_ne hb.ne]
      simp only [Node.addRelations_eq]
      cases n.router with
      | none => exact hrelated
      | some hosts => exact ⟨hrelated.allocated, hrelated.methods, hrelated.pattern⟩

theorem sameMethods_addProxy : SameMethods n (n.addProxy env p host).2 := by
  unfold Node.addProxy
  split
  · exact .refl n
  · split
    · exact .refl n
    · dsimp only
      exact .modifyProxy rfl rfl

/-- A removed proxy keeps its limiters, for the requests that have it. -/
theorem sameMethods_removeProxy : SameMethods n (n.removeProxy p).2 := by
  unfold Node.removeProxy
  split
  · exact .refl n
  · next a hp =>
      have hmodified : SameMethods n (n.modifyProxy a fun h => { h with shutDownCheck := false }) :=
        .modifyProxy rfl rfl
      split
      · simp only
        split
        · exact hmodified
        · exact ⟨hmodified.allocated, hmodified.methods, hmodified.pattern⟩
      · exact .refl n

theorem sameMethods_removeHost {received : Bool} : SameMethods n (n.removeHost p host received).2 := by
  unfold Node.removeHost
  split
  · exact .refl n
  · split
    · dsimp only
      exact .modifyProxy rfl rfl
    · exact .refl n

theorem sameMethods_changeLb {order : List String} : SameMethods n (n.changeLb env p mode order).2 := by
  unfold Node.changeLb
  split
  · exact .refl n
  · split
    · exact .refl n
    · dsimp only
      exact .modifyProxy rfl rfl

/-- A round of a checker is about hosts. -/
theorem sameMethods_healthCheck {first second : Bool} {proxy : HTTPProxy}
    (h : (n.proxies a).healthCheck host first second = .ok proxy) :
    SameMethods n (n.modifyProxy a fun _ => proxy) := by
  obtain ⟨-, -, -, hpattern, -, hmethods⟩ := HTTPProxy.healthCheck_keeps h
  exact .modifyProxy hmethods hpattern

end SameMethods

/-! ## One step

Two things are followed through a step: which limiter is behind a path, with what state, and whether a
request for the path has passed. `Behind` is about the first. A step either leaves it as it is, and then no
request for the path has passed, or it is a request that has asked the limiter, and passed if the answer was
yes (`Behind.happens`). -/

section Steps

variable {β : Type} {env : Env} {n n' : Node} {g g' : Gateway β} {req : Request} {a b : Nat}
  {pattern path : String} {limiter : QpsRateLimiter} {info : LimiterInfo} {e : Timed.Event}

/-- The limiter that is asked decides whether the answer is a 400. -/
theorem serveHTTP_badRequest_iff (h : n.Routes req a path) (hmem : path ∈ (n.proxies a).methods) :
    (∃ err, (n.serveHTTP req).1 = .ok (.badRequest err)) ↔ req.token = false := by
  obtain ⟨hacl, hfiltered, hosts, hr, hroute⟩ := h
  have htoken : n.invaildToken a path req.token =
      (.ok (if req.token then none else some noReaminTokenError), n) := Node.invaildToken_of_mem hmem
  unfold Node.serveHTTP
  simp only [hacl, hfiltered, hr, hroute, htoken]
  cases req.token with
  | false => simp
  | true =>
      simp only [if_true]
      split
      · simp
      · split <;> simp

theorem letsPass_of_badRequest {rate : Rate β} {err : GoError}
    (h : (g.serveHTTP rate req).1 = .ok (.badRequest err)) : g.letsPass rate req = none := by
  unfold Gateway.letsPass
  rw [h]

/-- Where a path has a limiter, this limiter says whether a request passes. -/
theorem letsPass_of_routes {rate : Rate β} (h : g.node.Routes req a path)
    (hlookup : (g.node.proxies a).methods.lookup path = some limiter) :
    g.letsPass rate req =
      if (rate.take limiter (g.buckets a path)).1 = true then some (a, path) else none := by
  have hlimiter : Gateway.limiterOf g.node req = some (a, path) := Gateway.limiterOf_eq_some.mpr h
  have hserve : (g.serveHTTP rate req).1 =
      (g.node.serveHTTP { req with token := (rate.take limiter (g.buckets a path)).1 }).1 := by
    unfold Gateway.serveHTTP
    rw [hlimiter]
    dsimp only
    rw [hlookup]
  generalize (rate.take limiter (g.buckets a path)).1 = token at hserve ⊢
  have hbad : (∃ err, (g.node.serveHTTP { req with token := token }).1 = .ok (.badRequest err)) ↔
      token = false := serveHTTP_badRequest_iff h (Finmap.mem_of_lookup_eq_some hlookup)
  unfold Gateway.letsPass
  -- the answer is a 400 if and only if there was no token
  rw [hserve, hlimiter]
  split
  · next err heq => rw [if_neg (by simp [hbad.mp ⟨err, heq⟩])]
  · next hnot =>
      rw [if_pos]
      by_contra hfalse
      obtain ⟨err, heq⟩ := hbad.mpr (Bool.eq_false_of_not_eq_true hfalse)
      exact hnot err heq

namespace Timed

/-- Whatever happens, the node stays ready. -/
theorem Happens.ready {rate : Rate β} (R : Ready g.node) (h : Happens env rate g e g') : Ready g'.node := by
  cases h with
  | gateway h => exact h.ready R
  | addProxy pattern host =>
      show Ready (g.node.addProxy env pattern host).2
      rcases hres : g.node.addProxy env pattern host with ⟨out, n⟩
      rcases R.addProxy hres with ⟨-, rfl, -⟩ | ⟨-, -, url, -, hchanged⟩
      · exact R
      · exact hchanged.ready
  | removeHost pattern host received =>
      show Ready (g.node.removeHost pattern host received).2
      rcases hres : g.node.removeHost pattern host received with ⟨out, n⟩
      rcases R.removeHost env hres with ⟨-, rfl, -⟩ | ⟨-, rfl, -⟩ | ⟨-, -, -, hchanged⟩
      · exact R
      · exact R
      · exact hchanged.ready
  | changeLb pattern mode order =>
      show Ready (g.node.changeLb env pattern mode order).2
      rcases hres : g.node.changeLb env pattern mode order with ⟨out, n⟩
      rcases R.changeLb hres with ⟨-, rfl, -⟩ | ⟨err, -, rfl, -⟩ | ⟨-, -, -, hchanged⟩
      · exact R
      · exact R
      · exact hchanged.ready
  | healthCheck h => exact ⟨R.linked.healthCheck h, R.synced⟩

/-- The proxy at `a` is the only one that may serve the pattern, and has this limiter for the path, with
this behind it. -/
structure Behind (g : Gateway β) (pattern : String) (a : Nat) (path : String) (limiter : QpsRateLimiter)
    (b : β) : Prop where
  allocated : a < g.node.nextProxy
  named : (g.node.proxies a).pattern = pattern
  served : ∀ b, g.node.current.relations.lookup pattern = some b → b = a
  lookup : (g.node.proxies a).methods.lookup path = some limiter
  bucket : g.buckets a path = b

/-- A change of the node that leaves the proxies alone, and gives the pattern to no other. -/
theorem Behind.same {x : β} (h : Behind g pattern a path limiter x) (hsame : SameMethods g.node n')
    (hrel : ∀ b, n'.current.relations.lookup pattern = some b →
      g.node.current.relations.lookup pattern = some b) :
    Behind { g with node := n' } pattern a path limiter x where
  allocated := lt_of_lt_of_le h.allocated hsame.allocated
  named := (hsame.pattern a h.allocated).trans h.named
  served := fun b hb => h.served b (hrel b hb)
  lookup := by
    show (n'.proxies a).methods.lookup path = _
    rw [hsame.methods a h.allocated, h.lookup]
  bucket := h.bucket

/-- A request: the limiter behind its path is asked, and no other. -/
theorem Behind.serve (rate : Rate β) {x : β} (R : Ready g.node) (h : Behind g pattern a path limiter x)
    (req : Request) :
    Behind (g.serveHTTP rate req).2 pattern a path limiter
      (if Gateway.limiterOf g.node req = some (a, path) then (rate.take limiter x).2 else x) := by
  by_cases hroutes : ∃ b q, g.node.Routes req b q
  · obtain ⟨b, q, hroutes⟩ := hroutes
    have hlimiter : Gateway.limiterOf g.node req = some (b, q) := Gateway.limiterOf_eq_some.mpr hroutes
    obtain ⟨routed, I⟩ : ∃ routed, Isolated g (g.serveHTTP rate req).2 routed b q :=
      Gateway.serveHTTP_of_routes R hroutes
    obtain ⟨token, y, heq⟩ := Gateway.serveHTTP_eq rate hroutes
    refine ⟨?_, ?_, ?_, ?_, ?_⟩
    · rw [I.rest]
      exact h.allocated
    · by_cases hab : a = b
      · subst hab
        rw [I.proxy]
        exact h.named
      · rw [I.proxies a hab]
        exact h.named
    · rw [I.map]
      exact h.served
    -- a request sets no limiter where there is one
    · have hnode : (g.serveHTTP rate req).2.node =
          (g.node.serveHTTP { req with token := token }).2 := by rw [heq, Gateway.node_setBucket]
      rw [hnode, Node.lookup_serveHTTP (Finmap.mem_of_lookup_eq_some h.lookup), h.lookup]
    · rw [hlimiter]
      by_cases hsame : b = a ∧ q = path
      · obtain ⟨rfl, rfl⟩ := hsame
        rw [if_pos rfl]
        unfold Gateway.serveHTTP
        rw [hlimiter]
        dsimp only
        rw [h.lookup]
        simp [Gateway.setBucket, h.bucket]
      -- the limiter of another path was asked
      · rw [if_neg (by simpa using hsame), I.buckets a path fun hab => hsame ⟨hab.1.symm, hab.2.symm⟩]
        exact h.bucket
  · have hnone : Gateway.limiterOf g.node req = none := by
      refine Option.eq_none_iff_forall_not_mem.mpr fun (b, q) hmem => ?_
      exact hroutes ⟨b, q, Gateway.limiterOf_eq_some.mp hmem⟩
    rw [Gateway.serveHTTP_of_not_routes fun b q hbq => hroutes ⟨b, q, hbq⟩, hnone, if_neg (by simp)]
    exact h

/-! ### The limiter is set, here or elsewhere

`SetRateLimiter` for another path or another proxy leaves this limiter alone. For this path it makes a new
one, and a new bucket with it. -/

/-- `SetRateLimiter` leaves all other limiters of the node alone. -/
theorem lookup_setRateLimiter_of_ne (hother : b = a → info.pathName ≠ path) :
    ((n.setRateLimiter b info).2.proxies a).methods.lookup path =
      (n.proxies a).methods.lookup path := by
  unfold Node.setRateLimiter
  split
  · rfl
  · simp only [Node.proxies_recordLimiter]
    by_cases hab : a = b
    · subst hab
      rw [Node.proxies_modifyProxy_self]
      exact Finmap.lookup_insert_of_ne _ (hother rfl).symm
    · rw [Node.proxies_modifyProxy_of_ne _ hab]

theorem sameTables_set (n : Node) (b : Nat) (info : LimiterInfo) :
    SameTables n (n.setRateLimiter b info).2 := sameTables_setRateLimiter rfl

theorem nextProxy_setRateLimiter : (n.setRateLimiter b info).2.nextProxy = n.nextProxy := by
  unfold Node.setRateLimiter Node.recordLimiter
  split
  · rfl
  · dsimp only
    split <;> rfl

/-- `SetRateLimiter` for something else. -/
theorem Behind.setRateLimiter {rate : Rate β} {x : β} (h : Behind g pattern a path limiter x)
    (hother : b = a → info.pathName ≠ path) :
    Behind (g.setRateLimiter rate b info).2 pattern a path limiter x where
  allocated := by
    rw [Gateway.node_setRateLimiter, nextProxy_setRateLimiter]
    exact h.allocated
  named := by
    rw [Gateway.node_setRateLimiter, (sameTables_set _ _ _).pattern]
    exact h.named
  served := by
    rw [Gateway.node_setRateLimiter, (sameTables_set _ _ _).relations]
    exact h.served
  lookup := by
    rw [Gateway.node_setRateLimiter, lookup_setRateLimiter_of_ne hother, h.lookup]
  bucket := by
    unfold Gateway.setRateLimiter
    split
    · exact h.bucket
    · dsimp only
      rw [Gateway.buckets_setBucket fun hsame => hother hsame.1.symm hsame.2.symm]
      exact h.bucket

/-- `SetRateLimiter`, when it succeeds, has made the limiter and what is behind it. -/
theorem behind_setRateLimiter {rate : Rate β} (L : Linked g.node)
    (hp : g.node.current.relations.lookup pattern = some a)
    (hset : (g.setRateLimiter rate a info).1 = .ok none) :
    Behind (g.setRateLimiter rate a info).2 pattern a info.pathName (info.limiter newQpsRateLimiter)
      (rate.new (info.limiter newQpsRateLimiter)) := by
  cases hbuild : RateLimit.build info.limiterType with
  | error err =>
      simp only [Gateway.setRateLimiter, hbuild, setRateLimiter_error hbuild] at hset
      cases hset
  | ok limiter =>
      obtain ⟨-, rfl⟩ := build_eq_ok.mp hbuild
      refine ⟨?_, ?_, fun b hb => ?_, ?_, ?_⟩
      · rw [Gateway.node_setRateLimiter, nextProxy_setRateLimiter]
        exact L.allocated hp
      · rw [Gateway.node_setRateLimiter, (sameTables_set _ _ _).pattern]
        exact (L.serves hp).pattern
      · rw [Gateway.node_setRateLimiter, (sameTables_set _ _ _).relations, hp] at hb
        exact (Option.some.inj hb).symm
      · rw [Gateway.node_setRateLimiter]
        simp only [Gateway.setRateLimiter, hbuild] at hset
        exact Node.lookup_setRateLimiter (Prod.ext hset rfl)
      · simp [Gateway.setRateLimiter, hbuild, Gateway.setBucket]

/-! ### Which proxy serves the pattern

As long as no proxy is added for it, a pattern is served by the proxy it has or not at all. So a passage for
the pattern has been through this proxy and its limiter. -/

/-- The relations of a proxy map in which a proxy is hung in for another pattern. -/
theorem lookup_addProxyWithLocation_of_ne {l : Location} {err : Option GoError} (hne : l.pattern ≠ pattern)
    (h : n.addProxyWithLocation env l = (.ok err, n')) :
    n'.current.relations.lookup pattern = n.current.relations.lookup pattern := by
  cases err with
  | some err => rw [Node.addProxyWithLocation_failed h]
  | none =>
      obtain ⟨proxy, hosts, -, -, rfl⟩ := Node.addProxyWithLocation_eq_ok h
      show (n.related l proxy).current.relations.lookup pattern = _
      rw [n.lookup_related, if_neg hne.symm]

/-- What `RemoveProxy` leaves was there. -/
theorem lookup_removeProxy {p : String}
    (h : (n.removeProxy p).2.current.relations.lookup pattern = some b) :
    n.current.relations.lookup pattern = some b := by
  unfold Node.removeProxy at h
  split at h
  · exact h
  · split at h
    · simp only [Node.router_modifyProxy] at h
      cases hr : n.router with
      | none =>
          rw [hr] at h
          exact h
      | some hosts =>
          rw [hr] at h
          simp only [Node.current_modifyMap] at h
          by_cases hp : pattern = p
          · subst hp
            simp at h
          · exact (Finmap.lookup_erase_ne hp).symm.trans h
    · exact h

/-- Whatever happens, apart from a new proxy for the pattern, leaves the pattern to the proxy that has
it. -/
theorem Happens.lookup {rate : Rate β} (R : Ready g.node) (hspares : Spares pattern path e)
    (h : Happens env rate g e g') (hserved : g'.node.current.relations.lookup pattern = some b) :
    g.node.current.relations.lookup pattern = some b := by
  cases h with
  | addProxy p host =>
      unfold Node.addProxy at hserved
      dsimp only at hserved
      split at hserved
      · exact hserved
      · split at hserved <;> exact hserved
  | removeHost p host received =>
      unfold Node.removeHost at hserved
      dsimp only at hserved
      split at hserved
      · exact hserved
      · split at hserved <;> exact hserved
  | changeLb p mode order =>
      unfold Node.changeLb at hserved
      dsimp only at hserved
      split at hserved
      · exact hserved
      · split at hserved <;> exact hserved
  | healthCheck h => exact hserved
  | gateway h =>
      cases h with
      | @addProxyWithLocation l err n hadd =>
          rwa [← lookup_addProxyWithLocation_of_ne (hspares.proxy l rfl) hadd]
      | @removeProxy p err n hremove =>
          refine lookup_removeProxy (p := p) ?_
          rw [hremove]
          exact hserved
      | @setRateLimiter p b info hp =>
          rw [Gateway.node_setRateLimiter, (sameTables_set _ _ _).relations] at hserved
          exact hserved
      | acl t => exact hserved
      | serve req =>
          by_cases hroutes : ∃ b q, g.node.Routes req b q
          · obtain ⟨b, q, hroutes⟩ := hroutes
            obtain ⟨routed, I⟩ : ∃ routed, Isolated g (g.serveHTTP rate req).2 routed b q :=
              Gateway.serveHTTP_of_routes R hroutes
            rw [I.map] at hserved
            exact hserved
          · rw [Gateway.serveHTTP_of_not_routes fun b q hbq => hroutes ⟨b, q, hbq⟩] at hserved
            exact hserved

/-- A request that is routed to a proxy of the pattern comes to the one at `a`. -/
theorem Behind.eq_of_routes {x : β} {q : String} (R : Ready g.node) (h : Behind g pattern a path limiter x)
    (hroutes : g.node.Routes req b q) (hpattern : (g.node.proxies b).pattern = pattern) : b = a := by
  obtain ⟨-, -, hosts, hr, hroute⟩ := hroutes
  obtain ⟨p, hp⟩ := mem_of_route hroute
  have hrel : hosts = g.node.current.relations := by
    rcases R.synced with hs | ⟨hs, -⟩ <;> rw [hs] at hr <;> cases hr
    rfl
  rw [hrel] at hp
  obtain rfl : p = pattern := (R.linked.serves hp).pattern.symm.trans hpattern
  exact h.served b hp

/-- What happens to the limiter of the path when it is spared: it is asked by the requests for the path
only. -/
theorem Behind.happens {rate : Rate β} {x : β} (R : Ready g.node) (h : Behind g pattern a path limiter x)
    (hspares : Spares pattern path e) (hstep : Happens env rate g e g') :
    (Behind g' pattern a path limiter x ∧
        ∀ t, ∀ p ∈ passage rate g t e, ¬ (p.pattern = pattern ∧ p.path = path)) ∨
      (Behind g' pattern a path limiter (rate.take limiter x).2 ∧ ∀ t, passage rate g t e =
        if (rate.take limiter x).1 = true then [⟨pattern, path, t⟩] else []) := by
  have hquiet : ∀ {e}, (∀ req, e ≠ .gateway (.serve req)) → ∀ t, ∀ p ∈ passage rate g t e,
      ¬ (p.pattern = pattern ∧ p.path = path) := by
    intro e hne t p hp
    unfold passage at hp
    split at hp
    · next req => exact absurd rfl (hne req)
    · cases hp
  have hlookup := fun b => hstep.lookup (b := b) R hspares
  cases hstep with
  | addProxy p host => exact .inl ⟨h.same sameMethods_addProxy hlookup, hquiet (by simp)⟩
  | removeHost p host received => exact .inl ⟨h.same sameMethods_removeHost hlookup, hquiet (by simp)⟩
  | changeLb p mode order => exact .inl ⟨h.same sameMethods_changeLb hlookup, hquiet (by simp)⟩
  | healthCheck hround => exact .inl ⟨h.same (sameMethods_healthCheck hround) hlookup, hquiet (by simp)⟩
  | gateway hstep =>
      cases hstep with
      | @addProxyWithLocation l err n hadd =>
          have hsame := sameMethods_addProxyWithLocation env g.node l
          rw [hadd] at hsame
          exact .inl ⟨h.same hsame hlookup, hquiet (by simp)⟩
      | @removeProxy p err n hremove =>
          have hsame : SameMethods g.node (g.node.removeProxy p).2 := sameMethods_removeProxy
          rw [hremove] at hsame
          exact .inl ⟨h.same hsame hlookup, hquiet (by simp)⟩
      | @setRateLimiter p b info hp =>
          refine .inl ⟨h.setRateLimiter fun hba => ?_, hquiet (by simp)⟩
          -- the proxy at `a` is set for its own pattern only
          subst hba
          obtain rfl : pattern = p := h.named.symm.trans (R.linked.serves hp).pattern
          exact hspares.limiter info rfl
      | acl t => exact .inl ⟨⟨h.allocated, h.named, h.served, h.lookup, h.bucket⟩, hquiet (by simp)⟩
      | serve req =>
          have hserve := h.serve rate R req
          by_cases hlimiter : Gateway.limiterOf g.node req = some (a, path)
          · rw [if_pos hlimiter] at hserve
            refine .inr ⟨hserve, fun t => ?_⟩
            rw [passage, letsPass_of_routes (Gateway.limiterOf_eq_some.mp hlimiter) h.lookup, h.bucket]
            split
            · simp only [Option.toList_some, List.map_cons, List.map_nil, h.named]
            · rfl
          · rw [if_neg hlimiter] at hserve
            refine .inl ⟨hserve, fun t p hp hpath => hlimiter ?_⟩
            obtain ⟨⟨b, q⟩, hl, rfl⟩ := List.mem_map.mp hp
            rw [Option.mem_toList] at hl
            unfold Gateway.letsPass at hl
            split at hl
            · cases hl
            · obtain ⟨hpattern, rfl⟩ : (g.node.proxies b).pattern = pattern ∧ q = path := hpath
              rw [hl, h.eq_of_routes R (Gateway.limiterOf_eq_some.mp hl) hpattern]

end Timed

end Steps

/-! ## Runs

`Metered` is the invariant: with the limiter goes a bucket, which has been reached by taking a token for
each passage. The library says how many tokens a bucket can have given in a window, and the rest is to put
in the size and the interval that `SetRateLimiter` has made from the volume and the speed. -/

namespace Timed

section Runs

variable {β : Type} {env : Env} {rate : Int → Rate β} {Is : QpsRateLimiter → β → TokenBucket Int → Prop}
  {g₀ : Gateway β} {f f' : Timed β} {a : Nat} {pattern path : String} {limiter : QpsRateLimiter}
  {interval t₀ t : Int}
  {info : LimiterInfo} {req : Request} {e : Int × Event} {es es' : List (Int × Event)}

/-- The limiter of the path has no more in it than a bucket, and the requests let through are the tokens
taken. -/
structure Metered (Is : QpsRateLimiter → β → TokenBucket Int → Prop) (pattern : String) (a : Nat)
    (path : String) (limiter : QpsRateLimiter) (interval : Int) (f : Timed β) : Prop where
  ready : Ready f.gateway.node
  limit : limiter.limit = .every interval
  held : ∃ x k, Behind f.gateway pattern a path limiter x ∧ Is limiter x k ∧ k.last ≤ f.now ∧
    TokenBucket.Reached interval limiter.burst limiter.getTimeout k (f.times pattern path)

/-- The passages of a step come in front. -/
theorem times_append (ps : List Passage) (hpassed : f'.passed = ps ++ f.passed) :
    f'.times pattern path = (ps.filter fun p => decide (p.pattern = pattern ∧ p.path = path)).map
      Passage.time ++ f.times pattern path := by
  rw [times, times, hpassed, List.filter_append, List.map_append]

/-- A step that spares the limiter takes a token for each request it lets through. -/
theorem Metered.step (B : TokenBuckets rate Is) (M : Metered Is pattern a path limiter interval f)
    (hstep : SparingStep env rate pattern path f e f') :
    Metered Is pattern a path limiter interval f' := by
  obtain ⟨hstep, hspares⟩ := hstep
  obtain ⟨x, k, hbehind, his, hlast, hreached⟩ := M.held
  have hnow : k.last ≤ e.1 := hlast.trans hstep.later
  refine ⟨hstep.happens.ready M.ready, M.limit, ?_⟩
  rw [times_append _ hstep.passed, hstep.now]
  rcases hbehind.happens M.ready hspares hstep.happens with ⟨hbehind', hnone⟩ | ⟨hbehind', hasked⟩
  · rw [List.filter_eq_nil_iff.mpr fun p hp => by simpa using hnone e.1 p hp]
    exact ⟨x, k, hbehind', his, hnow, hreached⟩
  · obtain ⟨rfl, hsize⟩ := hreached.same
    rw [hasked]
    cases hanswer : ((rate e.1).take limiter x).1 with
    | true =>
        -- a token that is granted is one the bucket has
        obtain ⟨htoken, his'⟩ := B.granted limiter x k e.1 his M.limit hsize.symm hnow hanswer
        have htake : k.take e.1 limiter.getTimeout = (true, (k.take e.1 limiter.getTimeout).2) :=
          Prod.ext htoken rfl
        refine ⟨_, _, hbehind', his', ?_, ?_⟩
        · rw [(TokenBucket.take_eq_true htake).2]
        · simpa using hreached.take htake
    | false =>
        have his' := B.refused limiter x k e.1 his M.limit hsize.symm hnow hanswer
        exact ⟨_, k, hbehind', his', hnow, by simpa using hreached⟩

theorem run_ready (h₀ : Gateway.Fresh g₀) (hrun : Trace (Step env rate) ⟨g₀, t₀, []⟩ es f) :
    Ready f.gateway.node :=
  hrun.invariant h₀.ready fun R hstep => hstep.happens.ready R

/-! ### Windows of time

What is proved of buckets is put in terms of the `LimiterInfo`: with a speed from 1 to 10^9, the interval is
at least a nanosecond, by integer division. -/

/-! ### The limiter of a `LimiterInfo`

`time.Second / Duration(speed)` is a whole number of nanoseconds. Up to a speed of 10^9 it is positive, and
so an interval between two tokens; above that it is 0, which makes the limiter an unlimited one. -/

/-- What the limiter is, for a speed that leaves time between two tokens. -/
theorem limit_limiter (hpos : 0 < info.speed) (hle : info.speed ≤ 1000000000) :
    (info.limiter newQpsRateLimiter).limit = .every (1000000000 / info.speed) ∧
      0 < 1000000000 / info.speed := by
  have hinterval : 1 ≤ 1000000000 / info.speed := (Int.le_ediv_iff_mul_le hpos).mpr (by omega)
  refine ⟨?_, hinterval⟩
  rw [(LimiterInfo.limit_limiter hpos).1, Limit.ofInterval, if_neg (by omega)]

/-- From the success of `SetRateLimiter` on, while the limiter is spared. -/
theorem run_metered (B : TokenBuckets rate Is) (R : Ready f.gateway.node)
    (hp : f.gateway.node.current.relations.lookup info.Prefix = some a)
    (hlimit : (info.limiter newQpsRateLimiter).limit = .every interval)
    (hset : (f.gateway.setRateLimiter (rate t) a info).1 = .ok none)
    (hrun : Trace (SparingStep env rate info.Prefix info.pathName) (limited rate f.gateway a info t)
      es f') :
    Metered Is info.Prefix a info.pathName (info.limiter newQpsRateLimiter) interval f' := by
  refine hrun.invariant ⟨?_, hlimit, ?_⟩ fun M hstep => M.step B hstep
  · have hstep : Gateway.Step env (rate t) f.gateway (.setRateLimiter info.Prefix info)
        (f.gateway.setRateLimiter (rate t) a info).2 := .setRateLimiter info hp
    exact hstep.ready R
  · exact ⟨_, _, behind_setRateLimiter R.linked hp hset, B.new _ t interval hlimit, le_refl t, .full t⟩

/-- In every run, from the success of `SetRateLimiter` until the limiter of the path is set again or the
pattern gets a new proxy: the requests for the path that come in a window of time and are let through are
no more than the volume, and one for each token's time that passes in the window and while the last one
waits. -/
theorem rate_kept (h₀ : Gateway.Fresh g₀) (B : TokenBuckets rate Is)
    (hbefore : Trace (Step env rate) ⟨g₀, t₀, []⟩ es f)
    (hp : f.gateway.node.current.relations.lookup info.Prefix = some a)
    (hset : (f.gateway.setRateLimiter (rate t) a info).1 = .ok none)
    (hpos : 0 < info.speed) (hle : info.speed ≤ 1000000000)
    (hrun : Trace (SparingStep env rate info.Prefix info.pathName) (limited rate f.gateway a info t)
      es' f') {s u : Int} (hwindow : s ≤ u) :
    (TokenBucket.window s u (f'.times info.Prefix info.pathName) : Int) ≤ max info.volumn 0 +
      (u - s + max (info.limiter newQpsRateLimiter).getTimeout 0) / (1000000000 / info.speed) := by
  obtain ⟨hlimit, hinterval⟩ := limit_limiter hpos hle
  have M := run_metered B (run_ready h₀ hbefore) hp hlimit hset hrun
  obtain ⟨x, k, -, -, -, hreached⟩ := M.held
  rw [(LimiterInfo.limit_limiter hpos).2] at hreached
  by_cases hn : 0 < TokenBucket.window s u (f'.times info.Prefix info.pathName)
  -- more than the volume can only be had by waiting an interval for each
  · have hmul := hreached.window_mul_le hinterval.le hn
    have hle : (TokenBucket.window s u (f'.times info.Prefix info.pathName) : Int) - info.volumn ≤
        (u - s + max (info.limiter newQpsRateLimiter).getTimeout 0) / (1000000000 / info.speed) := by
      rw [Int.le_ediv_iff_mul_le hinterval, sub_mul]
      omega
    omega
  · have hzero : 0 ≤ (u - s + max (info.limiter newQpsRateLimiter).getTimeout 0) /
        (1000000000 / info.speed) := Int.ediv_nonneg (by omega) hinterval.le
    omega

/-- Without a timeout, a limiter that has room for a token never turns away a request for the path that
comes a token's time after the last one to pass. -/
theorem spaced_served (h₀ : Gateway.Fresh g₀) (B : TokenBuckets rate Is)
    (hbefore : Trace (Step env rate) ⟨g₀, t₀, []⟩ es f)
    (hp : f.gateway.node.current.relations.lookup info.Prefix = some a)
    (hset : (f.gateway.setRateLimiter (rate t) a info).1 = .ok none)
    (hpos : 0 < info.speed) (hle : info.speed ≤ 1000000000)
    (hrun : Trace (SparingStep env rate info.Prefix info.pathName) (limited rate f.gateway a info t)
      es' f') (hvolumn : 1 ≤ info.volumn) (hinstant : (info.limiter newQpsRateLimiter).getTimeout = 0)
    {u : Int} (hlater : f'.now ≤ u) (hroutes : f'.gateway.node.Routes req a info.pathName)
    (hspaced : ∀ v ∈ f'.times info.Prefix info.pathName, v + 1000000000 / info.speed ≤ u) :
    ∀ err, (f'.gateway.serveHTTP (rate u) req).1 ≠ .ok (.badRequest err) := by
  obtain ⟨hlimit, hinterval⟩ := limit_limiter hpos hle
  have M := run_metered B (run_ready h₀ hbefore) hp hlimit hset hrun
  obtain ⟨x, k, hbehind, his, hlast, hreached⟩ := M.held
  obtain ⟨hi, hs⟩ := hreached.same
  have hallow := B.allow _ x k u his (by rw [hi, hlimit]) hs.symm (hlast.trans hlater) hinstant
  rw [(LimiterInfo.limit_limiter hpos).2, hinstant] at hreached
  -- the last token taken has come back by now
  have htoken : (k.take u 0).1 = true :=
    hreached.spaced hinterval.le le_rfl hvolumn (hlast.trans hlater) hspaced
  have hpass : f'.gateway.letsPass (rate u) req = some (a, info.pathName) := by
    rw [letsPass_of_routes hroutes hbehind.lookup, hbehind.bucket, if_pos (hallow htoken)]
  intro err herr
  rw [letsPass_of_badRequest herr] at hpass
  cases hpass

end Runs

/-- Limiters that are buckets. A context of less than a microsecond has expired before the limiter is
asked. -/
def buckets (now : Int) : Rate (TokenBucket Int) where
  new := fun limiter =>
    match limiter.limit with
    | .inf => .full 0 1 now
    | .every interval => .full interval limiter.burst now
  take := fun limiter k =>
    if 0 < limiter.getTimeout ∧ limiter.getTimeout < 1000 then (false, k)
    else k.take now limiter.getTimeout

/-- They keep what is promised, with the bucket itself to explain it. -/
theorem tokenBuckets_buckets : TokenBuckets buckets fun _ b k => b = k where
  new := by
    intro limiter now interval h
    simp only [buckets, h]
  granted := by
    rintro limiter b k now rfl - - - hanswer
    unfold buckets at hanswer ⊢
    dsimp only at hanswer ⊢
    split at hanswer
    · cases hanswer
    · next hwaits =>
        rw [if_neg hwaits]
        exact ⟨hanswer, rfl⟩
  refused := by
    rintro limiter b k now rfl - - - hanswer
    unfold buckets at hanswer ⊢
    dsimp only at hanswer ⊢
    split
    · rfl
    · next hwaits =>
        rw [if_neg hwaits] at hanswer
        exact TokenBucket.take_eq_false (Prod.ext hanswer rfl)
  allow := by
    rintro limiter b k now rfl - - - hinstant htoken
    unfold buckets
    dsimp only
    rw [hinstant, if_neg (by decide)]
    exact htoken

def twoTokens : LimiterInfo := ⟨"/api", "/x", "qps", 2, 5, 0, 0⟩

def requestX : Request := ⟨"1.2.3.4:80", "/api/x", none, true⟩

/-- The gateway before the limiter is set. -/
def unlimited : Gateway (TokenBucket Int) :=
  ⟨(Node.new.addProxyWithLocation Env.plain ⟨"/api", ["http://a:80"], "round-robin"⟩).2,
    fun _ _ => .full 0 1 0⟩

theorem run_unlimited : Trace (Step Env.plain buckets) ⟨⟨Node.new, fun _ _ => .full 0 1 0⟩, 0, []⟩
    ([] ++ [(5, .gateway (.addProxyWithLocation ⟨"/api", ["http://a:80"], "round-robin"⟩))])
    ⟨unlimited, 5, []⟩ :=
  .snoc .nil ⟨by decide, .gateway (.addProxyWithLocation rfl), rfl, rfl⟩

/-- The request at a time. -/
def served (f : Timed (TokenBucket Int)) (t : Int) : Timed (TokenBucket Int) :=
  ⟨(f.gateway.serveHTTP (buckets t) requestX).2, t,
    passage (buckets t) f.gateway t (.gateway (.serve requestX)) ++ f.passed⟩

/-- The limiter is set, and then come three requests at one time. -/
def afterThree : Timed (TokenBucket Int) :=
  served (served (served (limited buckets unlimited 0 twoTokens 10) 20) 20) 20

theorem run_afterThree : Trace (SparingStep Env.plain buckets "/api" "/x")
    (limited buckets unlimited 0 twoTokens 10)
    ([] ++ [(20, .gateway (.serve requestX))] ++ [(20, .gateway (.serve requestX))] ++
      [(20, .gateway (.serve requestX))]) afterThree := by
  have hstep : ∀ f : Timed (TokenBucket Int), f.now ≤ 20 → SparingStep Env.plain buckets "/api" "/x" f
      (20, .gateway (.serve requestX)) (served f 20) :=
    fun f hnow => ⟨⟨hnow, .gateway (.serve requestX), rfl, rfl⟩, ⟨fun info h => (by cases h), fun l h => by cases h⟩⟩
  exact .snoc (.snoc (.snoc .nil (hstep _ (by decide))) (hstep _ (by decide))) (hstep _ (by decide))

/-- Two are let through, and the volume is two. -/
theorem rate_kept_three : TokenBucket.window 20 20 (afterThree.times "/api" "/x") = 2 ∧
    (TokenBucket.window 20 20 (afterThree.times "/api" "/x") : Int) ≤ 2 := by
  have hset : (unlimited.setRateLimiter (buckets 10) 0 twoTokens).1 = .ok none := rfl
  exact ⟨by decide +kernel, rate_kept ⟨rfl, rfl⟩ tokenBuckets_buckets run_unlimited (by decide) hset
    (by decide) (by decide) run_afterThree (show (20 : Int) ≤ 20 from le_refl _)⟩

/-- The next one, a fifth of a second later, is let through. -/
theorem spaced_served_fourth : (afterThree.times "/api" "/x").length = 2 ∧ ∀ err,
    (afterThree.gateway.serveHTTP (buckets 200000020) requestX).1 ≠ .ok (.badRequest err) := by
  have hset : (unlimited.setRateLimiter (buckets 10) 0 twoTokens).1 = .ok none := rfl
  have hroutes : afterThree.gateway.node.Routes requestX 0 "/x" := ⟨by decide, rfl, _, rfl, by decide⟩
  exact ⟨by decide +kernel, spaced_served ⟨rfl, rfl⟩ tokenBuckets_buckets run_unlimited (by decide) hset
    (by decide) (by decide) run_afterThree (by decide) (by decide) (by decide) hroutes (by decide +kernel)⟩

end Timed

end Cheryl.Server
