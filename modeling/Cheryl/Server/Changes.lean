import Cheryl.ReverseProxy.Config
import Cheryl.Server.Fsm

/-!
# What an entry does to the configuration

The operations of a node change its configuration in six ways, the `Change`s. A state is `Ready`
when it is linked and router and `Relations` hold the same proxies; every operation that returns
keeps that. Which change an entry asks for depends on the configuration alone (`FSM.asked`), and
`FSM.apply_spec` says once, for all entries, that applying one makes that change and no other.
-/

namespace Cheryl.Server

open ReverseProxy Acl RateLimit

/-! ## Changes

Everything that is done to the configuration of a node, by a handler or by the log, is one of six changes.
Each is a function on configurations, and the operations of the source are related to them below. -/

/-- A change of the configuration. -/
inductive Change
  | create (l : Location)
  | remove (pattern : String)
  | addHost (pattern host : String)
  | removeHost (pattern host : String)
  | setMode (pattern mode : String)
  | setLimiter (pattern : String) (info : LimiterInfo)

def Change.apply (env : Env) (c : Config) : Change → Config
  | create l => c.put l (l.service env)
  | remove pattern => c.remove pattern
  | addHost pattern host => c.modify pattern fun s => s.addHost host
  | removeHost pattern host => c.modify pattern fun s => s.removeHost host
  | setMode pattern mode => c.modify pattern fun s => s.setMode mode
  | setLimiter pattern info =>
      (c.modify pattern fun s => s.setLimiter info.pathName info.described).record pattern info

def Change.perform (env : Env) (c : Config) : Option Change → Config
  | none => c
  | some change => change.apply env c

def Config.backends (c : Config) (p : String) : Option (Finset String × String) :=
  (c.services p).map fun s => (s.hosts, s.mode)

/-! ## States between operations

Router and `Relations` are two maps from patterns to proxies, written one after the other by the same calls.
Between calls they are one map. The exception is a node whose router has not been made, where a call that
adds a proxy panics between the two. -/

/-- Router and `Relations` hold the same proxies; without a router there are none. -/
def Synced (n : Node) : Prop :=
  n.router = some n.current.relations ∨ n.router = none ∧ n.current.relations = ∅

/-- The states between operations that returned. -/
structure Ready (n : Node) : Prop where
  linked : Linked n
  synced : Synced n

/-- The operation has made the change and nothing else. -/
structure Changed (env : Env) (n n' : Node) (change : Change) : Prop where
  ready : Ready n'
  config : n'.config = change.apply env n.config
  acl : n'.acl = n.acl

section Ready

variable {env : Env} {n n' : Node} {p host mode path : String} {a : Nat} {out : Outcome}
  {err : Option GoError}

/-- If a pattern is served there is a router. -/
theorem Ready.router_eq (R : Ready n) (hp : n.current.relations.lookup p = some a) :
    n.router = some n.current.relations := by
  rcases R.synced with h | ⟨-, h⟩
  · exact h
  · rw [h] at hp
    simp at hp

/-- A call that leaves the proxies in place leaves the state ready. -/
theorem Ready.of_reconfigured (R : Ready n) {change : Change}
    (h : Reconfigured n n' (change.apply env n.config)) : Changed env n n' change where
  ready :=
    { linked := h.linked
      synced := by
        unfold Synced
        rw [h.router, h.relations]
        exact R.synced }
  config := h.config
  acl := h.acl

/-! ### Operation by operation

For each operation: how it can end on a ready node, and which change it has made then. Errors go with no
change. -/

/-- `AddProxyWithLocation` that returns has failed for want of a proxy, or created the pattern. -/
theorem Ready.addProxyWithLocation (R : Ready n) {l : Location}
    (h : n.addProxyWithLocation env l = (.ok err, n')) :
    (¬ l.Constructible env ∧ n' = n ∧ err ≠ none) ∨
      (l.Constructible env ∧ err = none ∧ Changed env n n' (.create l)) := by
  cases hproxy : newHTTPProxy env l.pattern l.proxyPass l.balanceMode with
  | error e =>
      rw [addProxyWithLocation_error hproxy] at h
      cases h
      refine .inl ⟨?_, rfl, by simp⟩
      rintro ⟨proxy, hok⟩
      rw [hproxy] at hok
      cases hok
  | ok proxy =>
      have hcon : l.Constructible env := ⟨proxy, hproxy⟩
      obtain ⟨hlinked, hconfig, hacl, hrouter, hrel, hout⟩ := addProxyWithLocation_spec R.linked hcon
      rw [h] at hlinked hconfig hacl hrouter hrel hout
      split at hout
      · cases hout
      · next hr =>
          cases hout
          refine .inr ⟨hcon, rfl, ⟨hlinked, .inl ?_⟩, hconfig, hacl⟩
          have hsome : n.router = some n.current.relations :=
            R.synced.resolve_right fun hnone => hr hnone.1
          rw [hrouter, hrel, hsome]
          rfl

/-- `AddProxyWithLocation` panics only for want of a router. -/
theorem Ready.addProxyWithLocation_ok (R : Ready n) {l : Location} (hcon : l.Constructible env)
    (hr : n.router ≠ none) :
    ∃ n', n.addProxyWithLocation env l = (.ok none, n') ∧ Changed env n n' (.create l) := by
  obtain ⟨-, -, -, -, -, hout⟩ := addProxyWithLocation_spec R.linked hcon
  rw [if_neg hr] at hout
  have heq : n.addProxyWithLocation env l = (.ok none, (n.addProxyWithLocation env l).2) :=
    Prod.ext hout rfl
  rcases R.addProxyWithLocation heq with ⟨hnot, -⟩ | ⟨-, -, hchanged⟩
  · exact absurd hcon hnot
  · exact ⟨_, heq, hchanged⟩

/-- `AddProxy` fails for an unknown pattern or a bad URL, and adds the host otherwise. -/
theorem Ready.addProxy (R : Ready n) (h : n.addProxy env p host = (out, n')) :
    ((n.config.services p = none ∨ ∃ err, env.parse host = .error err) ∧ n' = n ∧
        ∃ err, out = .ok (some err)) ∨
      (out = .ok none ∧ n.config.services p ≠ none ∧ ∃ url, env.parse host = .ok url ∧
        Changed env n n' (.addHost p (Utils.getHost url))) := by
  cases hp : n.current.relations.lookup p with
  | none =>
      simp only [Node.addProxy, hp] at h
      cases h
      exact .inl ⟨.inl (Node.services_eq_none.mpr hp), rfl, _, rfl⟩
  | some a =>
      cases hurl : env.parse host with
      | error e =>
          simp only [Node.addProxy, hp, hurl] at h
          cases h
          exact .inl ⟨.inr ⟨e, rfl⟩, rfl, _, rfl⟩
      | ok url =>
          obtain ⟨n₁, heq, hrec⟩ := addProxy_spec R.linked hp hurl
          rw [heq] at h
          cases h
          refine .inr ⟨rfl, ?_, url, rfl, R.of_reconfigured hrec⟩
          rw [Node.services_of_lookup hp]
          simp

/-- `RemoveProxy` fails for an unknown pattern and removes it otherwise. -/
theorem Ready.removeProxy (env : Env) (R : Ready n) (h : n.removeProxy p = (out, n')) :
    (n.config.services p = none ∧ n' = n ∧ ∃ err, out = .ok (some err)) ∨
      (out = .ok none ∧ n.config.services p ≠ none ∧ Changed env n n' (.remove p)) := by
  cases hp : n.current.relations.lookup p with
  | none =>
      simp only [Node.removeProxy, hp] at h
      cases h
      exact .inl ⟨Node.services_eq_none.mpr hp, rfl, _, rfl⟩
  | some a =>
      obtain ⟨n₁, heq, hlinked, hconfig, hacl, hrouter, hrel⟩ :=
        removeProxy_spec R.linked hp (R.router_eq hp)
      rw [heq] at h
      cases h
      refine .inr ⟨rfl, ?_, ⟨hlinked, .inl ?_⟩, hconfig, hacl⟩
      · rw [Node.services_of_lookup hp]
        simp
      · rw [hrouter, hrel]

/-- `RemoveHost` panics for an unknown pattern, times out, or removes the host. It does not time
out on a host that is served and whose checker answers. -/
theorem Ready.removeHost (env : Env) (R : Ready n) {received : Bool}
    (h : n.removeHost p host received = (out, n')) :
    (n.config.services p = none ∧ n' = n ∧ out = .error .nilDereference) ∨
      (n.config.services p ≠ none ∧ n' = n ∧ out = .ok (some Node.shutDownTimeout) ∧
        (received = true → ∀ s, n.config.services p = some s → host ∉ s.hosts)) ∨
      (n.config.services p ≠ none ∧ received = true ∧ out = .ok none ∧
        Changed env n n' (.removeHost p host)) := by
  cases hp : n.current.relations.lookup p with
  | none =>
      simp only [Node.removeHost, hp] at h
      cases h
      exact .inl ⟨Node.services_eq_none.mpr hp, rfl, rfl⟩
  | some a =>
      have hserved : n.config.services p ≠ none := by
        rw [Node.services_of_lookup hp]
        simp
      by_cases hhost : received = true ∧ host ∈ (n.proxies a).hostsShutDown
      · obtain ⟨n₁, heq, hrec⟩ := removeHost_spec R.linked hp hhost.2
        rw [hhost.1, heq] at h
        cases h
        exact .inr (.inr ⟨hserved, hhost.1, rfl, R.of_reconfigured hrec⟩)
      · simp only [Node.removeHost, hp, if_neg hhost] at h
        cases h
        refine .inr (.inl ⟨hserved, rfl, rfl, fun hrec s hs hmem => hhost ⟨hrec, ?_⟩⟩)
        rw [Node.services_of_lookup hp] at hs
        cases hs
        exact (R.linked.serves hp).channels hmem

/-- `ChangeLb` panics for an unknown pattern, fails for an unknown mode, or sets the mode. -/
theorem Ready.changeLb (R : Ready n) {order : List String}
    (h : n.changeLb env p mode order = (out, n')) :
    (n.config.services p = none ∧ n' = n ∧ out = .error .nilDereference) ∨
      (∃ err, Balancer.build env.toEnv mode order = .error err ∧ n' = n ∧ out = .ok (some err)) ∨
      (out = .ok none ∧ n.config.services p ≠ none ∧
        (∃ lb, Balancer.build env.toEnv mode order = .ok lb) ∧ Changed env n n' (.setMode p mode)) := by
  cases hp : n.current.relations.lookup p with
  | none =>
      simp only [Node.changeLb, hp] at h
      cases h
      exact .inl ⟨Node.services_eq_none.mpr hp, rfl, rfl⟩
  | some a =>
      cases hlb : Balancer.build env.toEnv mode order with
      | error e =>
          simp only [Node.changeLb, hp, hlb] at h
          cases h
          exact .inr (.inl ⟨e, rfl, rfl, rfl⟩)
      | ok lb =>
          obtain ⟨n₁, heq, hrec⟩ := changeLb_spec R.linked hp hlb
          rw [heq] at h
          cases h
          refine .inr (.inr ⟨rfl, ?_, ⟨lb, rfl⟩, R.of_reconfigured hrec⟩)
          rw [Node.services_of_lookup hp]
          simp

/-- `SetRateLimiter` fails for an unknown type, or sets and records the limiter. -/
theorem Ready.setRateLimiter (env : Env) (R : Ready n) (hp : n.current.relations.lookup p = some a)
    {info : LimiterInfo} (h : n.setRateLimiter a info = (out, n')) :
    (info.limiterType ≠ "qps" ∧ n' = n ∧ ∃ err, out = .ok (some err)) ∨
      (info.limiterType = "qps" ∧ out = .ok none ∧ Changed env n n' (.setLimiter p info)) := by
  cases hbuild : RateLimit.build info.limiterType with
  | error e =>
      rw [setRateLimiter_error hbuild] at h
      cases h
      refine .inl ⟨fun hqps => ?_, rfl, _, rfl⟩
      rw [RateLimit.build_eq_ok.mpr ⟨hqps, rfl⟩] at hbuild
      cases hbuild
  | ok limiter =>
      obtain ⟨n₁, heq, hrec⟩ := setRateLimiter_spec R.linked hp hbuild
      obtain ⟨hqps, rfl⟩ := RateLimit.build_eq_ok.mp hbuild
      rw [heq] at h
      cases h
      exact .inr ⟨hqps, rfl, R.of_reconfigured hrec⟩

end Ready

/-! ## Applying an entry

`Apply` decodes and branches; `Calls` lists what it can come to, so that no other proof unfolds it. `asked`
then reads off the configuration which change the entry makes, and the lemmas below go through the six
operations. -/

namespace FSM

variable {δ : Type} {env : Env} {enc : Encoding δ} {n n' : Node} {entry : LogEntry δ}
  {received : Bool} {ret : Option GoError}

/-- What applying an entry leaves: the node as it was, or what the one call has left that it comes to. -/
inductive Calls (env : Env) (enc : Encoding δ) (n : Node) (entry : LogEntry δ) (received : Bool) :
    Node → Prop
  | idle : Calls env enc n entry received n
  | create {l : Location} (opt : entry.opt = 1) (data : enc.location.unmarshal entry.data = .ok l)
      (new : n.current.relations.lookup l.pattern = none) :
      Calls env enc n entry received (n.addProxyWithLocation env l).2
  | limiter {info : LimiterInfo} {a : Nat} (opt : entry.opt = 2)
      (data : enc.limiterInfo.unmarshal entry.data = .ok info)
      (hp : n.current.relations.lookup info.Prefix = some a) :
      Calls env enc n entry received (n.setRateLimiter a info).2
  | acl {aclLog : AclLog} {err : Option GoError} {t : RadixTree} (opt : entry.opt = 3)
      (data : enc.aclLog.unmarshal entry.data = .ok aclLog)
      (h : switchAcl n.acl aclLog = .ok (err, t)) : Calls env enc n entry received { n with acl := t }
  | removeProxy (opt : entry.opt = 4) :
      Calls env enc n entry received (n.removeProxy (enc.string entry.data)).2
  | removeHost {log : HostLog} (opt : entry.opt = 5)
      (data : enc.hostLog.unmarshal entry.data = .ok log) :
      Calls env enc n entry received (n.removeHost log.pattern log.host received).2
  | addHost {log : HostLog} (opt : entry.opt = 6) (data : enc.hostLog.unmarshal entry.data = .ok log) :
      Calls env enc n entry received (n.addProxy env log.pattern log.host).2

/-- Whatever the entry is, `Apply` comes to one of these. -/
theorem apply_calls (env : Env) (enc : Encoding δ) (n : Node) (entry : LogEntry δ) (received : Bool) :
    Calls env enc n entry received (apply env enc n entry received).2 := by
  unfold apply
  split
  · next opt =>
      unfold doNewHttpProxy
      split
      · exact .idle
      · next l data =>
          split
          · exact .idle
          · next new =>
              -- a panic leaves what an error leaves
              have hcall : Calls env enc n entry received (n.addProxyWithLocation env l).2 :=
                .create opt data new
              split <;> next hadd => rw [hadd] at hcall; exact hcall
  split
  · next opt =>
      unfold doSetRateLimiter
      split
      · exact .idle
      · next info data =>
          split
          · exact .idle
          · next a hp => exact .limiter opt data hp
  split
  · next opt =>
      unfold doHandleAcl
      split
      · exact .idle
      · next aclLog data =>
          split
          · exact .idle
          · next err t h => exact .acl opt data h
  split
  · next opt => exact .removeProxy opt
  split
  · next opt =>
      unfold doRemoveHost
      split
      · exact .idle
      · next log data => exact .removeHost opt data
  split
  · next opt =>
      unfold doAddHost
      split
      · exact .idle
      · next log data => exact .addHost opt data
  · exact .idle

/-! ### What an entry asks for

The change an entry asks for is computed from the entry and the configuration alone, without the router and
the tree. So two nodes with the same patterns make the same change for the same entry. -/

/-- The change an entry asks for. The router has no part in it, nor does the ACL. -/
def asked (env : Env) (enc : Encoding δ) (c : Config) (entry : LogEntry δ) (received : Bool) :
    Option Change :=
  if entry.opt = 1 then
    match enc.location.unmarshal entry.data with
    | .error _ => none
    | .ok l =>
        match c.services l.pattern, newHTTPProxy env l.pattern l.proxyPass l.balanceMode with
        | none, .ok _ => some (.create l)
        | _, _ => none
  else if entry.opt = 2 then
    match enc.limiterInfo.unmarshal entry.data with
    | .error _ => none
    | .ok info =>
        if (c.services info.Prefix).isSome ∧ info.limiterType = "qps" then
          some (.setLimiter info.Prefix info)
        else none
  else if entry.opt = 4 then
    if (c.services (enc.string entry.data)).isSome then some (.remove (enc.string entry.data))
    else none
  else if entry.opt = 5 then
    match enc.hostLog.unmarshal entry.data with
    | .error _ => none
    | .ok log =>
        if (c.services log.pattern).isSome ∧ received = true then
          some (.removeHost log.pattern log.host)
        else none
  else if entry.opt = 6 then
    match enc.hostLog.unmarshal entry.data with
    | .error _ => none
    | .ok log =>
        match env.parse log.host with
        | .error _ => none
        | .ok url =>
            if (c.services log.pattern).isSome then
              some (.addHost log.pattern (Utils.getHost url))
            else none
  else none

/-- What applying an entry did to the ACL. -/
def AclEffect (enc : Encoding δ) (n : Node) (entry : LogEntry δ) (t : RadixTree) : Prop :=
  t = n.acl ∨ ∃ aclLog err, entry.opt = 3 ∧ enc.aclLog.unmarshal entry.data = .ok aclLog ∧
    switchAcl n.acl aclLog = .ok (err, t)

/-- What applying an entry did, when it returned: the change asked for, and with an error nothing. -/
structure Applied (env : Env) (enc : Encoding δ) (n : Node) (entry : LogEntry δ) (received : Bool)
    (n' : Node) : Prop where
  ready : Ready n'
  config : n'.config = Change.perform env n.config (asked env enc n.config entry received)
  acl : AclEffect enc n entry n'.acl

/-- An operation that did nothing was asked for nothing. -/
theorem Applied.idle (R : Ready n) (h : asked env enc n.config entry received = none) :
    Applied env enc n entry received n where
  ready := R
  config := by rw [h]; rfl
  acl := .inl rfl

/-- An operation that made a change was asked for it. -/
theorem Applied.of_changed {change : Change} (h : Changed env n n' change)
    (hasked : asked env enc n.config entry received = some change) :
    Applied env enc n entry received n' where
  ready := h.ready
  config := by rw [hasked]; exact h.config
  acl := .inl h.acl

/-! ### Entry by entry

One lemma for each type of entry, and then `apply_spec` for all of them. -/

/-- The entry of a new proxy, for a pattern that is served already or not. -/
theorem apply_newHttpProxy (R : Ready n) (opt : entry.opt = 1)
    (h : doNewHttpProxy env enc n entry.data = (.ok ret, n')) :
    Applied env enc n entry received n' := by
  unfold doNewHttpProxy at h
  split at h
  · next err data =>
      cases h
      exact .idle R (by simp [asked, opt, data])
  · next l data =>
      split at h
      · next a hp =>
          cases h
          exact .idle R (by simp [asked, opt, data, Node.services_of_lookup hp])
      · next hp =>
          have hnew := Node.services_eq_none.mpr hp
          split at h
          · cases h
          · next err n₁ heq =>
              cases h
              rcases R.addProxyWithLocation heq with ⟨hnot, rfl, -⟩ | ⟨⟨proxy, hproxy⟩, -, hchanged⟩
              -- a proxy that cannot be made is what `asked` finds too
              · refine .idle R ?_
                cases hproxy : newHTTPProxy env l.pattern l.proxyPass l.balanceMode with
                | error err => simp [asked, opt, data, hnew, hproxy]
                | ok proxy => exact absurd ⟨proxy, hproxy⟩ hnot
              · exact .of_changed hchanged (by simp [asked, opt, data, hnew, hproxy])

theorem apply_setRateLimiter (R : Ready n) (opt : entry.opt = 2)
    (h : doSetRateLimiter enc n entry.data = (.ok ret, n')) :
    Applied env enc n entry received n' := by
  unfold doSetRateLimiter at h
  split at h
  · next err data =>
      cases h
      exact .idle R (by simp [asked, opt, data])
  · next info data =>
      split at h
      · next hp =>
          cases h
          exact .idle R (by simp [asked, opt, data, Node.services_eq_none.mpr hp])
      · next a hp =>
          rcases R.setRateLimiter env hp h with ⟨hqps, rfl, -⟩ | ⟨hqps, -, hchanged⟩
          · exact .idle R (by simp [asked, opt, data, hqps])
          · exact .of_changed hchanged
              (by simp [asked, opt, data, hqps, Node.services_of_lookup hp])

/-- An entry of the access list changes no configuration. -/
theorem apply_handleAcl (R : Ready n) (opt : entry.opt = 3)
    (h : doHandleAcl enc n entry.data = (.ok ret, n')) : Applied env enc n entry received n' := by
  have hasked : asked env enc n.config entry received = none := by simp [asked, opt]
  unfold doHandleAcl at h
  split at h
  · cases h
    exact .idle R hasked
  · next aclLog data =>
      split at h
      · cases h
      · next err t hcall =>
          cases h
          refine ⟨⟨⟨R.linked.routerType, R.linked.serves, R.linked.allocated⟩, R.synced⟩, ?_,
            .inr ⟨aclLog, ret, opt, data, hcall⟩⟩
          rw [hasked]
          rfl

theorem apply_removeProxy (R : Ready n) (opt : entry.opt = 4)
    (h : doRemoveProxy enc n entry.data = (.ok ret, n')) :
    Applied env enc n entry received n' := by
  rcases R.removeProxy env h with ⟨hnone, rfl, -⟩ | ⟨-, hserved, hchanged⟩
  · exact .idle R (by simp [asked, opt, hnone])
  · exact .of_changed hchanged (by simp [asked, opt, Option.isSome_iff_ne_none, hserved])

/-- The entry of a host that goes, with a checker that answers or not. -/
theorem apply_removeHost (R : Ready n) (opt : entry.opt = 5)
    (h : doRemoveHost enc n entry.data received = (.ok ret, n')) :
    Applied env enc n entry received n' := by
  unfold doRemoveHost at h
  split at h
  · next err data =>
      cases h
      exact .idle R (by simp [asked, opt, data])
  · next log data =>
      rcases R.removeHost env h with ⟨-, -, hout⟩ | ⟨hserved, rfl, -, habsent⟩ |
        ⟨hserved, hrec, -, hchanged⟩
      · cases hout
      · by_cases hrec : received = true
        · -- the checker would answer, but there is no such host
          refine ⟨R, ?_, .inl rfl⟩
          obtain ⟨s, hs⟩ := Option.ne_none_iff_exists'.mp hserved
          have hasked : asked env enc n'.config entry received =
              some (.removeHost log.pattern log.host) := by simp [asked, opt, data, hs, hrec]
          rw [hasked]
          exact (Config.modify_eq_self (by
            intro s' hs'
            exact Service.removeHost_eq_self (habsent hrec s' hs'))).symm
        · exact .idle R (by simp [asked, opt, data, hrec])
      · exact .of_changed hchanged
          (by simp [asked, opt, data, hrec, Option.isSome_iff_ne_none, hserved])

theorem apply_addHost (R : Ready n) (opt : entry.opt = 6)
    (h : doAddHost env enc n entry.data = (.ok ret, n')) : Applied env enc n entry received n' := by
  unfold doAddHost at h
  split at h
  · next err data =>
      cases h
      exact .idle R (by simp [asked, opt, data])
  · next log data =>
      rcases R.addProxy h with ⟨hnone | ⟨err, hurl⟩, rfl, -⟩ | ⟨-, hserved, url, hurl, hchanged⟩
      · refine .idle R ?_
        cases hurl : env.parse log.host <;> simp [asked, opt, data, hurl, hnone]
      · exact .idle R (by simp [asked, opt, data, hurl])
      · exact .of_changed hchanged
          (by simp [asked, opt, data, hurl, Option.isSome_iff_ne_none, hserved])

/-- Applying an entry makes the change it asks for. -/
theorem apply_spec (R : Ready n) (h : apply env enc n entry received = (.ok ret, n')) :
    Applied env enc n entry received n' := by
  unfold apply at h
  split at h
  · next opt => exact apply_newHttpProxy R opt h
  split at h
  · next opt => exact apply_setRateLimiter R opt h
  split at h
  · next opt => exact apply_handleAcl R opt h
  split at h
  · next opt => exact apply_removeProxy R opt h
  split at h
  · next opt => exact apply_removeHost R opt h
  split at h
  · next opt => exact apply_addHost R opt h
  · next h1 h2 h3 h4 h5 h6 =>
      cases h
      exact .idle R (by simp [asked, h1, h2, h4, h5, h6])

end FSM

end Cheryl.Server
