import Mathlib.Data.Multiset.Count
import Cheryl.ReverseProxy.HealthCheck

/-!
# The goroutines of the proxies

Every host of a proxy has a checker, a goroutine that returns when it receives on the channel
`HostsShutDown` has for the host. `RemoveHost` sends there, and so does `shutDownCheck`, the goroutine
of the proxy that `RemoveProxy` wakes, to one host after the other. Sends are synchronous: one happens
when a checker waits on that very channel in its `select`.

`Processes` is a node with these goroutines and the calls of `RemoveHost` that wait. Between the points
where they wait, calls and goroutines run to the end. A step that is `Orderly` keeps the processes
`Tended`: there is one checker for each host that should have one, and no other.
-/

namespace Cheryl.ReverseProxy

open Library Utils

/-! ## Goroutines and channels

A checker is a goroutine with a channel of its own. To send on a channel is to wait until a checker listens
on it, so a send is one step of two goroutines. -/

/-- A goroutine `healthCheck` that has not returned. `listening` is the channel its `select` waits on;
there is none before it comes to its `select`, and during a round. -/
structure Checker where
  proxy : Nat
  host : String
  listening : Option Nat
  deriving DecidableEq

/-- Where the goroutine `shutDownCheck` of a proxy is: it waits on `ShutDown`, ranges over
`HostsShutDown`, waits to send on the channel of a host, or has returned. -/
inductive ShutDownCheck
  | waiting
  | ranging (visited : Finset String)
  | sending (visited : Finset String) (host : String) (channel : Nat)
  | ended

/-- A call of `RemoveHost` in its `select`. Without a channel it can only time out. -/
structure Removal where
  proxy : Nat
  host : String
  channel : Option Nat
  deriving DecidableEq

/-- A node with its goroutines. A channel is named by the proxy and the host it was made for, and a
number: `channels a host` is that of `HostsShutDown[host]`. `removed` are the hosts whose `RemoveHost`
succeeded and that were not added since. -/
structure Processes where
  node : Node
  channels : Nat → String → Option Nat
  nextChannel : Nat
  checkers : Multiset Checker
  shutDown : Nat → ShutDownCheck
  removals : Multiset Removal
  removed : Finset (Nat × String)

namespace Processes

def running (s : Processes) (a : Nat) (host : String) : Nat :=
  s.checkers.countP fun k => k.proxy = a ∧ k.host = host

/-! ## Steps

`Step` has one case for each point where a goroutine waits or comes to. A send and its receive are one step
of both sides; a `select` waits on the channel it has read, while `HostsShutDown` may have got another one
for the host in the meantime. -/

inductive Event
  | addProxyWithLocation (l : Location)
  | addProxy (pattern host : String)
  /-- `RemoveHost` comes to its `select` -/
  | removeHost (pattern host : String)
  /-- a checker takes the message of `RemoveHost` -/
  | taken (r : Removal) (k : Checker)
  /-- nobody did for five seconds -/
  | timedOut (r : Removal)
  | removeProxy (pattern : String)
  /-- a checker comes to its `select` -/
  | listen (k : Checker)
  /-- the ticker ticks, and a checker makes its round -/
  | round (k : Checker) (first second : Bool)
  /-- `shutDownCheck` comes to the next host -/
  | next (a : Nat) (host : String)
  /-- a checker takes the message of `shutDownCheck` -/
  | sent (a : Nat) (k : Checker)
  /-- `shutDownCheck` has been to all hosts -/
  | done (a : Nat)

/-- The channels, the goroutine `shutDownCheck` and the checkers of a proxy that has been made and
hung in. -/
def serving (s : Processes) (n : Node) : Processes :=
  let a := s.node.nextProxy
  { s with
    node := n
    channels := Function.update s.channels a fun host =>
      if host ∈ (n.proxies a).hostsShutDown then some s.nextChannel else none
    nextChannel := s.nextChannel + 1
    checkers := s.checkers + (n.proxies a).hostMap.keys.val.map fun host => ⟨a, host, none⟩
    shutDown := Function.update s.shutDown a .waiting }

/-- The channel and the checker of a host that has been added to the proxy at `a`. -/
def checking (s : Processes) (n : Node) (a : Nat) (host : String) : Processes :=
  { s with
    node := n
    channels := Function.update s.channels a
      (Function.update (s.channels a) host (some s.nextChannel))
    nextChannel := s.nextChannel + 1
    checkers := ⟨a, host, none⟩ ::ₘ s.checkers
    removed := s.removed.erase (a, host) }

inductive Step (env : Env) : Processes → Event → Processes → Prop
  | addProxyWithLocation {s : Processes} {l : Location} {n : Node}
      (h : s.node.addProxyWithLocation env l = (.ok none, n)) :
      Step env s (.addProxyWithLocation l) (s.serving n)
  | addProxyWithLocation_error {s : Processes} {l : Location} {err : GoError} {n : Node}
      (h : s.node.addProxyWithLocation env l = (.ok (some err), n)) :
      Step env s (.addProxyWithLocation l) { s with node := n }
  | addProxy {s : Processes} {pattern host : String} {a : Nat} {url : URL} {n : Node}
      (hp : s.node.current.relations.lookup pattern = some a) (hurl : env.parse host = .ok url)
      (h : s.node.addProxy env pattern host = (.ok none, n)) :
      Step env s (.addProxy pattern host) (s.checking n a (getHost url))
  | addProxy_error {s : Processes} {pattern host : String} {err : GoError} {n : Node}
      (h : s.node.addProxy env pattern host = (.ok (some err), n)) :
      Step env s (.addProxy pattern host) { s with node := n }
  | removeHost {s : Processes} {pattern host : String} {a : Nat}
      (hp : s.node.current.relations.lookup pattern = some a) :
      Step env s (.removeHost pattern host)
        { s with removals := ⟨a, host, s.channels a host⟩ ::ₘ s.removals }
  | taken {s : Processes} {r : Removal} {k : Checker} (call : r ∈ s.removals)
      (checker : k ∈ s.checkers) (proxy : k.proxy = r.proxy) (host : k.host = r.host)
      (channel : r.channel ≠ none) (meet : k.listening = r.channel) :
      Step env s (.taken r k)
        { s with
          node := s.node.modifyProxy r.proxy fun h => { h with hostMap := h.hostMap.erase r.host }
          checkers := s.checkers.erase k
          removals := s.removals.erase r
          removed := insert (r.proxy, r.host) s.removed }
  | timedOut {s : Processes} {r : Removal} (call : r ∈ s.removals) :
      Step env s (.timedOut r) { s with removals := s.removals.erase r }
  | removeProxy {s : Processes} {pattern : String} {a : Nat} {n : Node}
      (hp : s.node.current.relations.lookup pattern = some a) (receiver : s.shutDown a = .waiting)
      (h : s.node.removeProxy pattern = (.ok none, n)) :
      Step env s (.removeProxy pattern)
        { s with node := n, shutDown := Function.update s.shutDown a (.ranging ∅) }
  | removeProxy_error {s : Processes} {pattern : String} {err : GoError} {n : Node}
      (h : s.node.removeProxy pattern = (.ok (some err), n)) :
      Step env s (.removeProxy pattern) { s with node := n }
  | listen {s : Processes} {k : Checker} (checker : k ∈ s.checkers) (busy : k.listening = none) :
      Step env s (.listen k)
        { s with
          checkers := { k with listening := s.channels k.proxy k.host } ::ₘ s.checkers.erase k }
  | round {s : Processes} {k : Checker} {first second : Bool} {proxy : HTTPProxy}
      (checker : k ∈ s.checkers) (free : k.listening ≠ none)
      (h : (s.node.proxies k.proxy).healthCheck k.host first second = .ok proxy) :
      Step env s (.round k first second)
        { s with
          node := s.node.modifyProxy k.proxy fun _ => proxy
          checkers := { k with listening := none } ::ₘ s.checkers.erase k }
  | next {s : Processes} {a c : Nat} {visited : Finset String} {host : String}
      (ranging : s.shutDown a = .ranging visited) (new : host ∉ visited)
      (channel : s.channels a host = some c) :
      Step env s (.next a host)
        { s with shutDown := Function.update s.shutDown a (.sending visited host c) }
  | sent {s : Processes} {a c : Nat} {visited : Finset String} {host : String} {k : Checker}
      (sending : s.shutDown a = .sending visited host c) (checker : k ∈ s.checkers)
      (meet : k = ⟨a, host, some c⟩) :
      Step env s (.sent a k)
        { s with
          checkers := s.checkers.erase k
          shutDown := Function.update s.shutDown a (.ranging (insert host visited)) }
  | done {s : Processes} {a : Nat} {visited : Finset String}
      (ranging : s.shutDown a = .ranging visited)
      (all : ∀ host, s.channels a host ≠ none → host ∈ visited) :
      Step env s (.done a) { s with shutDown := Function.update s.shutDown a .ended }

def start : Processes where
  node := .new
  channels := fun _ _ => none
  nextChannel := 0
  checkers := 0
  shutDown := fun _ => .waiting
  removals := 0
  removed := ∅

/-! ## What should hold

A checker that is missing leaves the flag of its host as it is for ever, a second one makes rounds nobody
asked for, and a send to a checker that is not there waits for ever and keeps the later hosts from being
closed. -/

/-- The protocol of the checkers: each host that is served has exactly one, one that was removed has
none, and `shutDownCheck` never waits for a checker that is not there. -/
structure Supervised (s : Processes) : Prop where
  served : ∀ p a host, s.node.current.relations.lookup p = some a →
    host ∈ (s.node.proxies a).hostMap → s.running a host = 1
  removed : ∀ a host, (a, host) ∈ s.removed → s.running a host = 0
  awaited : ∀ a visited host c, s.shutDown a = .sending visited host c → s.running a host ≠ 0

/-- What keeps the protocol: a host that is added is new, every host that once had a channel is in
`HostMap` when its proxy is removed, and `RemoveHost` does not take a checker from a proxy that is
being shut down. -/
def Event.Orderly (env : Env) (s : Processes) : Event → Prop
  | .addProxy pattern host => ∀ a url, s.node.current.relations.lookup pattern = some a →
      env.parse host = .ok url → getHost url ∉ (s.node.proxies a).hostMap
  | .removeProxy pattern => ∀ a, s.node.current.relations.lookup pattern = some a →
      ∀ host, s.channels a host ≠ none → host ∈ (s.node.proxies a).hostMap
  | .taken r _ => s.shutDown r.proxy = .waiting
  | _ => True

/-! ## What does hold, of orderly runs

Whether a host should have a checker can be read off the proxy and the goroutine that shuts it down: it is
in `HostMap`, and `shutDownCheck` has not been there. `Tended` says that these are the ones that have, and
carries along what is needed to keep this: that channels go with `HostsShutDown`, and that a proxy which is
being shut down has lost no host. -/

end Processes

/-- `shutDownCheck` has been to the host. -/
def ShutDownCheck.reached : ShutDownCheck → String → Bool
  | waiting, _ => false
  | ranging visited, host => decide (host ∈ visited)
  | sending visited _ _, host => decide (host ∈ visited)
  | ended, _ => true

namespace Processes

/-- The host should have a checker. -/
def Due (s : Processes) (a : Nat) (host : String) : Prop :=
  a < s.node.nextProxy ∧ host ∈ (s.node.proxies a).hostMap ∧ (s.shutDown a).reached host = false

/-- The invariant of orderly runs: those hosts have a checker that should have one. -/
structure Tended (s : Processes) : Prop where
  linked : Linked s.node
  due : ∀ a host, s.Due a host → s.running a host = 1
  idle : ∀ a host, ¬ s.Due a host → s.running a host = 0
  waiting : ∀ a, a < s.node.nextProxy → (s.node.proxies a).shutDownCheck = true →
    s.shutDown a = .waiting
  channels : ∀ a host, s.channels a host ≠ none ↔
    a < s.node.nextProxy ∧ host ∈ (s.node.proxies a).hostsShutDown
  mapped : ∀ a, a < s.node.nextProxy →
    (s.node.proxies a).hostMap.keys ⊆ (s.node.proxies a).hostsShutDown
  closing : ∀ a, s.shutDown a ≠ .waiting → a < s.node.nextProxy ∧
    ∀ host, s.channels a host ≠ none → host ∈ (s.node.proxies a).hostMap
  target : ∀ a visited host c, s.shutDown a = .sending visited host c →
    s.channels a host ≠ none ∧ host ∉ visited
  removed : ∀ a host, (a, host) ∈ s.removed →
    a < s.node.nextProxy ∧ host ∉ (s.node.proxies a).hostMap

variable {env : Env} {s s' : Processes} {k : Checker} {a : Nat} {host : String}

theorem Tended.supervised (T : Tended s) : Supervised s where
  served := by
    intro p a host hp hmem
    have hlt := T.linked.allocated hp
    refine T.due a host ⟨hlt, hmem, ?_⟩
    rw [T.waiting a hlt (T.linked.serves hp).waiting]
    rfl
  removed := by
    intro a host hmem
    exact T.idle a host fun hdue => (T.removed a host hmem).2 hdue.2.1
  awaited := by
    intro a visited host c hsending
    obtain ⟨hchannel, hnew⟩ := T.target a visited host c hsending
    obtain ⟨hlt, hmapped⟩ := T.closing a (by rw [hsending]; simp)
    -- the host it waits for has not been reached, so its checker still runs
    have hone : s.running a host = 1 := by
      refine T.due a host ⟨hlt, hmapped host hchannel, ?_⟩
      rw [hsending]
      simpa [ShutDownCheck.reached] using hnew
    -- a sender that waits for a host has not reached it, and there is one checker
    omega

theorem tended_start : Tended start where
  linked := ⟨rfl, fun hp => by simp [start, Node.new, Node.current, newProxyMap] at hp,
    fun hp => by simp [start, Node.new, Node.current, newProxyMap] at hp⟩
  due := fun a host hdue => absurd hdue.1 (Nat.not_lt_zero a)
  idle := fun a host _ => rfl
  waiting := fun a _ _ => rfl
  channels := fun a host => ⟨fun h => absurd rfl h, fun h => absurd h.1 (Nat.not_lt_zero a)⟩
  mapped := fun a hlt => absurd hlt (Nat.not_lt_zero a)
  closing := fun a h => absurd rfl h
  target := fun a visited host c h => by cases h
  removed := fun a host h => by simp [start] at h

/-! ### Counting

Checkers are a multiset, since the same host can have two that are alike. A step takes one out, puts one in,
or lets one go on. -/

theorem running_of_erase (s' : Processes) (hk : k ∈ s.checkers)
    (hs : s'.checkers = s.checkers.erase k) (a : Nat) (host : String) :
    s.running a host = s'.running a host + if k.proxy = a ∧ k.host = host then 1 else 0 := by
  unfold running
  rw [hs, ← Multiset.countP_cons, Multiset.cons_erase hk]

theorem running_of_replace {listening : Option Nat} (hk : k ∈ s.checkers)
    (hs : s'.checkers = { k with listening := listening } ::ₘ s.checkers.erase k) (a : Nat)
    (host : String) : s'.running a host = s.running a host := by
  have hold := running_of_erase { s' with checkers := s.checkers.erase k } hk rfl a host
  rw [hold]
  unfold running
  rw [hs, Multiset.countP_cons]

/-- The checkers of a proxy that has just been hung in. -/
theorem countP_new (hosts : Finset String) (a b : Nat) (host : String) :
    (hosts.val.map fun h => (⟨a, h, none⟩ : Checker)).countP (fun k => k.proxy = b ∧ k.host = host) =
      if a = b ∧ host ∈ hosts then 1 else 0 := by
  rw [Multiset.countP_map]
  by_cases hab : a = b
  · have hcount : hosts.val.count host = if host ∈ hosts then 1 else 0 :=
      Multiset.count_eq_of_nodup hosts.nodup
    simp only [hab, true_and]
    rw [← hcount, Multiset.count, Multiset.countP_eq_card_filter]
    simp only [eq_comm]
  · simp [hab]

/-! ### One proxy

No step is about more than one proxy. So `Tended` is said of each proxy by itself, and where a step is
elsewhere it carries over by congruence. -/

/-- What `Tended` says of one proxy. -/
structure TendedAt (s : Processes) (a : Nat) : Prop where
  due : ∀ host, s.Due a host → s.running a host = 1
  idle : ∀ host, ¬ s.Due a host → s.running a host = 0
  waiting : a < s.node.nextProxy → (s.node.proxies a).shutDownCheck = true →
    s.shutDown a = .waiting
  channels : ∀ host, s.channels a host ≠ none ↔
    a < s.node.nextProxy ∧ host ∈ (s.node.proxies a).hostsShutDown
  mapped : a < s.node.nextProxy →
    (s.node.proxies a).hostMap.keys ⊆ (s.node.proxies a).hostsShutDown
  closing : s.shutDown a ≠ .waiting → a < s.node.nextProxy ∧
    ∀ host, s.channels a host ≠ none → host ∈ (s.node.proxies a).hostMap
  target : ∀ visited host c, s.shutDown a = .sending visited host c →
    s.channels a host ≠ none ∧ host ∉ visited
  removed : ∀ host, (a, host) ∈ s.removed →
    a < s.node.nextProxy ∧ host ∉ (s.node.proxies a).hostMap

/-- Every proxy of tended processes is tended. -/
theorem Tended.one (T : Tended s) (a : Nat) : TendedAt s a :=
  ⟨T.due a, T.idle a, T.waiting a, T.channels a, T.mapped a, T.closing a, T.target a, T.removed a⟩

/-- And if every proxy is, the processes are. -/
theorem tended_of_one (linked : Linked s.node) (T : ∀ a, TendedAt s a) : Tended s :=
  ⟨linked, fun a => (T a).due, fun a => (T a).idle, fun a => (T a).waiting, fun a => (T a).channels,
    fun a => (T a).mapped, fun a => (T a).closing, fun a => (T a).target, fun a => (T a).removed⟩

/-- Nothing has happened to the hosts of a proxy and to the number of their checkers. -/
structure SameAt (s s' : Processes) (a : Nat) : Prop where
  made : a < s'.node.nextProxy ↔ a < s.node.nextProxy
  hostMap : (s'.node.proxies a).hostMap = (s.node.proxies a).hostMap
  hostsShutDown : (s'.node.proxies a).hostsShutDown = (s.node.proxies a).hostsShutDown
  shutDownCheck : (s'.node.proxies a).shutDownCheck = (s.node.proxies a).shutDownCheck
  channels : s'.channels a = s.channels a
  shutDown : s'.shutDown a = s.shutDown a
  removed : ∀ host, (a, host) ∈ s'.removed → (a, host) ∈ s.removed
  running : ∀ host, s'.running a host = s.running a host

/-- The same hosts are due then. -/
theorem SameAt.due (same : SameAt s s' a) : s'.Due a host ↔ s.Due a host := by
  unfold Due
  rw [same.made, same.hostMap, same.shutDown]

/-- What is said of a proxy depends on what `SameAt` compares. -/
theorem TendedAt.congr (T : TendedAt s a) (same : SameAt s s' a) : TendedAt s' a where
  due := by
    intro host hdue
    rw [same.running]
    exact T.due host (same.due.mp hdue)
  idle := by
    intro host hdue
    rw [same.running]
    exact T.idle host fun h => hdue (same.due.mpr h)
  waiting := by
    rw [same.made, same.shutDownCheck, same.shutDown]
    exact T.waiting
  channels := by
    intro host
    rw [same.made, same.hostsShutDown, same.channels]
    exact T.channels host
  mapped := by
    rw [same.made, same.hostMap, same.hostsShutDown]
    exact T.mapped
  closing := by
    rw [same.made, same.hostMap, same.shutDown, same.channels]
    exact T.closing
  target := by
    rw [same.shutDown, same.channels]
    exact T.target
  removed := by
    intro host hmem
    rw [same.made, same.hostMap]
    exact T.removed host (same.removed host hmem)

/-! ### Steps that leave the hosts alone

Calls that come to wait, calls that time out and checkers that come to their `select` or make a round change
nothing that `Tended` looks at, but for the order of the checkers. -/

/-- Nothing has happened to the hosts and to the number of their checkers. -/
theorem Tended.congr (T : Tended s) (linked : Linked s'.node) (same : ∀ a, SameAt s s' a) : Tended s' :=
  tended_of_one linked fun a => (T.one a).congr (same a)

/-- A round writes the flag and the balancer of its proxy. -/
theorem Tended.round (T : Tended s) {first second : Bool} {proxy : HTTPProxy}
    (hk : k ∈ s.checkers)
    (h : (s.node.proxies k.proxy).healthCheck k.host first second = .ok proxy) :
    Tended { s with
      node := s.node.modifyProxy k.proxy fun _ => proxy
      checkers := { k with listening := none } ::ₘ s.checkers.erase k } := by
  obtain ⟨hhosts, hchannels, hwait, -⟩ := HTTPProxy.healthCheck_keeps h
  refine T.congr (T.linked.healthCheck h) fun a => ?_
  · have hrunning : ∀ host, running { s with
        node := s.node.modifyProxy k.proxy fun _ => proxy
        checkers := { k with listening := none } ::ₘ s.checkers.erase k } a host = s.running a host :=
      running_of_replace hk rfl a
    by_cases ha : a = k.proxy
    · subst ha
      have hself : (s.node.modifyProxy k.proxy fun _ => proxy).proxies k.proxy = proxy :=
        Node.proxies_modifyProxy_self _ _ _
      exact ⟨.rfl, by rw [hself, hhosts], by rw [hself, hchannels], by rw [hself, hwait], rfl, rfl,
        fun _ h => h, hrunning⟩
    · have hsame : (s.node.modifyProxy k.proxy fun _ => proxy).proxies a = s.node.proxies a :=
        Node.proxies_modifyProxy_of_ne _ ha _
      exact ⟨.rfl, by rw [hsame], by rw [hsame], by rw [hsame], rfl, rfl, fun _ h => h, hrunning⟩

/-! ### `shutDownCheck` goes on

The goroutine only gets further. Where it goes to a host that has not been reached, the checker of this host
is due and waits; when the message is taken, host and checker are done with in one step. -/

/-- The goroutine `shutDownCheck` of one proxy goes on, after it has been woken. -/
theorem Tended.moved (T : Tended s) {st : ShutDownCheck} (hwoken : s.shutDown a ≠ .waiting)
    (node : s'.node = s.node) (channels : s'.channels = s.channels)
    (removed : s'.removed = s.removed) (shutDown : s'.shutDown = Function.update s.shutDown a st)
    (target : ∀ visited host c, st = .sending visited host c →
      s.channels a host ≠ none ∧ host ∉ visited)
    (others : ∀ b host, b ≠ a → s'.running b host = s.running b host)
    (due : ∀ host, s.Due a host → st.reached host = false → s'.running a host = 1)
    (idle : ∀ host, s.Due a host → st.reached host = true → s'.running a host = 0)
    (fewer : ∀ host, s'.running a host ≤ s.running a host)
    (further : ∀ host, (s.shutDown a).reached host = true → st.reached host = true) : Tended s' := by
  have hself : s'.shutDown a = st := by rw [shutDown, Function.update_self]
  have hother : ∀ b, b ≠ a → s'.shutDown b = s.shutDown b := fun b hb => by
    rw [shutDown, Function.update_of_ne hb]
  obtain ⟨hlt, hmapped⟩ := T.closing a hwoken
  -- what is due now was due before, since it only gets further
  have hdue : ∀ host, s'.Due a host ↔ s.Due a host ∧ st.reached host = false := by
    intro host
    unfold Due
    rw [node, hself]
    constructor
    · rintro ⟨-, hmem, hnot⟩
      refine ⟨⟨hlt, hmem, ?_⟩, hnot⟩
      cases hreached : (s.shutDown a).reached host with
      | false => rfl
      | true =>
          rw [further host hreached] at hnot
          cases hnot
    · exact fun ⟨⟨_, hmem, _⟩, hnot⟩ => ⟨hlt, hmem, hnot⟩
  refine tended_of_one (by rw [node]; exact T.linked) fun b => ?_
  by_cases hb : b = a
  · subst hb
    refine ⟨?_, ?_, ?_, ?_, ?_, ?_, ?_, ?_⟩
    · exact fun host h => due host ((hdue host).mp h).1 ((hdue host).mp h).2
    · intro host hnot
      by_cases hold : s.Due b host
      · -- it was due, so it is the one that has just been reached
        refine idle host hold ?_
        cases hreached : st.reached host with
        | true => rfl
        | false => exact absurd ((hdue host).mpr ⟨hold, hreached⟩) hnot
      · have hzero := T.idle b host hold
        have hle := fewer host
        omega
    · rw [node]
      -- a goroutine that was woken has taken the only message, so the flag is gone
      exact fun _ hcheck => absurd (T.waiting b hlt hcheck) hwoken
    · rw [node, channels]
      exact T.channels b
    · rw [node]
      exact T.mapped b
    · rw [node, channels]
      exact fun _ => ⟨hlt, hmapped⟩
    · rw [hself, channels]
      exact target
    · rw [node, removed]
      exact T.removed b
  · exact (T.one b).congr ⟨by rw [node], by rw [node], by rw [node], by rw [node], by rw [channels],
      hother b hb, by rw [removed]; exact fun _ h => h, fun host => others b host hb⟩

/-- It comes to a host and waits to send. -/
theorem Tended.next (T : Tended s) {visited : Finset String} {c : Nat}
    (hranging : s.shutDown a = .ranging visited) (hnew : host ∉ visited)
    (hchannel : s.channels a host = some c) :
    Tended { s with shutDown := Function.update s.shutDown a (.sending visited host c) } := by
  have hreached : (s.shutDown a).reached = (ShutDownCheck.sending visited host c).reached := by
    rw [hranging]
    rfl
  refine T.moved (by rw [hranging]; simp) rfl rfl rfl rfl ?_ (fun _ _ _ => rfl) ?_ ?_
    (fun _ => le_refl _) fun host h => hreached ▸ h
  · intro visited' host' c' heq
    cases heq
    exact ⟨by rw [hchannel]; simp, hnew⟩
  · exact fun host hdue _ => T.due a host hdue
  · intro host hdue hst
    rw [← hreached, hdue.2.2] at hst
    cases hst

/-- A checker takes the message and returns. -/
theorem Tended.sent (T : Tended s) {visited : Finset String} {c : Nat}
    (hsending : s.shutDown a = .sending visited host c) (hk : ⟨a, host, some c⟩ ∈ s.checkers) :
    Tended { s with
      checkers := s.checkers.erase ⟨a, host, some c⟩
      shutDown := Function.update s.shutDown a (.ranging (insert host visited)) } := by
  have hcount := running_of_erase { s with
    checkers := s.checkers.erase ⟨a, host, some c⟩
    shutDown := Function.update s.shutDown a (.ranging (insert host visited)) } hk rfl
  have hreached : ∀ other, (s.shutDown a).reached other = decide (other ∈ visited) := by
    intro other
    rw [hsending]
    rfl
  refine T.moved (by rw [hsending]; simp) rfl rfl rfl rfl (fun _ _ _ h => by cases h) ?_ ?_ ?_ ?_ ?_
  · intro b other hb
    rw [hcount b other, if_neg fun h => hb h.1.symm]
    rfl
  · intro other hdue hst
    have hne : host ≠ other := by
      rintro rfl
      simp [ShutDownCheck.reached] at hst
    have hone := T.due a other hdue
    rw [hcount a other, if_neg fun h => hne h.2] at hone
    exact hone
  · intro other hdue hst
    -- the only host that has just been reached is the one of the message
    have heq : host = other := by
      have hnot : other ∉ visited := by
        have h := hdue.2.2
        rw [hreached] at h
        simpa using h
      have hmem : other ∈ insert host visited := by simpa [ShutDownCheck.reached] using hst
      exact ((Finset.mem_insert.mp hmem).resolve_right hnot).symm
    have hone := T.due a other hdue
    rw [hcount a other, if_pos ⟨rfl, heq⟩] at hone
    omega
  · intro other
    rw [hcount a other]
    omega
  · intro other hold
    rw [hreached] at hold
    simp only [ShutDownCheck.reached, decide_eq_true_eq] at hold ⊢
    exact Finset.mem_insert_of_mem hold

theorem Tended.done (T : Tended s) {visited : Finset String}
    (hranging : s.shutDown a = .ranging visited)
    (hall : ∀ host, s.channels a host ≠ none → host ∈ visited) :
    Tended { s with shutDown := Function.update s.shutDown a .ended } := by
  refine T.moved (by rw [hranging]; simp) rfl rfl rfl rfl (fun _ _ _ h => by cases h)
    (fun _ _ _ => rfl) (fun _ _ h => by cases h) ?_ (fun _ => le_refl _) (fun _ _ => rfl)
  intro host hdue _
  -- a host that is due has a channel, so it has been reached
  exfalso
  have hmem := T.mapped a hdue.1 (Finmap.mem_keys.mpr hdue.2.1)
  have hvisited := hall host ((T.channels a host).mpr ⟨hdue.1, hmem⟩)
  have hnot := hdue.2.2
  rw [hranging] at hnot
  simp only [ShutDownCheck.reached, decide_eq_false_iff_not] at hnot
  exact hnot hvisited

/-! ### Hosts and proxies come and go

A host that comes brings one checker and one that goes takes its own with it, unless a message was sent to a
channel that no checker reads any more; then `RemoveHost` times out and nothing happens. -/

/-- `RemoveHost` takes the checker with it. -/
theorem Tended.taken (T : Tended s) {r : Removal} (hk : k ∈ s.checkers) (hproxy : k.proxy = r.proxy)
    (hhost : k.host = r.host) (hwait : s.shutDown r.proxy = .waiting) :
    Tended { s with
      node := s.node.modifyProxy r.proxy fun h => { h with hostMap := h.hostMap.erase r.host }
      checkers := s.checkers.erase k
      removals := s.removals.erase r
      removed := insert (r.proxy, r.host) s.removed } := by
  have hcount := running_of_erase { s with
    node := s.node.modifyProxy r.proxy fun h => { h with hostMap := h.hostMap.erase r.host }
    checkers := s.checkers.erase k
    removals := s.removals.erase r
    removed := insert (r.proxy, r.host) s.removed } hk rfl
  rw [hproxy, hhost] at hcount
  -- a checker is running, so the host was due
  have hdue : s.Due r.proxy r.host := by
    by_contra hnot
    have hzero := T.idle r.proxy r.host hnot
    rw [hcount, if_pos ⟨rfl, rfl⟩] at hzero
    omega
  have hone := T.due r.proxy r.host hdue
  rw [hcount, if_pos ⟨rfl, rfl⟩] at hone
  refine tended_of_one ?_ fun a => ?_
  · refine T.linked.modify (f := fun h => { h with hostMap := h.hostMap.erase r.host }) fun p m S =>
      ⟨S.pattern, S.proxyMap, S.waiting, ?_⟩
    intro host hmem
    exact S.channels (Finmap.mem_keys.mpr (Finmap.mem_erase.mp (Finmap.mem_keys.mp hmem)).2)
  by_cases ha : a = r.proxy
  · subst ha
    have hself : (s.node.modifyProxy r.proxy fun h =>
        { h with hostMap := h.hostMap.erase r.host }).proxies r.proxy =
        { s.node.proxies r.proxy with hostMap := (s.node.proxies r.proxy).hostMap.erase r.host } :=
      Node.proxies_modifyProxy_self _ _ _
    refine ⟨?_, ?_, fun _ _ => hwait, ?_, ?_, fun hwoken => absurd hwait hwoken, T.target r.proxy, ?_⟩
    · rintro host ⟨hlt, hmem, hreached⟩
      simp only [hself, Finmap.mem_erase] at hmem
      have hold := T.due r.proxy host ⟨hlt, hmem.2, hreached⟩
      rw [hcount, if_neg fun h => hmem.1 h.2.symm] at hold
      exact hold
    · intro host hnot
      by_cases heq : host = r.host
      · -- its one checker has ended
        subst heq
        omega
      · have hold := T.idle r.proxy host fun ⟨hlt, hmem, hreached⟩ => hnot ⟨hlt, by
          simp only [hself, Finmap.mem_erase]
          exact ⟨heq, hmem⟩, hreached⟩
        rw [hcount, if_neg fun h => heq h.2.symm] at hold
        exact hold
    · simp only [hself]
      exact T.channels r.proxy
    · simp only [hself]
      intro hlt host hmem
      exact T.mapped r.proxy hlt
        (Finmap.mem_keys.mpr (Finmap.mem_erase.mp (Finmap.mem_keys.mp hmem)).2)
    · intro host hmem
      simp only [hself, Finmap.mem_erase]
      rcases Finset.mem_insert.mp hmem with heq | hold
      · cases heq
        exact ⟨hdue.1, fun h => h.1 rfl⟩
      · obtain ⟨hlt, hnot⟩ := T.removed r.proxy host hold
        exact ⟨hlt, fun h => hnot h.2⟩
  · have hsame : (s.node.modifyProxy r.proxy fun h =>
        { h with hostMap := h.hostMap.erase r.host }).proxies a = s.node.proxies a :=
      Node.proxies_modifyProxy_of_ne _ ha _
    refine (T.one a).congr ⟨.rfl, by rw [hsame], by rw [hsame], by rw [hsame], rfl, rfl, ?_, ?_⟩
    · intro host hmem
      refine (Finset.mem_insert.mp hmem).resolve_left fun heq => ?_
      cases heq
      exact ha rfl
    · intro host
      rw [hcount a host, if_neg fun h => ha h.1.symm]
      rfl

/-! ### A proxy is removed, or made

The goroutine `shutDownCheck` is woken by the one and started by the other. From then on the hosts of the
proxy that is removed are due a checker only until they have been reached. -/

/-- `RemoveProxy` wakes `shutDownCheck`. -/
theorem Tended.removeProxy (T : Tended s) {pattern : String} {n : Node}
    (hp : s.node.current.relations.lookup pattern = some a)
    (h : s.node.removeProxy pattern = (.ok none, n))
    (hall : ∀ host, s.channels a host ≠ none → host ∈ (s.node.proxies a).hostMap) :
    Tended { s with node := n, shutDown := Function.update s.shutDown a (.ranging ∅) } := by
  have hlt := T.linked.allocated hp
  have hwait := T.waiting a hlt (T.linked.serves hp).waiting
  obtain ⟨b, hosts, hb, -, hr, hn⟩ := Node.removeProxy_eq_ok h
  obtain rfl : a = b := Option.some.inj (hp.symm.trans hb)
  obtain ⟨n', heq, hlinked, -⟩ := removeProxy_spec T.linked hp hr
  rw [h] at heq
  cases heq
  have hnext : n.nextProxy = s.node.nextProxy := by rw [hn]; rfl
  have hself : n.proxies a = { s.node.proxies a with shutDownCheck := false } := by
    rw [hn]
    show (s.node.modifyProxy a fun h => { h with shutDownCheck := false }).proxies a = _
    exact Node.proxies_modifyProxy_self _ _ _
  have hsame : ∀ b, b ≠ a → n.proxies b = s.node.proxies b := by
    intro b hb
    rw [hn]
    show (s.node.modifyProxy a fun h => { h with shutDownCheck := false }).proxies b = _
    exact Node.proxies_modifyProxy_of_ne _ hb _
  refine tended_of_one hlinked fun b => ?_
  by_cases hb : b = a
  · subst hb
    have hranging : Function.update s.shutDown b (.ranging ∅) b = .ranging ∅ :=
      Function.update_self _ _ _
    have hdue : ∀ host, Due { s with
        node := n, shutDown := Function.update s.shutDown b (.ranging ∅) } b host ↔ s.Due b host := by
      intro host
      unfold Due
      simp only [hnext, hself, hranging, hwait, ShutDownCheck.reached, Finset.notMem_empty, decide_false]
    refine ⟨?_, ?_, ?_, ?_, ?_, ?_, ?_, ?_⟩
    -- nothing has been reached yet, so the same hosts are due
    · exact fun host h => T.due b host ((hdue host).mp h)
    · exact fun host h => T.idle b host fun hold => h ((hdue host).mpr hold)
    · simp only [hself]
      exact fun _ h => by cases h
    · simp only [hnext, hself]
      exact T.channels b
    · simp only [hnext, hself]
      exact T.mapped b
    · simp only [hnext, hself]
      exact fun _ => ⟨hlt, hall⟩
    · intro visited host c
        (hsending : Function.update s.shutDown b (.ranging ∅) b = .sending visited host c)
      rw [hranging] at hsending
      cases hsending
    · simp only [hnext, hself]
      exact T.removed b
  · exact (T.one b).congr ⟨by rw [hnext], by rw [hsame b hb], by rw [hsame b hb], by rw [hsame b hb],
      rfl, Function.update_of_ne hb _ _, fun _ h => h, fun _ => rfl⟩

/-- A proxy that is made gets a checker for each of its hosts. -/
theorem Tended.serving (T : Tended s) {l : Location} {n : Node}
    (h : s.node.addProxyWithLocation env l = (.ok none, n)) : Tended (s.serving n) := by
  obtain ⟨proxy, hosts, hproxy, -, hn⟩ := Node.addProxyWithLocation_eq_ok h
  obtain ⟨hlinked, -⟩ := addProxyWithLocation_spec T.linked (l := l) ⟨proxy, hproxy⟩
  rw [h] at hlinked
  obtain ⟨-, -, -, -, hcheck, hsub⟩ := newHTTPProxy_ok hproxy
  have hnext : n.nextProxy = s.node.nextProxy + 1 := by rw [hn]; rfl
  have hrunning : ∀ b host, (s.serving n).running b host = s.running b host +
      if s.node.nextProxy = b ∧ host ∈ (n.proxies s.node.nextProxy).hostMap.keys then 1 else 0 := by
    intro b host
    show (s.checkers + _).countP _ = _
    rw [Multiset.countP_add, countP_new]
    rfl
  refine tended_of_one hlinked fun b => ?_
  by_cases hb : b = s.node.nextProxy
  · subst hb
    have hself : n.proxies s.node.nextProxy = { proxy with proxyMap := some s.node.proxyMap } := by
      rw [hn]
      show (s.node.related l proxy).proxies s.node.nextProxy = _
      rw [Node.proxies_related, Function.update_self]
    have hwait : (s.serving n).shutDown s.node.nextProxy = .waiting := Function.update_self _ _ _
    have hchannels : (s.serving n).channels s.node.nextProxy = fun host =>
        if host ∈ (n.proxies s.node.nextProxy).hostsShutDown then some s.nextChannel else none :=
      Function.update_self _ _ _
    have hlt : s.node.nextProxy < (s.serving n).node.nextProxy := by
      show s.node.nextProxy < n.nextProxy
      omega
    -- the address is new, so nothing ran for it and nothing was removed from it
    have hfresh : ∀ host, s.running s.node.nextProxy host = 0 := fun host =>
      T.idle _ host fun hdue => Nat.lt_irrefl _ hdue.1
    have hdue : ∀ host, (s.serving n).Due s.node.nextProxy host ↔
        host ∈ (n.proxies s.node.nextProxy).hostMap.keys := by
      intro host
      unfold Due
      rw [hwait, Finmap.mem_keys]
      exact ⟨fun h => h.2.1, fun h => ⟨hlt, h, rfl⟩⟩
    refine ⟨?_, ?_, fun _ _ => hwait, ?_, ?_, fun hwoken => absurd hwait hwoken, ?_, ?_⟩
    · intro host h
      rw [hrunning, hfresh, if_pos ⟨rfl, (hdue host).mp h⟩]
    · intro host h
      rw [hrunning, hfresh, if_neg fun hmem => h ((hdue host).mpr hmem.2)]
    · intro host
      rw [hchannels]
      simp only [ne_eq, ite_eq_right_iff, reduceCtorEq, imp_false, not_not]
      exact ⟨fun h => ⟨hlt, h⟩, fun h => h.2⟩
    · intro _
      show (n.proxies s.node.nextProxy).hostMap.keys ⊆ (n.proxies s.node.nextProxy).hostsShutDown
      rw [hself]
      exact hsub
    · intro visited host c hsending
      rw [hwait] at hsending
      cases hsending
    · exact fun host hmem => absurd (T.removed _ host hmem).1 (Nat.lt_irrefl _)
  · have hsame : (s.serving n).node.proxies b = s.node.proxies b := by
      show n.proxies b = _
      rw [hn]
      show (s.node.related l proxy).proxies b = _
      rw [Node.proxies_related, Function.update_of_ne hb]
    refine (T.one b).congr ⟨?_, by rw [hsame], by rw [hsame], by rw [hsame],
      Function.update_of_ne hb _ _, Function.update_of_ne hb _ _, fun _ h => h, fun host => ?_⟩
    · show b < n.nextProxy ↔ b < s.node.nextProxy
      omega
    · rw [hrunning, if_neg fun h => hb h.1.symm, Nat.add_zero]

/-! ### A host that comes

`AddProxy` gives a host that is new one channel and one checker. As the host was not there before, nothing
listens for it yet, so the new checker is its only one; for the other hosts of the proxy, and for all other
proxies, nothing changes. -/

/-- The host has come to the proxy at `a`. -/
def joined (s : Processes) (a : Nat) (host : String) (url : URL) : Processes :=
  s.checking (s.node.modifyProxy a fun h => h.addHost host url) a host

section Joined

variable {url : URL}

/-- One checker more. -/
theorem running_joined (s : Processes) (a : Nat) (host : String) (url : URL) (b : Nat) (other : String) :
    (s.joined a host url).running b other =
      s.running b other + if a = b ∧ host = other then 1 else 0 := by
  show (_ ::ₘ s.checkers).countP _ = _
  rw [Multiset.countP_cons]
  rfl

theorem proxies_joined_self (s : Processes) (a : Nat) (host : String) (url : URL) :
    (s.joined a host url).node.proxies a = (s.node.proxies a).addHost host url :=
  s.node.proxies_modifyProxy_self a fun h => h.addHost host url

theorem mem_hostMap_joined {other : String} :
    other ∈ ((s.joined a host url).node.proxies a).hostMap ↔
      other = host ∨ other ∈ (s.node.proxies a).hostMap := by
  rw [proxies_joined_self]
  exact Finmap.mem_insert

/-- While the proxy is not being shut down, the new host and the old ones are due a checker. -/
theorem due_joined {other : String} (hlt : a < s.node.nextProxy) (hwait : s.shutDown a = .waiting) :
    (s.joined a host url).Due a other ↔ other = host ∨ s.Due a other := by
  unfold Due
  rw [mem_hostMap_joined, show (s.joined a host url).shutDown = s.shutDown from rfl, hwait]
  constructor
  · rintro ⟨-, rfl | hmem, -⟩
    · exact .inl rfl
    · exact .inr ⟨hlt, hmem, rfl⟩
  · rintro (rfl | ⟨-, hmem, -⟩)
    · exact ⟨hlt, .inl rfl, rfl⟩
    · exact ⟨hlt, .inr hmem, rfl⟩

/-- The proxy the host has come to. -/
theorem TendedAt.joined (T : TendedAt s a) (hlt : a < s.node.nextProxy) (hwait : s.shutDown a = .waiting)
    (hnew : host ∉ (s.node.proxies a).hostMap) : TendedAt (s.joined a host url) a where
  due := by
    intro other h
    rw [running_joined]
    rcases (due_joined hlt hwait).mp h with rfl | hold
    · -- the host is new, so its checker is the only one
      rw [if_pos ⟨rfl, rfl⟩, T.idle _ fun h => hnew h.2.1]
    · rw [T.due other hold, if_neg]
      rintro ⟨-, rfl⟩
      exact hnew hold.2.1
  idle := by
    intro other hnot
    rw [running_joined, if_neg fun h => hnot ((due_joined hlt hwait).mpr (.inl h.2.symm))]
    exact T.idle other fun h => hnot ((due_joined hlt hwait).mpr (.inr h))
  waiting := fun _ _ => hwait
  -- the host has the newest channel, the others keep theirs
  channels := by
    intro other
    have hchannels : (s.joined a host url).channels a =
        Function.update (s.channels a) host (some s.nextChannel) := Function.update_self _ _ _
    rw [proxies_joined_self, hchannels]
    show _ ↔ a < s.node.nextProxy ∧ other ∈ insert host (s.node.proxies a).hostsShutDown
    rw [Finset.mem_insert]
    by_cases heq : other = host
    · subst heq
      simp [hlt]
    · rw [Function.update_of_ne heq, T.channels]
      simp [heq]
  mapped := by
    intro _ other hmem
    rw [proxies_joined_self]
    rcases mem_hostMap_joined.mp (Finmap.mem_keys.mp hmem) with rfl | hold
    · exact Finset.mem_insert_self _ _
    · exact Finset.mem_insert_of_mem (T.mapped hlt (Finmap.mem_keys.mpr hold))
  closing := fun hwoken => absurd hwait hwoken
  target := by
    intro visited other c hsending
    rw [show (s.joined a host url).shutDown a = .waiting from hwait] at hsending
    cases hsending
  -- the host is no longer among those removed
  removed := by
    intro other hmem
    obtain ⟨hne, hold⟩ := Finset.mem_erase.mp hmem
    refine ⟨hlt, fun h => ?_⟩
    rcases mem_hostMap_joined.mp h with rfl | h
    · exact hne rfl
    · exact (T.removed other hold).2 h

/-- The other proxies do not notice. -/
theorem sameAt_joined {b : Nat} (hb : b ≠ a) : SameAt s (s.joined a host url) b := by
  have hsame : (s.joined a host url).node.proxies b = s.node.proxies b :=
    s.node.proxies_modifyProxy_of_ne hb fun h => h.addHost host url
  refine ⟨.rfl, by rw [hsame], by rw [hsame], by rw [hsame], Function.update_of_ne hb _ _, rfl,
    fun _ h => (Finset.mem_erase.mp h).2, fun other => ?_⟩
  rw [running_joined, if_neg fun h => hb h.1.symm, Nat.add_zero]

/-- A host that is new gets a checker. -/
theorem Tended.checking (T : Tended s) (hp : ∃ pattern, s.node.current.relations.lookup pattern = some a)
    (hnew : host ∉ (s.node.proxies a).hostMap) :
    Tended (s.checking (s.node.modifyProxy a fun h => h.addHost host url) a host) := by
  obtain ⟨pattern, hp⟩ := hp
  have hlt := T.linked.allocated hp
  have hwait := T.waiting a hlt (T.linked.serves hp).waiting
  refine tended_of_one ?_ fun b => ?_
  · refine T.linked.modify (f := fun h => h.addHost host url) fun p m S =>
      ⟨S.pattern, S.proxyMap, S.waiting, ?_⟩
    intro other hmem
    rcases Finmap.mem_insert.mp (Finmap.mem_keys.mp hmem) with rfl | hold
    · exact Finset.mem_insert_self _ _
    · exact Finset.mem_insert_of_mem (S.channels (Finmap.mem_keys.mpr hold))
  · by_cases hb : b = a
    · subst hb
      exact (T.one b).joined hlt hwait hnew
    · exact (T.one b).congr (sameAt_joined hb)

end Joined

/-- What a checker that takes the message of `RemoveHost` brings about is what `Node.removeHost` does
with an answer. -/
theorem Tended.removeHost_eq (T : Tended s) {pattern : String}
    (hp : s.node.current.relations.lookup pattern = some a) (hchannel : s.channels a host ≠ none) :
    s.node.removeHost pattern host true = (.ok none,
      s.node.modifyProxy a fun h => { h with hostMap := h.hostMap.erase host }) := by
  unfold Node.removeHost
  rw [hp]
  exact if_pos ⟨rfl, ((T.channels a host).mp hchannel).2⟩

/-! ### Runs

Every case of a step is one of the lemmas above, so tended processes stay tended, and tended processes are
supervised. -/

/-- Orderly steps keep the checkers tended. -/
theorem Tended.step (T : Tended s) {e : Event} (h : Step env s e s') (ho : e.Orderly env s) :
    Tended s' := by
  -- a call that fails leaves the node as it was
  have hsame : ∀ n, n = s.node → Tended { s with node := n } := by
    rintro n rfl
    exact T
  cases h with
  | addProxyWithLocation h => exact T.serving h
  | addProxyWithLocation_error h => exact hsame _ (Node.addProxyWithLocation_failed h)
  | @addProxy pattern target a url n hp hurl h =>
      have hnew := ho a url hp hurl
      unfold Node.addProxy at h
      rw [hp] at h
      simp only [hurl] at h
      cases h
      exact T.checking ⟨pattern, hp⟩ hnew
  | addProxy_error h => exact hsame _ (Node.addProxy_failed h)
  | removeHost hp =>
      exact T.congr T.linked fun _ => ⟨.rfl, rfl, rfl, rfl, rfl, rfl, fun _ h => h, fun _ => rfl⟩
  | taken call checker proxy host channel meet => exact T.taken checker proxy host ho
  | timedOut call =>
      exact T.congr T.linked fun _ => ⟨.rfl, rfl, rfl, rfl, rfl, rfl, fun _ h => h, fun _ => rfl⟩
  | removeProxy hp receiver h => exact T.removeProxy hp h (ho _ hp)
  | removeProxy_error h => exact hsame _ (Node.removeProxy_failed h)
  | listen checker busy =>
      -- the checker takes up another channel, of the same host
      refine T.congr T.linked fun a => ⟨.rfl, rfl, rfl, rfl, rfl, rfl, fun _ h => h, fun host => ?_⟩
      exact running_of_replace checker rfl a host
  | round checker free h => exact T.round checker h
  | next ranging new channel => exact T.next ranging new channel
  | sent sending checker meet =>
      subst meet
      exact T.sent sending checker
  | done ranging all => exact T.done ranging all

/-- In every orderly run: each host that is served has exactly one checker, a host that was removed
has none, and `shutDownCheck` never waits for a checker that is not there. -/
theorem run_supervised {es : List Event}
    (hrun : Trace (fun s e s' => Step env s e s' ∧ e.Orderly env s) start es s) : Supervised s :=
  (hrun.invariant tended_start fun T hstep => T.step hstep.1 hstep.2).supervised

/-- A host is removed and added again, and then the proxy is removed. -/
theorem run_supervised_readded : ∃ s es, es.length = 10 ∧
    Trace (Step Env.plain) start es s ∧ Supervised s ∧ s.shutDown 0 = .sending ∅ "a:80" 1 := by
  have hrun : Trace (fun s e s' => Step Env.plain s e s' ∧ e.Orderly Env.plain s) start [] _ := .nil
  have hrun := hrun.snoc
    (e := Event.addProxyWithLocation ⟨"/api", ["http://a:80"], "round-robin"⟩)
    ⟨.addProxyWithLocation rfl, trivial⟩
  have hrun := hrun.snoc (e := Event.listen ⟨0, "a:80", none⟩) ⟨.listen (by decide) rfl, trivial⟩
  have hrun := hrun.snoc (e := Event.removeHost "/api" "a:80") ⟨.removeHost (a := 0) rfl, trivial⟩
  have hrun := hrun.snoc (e := Event.taken ⟨0, "a:80", some 0⟩ ⟨0, "a:80", some 0⟩)
    ⟨.taken (by decide) (by decide) rfl rfl (by decide) rfl, rfl⟩
  have hrun := hrun.snoc (e := Event.addProxy "/api" "http://a:80")
    ⟨.addProxy (a := 0) rfl rfl rfl, by
      intro a url hp hurl
      cases hp
      cases hurl
      decide⟩
  have hrun := hrun.snoc (e := Event.listen ⟨0, "a:80", none⟩) ⟨.listen (by decide) rfl, trivial⟩
  have hrun := hrun.snoc (e := Event.round ⟨0, "a:80", some 1⟩ false false)
    ⟨.round (by decide) (by decide) rfl, trivial⟩
  have hrun := hrun.snoc (e := Event.listen ⟨0, "a:80", none⟩) ⟨.listen (by decide) rfl, trivial⟩
  -- the last steps need what holds of the run so far
  have T := hrun.invariant tended_start fun T hstep => T.step hstep.1 hstep.2
  have hrun := hrun.snoc (e := Event.removeProxy "/api") ⟨.removeProxy (a := 0) rfl rfl rfl, by
    intro a hp host hchannel
    cases hp
    have hmem := ((T.channels 0 host).mp hchannel).2
    clear hchannel T
    revert host
    decide⟩
  have hrun := hrun.snoc (e := Event.next 0 "a:80")
    ⟨.next (c := 1) rfl (Finset.notMem_empty "a:80") rfl, trivial⟩
  exact ⟨_, _, rfl, hrun.mono fun h => h.1, run_supervised hrun, rfl⟩

/-- A host that is there is added again: it has two checkers. -/
theorem not_run_supervised : ¬ ∀ (env : Env) (s : Processes) (es : List Event),
    Trace (Step env) start es s → Supervised s := by
  intro h
  have hrun : Trace (Step Env.plain) start [] _ := .nil
  have hrun := hrun.snoc
    (e := Event.addProxyWithLocation ⟨"/api", ["http://a:80"], "round-robin"⟩)
    (.addProxyWithLocation rfl)
  have hrun := hrun.snoc (e := Event.addProxy "/api" "http://a:80") (.addProxy (a := 0) rfl rfl rfl)
  have hone := (h _ _ _ hrun).served "/api" 0 "a:80" rfl (by decide)
  revert hone
  decide

end Processes

end Cheryl.ReverseProxy
