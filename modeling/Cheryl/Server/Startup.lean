import Cheryl.Server.Bootstrap
import Cheryl.Server.Routing

/-!
# `Start` in `cheryl/raft.go`: the order of initialisation

`Start` serves the admin requests, creates the raft node, sets `State.RaftNode`, starts the leader loop
and asks for the router, in this order. Admin requests come in from the first of these on, a snapshot is
restored while the raft node is created, and raft applies entries once it is, so all of them may come
before the rest. Here a process is followed from the start; what runs `AddRelations` and what reads
`State.RaftNode` is said for each thing that can happen.
-/

namespace Cheryl.Server.Startup

open Library ReverseProxy Bootstrap Routing

/-! ## The handlers that ask raft

Three handlers read `State.RaftNode` for themselves, without asking whether it is set. What the raft node
answers comes from outside. -/

structure CherylConfig extends StartConfig where
  name : String
  raftTCPAddress : String
  port : Nat
  routerType : String

/-- What the raft node answers: `GetConfiguration`, `Leader`, and `AddVoter` for a name and an
address. -/
structure Raft where
  servers : List (String × String)
  leader : String
  addVoter : String → String → Option GoError

/-- The `Response` of `doGetRaftClusterInfo` -/
structure Peer where
  serverId : String
  serverAddress : String
  isLeader : Bool

/-- The `Response` of `doGetInfo` -/
structure Info where
  name : String
  raftAddress : String
  isLeader : Bool
  proxyPort : Nat

/-- `doJoin`, with the text it writes. -/
def doJoin (raftNode : Option Raft) (name peerAddress : String) : Except Fault String :=
  if peerAddress = "" then .ok "doJoin: invaild peerAddress"
  else
    match raftNode with
    | none => .error .nilDereference
    | some raft =>
        match raft.addVoter name peerAddress with
        | some err =>
            .ok ("Error joining peer to raft, peeraddress:" ++ peerAddress ++ ", err:" ++ err.text ++
              ", code:500")
        | none => .ok "ok"

def doGetRaftClusterInfo (raftNode : Option Raft) : Except Fault (List Peer) :=
  match raftNode with
  | none => .error .nilDereference
  | some raft =>
      .ok (raft.servers.map fun server => ⟨server.1, server.2, decide (server.2 = raft.leader)⟩)

def doGetInfo (conf : CherylConfig) (raftNode : Option Raft) : Except Fault Info :=
  match raftNode with
  | none => .error .nilDereference
  | some raft =>
      .ok ⟨conf.name, conf.raftTCPAddress, decide (conf.raftTCPAddress = raft.leader), conf.port⟩

inductive Request
  | join (name peerAddress : String)
  | peers
  | info
  | admin (o : Outside) (req : AdminRequest)
  /-- a handler that only looks at the proxies, the access control list or the files -/
  | read

/-! ## The process

The main goroutine runs through `Start` once, and the admin server, raft and the leader loop are goroutines
that it has started on its way. So each of them may be at work from a certain phase on (`Event.Enabled`), in
any order with the rest of `Start`. -/

/-- How far the main goroutine has come in `Start`. -/
inductive Phase
  /-- the proxy map and the admin server are made -/
  | initialised
  /-- `http.Serve` runs -/
  | served
  /-- `createRaftNode` has returned -/
  | created
  /-- `State.RaftNode` is set -/
  | set
  /-- the cluster is joined, or there is none to join -/
  | joined
  /-- the leader loop runs -/
  | looping
  /-- `startRouter` has its router -/
  | routing
  deriving DecidableEq

/-- The place of a phase in `Start`. -/
def Phase.index : Phase → Nat
  | initialised => 0
  | served => 1
  | created => 2
  | set => 3
  | joined => 4
  | looping => 5
  | routing => 6

/-- A process: the main goroutine, whether `State.RaftNode` is set, and the node with its loop.
`restored` says that a snapshot was restored. -/
structure Process (δ : Type) where
  phase : Phase
  raftNode : Bool
  restored : Bool
  loop : Loop δ

variable {δ : Type}

namespace Process

def node (p : Process δ) : Node := p.loop.server.state

def start (n : Node) : Process δ := ⟨.initialised, false, false, .start n⟩

/-- The main goroutine goes on to the next phase. -/
def enter (p : Process δ) (phase : Phase) : Process δ := { p with phase := phase }

/-- Something has been at work on the node. -/
def worked (p : Process δ) (server : HttpServer δ) : Process δ :=
  { p with loop := p.loop.worked server }

/-- Nobody has asked for the router: neither `startRouter` nor `Restore`. -/
def Unrouted (p : Process δ) : Prop := p.phase ≠ .routing ∧ p.restored = false

end Process

inductive Event (δ : Type)
  /-- the next step of `Start` -/
  | main
  /-- a step of the leader loop -/
  | loop (e : Bootstrap.Event δ)
  /-- `FSM.Apply` -/
  | apply (entry : LogEntry δ) (received : Bool)
  /-- `FSM.Restore` -/
  | restore (s : Snapshot) (o : Orders)
  /-- a request to the admin server -/
  | request (req : Request)

/-- The event can come next. The router type of a snapshot is that of `NewProxyMap`. An entry of the loop
that raft applies late is an `apply` like any other. -/
def Event.Enabled (p : Process δ) : Event δ → Prop
  | main => p.phase ≠ .routing
  | loop (.notify _) => Phase.looping.index ≤ p.phase.index ∧ p.loop.pending = none
  | loop .create => Phase.looping.index ≤ p.phase.index ∧ ∃ l ls, p.loop.pending = some (l :: ls)
  | loop (.write _) => Phase.looping.index ≤ p.phase.index ∧ ∃ l, p.loop.writing = some l
  | loop .finish => Phase.looping.index ≤ p.phase.index ∧ p.loop.pending = some []
  | loop _ => False
  | apply _ _ => Phase.created.index ≤ p.phase.index
  | restore s _ => Phase.served.index ≤ p.phase.index ∧ s.routerType = newProxyMap.routerType
  | request _ => Phase.served.index ≤ p.phase.index

/-- One step, of a process that stays up. A handler that panics is recovered, and what it changed
stays. Until `State.RaftNode` is set no entry gets to raft; a handler that comes to `writeLogEntry` then
leaves what it also leaves when raft fails. A router that is `nil` is not accepted by `Handle`. -/
inductive Step (env : Env) (enc : Encoding δ) (conf : CherylConfig) :
    Process δ → Event δ → Process δ → Prop
  | serve {p : Process δ} (here : p.phase = .initialised) : Step env enc conf p .main (p.enter .served)
  | createRaftNode {p : Process δ} (here : p.phase = .served) :
      Step env enc conf p .main (p.enter .created)
  | setRaftNode {p : Process δ} (here : p.phase = .created) :
      Step env enc conf p .main { p.enter .set with raftNode := true }
  | join {p : Process δ} (here : p.phase = .set) : Step env enc conf p .main (p.enter .joined)
  | listen {p : Process δ} (here : p.phase = .joined) : Step env enc conf p .main (p.enter .looping)
  | startRouter {p : Process δ} (here : p.phase = .looping)
      (made : (p.node.getRouterInstance conf.routerType).router ≠ none) :
      Step env enc conf p .main ((p.enter .routing).worked
        (p.loop.server.withState (p.node.getRouterInstance conf.routerType)))
  | loop {p : Process δ} {e : Bootstrap.Event δ} {loop : Loop δ}
      (enabled : (Event.loop e).Enabled p)
      (h : Bootstrap.Step env enc conf.toStartConfig p.loop e loop) :
      Step env enc conf p (.loop e) { p with loop := loop }
  | apply {p : Process δ} {entry : LogEntry δ} {received : Bool} {ret : Option GoError} {n : Node}
      (enabled : (Event.apply entry received).Enabled p)
      (h : FSM.apply env enc p.node entry received = (.ok ret, n)) :
      Step env enc conf p (.apply entry received) (p.worked (p.loop.server.withState n))
  | restore {p : Process δ} {s : Snapshot} {o : Orders} {ret : Option GoError} {n : Node}
      (enabled : (Event.restore s o).Enabled p) (visits : o.Of s)
      (h : FSM.restore env s o p.node = (.ok ret, n)) :
      Step env enc conf p (.restore s o)
        { p.worked (p.loop.server.withState n) with restored := true }
  | admin {p : Process δ} {o : Outside} {req : AdminRequest} {ending : Ending Reply}
      {server : HttpServer δ} (enabled : (Event.request (.admin o req)).Enabled p)
      (raft : p.raftNode = false → ∃ err, o.raft = .failed err)
      (h : p.loop.server.handle env enc o req = (ending, server)) (up : ∀ fault, ending ≠ .down fault) :
      Step env enc conf p (.request (.admin o req)) (p.worked server)
  | request {p : Process δ} {req : Request} (enabled : (Event.request req).Enabled p)
      (reads : ∀ o r, req ≠ .admin o r) : Step env enc conf p (.request req) p

/-! ## Counting `AddRelations`

`AddRelations` is the one place that needs the router, and it leaves a trace: it takes an address for its
proxy. So whether a call has run it can be read off the node, and the other calls are those that take no
address. Where none is taken no pattern becomes served either. -/

/-- A call in which `AddRelations` has run `k` times. It takes an address each time, and nothing else
does; without it no pattern comes into `Relations`. -/
structure Ran (k : Nat) (n n' : Node) : Prop where
  router : n'.router = none ↔ n.router = none
  nextProxy : n'.nextProxy = n.nextProxy + k
  relations : k = 0 → ∀ p, n.current.relations.lookup p = none → n'.current.relations.lookup p = none

section Ran

variable {env : Env} {enc : Encoding δ} {j k : Nat} {n n' n'' : Node} {h : HttpServer δ}

theorem Ran.refl (n : Node) : Ran 0 n n := ⟨.rfl, rfl, fun _ _ hp => hp⟩

theorem Ran.trans (r : Ran j n n') (r' : Ran k n' n'') : Ran (j + k) n n'' where
  router := r'.router.trans r.router
  nextProxy := calc
    n''.nextProxy = n'.nextProxy + k := r'.nextProxy
    _ = n.nextProxy + j + k := by rw [r.nextProxy]
    _ = n.nextProxy + (j + k) := Nat.add_assoc ..
  relations := by
    intro hnone p hp
    exact r'.relations (by omega) p (r.relations (by omega) p hp)

theorem Ran.of_sameTables (h : SameTables n n') : Ran 0 n n' :=
  ⟨by rw [h.router], h.nextProxy, fun _ p hp => by rw [h.relations]; exact hp⟩

/-- A proxy that can be made is hung in, also where this then panics. -/
theorem ran_addProxyWithLocation (env : Env) (n : Node) {l : Location} (hcon : l.Constructible env) :
    Ran 1 n (n.addProxyWithLocation env l).2 := by
  obtain ⟨proxy, hproxy⟩ := hcon
  simp only [Node.addProxyWithLocation, hproxy, Node.addRelations_eq]
  cases hr : n.router with
  | none => exact ⟨.rfl, rfl, fun hk => by cases hk⟩
  | some hosts => exact ⟨by simp [hr], rfl, fun hk => by cases hk⟩

/-- One that cannot be made is not. -/
theorem ran_addProxyWithLocation_failed (n : Node) {l : Location} (hcon : ¬ l.Constructible env) :
    Ran 0 n (n.addProxyWithLocation env l).2 := by
  obtain ⟨err, hadd⟩ := addProxyWithLocation_of_not n hcon
  rw [hadd]
  exact .refl n

theorem ran_addProxy (env : Env) (n : Node) (pattern host : String) :
    Ran 0 n (n.addProxy env pattern host).2 := by
  unfold Node.addProxy
  split
  · exact .refl n
  · split
    · exact .refl n
    · exact ⟨.rfl, rfl, fun _ _ hp => hp⟩

/-- `RemoveProxy` takes a pattern out and no address. -/
theorem ran_removeProxy (n : Node) (pattern : String) : Ran 0 n (n.removeProxy pattern).2 := by
  unfold Node.removeProxy
  split
  · exact .refl n
  · next a hp =>
      split
      · simp only [Node.router_modifyProxy]
        cases hr : n.router with
        | none => exact ⟨by simp [hr], rfl, fun _ _ hp => hp⟩
        | some hosts =>
            -- a pattern that is not there is not there without this one either
            refine ⟨by simp [hr], rfl, fun _ q hq => ?_⟩
            rw [Node.current_modifyMap]
            exact Finmap.lookup_eq_none.mpr fun hmem =>
              Finmap.lookup_eq_none.mp hq ((Finmap.mem_erase.mp hmem).2)
      · exact .refl n

theorem ran_removeHost (n : Node) (pattern host : String) (received : Bool) :
    Ran 0 n (n.removeHost pattern host received).2 := by
  unfold Node.removeHost
  split
  · exact .refl n
  · split
    · exact ⟨.rfl, rfl, fun _ _ hp => hp⟩
    · exact .refl n

theorem ran_changeLb (env : Env) (n : Node) (pattern mode : String) (order : List String) :
    Ran 0 n (n.changeLb env pattern mode order).2 := by
  unfold Node.changeLb
  split
  · exact .refl n
  · split
    · exact .refl n
    · exact ⟨.rfl, rfl, fun _ _ hp => hp⟩

theorem ran_setRateLimiter (n : Node) (a : Nat) (info : LimiterInfo) :
    Ran 0 n (n.setRateLimiter a info).2 :=
  .of_sameTables (sameTables_setRateLimiter rfl)

/-- An entry on which `AddRelations` runs. -/
def Adds (env : Env) (enc : Encoding δ) (n : Node) (entry : LogEntry δ) : Prop :=
  ∃ l, entry.opt = 1 ∧ enc.location.unmarshal entry.data = .ok l ∧
    n.current.relations.lookup l.pattern = none ∧ l.Constructible env

section Apply

variable {entry : LogEntry δ} (received : Bool)

theorem ran_apply (h : Adds env enc n entry) : Ran 1 n (FSM.apply env enc n entry received).2 := by
  obtain ⟨l, opt, data, hnone, hcon⟩ := h
  have hran := ran_addProxyWithLocation env n hcon
  simp only [FSM.apply, if_pos opt, FSM.doNewHttpProxy, data, hnone]
  rcases hadd : n.addProxyWithLocation env l with ⟨fault | ret, n'⟩ <;> rw [hadd] at hran <;> exact hran

theorem ran_apply_other (h : ¬ Adds env enc n entry) :
    Ran 0 n (FSM.apply env enc n entry received).2 := by
  have hcalls := FSM.apply_calls env enc n entry received
  generalize (FSM.apply env enc n entry received).2 = n' at hcalls ⊢
  cases hcalls with
  | idle => exact .refl _
  | @create l opt data new =>
      exact ran_addProxyWithLocation_failed n fun hcon => h ⟨l, opt, data, new, hcon⟩
  | limiter opt data hp => exact ran_setRateLimiter n _ _
  | acl opt data hcall => exact ⟨.rfl, rfl, fun _ _ hp => hp⟩
  | removeProxy opt => exact ran_removeProxy n _
  | removeHost opt data => exact ran_removeHost n _ _ received
  | addHost opt data => exact ran_addProxy env n _ _

end Apply

/-! ### Entries that are written, and requests

A handler comes to `AddRelations` twice at most: in its own call, and when its entry is applied on the same
node. The second time the pattern is served already, so in all it takes one address or none. -/

/-- Only entries of type 1 add. -/
theorem ran_writeLogEntry (env : Env) (enc : Encoding δ) (h : HttpServer δ) {optType : UInt16}
    (hother : optType ≠ 1) (data : δ) (raft : RaftOutcome) :
    Ran 0 h.state (h.writeLogEntry env enc optType data raft).2.state := by
  cases raft with
  | failed err => exact .refl _
  | committed received =>
      have hran : Ran 0 h.state (FSM.apply env enc h.state ⟨optType, data⟩ received).2 :=
        ran_apply_other received fun ⟨_, opt, _⟩ => hother opt
      rcases happly : FSM.apply env enc h.state ⟨optType, data⟩ received with ⟨fault | ret, n⟩ <;>
        rw [happly] at hran <;> simp only [HttpServer.writeLogEntry, happly] <;> exact hran

/-- An entry takes an address or none. -/
theorem ran_writeLogEntry_any (env : Env) (enc : Encoding δ) (h : HttpServer δ) (optType : UInt16)
    (data : δ) (raft : RaftOutcome) :
    ∃ k, Ran k h.state (h.writeLogEntry env enc optType data raft).2.state := by
  cases raft with
  | failed err => exact ⟨0, .refl _⟩
  | committed received =>
      have hran : ∃ k, Ran k h.state (FSM.apply env enc h.state ⟨optType, data⟩ received).2 := by
        by_cases hadds : Adds env enc h.state ⟨optType, data⟩
        · exact ⟨1, ran_apply received hadds⟩
        · exact ⟨0, ran_apply_other received hadds⟩
      rcases happly : FSM.apply env enc h.state ⟨optType, data⟩ received with ⟨fault | ret, n⟩ <;>
        rw [happly] at hran <;> simp only [HttpServer.writeLogEntry, happly] <;> exact hran

/-- A handler that makes its change first, and then replicates it. -/
theorem ran_mutateAndReplicate {call : Outcome × Node} {optType : UInt16} {data : δ}
    {raft : RaftOutcome} (hcall : Ran 0 h.state call.2) (hother : optType ≠ 1) :
    Ran 0 h.state (h.mutateAndReplicate env enc call optType data raft).2.state := by
  obtain ⟨fault | _ | err, n⟩ := call
  · exact hcall
  · have hran := hcall.trans (ran_writeLogEntry env enc (h.withState n) hother data raft)
    simp only [HttpServer.mutateAndReplicate]
    rcases hwrite : (h.withState n).writeLogEntry env enc optType data raft with
      ⟨fault | _ | err, h₁⟩ <;> rw [hwrite] at hran <;> exact hran
  · exact hcall

/-- The entry of the location takes no second address. -/
theorem ran_createProxyWithLocation (env : Env) (enc : Encoding δ) (h : HttpServer δ) {l : Location}
    (hcon : l.Constructible env) (raft : RaftOutcome) :
    Ran 1 h.state (h.createProxyWithLocation env enc l raft).2.state := by
  have hran := ran_addProxyWithLocation env h.state hcon
  simp only [HttpServer.createProxyWithLocation]
  rcases hadd : h.state.addProxyWithLocation env l with ⟨fault | _ | err, n⟩ <;> rw [hadd] at hran
  · exact hran
  · -- the entry finds the pattern
    have hp : (h.withState n).state.current.relations.lookup l.pattern = some h.state.nextProxy :=
      Node.lookup_addProxyWithLocation hadd
    obtain ⟨err, h₁, hwrite, hstate⟩ := writeLogEntry_served env enc raft hp
    simp only [hwrite, hstate]
    exact hran
  · exact hran

/-- A location that cannot be made ends the process before anything is done. -/
theorem ran_createProxyWithLocation_failed (env : Env) (enc : Encoding δ) (h : HttpServer δ)
    {l : Location} (hcon : ¬ l.Constructible env) (raft : RaftOutcome) :
    Ran 0 h.state (h.createProxyWithLocation env enc l raft).2.state := by
  obtain ⟨err, hadd⟩ := addProxyWithLocation_of_not h.state hcon
  simp only [HttpServer.createProxyWithLocation, hadd]
  exact .refl _

/-- A request on which `AddRelations` runs. -/
def AddsProxy (env : Env) (h : HttpServer δ) (req : AdminRequest) : Prop :=
  ∃ l, req = .addProxy (.ok l) ∧ h.checkWritePermission = true ∧
    HttpServer.validLocation l = .ok none ∧ l.Constructible env

theorem ran_handle (enc : Encoding δ) (o : Outside) {req : AdminRequest} (hadds : AddsProxy env h req) :
    Ran 1 h.state (h.handle env enc o req).2.state := by
  obtain ⟨l, rfl, flag, valid, hcon⟩ := hadds
  have hran := ran_createProxyWithLocation env enc h hcon o.raft
  simp only [HttpServer.handle, HttpServer.doAddProxy, flag, valid]
  rcases hcreate : h.createProxyWithLocation env enc l o.raft with ⟨reply | fault | fault, h₁⟩ <;>
    rw [hcreate] at hran <;> exact hran

/-- The calls that come before an entry is replicated. -/
theorem ran_localCall {n : Node} {received : Bool} {req : AdminRequest} {call : Outcome × Node}
    {optType : UInt16} {data : δ}
    (hcall : HttpServer.LocalCall env enc n received req call optType data) :
    Ran 0 n call.2 ∧ optType ≠ 1 := by
  cases hcall with
  | addHost => exact ⟨ran_addProxy env n _ _, by decide⟩
  | acl =>
      refine ⟨?_, by decide⟩
      unfold HttpServer.callAcl
      split
      · exact .refl _
      · exact ⟨.rfl, rfl, fun _ _ hp => hp⟩
  | removeProxy => exact ⟨ran_removeProxy n _, by decide⟩
  | removeHost => exact ⟨ran_removeHost n _ _ received, by decide⟩

/-- The others take none, on the node or by their entry. -/
theorem ran_handle_other (enc : Encoding δ) (o : Outside) {req : AdminRequest}
    (hadds : ¬ AddsProxy env h req) :
    Ran 0 h.state (h.handle env enc o req).2.state := by
  have hhandles := HttpServer.handle_handles env enc h o req
  generalize h.handle env enc o req = res at hhandles ⊢
  cases hhandles with
  | turnedAway notOk up => exact .refl _
  | @limiter info a out h₁ res flag hp hwrite hset =>
      have hran := ran_writeLogEntry env enc h (by decide : (2 : UInt16) ≠ 1)
        (enc.limiterInfo.marshal info) o.raft
      rw [hwrite] at hran
      cases hset with
      | down => exact hran
      | refused => exact hran
      | @set out n hset =>
          -- the limiter is set a second time, which takes no address either
          have hagain := hran.trans (ran_setRateLimiter h₁.state a info)
          rw [hset] at hagain
          exact hagain
  | @addProxy l ending h₁ res flag valid hcreate hcreated =>
      have hran := ran_createProxyWithLocation_failed env enc h
        (fun hcon : l.Constructible env => hadds ⟨l, rfl, flag, valid, hcon⟩) o.raft
      rw [hcreate] at hran
      cases hcreated <;> exact hran
  | replicated flag hcall =>
      obtain ⟨hran, hother⟩ := ran_localCall hcall
      exact ran_mutateAndReplicate hran hother
  | @changeLb req out n hcall =>
      have hran := ran_changeLb env h.state req.Prefix req.lb o.order
      rw [hcall] at hran
      exact hran

end Ran

/-! ## Reaching `writeLogEntry` without the write flag

Three handlers look at the flag first, and the flag is not set before the leader loop runs. Three others
come to `writeLogEntry` as soon as their call on the node succeeds, and this may be before there is a raft
node. -/

/-- The handlers that do not look at the flag and replicate, when their call on the node succeeds. -/
def Passes (env : Env) (n : Node) (received : Bool) : AdminRequest → Prop
  | .addHost (.ok req) => n.current.relations.lookup req.pattern ≠ none ∧
      ∃ url, env.parse req.host = .ok url
  | .removeProxy (.ok pattern) => ∃ a, n.current.relations.lookup pattern = some a ∧
      (n.proxies a).shutDownCheck = true
  | .removeHost (.ok req) => ∃ a, n.current.relations.lookup req.pattern = some a ∧
      received = true ∧ req.host ∈ (n.proxies a).hostsShutDown
  | _ => False

section Passes

variable {env : Env} {enc : Encoding δ} {n : Node} {h : HttpServer δ}

/-- `AddProxy` succeeds for a pattern that is served and a host that parses. -/
theorem addProxy_eq_ok_none {pattern host : String} : (n.addProxy env pattern host).1 = .ok none ↔
    n.current.relations.lookup pattern ≠ none ∧ ∃ url, env.parse host = .ok url := by
  unfold Node.addProxy
  split
  · next hnone => simp [hnone]
  · next a hp =>
      split
      · next err herr => simp [herr]
      · next url hurl => simp [hp, hurl]

/-- `RemoveProxy` succeeds for one whose checkers listen. -/
theorem removeProxy_eq_ok_none {pattern : String}
    (routed : n.current.relations.lookup pattern ≠ none → n.router ≠ none) :
    (n.removeProxy pattern).1 = .ok none ↔ ∃ a, n.current.relations.lookup pattern = some a ∧
      (n.proxies a).shutDownCheck = true := by
  unfold Node.removeProxy
  split
  · next hnone => simp [hnone]
  · next a hp =>
      split
      · next hwait =>
          simp only [Node.router_modifyProxy]
          cases hr : n.router with
          | none => exact absurd hr (routed (by simp [hp]))
          | some hosts => simp [hp, hwait]
      · next hwait => simp [hp, hwait]

/-- `RemoveHost` succeeds for a host that has a checker, if that takes the message. -/
theorem removeHost_eq_ok_none {pattern host : String} {received : Bool} :
    (n.removeHost pattern host received).1 = .ok none ↔
      ∃ a, n.current.relations.lookup pattern = some a ∧ received = true ∧
        host ∈ (n.proxies a).hostsShutDown := by
  unfold Node.removeHost
  split
  · next hnone => simp [hnone]
  · next a hp =>
      split
      · next hreceived => simp [hp, hreceived]
      · next hreceived => simpa [hp] using hreceived

/-- An entry is committed when the call that comes first succeeds. -/
theorem committed_mutateAndReplicate {call : Outcome × Node} {optType : UInt16} {data : δ}
    {received : Bool} :
    (h.mutateAndReplicate env enc call optType data (.committed received)).2.committed ≠ h.committed ↔
      call.1 = .ok none := by
  obtain ⟨fault | _ | err, n⟩ := call
  · simp [HttpServer.mutateAndReplicate, HttpServer.withState]
  · simp only [HttpServer.mutateAndReplicate, HttpServer.writeLogEntry, iff_true]
    rcases FSM.apply env enc (h.withState n).state ⟨optType, data⟩ received with ⟨fault | ret, n'⟩ <;>
      simp [HttpServer.withState]
  · simp [HttpServer.mutateAndReplicate, HttpServer.withState]

/-- While nothing may be written, these are the handlers that come to `writeLogEntry`. -/
theorem committed_handle_iff {o : Outside} {req : AdminRequest} {received : Bool}
    (flag : h.checkWritePermission = false) (hraft : o.raft = .committed received)
    (routed : ∀ p, h.state.current.relations.lookup p ≠ none → h.state.router ≠ none) :
    (h.handle env enc o req).2.committed ≠ h.committed ↔ Passes env h.state o.received req := by
  cases req with
  | limiter body => simp [HttpServer.handle, HttpServer.doSetRateLimiter, flag, Passes]
  | addProxy body => simp [HttpServer.handle, HttpServer.doAddProxy, flag, Passes]
  | acl body => simp [HttpServer.handle, HttpServer.doHandleAcl, flag, Passes]
  | addHost body =>
      cases body with
      | error err => simp [HttpServer.handle, HttpServer.doAddHost, Passes]
      | ok req =>
          simp only [HttpServer.handle, HttpServer.doAddHost, hraft]
          exact committed_mutateAndReplicate.trans addProxy_eq_ok_none
  | removeProxy body =>
      cases body with
      | error err => simp [HttpServer.handle, HttpServer.doRemoveProxy, Passes]
      | ok pattern =>
          simp only [HttpServer.handle, HttpServer.doRemoveProxy, hraft]
          exact committed_mutateAndReplicate.trans (removeProxy_eq_ok_none (routed pattern))
  | removeHost body =>
      cases body with
      | error err => simp [HttpServer.handle, HttpServer.doRemoveHost, Passes]
      | ok req =>
          simp only [HttpServer.handle, HttpServer.doRemoveHost, hraft]
          exact committed_mutateAndReplicate.trans removeHost_eq_ok_none
  | changeLb body =>
      cases body with
      | error err => simp [HttpServer.handle, HttpServer.doChangeLb, Passes]
      | ok req =>
          simp only [HttpServer.handle, HttpServer.doChangeLb, Passes, iff_false, not_not]
          rcases h.state.changeLb env req.Prefix req.lb o.order with ⟨fault | _ | err, n⟩ <;> rfl

end Passes

/-! ## `Restore` has its router

`Restore` asks for the router of the snapshot's type before it adds anything, and every proxy map that is
stored has the type of `NewProxyMap`. So however early it comes, it finds one. -/

section Restore

variable {env : Env} {n n' : Node} {s : Snapshot} {o : Orders} {ret : Option GoError}

/-- The first loop goes on with the router it has. -/
theorem router_restoreLocations (keys : List String) : ∀ {n n' : Node} {ret : Option GoError},
    FSM.restoreLocations env keys n = (.ok ret, n') → n.router ≠ none → n'.router ≠ none := by
  induction keys with
  | nil =>
      intro n n' ret h hr
      cases h
      exact hr
  | cons key keys ih =>
      intro n n' ret h hr
      unfold FSM.restoreLocations at h
      split at h
      · exact ih h hr
      · -- a location that cannot be created ends the process
        split at h
        · cases h
        · cases h
        · next n₁ hadd =>
            -- the router has got one more pattern
            obtain ⟨proxy, hosts, -, -, rfl⟩ := Node.addProxyWithLocation_eq_ok hadd
            exact ih h (Option.some_ne_none _)

/-- There is a router when `Restore` returns. -/
theorem router_restore (hs : s.routerType = newProxyMap.routerType)
    (h : FSM.restore env s o n = (.ok ret, n')) : n'.router ≠ none := by
  unfold FSM.restore at h
  split at h
  · cases h
  · next hlocations =>
      have hr := router_restoreLocations _ hlocations (router_getRouterInstance _ hs)
      split at h
      · cases h
      · next hlimiters =>
          rw [← (sameTables_restoreLimiters _ hlimiters).router] at hr
          split at h <;> cases h
          exact hr

end Restore

/-! ## What an event uses

Stated of the code: that `AddRelations` runs is that an address is taken, and that `State.RaftNode` is read
is that there would be a panic without it, or an entry if raft committed everything. -/

/-- `AddRelations` runs: an address is taken. -/
def Event.RunsAddRelations (env : Env) (enc : Encoding δ) (p : Process δ) : Event δ → Prop
  | loop .create => ∃ l ls, p.loop.pending = some (l :: ls) ∧
      (p.node.addProxyWithLocation env l).2.nextProxy ≠ p.node.nextProxy
  | loop (.write raft) => ∃ l, p.loop.writing = some l ∧
      (p.loop.server.writeLogEntry env enc 1 (enc.location.marshal l) raft).2.state.nextProxy ≠
        p.node.nextProxy
  | apply entry received => (FSM.apply env enc p.node entry received).2.nextProxy ≠ p.node.nextProxy
  | restore s o => (FSM.restore env s o p.node).2.nextProxy ≠ p.node.nextProxy
  | request (.admin o req) =>
      (p.loop.server.handle env enc o req).2.state.nextProxy ≠ p.node.nextProxy
  | _ => False

/-- A handler or `writeLogEntry` reads `State.RaftNode`: a handler that asks raft panics if there is no
raft node, and what comes to `writeLogEntry` is committed if raft commits what it is given. -/
def Event.DereferencesRaftNode (env : Env) (enc : Encoding δ) (conf : CherylConfig) (p : Process δ) :
    Event δ → Prop
  | loop (.write _) => ∃ l, p.loop.writing = some l ∧
      (p.loop.server.writeLogEntry env enc 1 (enc.location.marshal l) (.committed false)).2.committed ≠
        p.loop.server.committed
  | request (.join name peerAddress) => doJoin none name peerAddress = .error .nilDereference
  | request .peers => doGetRaftClusterInfo none = .error .nilDereference
  | request .info => doGetInfo conf none = .error .nilDereference
  | request (.admin o req) =>
      (p.loop.server.handle env enc { o with raft := .committed false } req).2.committed ≠
        p.loop.server.committed
  | _ => False

/-- The router `AddRelations` finds. `Restore` asks for it first. -/
def Event.router (p : Process δ) : Event δ → Option (GoMap String Nat)
  | restore s _ => (p.node.getRouterInstance s.routerType).router
  | _ => p.node.router

/-- What the event uses is there. -/
structure Event.Safe (env : Env) (enc : Encoding δ) (conf : CherylConfig) (p : Process δ)
    (e : Event δ) : Prop where
  router : e.RunsAddRelations env enc p → e.router p ≠ none
  raftNode : e.DereferencesRaftNode env enc conf p → p.raftNode = true

/-- What must not come too early. Before the router is there, nobody creates a proxy that can be made: not
the loop, not an entry, and not `/addProxy` where it is allowed. And before `State.RaftNode` is set, nobody
asks raft: not `/peers`, not `/info`, not `/join` with an address, and no handler that passes. -/
def Event.Orderly (env : Env) (enc : Encoding δ) (p : Process δ) : Event δ → Prop
  | loop .create => p.Unrouted → ∀ l ls, p.loop.pending = some (l :: ls) → ¬ l.Constructible env
  | apply entry _ => p.Unrouted → ∀ l, entry.opt = 1 →
      enc.location.unmarshal entry.data = .ok l → ¬ l.Constructible env
  | request (.join _ peerAddress) => p.phase.index < Phase.set.index → peerAddress = ""
  | request .peers => Phase.set.index ≤ p.phase.index
  | request .info => Phase.set.index ≤ p.phase.index
  | request (.admin o req) => (p.Unrouted → ¬ AddsProxy env p.loop.server req) ∧
      (p.phase.index < Phase.set.index → ¬ Passes env p.node o.received req)
  | _ => True

/-! ## Runs

An event is orderly when what it uses cannot be missing yet, said in terms of how far `Start` has come and
of what the event asks for. The invariant ties the two together, so in a run of orderly steps an event that
may come next is safe if and only if it is orderly: the condition is exact. -/

/-- What holds of a process that is orderly: what is set says how far `Start` has come, and without a
router nothing is served. -/
structure Initialising (p : Process δ) : Prop where
  raftNode : p.raftNode = true ↔ Phase.set.index ≤ p.phase.index
  router : p.node.router = none ↔ p.Unrouted
  unserved : p.node.router = none → ∀ q, p.node.current.relations.lookup q = none
  flag : p.phase.index < Phase.looping.index → p.loop.server.checkWritePermission = false
  writing : p.loop.writing ≠ none → p.node.router ≠ none

section Run

variable {env : Env} {enc : Encoding δ} {conf : CherylConfig} {p p' : Process δ} {e : Event δ}
  {es : List (Event δ)} {n₀ n n' : Node} {k : Nat}

theorem initialising_start (h₀ : Start n₀) (hr : n₀.router = none) :
    Initialising (Process.start n₀ : Process δ) where
  raftNode := by
    show false = true ↔ Phase.set.index ≤ Phase.initialised.index
    decide
  router := ⟨fun _ => ⟨Phase.noConfusion, rfl⟩, fun _ => hr⟩
  unserved := by
    intro _ q
    show n₀.current.relations.lookup q = none
    rw [h₀.current]
    rfl
  flag := fun _ => rfl
  writing := fun h => absurd rfl h

/-- The main goroutine stands still while something is at work that runs `AddRelations` only when there
is a router. -/
theorem Initialising.of_ran (I : Initialising p) {loop : Loop δ} (r : Ran k p.node loop.server.state)
    (hk : p.Unrouted → k = 0)
    (hflag : p.phase.index < Phase.looping.index →
      loop.server.checkWritePermission = p.loop.server.checkWritePermission)
    (hwriting : loop.writing ≠ none → p.node.router ≠ none) : Initialising { p with loop := loop } where
  raftNode := I.raftNode
  router := r.router.trans I.router
  unserved := by
    intro hnone q
    have hnone : p.node.router = none := r.router.mp hnone
    exact r.relations (hk (I.router.mp hnone)) q (I.unserved hnone q)
  flag := fun hphase => (hflag hphase).trans (I.flag hphase)
  writing := fun hw hnone => hwriting hw (r.router.mp hnone)

/-- The main goroutine goes on, and does not touch the node. -/
theorem Initialising.enter (I : Initialising p) {here next : Phase} {raftNode : Bool}
    (hhere : p.phase = here) (hbefore : here.index < Phase.looping.index) (hnext : next ≠ .routing)
    (hset : raftNode = true ↔ Phase.set.index ≤ next.index) :
    Initialising { p with phase := next, raftNode := raftNode } where
  raftNode := hset
  router := by
    have hphase : p.phase ≠ .routing := by
      rintro hrouting
      rw [← hhere, hrouting] at hbefore
      exact absurd hbefore (by decide)
    exact I.router.trans ⟨fun hun => ⟨hnext, hun.2⟩, fun hun => ⟨hphase, hun.2⟩⟩
  unserved := I.unserved
  flag := fun _ => I.flag (hhere ▸ hbefore)
  writing := I.writing

theorem Ran.nextProxy_ne_iff (r : Ran k n n') : n'.nextProxy ≠ n.nextProxy ↔ k ≠ 0 := by
  rw [r.nextProxy]
  omega

/-! ### Which events run `AddRelations`

`RunsAddRelations` is said of the code. Here it is put in terms of what the event asks for. -/

theorem runsAddRelations_create {l : Location} {ls : List Location}
    (next : p.loop.pending = some (l :: ls)) :
    (Event.loop .create).RunsAddRelations env enc p ↔ l.Constructible env := by
  constructor
  · rintro ⟨l', ls', next', hne⟩
    rw [next] at next'
    cases next'
    by_contra hcon
    exact hne (ran_addProxyWithLocation_failed _ hcon).nextProxy
  · intro hcon
    exact ⟨l, ls, next, (ran_addProxyWithLocation env _ hcon).nextProxy_ne_iff.mpr (by decide)⟩

theorem runsAddRelations_apply {entry : LogEntry δ} {received : Bool} :
    (Event.apply entry received).RunsAddRelations env enc p ↔ Adds env enc p.node entry := by
  constructor
  · intro hne
    by_contra hadds
    exact hne (ran_apply_other received hadds).nextProxy
  · intro hadds
    exact (ran_apply received hadds).nextProxy_ne_iff.mpr (by decide)

theorem runsAddRelations_admin {o : Outside} {req : AdminRequest} :
    (Event.request (.admin o req)).RunsAddRelations env enc p ↔ AddsProxy env p.loop.server req := by
  constructor
  · intro hne
    by_contra hadds
    exact hne (ran_handle_other enc o hadds).nextProxy
  · intro hadds
    exact (ran_handle enc o hadds).nextProxy_ne_iff.mpr (by decide)

/-- An orderly step keeps what is set in step with `Start`. -/
theorem Initialising.step (I : Initialising p) (h : Step env enc conf p e p') (ho : e.Orderly env enc p) :
    Initialising p' := by
  cases h with
  | serve here =>
      exact I.enter here (by decide) (by decide) (I.raftNode.trans (by rw [here]; decide))
  | createRaftNode here =>
      exact I.enter here (by decide) (by decide) (I.raftNode.trans (by rw [here]; decide))
  | setRaftNode here =>
      have hset : true = true ↔ Phase.set.index ≤ Phase.set.index := by decide
      exact I.enter here (by decide) Phase.noConfusion hset
  | join here =>
      exact I.enter here (by decide) (by decide) (I.raftNode.trans (by rw [here]; decide))
  | listen here =>
      exact I.enter here (by decide) (by decide) (I.raftNode.trans (by rw [here]; decide))
  | startRouter here made =>
      -- from here on there is a router, and nothing takes it away
      have hset : Phase.set.index ≤ Phase.routing.index := by decide
      have hpassed : ¬ Phase.routing.index < Phase.looping.index := by decide
      have hraft : p.raftNode = true := I.raftNode.mpr (by rw [here]; decide)
      exact ⟨⟨fun _ => hset, fun _ => hraft⟩,
        ⟨fun hnone => absurd hnone made, fun hun => absurd rfl hun.1⟩,
        fun hnone => absurd hnone made, fun hlt => absurd hlt hpassed, fun _ => made⟩
  | @loop e loop enabled h =>
      cases h with
      | leads waits leads first =>
          exact I.of_ran (.refl _) (fun _ => rfl) (fun _ => rfl) I.writing
      | leadsAgain waits leads again =>
          -- only the loop sets the flag, and it runs
          exact I.of_ran (.refl _) (fun _ => rfl) (fun hlt => absurd enabled.1 (by omega)) I.writing
      | follows waits follows =>
          exact I.of_ran (.refl _) (fun _ => rfl) (fun hlt => absurd enabled.1 (by omega)) I.writing
      | @create l ls n next idle h =>
          obtain ⟨proxy, hosts, hproxy, hr, -⟩ := Node.addProxyWithLocation_eq_ok h
          have hran := ran_addProxyWithLocation env p.node ⟨proxy, hproxy⟩
          rw [show p.node.addProxyWithLocation env l = _ from h] at hran
          have hsome : p.node.router ≠ none := fun hnone => by cases hr.symm.trans hnone
          exact I.of_ran hran (fun hun => absurd (I.router.mpr hun) hsome)
            (fun hlt => absurd enabled.1 (by omega)) fun _ => hsome
      | @write l raft ret server writes h =>
          -- its location was created, and that took a router
          have hsome : p.node.router ≠ none := I.writing fun hnone => by cases writes.symm.trans hnone
          obtain ⟨k, hran⟩ := ran_writeLogEntry_any env enc p.loop.server 1 (enc.location.marshal l) raft
          rw [h] at hran
          have hstate : (p.loop.wrote server l raft).server = server := by cases raft <;> rfl
          exact I.of_ran (by rw [hstate]; exact hran) (fun hun => absurd (I.router.mpr hun) hsome)
            (fun hlt => absurd enabled.1 (by omega)) fun _ => hsome
      | applyLate isLate h => exact enabled.elim
      | lose isLate => exact enabled.elim
      | finish done idle =>
          exact I.of_ran (.refl _) (fun _ => rfl) (fun hlt => absurd enabled.1 (by omega)) I.writing
      | request h => exact enabled.elim
      | apply h => exact enabled.elim
  | @apply entry received ret n enabled h =>
      by_cases hadds : Adds env enc p.node entry
      · have hran := ran_apply received hadds
        rw [h] at hran
        obtain ⟨l, opt, data, -, hcon⟩ := hadds
        exact I.of_ran hran (fun hun => absurd hcon (ho hun l opt data)) (fun _ => rfl) I.writing
      · have hran := ran_apply_other received hadds
        rw [h] at hran
        exact I.of_ran hran (fun _ => rfl) (fun _ => rfl) I.writing
  | restore enabled visits h =>
      -- `Restore` may serve patterns before `State.RaftNode` is set, but not without a router
      have hr := router_restore enabled.2 h
      exact ⟨I.raftNode, ⟨fun hnone => absurd hnone hr, fun hun => (by cases hun.2)⟩,
        fun hnone => absurd hnone hr, I.flag, fun _ => hr⟩
  | @admin o req ending server enabled raft h up =>
      have hflag := HttpServer.enableWrite_handle env enc p.loop.server o req
      rw [h] at hflag
      by_cases hadds : AddsProxy env p.loop.server req
      · have hran := ran_handle enc o hadds
        rw [h] at hran
        exact I.of_ran hran (fun hun => absurd hadds (ho.1 hun)) (fun _ => hflag) I.writing
      · have hran := ran_handle_other enc o hadds
        rw [h] at hran
        exact I.of_ran hran (fun _ => rfl) (fun _ => hflag) I.writing
  | request enabled reads => exact I

/-! ### Safe and orderly

For each event that can come next: what it uses, and whether the invariant says that it is there. -/

/-- An event that uses nothing. -/
theorem Event.Safe.of_not (hruns : ¬ e.RunsAddRelations env enc p)
    (hreads : ¬ e.DereferencesRaftNode env enc conf p) : e.Safe env enc conf p :=
  ⟨fun h => absurd h hruns, fun h => absurd h hreads⟩

/-- A handler that asks raft. -/
theorem Initialising.safe_iff_asks (I : Initialising p) (hruns : ¬ e.RunsAddRelations env enc p)
    (hreads : e.DereferencesRaftNode env enc conf p) :
    e.Safe env enc conf p ↔ Phase.set.index ≤ p.phase.index :=
  ⟨fun S => I.raftNode.mp (S.raftNode hreads),
    fun hset => ⟨fun h => absurd h hruns, fun _ => I.raftNode.mpr hset⟩⟩

/-- Before `State.RaftNode` is set, the handlers that come to `writeLogEntry` are those that pass. -/
theorem Initialising.dereferences_admin (I : Initialising p) (hlt : p.phase.index < Phase.set.index)
    {o : Outside} {req : AdminRequest} :
    (Event.request (.admin o req)).DereferencesRaftNode env enc conf p ↔ Passes env p.node o.received req := by
  have hbefore : p.phase.index < Phase.looping.index := Nat.lt_trans hlt (by decide)
  have hroute : ∀ q, p.node.current.relations.lookup q ≠ none → p.node.router ≠ none :=
    fun q hq hnone => hq (I.unserved hnone q)
  exact committed_handle_iff (o := { o with raft := .committed false }) (I.flag hbefore) rfl hroute

/-- What comes next is safe exactly when it is orderly. -/
theorem Initialising.safe_iff (I : Initialising p) (enabled : e.Enabled p) :
    e.Safe env enc conf p ↔ e.Orderly env enc p := by
  cases e with
  | main => exact ⟨fun _ => trivial, fun _ => .of_not id id⟩
  | loop e =>
      cases e with
      | notify leader => exact ⟨fun _ => trivial, fun _ => .of_not id id⟩
      | finish => exact ⟨fun _ => trivial, fun _ => .of_not id id⟩
      | create =>
          obtain ⟨-, l, ls, next⟩ := enabled
          have hruns : (Event.loop .create).RunsAddRelations env enc p ↔ l.Constructible env :=
            runsAddRelations_create next
          constructor
          · intro S hun l' ls' next' hcon
            rw [next] at next'
            cases next'
            exact S.router (hruns.mpr hcon) (I.router.mpr hun)
          · intro O
            exact ⟨fun hr hnone => O (I.router.mp hnone) l ls next (hruns.mp hr), fun h => h.elim⟩
      | write raft =>
          obtain ⟨hloop, l, writes⟩ := enabled
          -- the loop was started after `State.RaftNode` was set
          have hraft : p.raftNode = true := I.raftNode.mpr (Nat.le_trans (by decide) hloop)
          have hsome : p.node.router ≠ none := I.writing fun hnone => by cases writes.symm.trans hnone
          exact ⟨fun _ => trivial, fun _ => ⟨fun _ => hsome, fun _ => hraft⟩⟩
      | applyLate l received => exact enabled.elim
      | lose l => exact enabled.elim
      | request o req => exact enabled.elim
      | apply entry received => exact enabled.elim
  | apply entry received =>
      constructor
      · intro S hun l opt data hcon
        -- without a router no pattern is served, so the entry is not left alone
        have hnone : p.node.router = none := I.router.mpr hun
        exact S.router (runsAddRelations_apply.mpr ⟨l, opt, data, I.unserved hnone _, hcon⟩) hnone
      · intro O
        refine ⟨fun hr hnone => ?_, fun h => h.elim⟩
        obtain ⟨l, opt, data, -, hcon⟩ := runsAddRelations_apply.mp hr
        exact O (I.router.mp hnone) l opt data hcon
  -- `Restore` makes its own router
  | restore s o =>
      exact ⟨fun _ => trivial, fun _ => ⟨fun _ => router_getRouterInstance _ enabled.2, fun h => h.elim⟩⟩
  | request req =>
      cases req with
      | join name peerAddress =>
          by_cases hp : peerAddress = ""
          · refine ⟨fun _ _ => hp, fun _ => .of_not id fun hreads => ?_⟩
            have hreads : doJoin none name peerAddress = .error .nilDereference := hreads
            rw [doJoin, if_pos hp] at hreads
            cases hreads
          · have hreads : (Event.request (.join name peerAddress)).DereferencesRaftNode env enc conf p :=
              if_neg hp
            refine (I.safe_iff_asks id hreads).trans ⟨fun hset hlt => ?_, fun O => ?_⟩
            · omega
            · exact Nat.le_of_not_lt fun hlt => hp (O hlt)
      | peers => exact I.safe_iff_asks id rfl
      | info => exact I.safe_iff_asks id rfl
      | admin o req =>
          constructor
          · intro S
            refine ⟨fun hun hadds => ?_, fun hlt hpasses => ?_⟩
            · exact S.router (runsAddRelations_admin.mpr hadds) (I.router.mpr hun)
            · -- it would come to `writeLogEntry`, so the raft node would be set already
              have hset := I.raftNode.mp (S.raftNode ((I.dereferences_admin hlt).mpr hpasses))
              omega
          · intro O
            refine ⟨fun hr hnone => O.1 (I.router.mp hnone) (runsAddRelations_admin.mp hr), fun hreads => ?_⟩
            refine I.raftNode.mpr (Nat.le_of_not_lt fun hlt => ?_)
            exact O.2 hlt ((I.dereferences_admin hlt).mp hreads)
      | read => exact ⟨fun _ => trivial, fun _ => .of_not id id⟩

/-! ### In every run

The invariant holds at the start and orderly steps keep it, so `Initialising.safe_iff` may be applied to
whatever comes next. -/

/-- In every run of orderly steps from the start, whatever can come next, an orderly event finds the
router and the raft node that it uses; any other event does not. -/
theorem run_safe_iff (h₀ : Start n₀) (hr : n₀.router = none)
    (hrun : Trace (fun p e p' => Step env enc conf p e p' ∧ e.Orderly env enc p) (.start n₀) es p)
    (enabled : e.Enabled p) : e.Safe env enc conf p ↔ e.Orderly env enc p :=
  (hrun.invariant (initialising_start h₀ hr) fun I h => I.step h.1 h.2).safe_iff enabled

/-- An entry that comes before the router takes the process down. -/
theorem down_of_early_entry {entry : LogEntry δ} {received : Bool} (hr : p.node.router = none)
    (hadds : Adds env enc p.node entry) : ¬ Step env enc conf p (.apply entry received) p' := by
  intro h
  cases h with
  | apply enabled h =>
      obtain ⟨l, opt, data, hnone, proxy, hproxy⟩ := hadds
      simp only [FSM.apply, if_pos opt, FSM.doNewHttpProxy, data, hnone, Node.addProxyWithLocation, hproxy,
        Node.addRelations_eq, hr, Option.elim_none] at h
      cases h

end Run

def unrouted : Node := { Node.new with router := none }

theorem start_unrouted : Start unrouted := ⟨rfl, .inl rfl, rfl⟩

/-- The configuration of a node that was started before. -/
def oneNode : CherylConfig where
  isLeader := true
  init := true
  location := []
  name := "node1"
  raftTCPAddress := "127.0.0.1:7000"
  port := 8080
  routerType := "default"

/-- Once all is set, an entry is applied and `/info` is answered. -/
theorem run_safe_iff_started : ∃ (p : Process Payload) (es : List (Event Payload)), es.length = 6 ∧
    Trace (Step Env.plain Payload.encoding oneNode) (.start unrouted) es p ∧
    (Event.apply createApi false).Safe Env.plain Payload.encoding oneNode p ∧
    (Event.request .info).Safe Env.plain Payload.encoding oneNode p := by
  have hrun : Trace (fun p e p' => Step Env.plain Payload.encoding oneNode p e p' ∧
      e.Orderly Env.plain Payload.encoding p) (.start unrouted) [] _ := .nil
  have hrun := hrun.snoc (e := Event.main) ⟨.serve rfl, trivial⟩
  have hrun := hrun.snoc (e := Event.main) ⟨.createRaftNode rfl, trivial⟩
  have hrun := hrun.snoc (e := Event.main) ⟨.setRaftNode rfl, trivial⟩
  have hrun := hrun.snoc (e := Event.main) ⟨.join rfl, trivial⟩
  have hrun := hrun.snoc (e := Event.main) ⟨.listen rfl, trivial⟩
  have hrun := hrun.snoc (e := Event.main) ⟨.startRouter rfl (fun h => by cases h), trivial⟩
  have hserved : Phase.served.index ≤ Phase.routing.index := by decide
  have hcreated : Phase.created.index ≤ Phase.routing.index := by decide
  have hset : Phase.set.index ≤ Phase.routing.index := by decide
  refine ⟨_, _, rfl, hrun.mono fun h => h.1, ?_, ?_⟩
  · exact (run_safe_iff (e := .apply createApi false) start_unrouted rfl hrun hcreated).mpr
      fun hun => absurd rfl hun.1
  · exact (run_safe_iff (e := .request .info) start_unrouted rfl hrun hserved).mpr hset

/-- The raft node replays its log before `startRouter`, and `/info` is asked before there is a raft
node. -/
theorem not_run_safe :
    (¬ ∀ (env : Env) (conf : CherylConfig) (n₀ : Node) (p : Process Payload)
      (es : List (Event Payload)) (e : Event Payload), Start n₀ → n₀.router = none →
      Trace (Step env Payload.encoding conf) (.start n₀) es p → e.Enabled p →
      e.RunsAddRelations env Payload.encoding p → p.node.router ≠ none) ∧
    ¬ ∀ (env : Env) (conf : CherylConfig) (n₀ : Node) (p : Process Payload)
      (es : List (Event Payload)) (e : Event Payload), Start n₀ → n₀.router = none →
      Trace (Step env Payload.encoding conf) (.start n₀) es p → e.Enabled p →
      e.DereferencesRaftNode env Payload.encoding conf p → p.raftNode = true := by
  have hserved : Trace (Step Env.plain Payload.encoding oneNode) (.start unrouted) ([] ++ [.main]) _ :=
    .snoc .nil (.serve rfl)
  constructor
  · intro h
    have hadds : Adds Env.plain Payload.encoding unrouted createApi :=
      ⟨apiLocation, rfl, rfl, rfl, _, rfl⟩
    exact h _ _ _ _ _ (.apply createApi false) start_unrouted rfl
      (hserved.snoc (e := Event.main) (.createRaftNode rfl)) (Nat.le_refl _)
      (runsAddRelations_apply.mpr hadds) rfl
  · intro h
    have hset : false = true :=
      h _ _ _ _ _ (.request .info) start_unrouted rfl hserved (Nat.le_refl _) rfl
    cases hset

end Cheryl.Server.Startup
