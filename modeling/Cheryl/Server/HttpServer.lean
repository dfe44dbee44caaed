import Cheryl.Server.Fsm

/-!
# `cheryl/http_server.go` and `cheryl/raft.go`: the admin requests

A handler works on the node behind `Ctx.State` and hands entries to raft. What raft makes of an
entry is given from outside (`RaftOutcome`): it commits the entry, and then `Apply` has run on this
node before the call returns, or it fails and the entry is not applied.
-/

namespace Cheryl.Server

open ReverseProxy Acl

/-! ## Servers, replies and the outside -/

/-- `HttpServer`, with the node and the entries raft has committed for it. -/
structure HttpServer (δ : Type) where
  enableWrite : Bool
  state : Node
  committed : List (LogEntry δ)

inductive Reply
  /-- `Ok()` -/
  | ok
  /-- `Error(500, text)` -/
  | error (text : String)
  /-- a status line and no body -/
  | status (code : Nat)
  deriving DecidableEq, Repr

/-- How a call on the server ends: it returns, it panics and `http.Server` recovers it, or the
process is down. -/
inductive Ending (α : Type)
  | returned (a : α)
  | panicked (fault : Fault)
  | down (fault : Fault)

/-- What becomes of an entry. `received` is for the `RemoveHost` that `Apply` may come to. -/
inductive RaftOutcome
  | committed (received : Bool)
  | failed (err : GoError)

/-- What is decided outside while a request is handled: the fate of its entry, whether the checker
of the host answers, and the order in which `ChangeLb` visits the hosts. -/
structure Outside where
  raft : RaftOutcome
  received : Bool
  order : List String

/-- The body of `/changeLb`. -/
structure ChangeLbReq where
  Prefix : String
  lb : String

/-- The admin requests, each with what its body decodes to. -/
inductive AdminRequest
  | limiter (body : Except GoError LimiterInfo)
  | addProxy (body : Except GoError Location)
  | addHost (body : Except GoError HostLog)
  | acl (body : Except GoError AclLog)
  | removeProxy (body : Except GoError String)
  | removeHost (body : Except GoError HostLog)
  | changeLb (body : Except GoError ChangeLbReq)

namespace HttpServer

variable {δ : Type}

/-! ## The handlers

All handlers but two make their change on this node first, and hand the entry to raft when that worked.
`/limiter` does it the other way round, and `/changeLb` hands nothing to raft. Only three of them ask
whether this node may write. -/

def newHttpServer (n : Node) : HttpServer δ := ⟨false, n, []⟩

def checkWritePermission (h : HttpServer δ) : Bool := h.enableWrite

def setWriteFlag (h : HttpServer δ) (flag : Bool) : HttpServer δ := { h with enableWrite := flag }

def withState (h : HttpServer δ) (n : Node) : HttpServer δ := { h with state := n }

/-- `writeLogEntry`. The value `Apply` returns is not looked at; a panic there is in the goroutine
of raft. -/
def writeLogEntry (env : Env) (enc : Encoding δ) (h : HttpServer δ) (optType : UInt16) (data : δ)
    (raft : RaftOutcome) : Outcome × HttpServer δ :=
  match raft with
  | .failed err => (.ok (some err), h)
  | .committed received =>
      let entry : LogEntry δ := ⟨optType, data⟩
      let h := { h with committed := h.committed ++ [entry] }
      match FSM.apply env enc h.state entry received with
      | (.error fault, n) => (.error fault, h.withState n)
      | (.ok _, n) => (.ok none, h.withState n)

def notAllowed : Reply := .error "write method not allowed"

def cantReceive (err : GoError) : Reply := .error ("can't receive the json data: " ++ err.text)

/-- The reply to an entry that was not committed. -/
def cantApply (err : GoError) : Reply := .error ("can't apply log entry: " ++ err.text)

/-- The end of most handlers: make the change on this node, then replicate it. -/
def mutateAndReplicate (env : Env) (enc : Encoding δ) (h : HttpServer δ) (call : Outcome × Node)
    (optType : UInt16) (data : δ) (raft : RaftOutcome) : Ending Reply × HttpServer δ :=
  match call with
  | (.error fault, n) => (.panicked fault, h.withState n)
  | (.ok (some err), n) => (.returned (.error err.text), h.withState n)
  | (.ok none, n) =>
      match (h.withState n).writeLogEntry env enc optType data raft with
      | (.error fault, h) => (.down fault, h)
      | (.ok (some err), h) => (.returned (cantApply err), h)
      | (.ok none, h) => (.returned .ok, h)

/-- `doSetRateLimiter`: replicate first, then set it on this node, which has applied it already. -/
def doSetRateLimiter (env : Env) (enc : Encoding δ) (h : HttpServer δ)
    (body : Except GoError LimiterInfo) (raft : RaftOutcome) : Ending Reply × HttpServer δ :=
  if h.checkWritePermission = false then (.returned notAllowed, h)
  else
    match body with
    | .error err => (.returned (cantReceive err), h)
    | .ok info =>
        match h.state.current.relations.lookup info.Prefix with
        | none => (.returned (.error ("can't find the httpProxy: " ++ info.Prefix)), h)
        | some httpProxy =>
            match h.writeLogEntry env enc 2 (enc.limiterInfo.marshal info) raft with
            | (.error fault, h) => (.down fault, h)
            | (.ok (some err), h) => (.returned (cantApply err), h)
            | (.ok none, h) =>
                match h.state.setRateLimiter httpProxy info with
                | (.error fault, n) => (.panicked fault, h.withState n)
                | (.ok (some err), n) =>
                    (.returned (.error ("can't set the " ++ info.Prefix ++ info.pathName ++
                      " RateLimiter: " ++ err.text)), h.withState n)
                | (.ok none, n) => (.returned .ok, h.withState n)

def validLocation (l : Location) : Outcome :=
  match l.pattern.toList with
  | [] => .error .outOfRange
  | c :: _ =>
      if c ≠ '/' then .ok (some ⟨"the pattern must begin with character '/'"⟩)
      else if l.proxyPass = [] then .ok (some ⟨"can't find any proxy hosts"⟩)
      else .ok none

/-- `createProxyWithLocation`. A proxy that cannot be made ends the process; an entry that is not
committed is only logged. -/
def createProxyWithLocation (env : Env) (enc : Encoding δ) (h : HttpServer δ) (l : Location)
    (raft : RaftOutcome) : Ending Unit × HttpServer δ :=
  match h.state.addProxyWithLocation env l with
  | (.error fault, n) => (.panicked fault, h.withState n)
  | (.ok (some _), n) => (.down .exit, h.withState n)
  | (.ok none, n) =>
      match (h.withState n).writeLogEntry env enc 1 (enc.location.marshal l) raft with
      | (.error fault, h) => (.down fault, h)
      | (.ok _, h) => (.returned (), h)

def doAddProxy (env : Env) (enc : Encoding δ) (h : HttpServer δ) (body : Except GoError Location)
    (raft : RaftOutcome) : Ending Reply × HttpServer δ :=
  if h.checkWritePermission = false then (.returned notAllowed, h)
  else
    match body with
    | .error err => (.returned (cantReceive err), h)
    | .ok location =>
        match validLocation location with
        | .error fault => (.panicked fault, h)
        | .ok (some err) => (.returned (.error err.text), h)
        | .ok none =>
            match h.createProxyWithLocation env enc location raft with
            | (.returned _, h) => (.returned .ok, h)
            | (.panicked fault, h) => (.panicked fault, h)
            | (.down fault, h) => (.down fault, h)

def doAddHost (env : Env) (enc : Encoding δ) (h : HttpServer δ) (body : Except GoError HostLog)
    (raft : RaftOutcome) : Ending Reply × HttpServer δ :=
  match body with
  | .error err => (.returned (cantReceive err), h)
  | .ok req =>
      h.mutateAndReplicate env enc (h.state.addProxy env req.pattern req.host) 6
        (enc.hostLog.marshal req) raft

/-- The call of `doHandleAcl` on the tree. -/
def callAcl (n : Node) (req : AclLog) : Outcome × Node :=
  match switchAcl n.acl req with
  | .error fault => (.error fault, n)
  | .ok (err, t) => (.ok err, { n with acl := t })

def doHandleAcl (env : Env) (enc : Encoding δ) (h : HttpServer δ) (body : Except GoError AclLog)
    (raft : RaftOutcome) : Ending Reply × HttpServer δ :=
  if h.checkWritePermission = false then (.returned notAllowed, h)
  else
    match body with
    | .error _ => (.returned (.status 400), h)
    | .ok req => h.mutateAndReplicate env enc (callAcl h.state req) 3 (enc.aclLog.marshal req) raft

def doRemoveProxy (env : Env) (enc : Encoding δ) (h : HttpServer δ) (body : Except GoError String)
    (raft : RaftOutcome) : Ending Reply × HttpServer δ :=
  match body with
  | .error err => (.returned (cantReceive err), h)
  | .ok pattern =>
      h.mutateAndReplicate env enc (h.state.removeProxy pattern) 4 (enc.bytes pattern) raft

def doRemoveHost (env : Env) (enc : Encoding δ) (h : HttpServer δ) (body : Except GoError HostLog)
    (received : Bool) (raft : RaftOutcome) : Ending Reply × HttpServer δ :=
  match body with
  | .error err => (.returned (cantReceive err), h)
  | .ok req =>
      h.mutateAndReplicate env enc (h.state.removeHost req.pattern req.host received) 5
        (enc.hostLog.marshal req) raft

/-- `doChangeLb`. Nothing is replicated. -/
def doChangeLb (env : Env) (h : HttpServer δ) (body : Except GoError ChangeLbReq)
    (order : List String) : Ending Reply × HttpServer δ :=
  match body with
  | .error err => (.returned (cantReceive err), h)
  | .ok req =>
      match h.state.changeLb env req.Prefix req.lb order with
      | (.error fault, n) => (.panicked fault, h.withState n)
      | (.ok (some err), n) => (.returned (.error err.text), h.withState n)
      | (.ok none, n) => (.returned .ok, h.withState n)

def handle (env : Env) (enc : Encoding δ) (h : HttpServer δ) (o : Outside) :
    AdminRequest → Ending Reply × HttpServer δ
  | .limiter body => h.doSetRateLimiter env enc body o.raft
  | .addProxy body => h.doAddProxy env enc body o.raft
  | .addHost body => h.doAddHost env enc body o.raft
  | .acl body => h.doHandleAcl env enc body o.raft
  | .removeProxy body => h.doRemoveProxy env enc body o.raft
  | .removeHost body => h.doRemoveHost env enc body o.received o.raft
  | .changeLb body => h.doChangeLb env body o.order

end HttpServer

/-! ### Which entry a request is for -/

/-- The entry a request asks to commit. -/
def AdminRequest.entry {δ : Type} (enc : Encoding δ) : AdminRequest → Option (LogEntry δ)
  | .limiter (.ok info) => some ⟨2, enc.limiterInfo.marshal info⟩
  | .addProxy (.ok location) => some ⟨1, enc.location.marshal location⟩
  | .addHost (.ok req) => some ⟨6, enc.hostLog.marshal req⟩
  | .acl (.ok req) => some ⟨3, enc.aclLog.marshal req⟩
  | .removeProxy (.ok pattern) => some ⟨4, enc.bytes pattern⟩
  | .removeHost (.ok req) => some ⟨5, enc.hostLog.marshal req⟩
  | _ => none

/-! ## The leader loop

`Start` listens for changes of the leadership in a goroutine. A node that becomes leader, or that the
configuration calls one, creates the proxies of the configuration on its very first start and may write
afterwards. -/

/-- What `Start` knows of the configuration: `conf.Raft.IsLeader`, whether the data directory was
there, and `conf.Location`. -/
structure StartConfig where
  isLeader : Bool
  init : Bool
  location : List Location

namespace HttpServer

variable {δ : Type}

/-- `createProxy`, with the fate of each entry. -/
def createProxy (env : Env) (enc : Encoding δ) :
    List Location → (Nat → RaftOutcome) → HttpServer δ → Ending Unit × HttpServer δ
  | [], _, h => (.returned (), h)
  | l :: ls, raft, h =>
      match h.createProxyWithLocation env enc l (raft 0) with
      | (.returned _, h) => createProxy env enc ls (fun i => raft (i + 1)) h
      | (.panicked fault, h) => (.panicked fault, h)
      | (.down fault, h) => (.down fault, h)

/-- One round of the loop over `leaderNotifych`. A panic there is not recovered. -/
def leaderRound (env : Env) (enc : Encoding δ) (conf : StartConfig) (leader : Bool)
    (raft : Nat → RaftOutcome) (h : HttpServer δ) : Ending Unit × HttpServer δ :=
  if leader = true ∨ conf.isLeader = true then
    if conf.init = false then
      match createProxy env enc conf.location raft h with
      | (.returned _, h) => (.returned (), h.setWriteFlag true)
      | (.panicked fault, h) => (.down fault, h)
      | (.down fault, h) => (.down fault, h)
    else (.returned (), h.setWriteFlag true)
  else (.returned (), h.setWriteFlag false)

end HttpServer

end Cheryl.Server
