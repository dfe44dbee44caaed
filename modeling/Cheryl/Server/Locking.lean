import Cheryl.ReverseProxy.Locking
import Cheryl.Server.HttpServer

/-!
# No call waits for ever

The entries of the log, the admin requests and the restores, with the locks they take, and with raft,
which applies one entry at a time: a handler that has handed on an entry waits until `Apply` has been
through with it. Together with requests, and with the rounds of the checkers, any number of these run at
once on a node. None of them is ever stuck for good (`calls_return`), as long as the process is up: a panic
in the goroutine of raft or of a checker, which would end it, is a result here like those of handlers.
-/

namespace Cheryl.Server.Locking

open Library Library.Locks ReverseProxy ReverseProxy.Locking Acl

section Calls

variable {ρ δ : Type}

/-! ## `fsm.go`

The calls of `Cheryl.Server.Fsm` again, as programs: each lock and unlock of the source is a step, and so is
each read of the node after which another goroutine may get in between. What a step computes is taken from
the definitions there. Programs are written with what comes after them as an argument `k`, so that `defer`
is the unlock in front of `k`. -/

namespace FSM

/-- `doNewHttpProxy`. No other entry is applied meanwhile, so `State.ProxyMap` stays what it is. -/
def doNewHttpProxy (env : Env) (enc : Encoding δ) (data : δ) (k : Outcome → Call ρ) : Call ρ :=
  .read fun n =>
    .lock .write (.proxyMap n.proxyMap) <|
      match enc.location.unmarshal data with
      | .error err => .unlock (.proxyMap n.proxyMap) (k (.ok (some err)))
      | .ok l =>
          .read fun n' =>
            match (n'.proxyMaps n.proxyMap).relations.lookup l.pattern with
            | some _ => .unlock (.proxyMap n.proxyMap) (k (.ok none))
            | none =>
                addProxyWithLocation env n.proxyMap l fun out =>
                  .unlock (.proxyMap n.proxyMap) <|
                    match out with
                    | .error fault => k (.error fault)
                    | .ok _ => k (.ok none)

def doSetRateLimiter (enc : Encoding δ) (data : δ) (k : Outcome → Call ρ) : Call ρ :=
  .read fun n =>
    .lock .write (.proxyMap n.proxyMap) <|
      match enc.limiterInfo.unmarshal data with
      | .error err => .unlock (.proxyMap n.proxyMap) (k (.ok (some err)))
      | .ok info =>
          .read fun n' =>
            match (n'.proxyMaps n.proxyMap).relations.lookup info.Prefix with
            | none => .unlock (.proxyMap n.proxyMap) (k (.ok (some Server.FSM.httpProxyNotExistsError)))
            | some httpProxy =>
                setRateLimiter httpProxy info fun out => .unlock (.proxyMap n.proxyMap) (k out)

def doHandleAcl (enc : Encoding δ) (data : δ) (k : Outcome → Call ρ) : Call ρ :=
  .set (fun n => (Server.FSM.doHandleAcl enc n data).2) fun n => k (Server.FSM.doHandleAcl enc n data).1

def doRemoveHost (enc : Encoding δ) (data : δ) (received : Bool) (k : Outcome → Call ρ) : Call ρ :=
  match enc.hostLog.unmarshal data with
  | .error err => k (.ok (some err))
  | .ok log => .read fun n => removeHost n.proxyMap log.pattern log.host received k

def doAddHost (env : Env) (enc : Encoding δ) (data : δ) (k : Outcome → Call ρ) : Call ρ :=
  match enc.hostLog.unmarshal data with
  | .error err => k (.ok (some err))
  | .ok log => .read fun n => addProxy env n.proxyMap log.pattern log.host k

def apply (env : Env) (enc : Encoding δ) (entry : LogEntry δ) (received : Bool) (k : Outcome → Call ρ) :
    Call ρ :=
  .lock .write .fsm <|
    let k := fun out => .unlock .fsm (k out)
    if entry.opt = 1 then doNewHttpProxy env enc entry.data k
    else if entry.opt = 2 then doSetRateLimiter enc entry.data k
    else if entry.opt = 3 then doHandleAcl enc entry.data k
    else if entry.opt = 4 then .read fun n => removeProxy n.proxyMap (enc.string entry.data) k
    else if entry.opt = 5 then doRemoveHost enc entry.data received k
    else if entry.opt = 6 then doAddHost env enc entry.data k
    else k (.ok none)

/-- The first loop of `Restore`. -/
def restoreLocations (env : Env) (m : Nat) : List String → (Outcome → Call ρ) → Call ρ
  | [], k => k (.ok none)
  | key :: keys, k =>
      .read fun n =>
        match (n.proxyMaps m).locations.lookup key with
        | none => restoreLocations env m keys k
        | some l =>
            addProxyWithLocation env m l fun out =>
              match out with
              | .error fault => k (.error fault)
              | .ok (some _) => k (.error .exit)
              | .ok none => restoreLocations env m keys k

/-- `SetRateLimiter` for each recorded limiter of a proxy. -/
def replayLimiters (a : Nat) : List LimiterInfo → (Outcome → Call ρ) → Call ρ
  | [], k => k (.ok none)
  | limiter :: limiters, k =>
      setRateLimiter a limiter fun out =>
        match out with
        | .error fault => k (.error fault)
        | .ok _ => replayLimiters a limiters k

/-- The second loop of `Restore`. -/
def restoreLimiters (m : Nat) : List String → (Outcome → Call ρ) → Call ρ
  | [], k => k (.ok none)
  | key :: keys, k =>
      .read fun n =>
        match (n.proxyMaps m).relations.lookup key with
        | none => restoreLimiters m keys k
        | some httpProxy =>
            replayLimiters httpProxy (((n.proxyMaps m).limiters.lookup key).getD []) fun out =>
              match out with
              | .error fault => k (.error fault)
              | .ok _ => restoreLimiters m keys k

/-- `Restore`, with a snapshot that decodes. -/
def restore (env : Env) (s : Snapshot) (o : Orders) (k : Outcome → Call ρ) : Call ρ :=
  .lock .write .fsm <|
    .set (fun n => (Server.FSM.decoded s n).getRouterInstance s.routerType) fun n =>
      restoreLocations env n.nextMap o.locations fun out =>
        match out with
        | .error fault => .unlock .fsm (k (.error fault))
        | .ok _ =>
            restoreLimiters n.nextMap o.limiters fun out =>
              match out with
              | .error fault => .unlock .fsm (k (.error fault))
              | .ok _ =>
                  match RadixTree.new.restore o.record with
                  | .error fault => .unlock .fsm (k (.error fault))
                  | .ok t => .set (fun n => { n with acl := t }) fun _ => .unlock .fsm (k (.ok none))

end FSM

/-! ## `http_server.go` and `raft.go`

A handler calls on the node and then hands on an entry. It waits there until the entry has been applied, so
the program of `Apply` is part of its own. Whether raft commits the entry is decided outside. -/

namespace HttpServer

open Server.HttpServer (notAllowed cantReceive cantApply validLocation callAcl)

def writeLogEntry (env : Env) (enc : Encoding δ) (optType : UInt16) (data : δ) (raft : RaftOutcome)
    (k : Outcome → Call ρ) : Call ρ :=
  match raft with
  | .failed err => k (.ok (some err))
  | .committed received =>
      FSM.apply env enc ⟨optType, data⟩ received fun out =>
        match out with
        | .error fault => k (.error fault)
        | .ok _ => k (.ok none)

/-- The end of most handlers, after the change on this node. -/
def replicate (env : Env) (enc : Encoding δ) (optType : UInt16) (data : δ) (raft : RaftOutcome)
    (k : Ending Reply → Call ρ) : Outcome → Call ρ
  | .error fault => k (.panicked fault)
  | .ok (some err) => k (.returned (.error err.text))
  | .ok none =>
      writeLogEntry env enc optType data raft fun out =>
        match out with
        | .error fault => k (.down fault)
        | .ok (some err) => k (.returned (cantApply err))
        | .ok none => k (.returned .ok)

/-- `doSetRateLimiter`; `w` is what `checkWritePermission` says. -/
def doSetRateLimiter (env : Env) (enc : Encoding δ) (w : Bool) (body : Except GoError LimiterInfo)
    (raft : RaftOutcome) (k : Ending Reply → Call ρ) : Call ρ :=
  if w = false then k (.returned notAllowed)
  else
    match body with
    | .error err => k (.returned (cantReceive err))
    | .ok info =>
        .read fun n =>
          match n.current.relations.lookup info.Prefix with
          | none => k (.returned (.error ("can't find the httpProxy: " ++ info.Prefix)))
          | some httpProxy =>
              writeLogEntry env enc 2 (enc.limiterInfo.marshal info) raft fun out =>
                match out with
                | .error fault => k (.down fault)
                | .ok (some err) => k (.returned (cantApply err))
                | .ok none =>
                    setRateLimiter httpProxy info fun out =>
                      match out with
                      | .error fault => k (.panicked fault)
                      | .ok (some err) =>
                          k (.returned (.error ("can't set the " ++ info.Prefix ++ info.pathName ++
                            " RateLimiter: " ++ err.text)))
                      | .ok none => k (.returned .ok)

def createProxyWithLocation (env : Env) (enc : Encoding δ) (l : Location) (raft : RaftOutcome)
    (k : Ending Unit → Call ρ) : Call ρ :=
  .read fun n =>
    addProxyWithLocation env n.proxyMap l fun out =>
      match out with
      | .error fault => k (.panicked fault)
      | .ok (some _) => k (.down .exit)
      | .ok none =>
          writeLogEntry env enc 1 (enc.location.marshal l) raft fun out =>
            match out with
            | .error fault => k (.down fault)
            | .ok _ => k (.returned ())

def doAddProxy (env : Env) (enc : Encoding δ) (w : Bool) (body : Except GoError Location)
    (raft : RaftOutcome) (k : Ending Reply → Call ρ) : Call ρ :=
  if w = false then k (.returned notAllowed)
  else
    match body with
    | .error err => k (.returned (cantReceive err))
    | .ok location =>
        match validLocation location with
        | .error fault => k (.panicked fault)
        | .ok (some err) => k (.returned (.error err.text))
        | .ok none =>
            createProxyWithLocation env enc location raft fun ending =>
              match ending with
              | .returned _ => k (.returned .ok)
              | .panicked fault => k (.panicked fault)
              | .down fault => k (.down fault)

def doAddHost (env : Env) (enc : Encoding δ) (body : Except GoError HostLog) (raft : RaftOutcome)
    (k : Ending Reply → Call ρ) : Call ρ :=
  match body with
  | .error err => k (.returned (cantReceive err))
  | .ok req =>
      .read fun n =>
        addProxy env n.proxyMap req.pattern req.host
          (replicate env enc 6 (enc.hostLog.marshal req) raft k)

def doHandleAcl (env : Env) (enc : Encoding δ) (w : Bool) (body : Except GoError AclLog)
    (raft : RaftOutcome) (k : Ending Reply → Call ρ) : Call ρ :=
  if w = false then k (.returned notAllowed)
  else
    match body with
    | .error _ => k (.returned (.status 400))
    | .ok req =>
        .set (fun n => (callAcl n req).2) fun n =>
          replicate env enc 3 (enc.aclLog.marshal req) raft k (callAcl n req).1

def doRemoveProxy (env : Env) (enc : Encoding δ) (body : Except GoError String) (raft : RaftOutcome)
    (k : Ending Reply → Call ρ) : Call ρ :=
  match body with
  | .error err => k (.returned (cantReceive err))
  | .ok pattern =>
      .read fun n =>
        removeProxy n.proxyMap pattern (replicate env enc 4 (enc.bytes pattern) raft k)

def doRemoveHost (env : Env) (enc : Encoding δ) (body : Except GoError HostLog) (received : Bool)
    (raft : RaftOutcome) (k : Ending Reply → Call ρ) : Call ρ :=
  match body with
  | .error err => k (.returned (cantReceive err))
  | .ok req =>
      .read fun n =>
        removeHost n.proxyMap req.pattern req.host received
          (replicate env enc 5 (enc.hostLog.marshal req) raft k)

def doChangeLb (env : Env) (body : Except GoError ChangeLbReq) (order : List String)
    (k : Ending Reply → Call ρ) : Call ρ :=
  match body with
  | .error err => k (.returned (cantReceive err))
  | .ok req =>
      changeLb env req.Prefix req.lb order fun out =>
        match out with
        | .error fault => k (.panicked fault)
        | .ok (some err) => k (.returned (.error err.text))
        | .ok none => k (.returned .ok)

def handle (env : Env) (enc : Encoding δ) (w : Bool) (o : Outside) (k : Ending Reply → Call ρ) :
    AdminRequest → Call ρ
  | .limiter body => doSetRateLimiter env enc w body o.raft k
  | .addProxy body => doAddProxy env enc w body o.raft k
  | .addHost body => doAddHost env enc body o.raft k
  | .acl body => doHandleAcl env enc w body o.raft k
  | .removeProxy body => doRemoveProxy env enc body o.raft k
  | .removeHost body => doRemoveHost env enc body o.received o.raft k
  | .changeLb body => doChangeLb env body o.order k

end HttpServer

end Calls

/-! ## Calls that are alone

With nobody else at work a program runs through, and does to the node what its definition does. The one
condition is that `RemoveProxy` does not wait in vain for the checkers of its proxy. The entry of the same
request cannot do so, as it finds the pattern gone. -/

section Alone

variable {ρ δ : Type} {env : Env} {enc : Encoding δ} {n n' : Node} {pattern : String}
  {k : Outcome → Call ρ}

/-- `RemoveProxy` does not wait in vain. -/
def Removes (n : Node) (pattern : String) : Prop := (n.removeProxy pattern).1 ≠ .error .hang

/-- A proxy whose checkers have not been shut down can be removed. -/
theorem removes_of_lookup (h : ∀ a, n.current.relations.lookup pattern = some a →
    (n.proxies a).shutDownCheck = true) : Removes n pattern := by
  unfold Removes Node.removeProxy
  cases hp : n.current.relations.lookup pattern with
  | none => simp
  | some a =>
      simp only [h a hp, if_true]
      cases hr : n.router <;> simp [Node.modifyProxy, hr]

/-- A pattern that has been removed is not there to wait for. -/
theorem removes_removed (h : n.removeProxy pattern = (.ok none, n')) : Removes n' pattern := by
  obtain ⟨a, hosts, -, -, -, rfl⟩ := Node.removeProxy_eq_ok h
  refine removes_of_lookup fun b hb => ?_
  simp [Node.current, Node.modifyMap, Node.modifyProxy] at hb

namespace FSM

theorem alone_doNewHttpProxy (data : δ) :
    (doNewHttpProxy env enc data k).alone n =
      (k (Server.FSM.doNewHttpProxy env enc n data).1).alone
        (Server.FSM.doNewHttpProxy env enc n data).2 := by
  unfold doNewHttpProxy Server.FSM.doNewHttpProxy Node.current
  rw [Prog.alone_read, Prog.alone_lock]
  cases enc.location.unmarshal data with
  | error err => rfl
  | ok l =>
      dsimp only
      rw [Prog.alone_read]
      cases (n.proxyMaps n.proxyMap).relations.lookup l.pattern with
      | some a => rfl
      | none =>
          simp only [alone_addProxyWithLocation, Prog.alone_unlock]
          rcases n.addProxyWithLocation env l with ⟨fault | err, n'⟩ <;> rfl

/-- The entry of a limiter, alone. -/
theorem alone_doSetRateLimiter (data : δ) :
    (doSetRateLimiter enc data k).alone n =
      (k (Server.FSM.doSetRateLimiter enc n data).1).alone (Server.FSM.doSetRateLimiter enc n data).2 := by
  unfold doSetRateLimiter Server.FSM.doSetRateLimiter Node.current
  rw [Prog.alone_read, Prog.alone_lock]
  cases enc.limiterInfo.unmarshal data with
  | error err => rfl
  | ok info =>
      dsimp only
      rw [Prog.alone_read]
      cases (n.proxyMaps n.proxyMap).relations.lookup info.Prefix with
      | none => rfl
      | some a => simp only [alone_setRateLimiter, Prog.alone_unlock]

theorem alone_doRemoveHost (data : δ) (received : Bool) :
    (doRemoveHost enc data received k).alone n =
      (k (Server.FSM.doRemoveHost enc n data received).1).alone
        (Server.FSM.doRemoveHost enc n data received).2 := by
  unfold doRemoveHost Server.FSM.doRemoveHost
  cases enc.hostLog.unmarshal data with
  | error err => rfl
  | ok log => exact alone_removeHost received

theorem alone_doAddHost (data : δ) :
    (doAddHost env enc data k).alone n =
      (k (Server.FSM.doAddHost env enc n data).1).alone (Server.FSM.doAddHost env enc n data).2 := by
  unfold doAddHost Server.FSM.doAddHost
  cases enc.hostLog.unmarshal data with
  | error err => rfl
  | ok log => exact alone_addProxy

/-- `Apply` does what its definition says. -/
theorem alone_apply {entry : LogEntry δ} {received : Bool}
    (hremoves : entry.opt = 4 → Removes n (enc.string entry.data)) :
    (apply env enc entry received k).alone n =
      (k (Server.FSM.apply env enc n entry received).1).alone
        (Server.FSM.apply env enc n entry received).2 := by
  unfold apply Server.FSM.apply
  rw [Prog.alone_lock]
  dsimp only
  split_ifs
  · exact alone_doNewHttpProxy _
  · exact alone_doSetRateLimiter _
  · rfl
  · rw [Prog.alone_read]
    exact alone_removeProxy (hremoves (by assumption))
  · exact alone_doRemoveHost _ _
  · exact alone_doAddHost _
  · rfl

/-! ### `Restore`, alone

The program takes its proxy map once, at the beginning, while the definition looks it up at every access. So
it has to be seen that no call in between puts another one in place. -/

/-- No call but `Restore` puts another proxy map in place. -/
theorem proxyMap_addProxyWithLocation (env : Env) (n : Node) (l : Location) :
    (n.addProxyWithLocation env l).2.proxyMap = n.proxyMap := by
  unfold Node.addProxyWithLocation
  split
  · rfl
  · rw [Node.addRelations_eq]
    cases n.router <;> rfl

theorem proxyMap_setRateLimiter (n : Node) (a : Nat) (info : LimiterInfo) :
    (n.setRateLimiter a info).2.proxyMap = n.proxyMap := by
  unfold Node.setRateLimiter Node.recordLimiter
  split
  · rfl
  · dsimp only
    split <;> rfl

theorem proxyMap_replayLimiters (n : Node) (a : Nat) (limiters : List LimiterInfo) :
    (Server.FSM.replayLimiters a limiters n).2.proxyMap = n.proxyMap := by
  induction limiters generalizing n with
  | nil => rfl
  | cons limiter limiters ih =>
      unfold Server.FSM.replayLimiters
      have hmap := proxyMap_setRateLimiter n a limiter
      rcases hset : n.setRateLimiter a limiter with ⟨fault | err, n'⟩ <;> rw [hset] at hmap
      · exact hmap
      · exact (ih _).trans hmap

theorem alone_restoreLocations (keys : List String) :
    (restoreLocations env n.proxyMap keys k).alone n =
      (k (Server.FSM.restoreLocations env keys n).1).alone (Server.FSM.restoreLocations env keys n).2 := by
  induction keys generalizing n with
  | nil => rfl
  | cons key keys ih =>
      unfold restoreLocations Server.FSM.restoreLocations Node.current
      rw [Prog.alone_read]
      cases (n.proxyMaps n.proxyMap).locations.lookup key with
      | none => exact ih
      | some l =>
          dsimp only
          rw [alone_addProxyWithLocation]
          have hmap := proxyMap_addProxyWithLocation env n l
          rcases hadd : n.addProxyWithLocation env l with ⟨fault | _ | err, n'⟩
          · rfl
          · rw [hadd] at hmap
            dsimp only
            -- the loop goes on with the proxy map it began with
            rw [← hmap]
            exact ih
          · rfl

theorem proxyMap_restoreLocations (env : Env) (n : Node) (keys : List String) :
    (Server.FSM.restoreLocations env keys n).2.proxyMap = n.proxyMap := by
  induction keys generalizing n with
  | nil => rfl
  | cons key keys ih =>
      unfold Server.FSM.restoreLocations
      cases n.current.locations.lookup key with
      | none => exact ih n
      | some l =>
          dsimp only
          have hmap := proxyMap_addProxyWithLocation env n l
          rcases hadd : n.addProxyWithLocation env l with ⟨fault | _ | err, n'⟩ <;> rw [hadd] at hmap
          · exact hmap
          · exact (ih _).trans hmap
          · exact hmap

theorem alone_replayLimiters (a : Nat) (limiters : List LimiterInfo) :
    (replayLimiters a limiters k).alone n =
      (k (Server.FSM.replayLimiters a limiters n).1).alone (Server.FSM.replayLimiters a limiters n).2 := by
  induction limiters generalizing n with
  | nil => rfl
  | cons limiter limiters ih =>
      unfold replayLimiters Server.FSM.replayLimiters
      rw [alone_setRateLimiter]
      rcases n.setRateLimiter a limiter with ⟨fault | err, n'⟩
      · rfl
      · exact ih

theorem alone_restoreLimiters (keys : List String) :
    (restoreLimiters n.proxyMap keys k).alone n =
      (k (Server.FSM.restoreLimiters keys n).1).alone (Server.FSM.restoreLimiters keys n).2 := by
  induction keys generalizing n with
  | nil => rfl
  | cons key keys ih =>
      unfold restoreLimiters Server.FSM.restoreLimiters Node.current
      rw [Prog.alone_read]
      cases (n.proxyMaps n.proxyMap).relations.lookup key with
      | none => exact ih
      | some a =>
          dsimp only
          rw [alone_replayLimiters]
          have hmap := proxyMap_replayLimiters n a
            (((n.proxyMaps n.proxyMap).limiters.lookup key).getD [])
          rcases hreplay : Server.FSM.replayLimiters a
            (((n.proxyMaps n.proxyMap).limiters.lookup key).getD []) n with ⟨fault | err, n'⟩
          · rfl
          · rw [hreplay] at hmap
            dsimp only
            rw [← hmap]
            exact ih

/-- `Restore` does what its definition says. -/
theorem alone_restore (s : Snapshot) (o : Orders) :
    (restore env s o k).alone n =
      (k (Server.FSM.restore env s o n).1).alone (Server.FSM.restore env s o n).2 := by
  unfold restore Server.FSM.restore
  rw [Prog.alone_lock, Prog.alone_set]
  have hmap : ((Server.FSM.decoded s n).getRouterInstance s.routerType).proxyMap = n.nextMap := by
    unfold Node.getRouterInstance
    split <;> rfl
  rw [← hmap]
  generalize (Server.FSM.decoded s n).getRouterInstance s.routerType = n₁
  rw [alone_restoreLocations]
  have hmap₁ := proxyMap_restoreLocations env n₁ o.locations
  rcases hlocations : Server.FSM.restoreLocations env o.locations n₁ with ⟨fault | err, n₂⟩
  · rfl
  · rw [hlocations] at hmap₁
    dsimp only
    rw [← hmap₁, alone_restoreLimiters]
    rcases Server.FSM.restoreLimiters o.limiters n₂ with ⟨fault | err, n₃⟩
    · rfl
    · dsimp only
      cases RadixTree.new.restore o.record <;> rfl

end FSM

namespace HttpServer

variable {h : Server.HttpServer δ}

/-! ### The handlers, alone

Each is its call on the node and then the program of its entry. -/

/-- An entry is applied, or not. -/
theorem alone_writeLogEntry (optType : UInt16) (data : δ) (raft : RaftOutcome)
    (hremoves : optType = 4 → Removes h.state (enc.string data)) :
    (writeLogEntry env enc optType data raft k).alone h.state =
      (k (h.writeLogEntry env enc optType data raft).1).alone
        (h.writeLogEntry env enc optType data raft).2.state := by
  unfold writeLogEntry Server.HttpServer.writeLogEntry
  cases raft with
  | failed err => rfl
  | committed received =>
      dsimp only
      rw [FSM.alone_apply hremoves]
      rcases Server.FSM.apply env enc h.state ⟨optType, data⟩ received with ⟨fault | err, n⟩ <;> rfl

/-- The entry is written after a call on the node. -/
theorem alone_replicate {k : Ending Reply → Call ρ} {call : Outcome × Node} {optType : UInt16}
    {data : δ} {raft : RaftOutcome}
    (hremoves : call.1 = .ok none → optType = 4 → Removes call.2 (enc.string data)) :
    (replicate env enc optType data raft k call.1).alone call.2 =
      (k (h.mutateAndReplicate env enc call optType data raft).1).alone
        (h.mutateAndReplicate env enc call optType data raft).2.state := by
  unfold replicate Server.HttpServer.mutateAndReplicate
  obtain ⟨fault | _ | err, n⟩ := call
  · rfl
  · refine (alone_writeLogEntry (h := h.withState n) optType data raft (hremoves rfl)).trans ?_
    dsimp only
    rcases (h.withState n).writeLogEntry env enc optType data raft with ⟨fault | _ | err, h'⟩ <;> rfl
  · rfl

/-- The entry, and then the limiter once more. -/
theorem alone_doSetRateLimiter {k : Ending Reply → Call ρ} {body : Except GoError LimiterInfo}
    {raft : RaftOutcome} :
    (doSetRateLimiter env enc h.enableWrite body raft k).alone h.state =
      (k (h.doSetRateLimiter env enc body raft).1).alone
        (h.doSetRateLimiter env enc body raft).2.state := by
  unfold doSetRateLimiter Server.HttpServer.doSetRateLimiter Server.HttpServer.checkWritePermission
  split
  · rfl
  · cases body with
    | error err => rfl
    | ok info =>
        dsimp only
        rw [Prog.alone_read]
        cases h.state.current.relations.lookup info.Prefix with
        | none => rfl
        | some httpProxy =>
            dsimp only
            rw [alone_writeLogEntry _ _ _ fun h => absurd h (by decide)]
            rcases h.writeLogEntry env enc 2 (enc.limiterInfo.marshal info) raft with
              ⟨fault | _ | err, h'⟩
            · rfl
            · dsimp only
              rw [alone_setRateLimiter]
              rcases h'.state.setRateLimiter httpProxy info with ⟨fault | _ | err, n⟩ <;> rfl
            · rfl

theorem alone_createProxyWithLocation {k : Ending Unit → Call ρ} {l : Location} {raft : RaftOutcome} :
    (createProxyWithLocation env enc l raft k).alone h.state =
      (k (h.createProxyWithLocation env enc l raft).1).alone
        (h.createProxyWithLocation env enc l raft).2.state := by
  unfold createProxyWithLocation Server.HttpServer.createProxyWithLocation
  rw [Prog.alone_read, alone_addProxyWithLocation]
  rcases h.state.addProxyWithLocation env l with ⟨fault | _ | err, n⟩
  · rfl
  · dsimp only
    refine (alone_writeLogEntry (h := h.withState n) _ _ _ fun h => absurd h (by decide)).trans ?_
    rcases (h.withState n).writeLogEntry env enc 1 (enc.location.marshal l) raft with ⟨fault | err, h'⟩ <;>
      rfl
  · rfl

/-- A handler does what its definition says. -/
theorem alone_handle {k : Ending Reply → Call ρ} {o : Outside} {req : AdminRequest}
    (hremoves : ∀ pattern, Removes h.state pattern) :
    (handle env enc h.enableWrite o k req).alone h.state =
      (k (h.handle env enc o req).1).alone (h.handle env enc o req).2.state := by
  unfold Server.HttpServer.handle handle
  cases req with
  | limiter body => exact alone_doSetRateLimiter
  | addProxy body =>
      dsimp only
      unfold doAddProxy Server.HttpServer.doAddProxy Server.HttpServer.checkWritePermission
      split
      · rfl
      · cases body with
        | error err => rfl
        | ok location =>
            dsimp only
            rcases Server.HttpServer.validLocation location with fault | _ | err
            · rfl
            · dsimp only
              rw [alone_createProxyWithLocation]
              rcases h.createProxyWithLocation env enc location o.raft with ⟨_ | fault | fault, h'⟩ <;> rfl
            · rfl
  | addHost body =>
      cases body with
      | error err => rfl
      | ok req => exact alone_addProxy.trans (alone_replicate fun _ h => absurd h (by decide))
  | acl body =>
      dsimp only
      unfold doHandleAcl Server.HttpServer.doHandleAcl Server.HttpServer.checkWritePermission
      split
      · rfl
      · cases body with
        | error err => rfl
        | ok req => exact alone_replicate fun _ h => absurd h (by decide)
  | removeProxy body =>
      cases body with
      | error err => rfl
      | ok pattern =>
          refine (alone_removeProxy (hremoves pattern)).trans (alone_replicate fun hok _ => ?_)
          -- the entry finds the pattern gone
          rw [enc.string_bytes]
          exact removes_removed (Prod.ext hok rfl)
  | removeHost body =>
      cases body with
      | error err => rfl
      | ok req => exact (alone_removeHost _).trans (alone_replicate fun _ h => absurd h (by decide))
  | changeLb body =>
      cases body with
      | error err => rfl
      | ok req =>
          dsimp only
          unfold doChangeLb Server.HttpServer.doChangeLb
          dsimp only
          rw [alone_changeLb]
          rcases h.state.changeLb env req.Prefix req.lb o.order with ⟨fault | _ | err, n⟩ <;> rfl

end HttpServer

end Alone

/-! ## Calls that keep to the discipline

The locks have ranks: the one of the FSM comes first, then those of the proxy maps, those of proxies, and
those of the router, of balancers and of limiters last. With `Below r held` a program has no lock of rank
`r` or higher, so it may take such a one. There is one lemma for each program, from the inner calls to the
handlers, and `k` stands for what the program goes on with. -/

section Sound

variable {ρ δ : Type} {env : Env} {enc : Encoding δ} {held : Mutex → Option Mode} {k : Outcome → Call ρ}

namespace FSM

/-- It takes the lock of the proxy map, and under it those of `AddProxyWithLocation`. -/
theorem keeps_doNewHttpProxy (hb : Below 1 held) {data : δ} (hk : ∀ out, Keeps held (k out)) :
    Keeps held (doNewHttpProxy env enc data k) := by
  refine .read_clean fun n _ => .lock_clean hb ?_
  have hnot : held (.proxyMap n.proxyMap) = none := Below.not_held hb
  have hb' : Below 2 (Function.update held (.proxyMap n.proxyMap) (some .write)) :=
    Below.update hb (Nat.lt_succ_self 1)
  split
  · exact .unlock_clean hnot (hk _)
  · refine .read_clean fun n' _ => ?_
    split
    · exact .unlock_clean hnot (hk _)
    · exact keeps_addProxyWithLocation (hb'.mono (Nat.le_succ 2)) fun err => .unlock_clean hnot (hk _)

theorem keeps_doSetRateLimiter (hb : Below 1 held) {data : δ} (hk : ∀ out, Keeps held (k out)) :
    Keeps held (doSetRateLimiter enc data k) := by
  refine .read_clean fun n _ => .lock_clean hb ?_
  have hnot : held (.proxyMap n.proxyMap) = none := Below.not_held hb
  have hb' : Below 2 (Function.update held (.proxyMap n.proxyMap) (some .write)) :=
    Below.update hb (Nat.lt_succ_self 1)
  split
  · exact .unlock_clean hnot (hk _)
  · refine .read_clean fun n' _ => ?_
    split
    · exact .unlock_clean hnot (hk _)
    · exact keeps_setRateLimiter hb' fun out => .unlock_clean hnot (hk _)

/-- The access list is no concern of the discipline. -/
theorem quiet_acl (n : Node) (t : RadixTree) : Quiet n { n with acl := t } :=
  ⟨id, rfl, fun _ => rfl, fun _ => ⟨rfl, rfl, rfl⟩⟩

theorem keeps_doHandleAcl {data : δ} (hk : ∀ out, Keeps held (k out)) :
    Keeps held (doHandleAcl enc data k) := by
  refine .set_clean (fun n O => Quiet.fair ?_ O) fun _ _ => hk _
  unfold Server.FSM.doHandleAcl
  split
  · exact .refl n
  · split
    · exact .refl n
    · exact quiet_acl n _

/-- `Apply` holds the lock of the FSM from beginning to end, and each entry takes others above it. -/
theorem keeps_apply (hb : Below 0 held) {entry : LogEntry δ} {received : Bool}
    (hk : ∀ out, Keeps held (k out)) : Keeps held (apply env enc entry received k) := by
  have hnot : held .fsm = none := Below.not_held hb
  have hb' : Below 1 (Function.update held .fsm (some .write)) := Below.update hb Nat.zero_lt_one
  have hk' : ∀ out, Keeps (Function.update held .fsm (some .write)) (.unlock .fsm (k out)) :=
    fun out => .unlock_clean hnot (hk out)
  refine .lock_clean hb ?_
  dsimp only
  split_ifs
  · exact keeps_doNewHttpProxy hb' hk'
  · exact keeps_doSetRateLimiter hb' hk'
  · exact keeps_doHandleAcl hk'
  · exact .read_clean fun _ _ => keeps_removeProxy hb' hk'
  · unfold doRemoveHost
    split
    · exact hk' _
    · exact .read_clean fun _ _ => keeps_removeHost hk'
  · unfold doAddHost
    split
    · exact hk' _
    · exact .read_clean fun _ _ => keeps_addProxy (hb'.mono (by decide)) hk'
  · exact hk' _

theorem keeps_restoreLocations (hb : Below 3 held) {m : Nat} (keys : List String)
    (hk : ∀ out, Keeps held (k out)) : Keeps held (restoreLocations env m keys k) := by
  induction keys with
  | nil => exact hk _
  | cons key keys ih =>
      refine .read_clean fun n _ => ?_
      split
      · exact ih
      · refine keeps_addProxyWithLocation hb fun err => ?_
        cases err with
        | none => exact ih
        | some err => exact hk _

theorem keeps_replayLimiters (hb : Below 2 held) {a : Nat} (limiters : List LimiterInfo)
    (hk : ∀ out, Keeps held (k out)) : Keeps held (replayLimiters a limiters k) := by
  induction limiters with
  | nil => exact hk _
  | cons limiter limiters ih =>
      refine keeps_setRateLimiter hb fun out => ?_
      split
      · exact hk _
      · exact ih

theorem keeps_restoreLimiters (hb : Below 2 held) {m : Nat} (keys : List String)
    (hk : ∀ out, Keeps held (k out)) : Keeps held (restoreLimiters m keys k) := by
  induction keys with
  | nil => exact hk _
  | cons key keys ih =>
      refine .read_clean fun n _ => ?_
      split
      · exact ih
      · refine keeps_replayLimiters hb _ fun out => ?_
        split
        · exact hk _
        · exact ih

/-- A new proxy map has no proxies yet. -/
theorem fair_decoded {n : Node} (O : Owned n) (s : Snapshot) :
    discipline.Fair held n ((Server.FSM.decoded s n).getRouterInstance s.routerType) := by
  have hsame : (Server.FSM.decoded s n).getRouterInstance s.routerType = Server.FSM.decoded s n :=
    if_neg fun h => O.router h.1
  rw [hsame]
  have hrelations : ∀ {m p a}, ((Server.FSM.decoded s n).proxyMaps m).relations.lookup p = some a →
      (n.proxyMaps m).relations.lookup p = some a := by
    intro m p a hp
    by_cases hm : m = n.nextMap
    · subst hm
      simp [Server.FSM.decoded] at hp
    · simpa [Server.FSM.decoded, Function.update_of_ne hm] using hp
  exact fair_of ⟨O.router, fun m p a hp => O.relations m p a (hrelations hp)⟩
    (fun m _ hm p a hp => hm p a (hrelations hp))
    fun m _ => ⟨Nat.le_refl _, fun _ _ hback => ⟨hback, rfl, id⟩, fun p a hp => .inl (hrelations hp)⟩

/-- So does `Restore`, which holds the lock of the FSM as `Apply` does. -/
theorem keeps_restore (hb : Below 0 held) {s : Snapshot} {o : Orders} (hk : ∀ out, Keeps held (k out)) :
    Keeps held (restore env s o k) := by
  have hnot : held .fsm = none := Below.not_held hb
  have hb' : Below 2 (Function.update held .fsm (some .write)) := Below.update hb Nat.zero_lt_two
  refine .lock_clean hb <| .set_clean (fun n O => fair_decoded O s) fun n _ => ?_
  refine keeps_restoreLocations (hb'.mono (Nat.le_succ 2)) _ fun out => ?_
  split
  · exact .unlock_clean hnot (hk _)
  · refine keeps_restoreLimiters hb' _ fun out => ?_
    split
    · exact .unlock_clean hnot (hk _)
    · split
      · exact .unlock_clean hnot (hk _)
      · exact .set_clean (fun n O => (quiet_acl n _).fair O) fun _ _ => .unlock_clean hnot (hk _)

end FSM

namespace HttpServer

/-! ### The handlers

None of them has a lock when it hands on its entry, so the lock of the FSM is the first that `Apply` takes.
-/

/-- A handler waits for its entry without holding anything. -/
theorem keeps_writeLogEntry (hb : Below 0 held) {optType : UInt16} {data : δ} {raft : RaftOutcome}
    (hk : ∀ out, Keeps held (k out)) : Keeps held (writeLogEntry env enc optType data raft k) := by
  cases raft with
  | failed err => exact hk _
  | committed received =>
      refine FSM.keeps_apply hb fun out => ?_
      split <;> exact hk _

theorem keeps_replicate (hb : Below 0 held) {optType : UInt16} {data : δ} {raft : RaftOutcome}
    {k : Ending Reply → Call ρ} (hk : ∀ ending, Keeps held (k ending)) (out : Outcome) :
    Keeps held (replicate env enc optType data raft k out) := by
  unfold replicate
  rcases out with fault | _ | err
  · exact hk _
  · refine keeps_writeLogEntry hb fun out => ?_
    split <;> exact hk _
  · exact hk _

theorem keeps_createProxyWithLocation (hb : Below 0 held) {l : Location} {raft : RaftOutcome}
    {k : Ending Unit → Call ρ} (hk : ∀ ending, Keeps held (k ending)) :
    Keeps held (createProxyWithLocation env enc l raft k) := by
  refine .read_clean fun n _ => keeps_addProxyWithLocation (hb.mono (by decide)) fun err => ?_
  cases err with
  | some err => exact hk _
  | none =>
      refine keeps_writeLogEntry hb fun out => ?_
      split <;> exact hk _

/-- Every handler keeps to the discipline. -/
theorem keeps_handle (hb : Below 0 held) {w : Bool} {o : Outside} {k : Ending Reply → Call ρ}
    (hk : ∀ ending, Keeps held (k ending)) (req : AdminRequest) :
    Keeps held (handle env enc w o k req) := by
  cases req with
  | limiter body =>
      show Keeps held (doSetRateLimiter env enc w body o.raft k)
      unfold doSetRateLimiter
      split_ifs
      · exact hk _
      · split
        · exact hk _
        · refine .read_clean fun n _ => ?_
          split
          · exact hk _
          · refine keeps_writeLogEntry hb fun out => ?_
            split
            · exact hk _
            · exact hk _
            · refine keeps_setRateLimiter (hb.mono (by decide)) fun out => ?_
              split <;> exact hk _
  | addProxy body =>
      show Keeps held (doAddProxy env enc w body o.raft k)
      unfold doAddProxy
      split_ifs
      · exact hk _
      · split
        · exact hk _
        · split
          · exact hk _
          · exact hk _
          · refine keeps_createProxyWithLocation hb fun ending => ?_
            split <;> exact hk _
  -- this handler and the next ones have freed their locks when they hand on the entry
  | addHost body =>
      cases body with
      | error err => exact hk _
      | ok req =>
          exact .read_clean fun _ _ => keeps_addProxy (hb.mono (by decide)) (keeps_replicate hb hk)
  | acl body =>
      show Keeps held (doHandleAcl env enc w body o.raft k)
      unfold doHandleAcl
      split_ifs
      · exact hk _
      · split
        · exact hk _
        · next req =>
            refine .set_clean (fun n O => Quiet.fair ?_ O) fun _ _ => keeps_replicate hb hk _
            unfold Server.HttpServer.callAcl
            split
            · exact .refl n
            · exact FSM.quiet_acl n _
  | removeProxy body =>
      cases body with
      | error err => exact hk _
      | ok pattern =>
          exact .read_clean fun _ _ => keeps_removeProxy (hb.mono (by decide)) (keeps_replicate hb hk)
  | removeHost body =>
      cases body with
      | error err => exact hk _
      | ok req => exact .read_clean fun _ _ => keeps_removeHost (keeps_replicate hb hk)
  | changeLb body =>
      cases body with
      | error err => exact hk _
      | ok req =>
          refine .set_clean (fun n O => Quiet.fair ?_ O) fun _ _ => ?_
          · unfold Node.changeLb
            split
            · exact .refl n
            · split
              · exact .refl n
              · dsimp only
                exact .modifyProxy (fun _ => rfl) (fun _ => rfl) fun _ => rfl
          · dsimp only
            split <;> exact hk _

end HttpServer

end Sound

/-! ## The calls on a node

All that is going on at a node is a pool of such programs. As each keeps to the discipline, the general
facts about pools say that somebody can always go on, and that all can be brought to return. -/

/-- What goes on at a node. -/
inductive Job (δ : Type)
  | request (req : Request)
  /-- an admin request; `w` is what `checkWritePermission` says -/
  | admin (w : Bool) (o : Outside) (req : AdminRequest)
  /-- a location of the configuration, in the leader loop -/
  | create (l : Location) (raft : RaftOutcome)
  /-- an entry that is not from this node -/
  | apply (entry : LogEntry δ) (received : Bool)
  | restore (s : Snapshot) (o : Orders)
  /-- a round of a checker -/
  | round (a : Nat) (host : String) (first second : Bool)

inductive Result
  | response (res : Except Fault Response)
  | reply (ending : Ending Reply)
  | created (ending : Ending Unit)
  | outcome (out : Outcome)

section Jobs

variable {δ : Type} {env : Env} {enc : Encoding δ} {n : Node}

def Job.call (env : Env) (enc : Encoding δ) : Job δ → Call Result
  | request req => serveHTTP req fun res => .done (.response res)
  | admin w o req => HttpServer.handle env enc w o (fun ending => .done (.reply ending)) req
  | create l raft =>
      HttpServer.createProxyWithLocation env enc l raft fun ending => .done (.created ending)
  | apply entry received => FSM.apply env enc entry received fun out => .done (.outcome out)
  | restore s o => FSM.restore env s o fun out => .done (.outcome out)
  | round a host first second => healthCheck a host first second fun out => .done (.outcome out)

/-- Every job keeps to the discipline. -/
theorem Job.kept (job : Job δ) : discipline.Kept (job.call env enc) := by
  have hb : Below 0 fun _ => none := fun l hl => absurd rfl hl
  have hdone : ∀ res : Result, Keeps (fun _ => none) (.done res) := fun _ => .done fun _ => rfl
  cases job with
  | request req => exact keeps_serveHTTP (hb.mono (Nat.zero_le 2)) fun _ => hdone _
  | admin w o req => exact HttpServer.keeps_handle hb (fun _ => hdone _) req
  | create l raft => exact HttpServer.keeps_createProxyWithLocation hb fun _ => hdone _
  | apply entry received => exact FSM.keeps_apply hb fun _ => hdone _
  | restore s o => exact FSM.keeps_restore hb fun _ => hdone _
  | round a host first second => exact keeps_healthCheck (hb.mono (Nat.zero_le 2)) fun _ => hdone _

/-- What a job does to a node when it is the only one. -/
def Job.on (env : Env) (enc : Encoding δ) (n : Node) : Job δ → Result × Node
  | request req =>
      let res := n.serveHTTP req
      (.response res.1, res.2)
  | admin w o req =>
      let res := (⟨w, n, []⟩ : Server.HttpServer δ).handle env enc o req
      (.reply res.1, res.2.state)
  | create l raft =>
      let res := (⟨false, n, []⟩ : Server.HttpServer δ).createProxyWithLocation env enc l raft
      (.created res.1, res.2.state)
  | apply entry received =>
      let res := Server.FSM.apply env enc n entry received
      (.outcome res.1, res.2)
  | restore s o =>
      let res := Server.FSM.restore env s o n
      (.outcome res.1, res.2)
  | round a host first second =>
      match (n.proxies a).healthCheck host first second with
      | .error fault => (.outcome (.error fault), n.modifyProxy a fun h => h.setAlive host false)
      | .ok h => (.outcome (.ok none), n.modifyProxy a fun _ => h)

/-- Alone, a job does what its definition on nodes says. -/
theorem Job.alone_call (hremoves : ∀ pattern, Removes n pattern) (job : Job δ) :
    (job.call env enc).alone n = some (job.on env enc n) := by
  unfold Job.call Job.on
  cases job with
  | request req => exact (alone_serveHTTP req _).trans rfl
  | admin w o req => exact (HttpServer.alone_handle (h := ⟨w, n, []⟩) hremoves).trans rfl
  | create l raft => exact (HttpServer.alone_createProxyWithLocation (h := ⟨false, n, []⟩)).trans rfl
  | apply entry received => exact (FSM.alone_apply fun _ => hremoves _).trans rfl
  | restore s o => exact (FSM.alone_restore s o).trans rfl
  | round a host first second =>
      dsimp only
      rw [alone_healthCheck]
      cases (n.proxies a).healthCheck host first second <;> rfl

/-! ### All calls return

Of the initial state nothing is asked but that its proxies are those of its own proxy map and that their
checkers wait (`Owned`), as on a node that has just been made. -/

/-- However the calls on a node get on: in every state somebody can go on unless all have returned, also
where readers wait for those that want to write, and from there all can be brought to return; and once they
have returned, whatever is done next and alone comes to its end as its definition on nodes says. -/
theorem calls_return {es : List (Event Node Mutex Result)} {p : Pool Node Mutex Result} (O : Owned n)
    (hremovable : ∀ m, Removable m n)
    (hjobs : ∀ prog, .call prog ∈ es → ∃ job : Job δ, prog = job.call env enc)
    (hrun : Trace Pool.Step ⟨n, []⟩ es p) :
    (p.Returned ∨ ∃ i, p.Able i) ∧
    (∃ es' p', (∀ e ∈ es', ∃ i, e = .step i) ∧ Trace Pool.Step p es' p' ∧ p'.Returned) ∧
    (p.Returned → ∀ job : Job δ, ∃ es',
      Trace Pool.Step ⟨p.state, [⟨fun _ => none, job.call env enc⟩]⟩ es'
        ⟨(job.on env enc p.state).2, [⟨fun _ => none, .done (job.on env enc p.state).1⟩]⟩) := by
  have hidle : discipline.Good (⟨n, []⟩ : Pool Node Mutex Result) := by
    refine .idle O fun l => ?_
    cases l <;> first | exact hremovable _ | trivial
  have hgood : discipline.Good p := hidle.run (fun prog hmem => by
    obtain ⟨job, rfl⟩ := hjobs prog hmem
    exact job.kept) hrun
  refine ⟨hgood.progress, hgood.returns, fun hreturned job => ?_⟩
  -- nobody has a lock any more
  have hguarded : ∀ l, discipline.guarded l p.state := by
    refine fun l => hgood.guarded l fun i t hi hheld => ?_
    obtain ⟨r, hdone⟩ := hreturned i t hi
    rw [hgood.unheld hi hdone l] at hheld
    cases hheld
  -- with all locks free, the guarded state is fit, so no removal waits in vain
  have hremoves : ∀ pattern, Removes p.state pattern :=
    fun pattern => removes_of_lookup (hguarded (.proxyMap p.state.proxyMap) pattern)
  obtain ⟨r, s, es', halone, hrun⟩ :=
    Discipline.Sound.returns job.kept hgood.inv (fun l hl => by cases hl) fun l _ => hguarded l
  rw [job.alone_call hremoves] at halone
  have hon : job.on env enc p.state = (r, s) := Option.some.inj halone
  rw [hon]
  exact ⟨es', hrun⟩

/-! ### Two calls at work

Raft applies the entry that creates a proxy while a request removes it again. -/

def createJob : Job Payload := .apply createApi true

def removeJob : Job Payload := .admin true ⟨.committed true, true, []⟩ (.removeProxy (.ok "/api"))

/-- In surroundings to try things in. -/
def tryCall (job : Job Payload) : Call Result := job.call Env.plain Payload.encoding

/-- Where nobody has the lock, it is granted. -/
theorem grants_of_two {s : Node} {t u : Thread Node Mutex Result} {mode : Mode} {l : Mutex}
    (ht : t.held l = none) (hu : u.held l = none) : Pool.Grants ⟨s, [t, u]⟩ mode l := by
  intro i v hi
  have hmem := List.mem_of_getElem? hi
  simp only [List.mem_cons, List.not_mem_nil, or_false] at hmem
  rcases hmem with rfl | rfl
  · exact .inl ht
  · exact .inl hu

theorem returned_of_two {s : Node} {t u : Thread Node Mutex Result} (ht : ∃ r, t.prog = .done r)
    (hu : ∃ r, u.prog = .done r) : Pool.Returned ⟨s, [t, u]⟩ := by
  intro i v hi
  have hmem := List.mem_of_getElem? hi
  simp only [List.mem_cons, List.not_mem_nil, or_false] at hmem
  rcases hmem with rfl | rfl
  · exact ht
  · exact hu

/-- Raft creates the proxy and a request removes it, and both have returned; then it can be created
anew. -/
theorem calls_return_both : ∃ es p, Trace Pool.Step ⟨Node.new, []⟩ es p ∧
    .call (tryCall createJob) ∈ es ∧ .call (tryCall removeJob) ∈ es ∧ p.Returned ∧
    p.state.nextProxy = 1 ∧ p.state.current.relations.lookup "/api" = none ∧ ∃ es',
      Trace Pool.Step ⟨p.state, [⟨fun _ => none, tryCall createJob⟩]⟩ es'
        ⟨(createJob.on Env.plain Payload.encoding p.state).2, [⟨fun _ => none, .done (.outcome (.ok none))⟩]⟩ := by
  have owned : Owned Node.new := ⟨by decide, fun m p a hp => by cases hp⟩
  have hrun : Trace Pool.Step ⟨Node.new, []⟩
      ([] ++ [.call (tryCall createJob)] ++ [.call (tryCall removeJob)])
      ⟨Node.new, [⟨fun _ => none, tryCall createJob⟩, ⟨fun _ => none, tryCall removeJob⟩]⟩ :=
    .snoc (.snoc .nil (.call _)) (.call _)
  -- raft goes first
  have hrun := hrun.snoc (.lock (i := 0) rfl (grants_of_two rfl rfl))
  have hrun := hrun.snoc (.act (i := 0) rfl rfl)
  have hrun := hrun.snoc (.lock (i := 0) rfl (grants_of_two rfl rfl))
  have hrun := hrun.snoc (.act (i := 0) rfl rfl)
  have hrun := hrun.snoc (.act (i := 0) rfl rfl)
  have hrun := hrun.snoc (.act (i := 0) rfl rfl)
  have hrun := hrun.snoc (.lock (i := 0) rfl (grants_of_two rfl rfl))
  have hrun := hrun.snoc (.act (i := 0) rfl rfl)
  have hrun := hrun.snoc (.unlock (i := 0) rfl)
  have hrun := hrun.snoc (.unlock (i := 0) rfl)
  have hrun := hrun.snoc (.unlock (i := 0) rfl)
  -- the entry is applied, and the request comes to its turn
  have hrun := hrun.snoc (.act (i := 1) rfl rfl)
  have hrun := hrun.snoc (.lock (i := 1) rfl (grants_of_two rfl rfl))
  have hrun := hrun.snoc (.act (i := 1) rfl rfl)
  have hrun := hrun.snoc (.act (i := 1) rfl rfl)
  have hrun := hrun.snoc (.act (i := 1) rfl rfl)
  have hrun := hrun.snoc (.lock (i := 1) rfl (grants_of_two rfl rfl))
  have hrun := hrun.snoc (.act (i := 1) rfl rfl)
  have hrun := hrun.snoc (.unlock (i := 1) rfl)
  have hrun := hrun.snoc (.act (i := 1) rfl rfl)
  have hrun := hrun.snoc (.unlock (i := 1) rfl)
  have hrun := hrun.snoc (.lock (i := 1) rfl (grants_of_two rfl rfl))
  have hrun := hrun.snoc (.act (i := 1) rfl rfl)
  have hrun := hrun.snoc (.lock (i := 1) rfl (grants_of_two rfl rfl))
  have hrun := hrun.snoc (.act (i := 1) rfl rfl)
  have hrun := hrun.snoc (.unlock (i := 1) rfl)
  have hrun := hrun.snoc (.unlock (i := 1) rfl)
  refine ⟨_, _, hrun, by simp, by simp, ?_⟩
  refine ⟨returned_of_two ⟨_, rfl⟩ ⟨_, rfl⟩, rfl, by decide, ?_⟩
  refine (calls_return owned (fun m p a hp => by cases hp) (fun prog hmem => ?_) hrun).2.2
    (returned_of_two ⟨_, rfl⟩ ⟨_, rfl⟩) createJob
  simp only [List.nil_append, List.cons_append, List.mem_cons, Event.call.injEq, List.not_mem_nil,
    or_false, reduceCtorEq] at hmem
  rcases hmem with rfl | rfl
  · exact ⟨createJob, rfl⟩
  · exact ⟨removeJob, rfl⟩

end Jobs

end Cheryl.Server.Locking
