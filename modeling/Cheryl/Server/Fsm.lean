import Cheryl.Acl.Record
import Cheryl.Server.LogEntry

/-!
# `cheryl/fsm.go`: the replicated state machine
-/

namespace Cheryl.Server

open ReverseProxy Acl

namespace FSM

variable {δ : Type}

/-! ## Entries

`Apply` has a case for each operation. Each case decodes its data, looks up what it is about, and calls into
the packages. A result is an `error` that raft hands to whoever wrote the entry; a panic is in the goroutine
that applies the log, and nobody recovers it. -/

def httpProxyNotExistsError : GoError := ⟨"HttpProxy not exists"⟩

/-- `doNewHttpProxy`. A pattern that is there already is left alone, and a proxy that cannot be
made is only logged. -/
def doNewHttpProxy (env : Env) (enc : Encoding δ) (n : Node) (data : δ) : Outcome × Node :=
  match enc.location.unmarshal data with
  | .error err => (.ok (some err), n)
  | .ok l =>
      match n.current.relations.lookup l.pattern with
      | some _ => (.ok none, n)
      | none =>
          match n.addProxyWithLocation env l with
          | (.error fault, n) => (.error fault, n)
          | (.ok _, n) => (.ok none, n)

def doSetRateLimiter (enc : Encoding δ) (n : Node) (data : δ) : Outcome × Node :=
  match enc.limiterInfo.unmarshal data with
  | .error err => (.ok (some err), n)
  | .ok info =>
      match n.current.relations.lookup info.Prefix with
      | none => (.ok (some httpProxyNotExistsError), n)
      | some httpProxy => n.setRateLimiter httpProxy info

def doHandleAcl (enc : Encoding δ) (n : Node) (data : δ) : Outcome × Node :=
  match enc.aclLog.unmarshal data with
  | .error err => (.ok (some err), n)
  | .ok aclLog =>
      match switchAcl n.acl aclLog with
      | .error fault => (.error fault, n)
      | .ok (err, t) => (.ok err, { n with acl := t })

def doRemoveProxy (enc : Encoding δ) (n : Node) (data : δ) : Outcome × Node :=
  n.removeProxy (enc.string data)

def doRemoveHost (enc : Encoding δ) (n : Node) (data : δ) (received : Bool) : Outcome × Node :=
  match enc.hostLog.unmarshal data with
  | .error err => (.ok (some err), n)
  | .ok log => n.removeHost log.pattern log.host received

def doAddHost (env : Env) (enc : Encoding δ) (n : Node) (data : δ) : Outcome × Node :=
  match enc.hostLog.unmarshal data with
  | .error err => (.ok (some err), n)
  | .ok log => n.addProxy env log.pattern log.host

/-- `Apply`. `received` is for the `RemoveHost` it may come to. -/
def apply (env : Env) (enc : Encoding δ) (n : Node) (entry : LogEntry δ) (received : Bool) :
    Outcome × Node :=
  if entry.opt = 1 then doNewHttpProxy env enc n entry.data
  else if entry.opt = 2 then doSetRateLimiter enc n entry.data
  else if entry.opt = 3 then doHandleAcl enc n entry.data
  else if entry.opt = 4 then doRemoveProxy enc n entry.data
  else if entry.opt = 5 then doRemoveHost enc n entry.data received
  else if entry.opt = 6 then doAddHost env enc n entry.data
  else (.ok none, n)

end FSM

/-! ## Snapshots

A snapshot is JSON text of the proxy map and the access list, in which the proxies themselves are missing:
`Relations` is not exported to it, and `Restore` makes new proxies of the locations. The encoder is taken to
be faithful, so the model passes on the records. The loops of `Restore` range over maps, each in an order of
its own. -/

/-- `snapshot`, as persisted: of the proxy map all but `Relations`, of the tree only `Record`. -/
structure Snapshot where
  locations : GoMap String Location
  limiters : GoMap String (List LimiterInfo)
  routerType : String
  record : Finset String

/-- The orders in which the three loops of `Restore` visit their maps. -/
structure Orders where
  locations : List String
  limiters : List String
  record : List String

/-- The orders are those of the maps in the snapshot. -/
structure Orders.Of (o : Orders) (s : Snapshot) : Prop where
  locations : RangeOrder s.locations o.locations
  limiters : RangeOrder s.limiters o.limiters
  record_nodup : o.record.Nodup
  mem_record : ∀ key, key ∈ o.record ↔ key ∈ s.record

namespace FSM

/-- `Snapshot`, persisted at once. -/
def snapshot (n : Node) : Snapshot :=
  ⟨n.current.locations, n.current.limiters, n.current.routerType, n.acl.record⟩

def restoreLocations (env : Env) : List String → Node → Outcome × Node
  | [], n => (.ok none, n)
  | key :: keys, n =>
      match n.current.locations.lookup key with
      | none => restoreLocations env keys n
      | some l =>
          match n.addProxyWithLocation env l with
          | (.error fault, n) => (.error fault, n)
          | (.ok (some _), n) => (.error .exit, n)
          | (.ok none, n) => restoreLocations env keys n

/-- `SetRateLimiter` for each recorded limiter of a proxy; errors are dropped. -/
def replayLimiters (a : Nat) : List LimiterInfo → Node → Outcome × Node
  | [], n => (.ok none, n)
  | limiter :: limiters, n =>
      match n.setRateLimiter a limiter with
      | (.error fault, n) => (.error fault, n)
      | (.ok _, n) => replayLimiters a limiters n

/-- The second loop of `Restore`. The list of a pattern is read before `SetRateLimiter` appends
to it. -/
def restoreLimiters : List String → Node → Outcome × Node
  | [], n => (.ok none, n)
  | key :: keys, n =>
      match n.current.relations.lookup key with
      | none => restoreLimiters keys n
      | some httpProxy =>
          match replayLimiters httpProxy ((n.current.limiters.lookup key).getD []) n with
          | (.error fault, n) => (.error fault, n)
          | (.ok _, n) => restoreLimiters keys n

/-- The proxy map a snapshot decodes to, with a new `Relations`. -/
def decoded (s : Snapshot) (n : Node) : Node :=
  { n with
    proxyMaps := Function.update n.proxyMaps n.nextMap ⟨∅, s.locations, s.limiters, s.routerType⟩
    nextMap := n.nextMap + 1
    proxyMap := n.nextMap }

/-- `Restore`, with a snapshot that decodes. -/
def restore (env : Env) (s : Snapshot) (o : Orders) (n : Node) : Outcome × Node :=
  match restoreLocations env o.locations ((decoded s n).getRouterInstance s.routerType) with
  | (.error fault, n) => (.error fault, n)
  | (.ok _, n) =>
      match restoreLimiters o.limiters n with
      | (.error fault, n) => (.error fault, n)
      | (.ok _, n) =>
          match RadixTree.new.restore o.record with
          | .error fault => (.error fault, n)
          | .ok t => (.ok none, { n with acl := t })

end FSM

end Cheryl.Server
