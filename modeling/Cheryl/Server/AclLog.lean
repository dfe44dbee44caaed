import Cheryl.Acl.Texts

/-!
# The two readings of an `AclLog`

`cheryl/http_server.go` and `cheryl/fsm.go` each have a `doHandleAcl`. The handler runs its switch
on the leader before the entry is replicated, the state machine runs its own on every node after.
-/

namespace Cheryl.Server

open Acl

structure AclLog where
  pattern : UInt8
  ipAddress : String
  deriving DecidableEq, Repr

/-- The switch of `HttpServer.doHandleAcl`. -/
def HttpServer.switchAcl (t : RadixTree) (req : AclLog) :
    Except Fault (Option GoError × RadixTree) :=
  if req.pattern = 0 then t.Delete req.ipAddress else t.add req.ipAddress req.ipAddress

def FSM.switchAcl (t : RadixTree) (aclLog : AclLog) : Except Fault (Option GoError × RadixTree) :=
  if aclLog.pattern = 0 then t.Delete aclLog.ipAddress
  else if aclLog.pattern = 1 then t.add aclLog.ipAddress aclLog.ipAddress
  else .ok (none, t)

theorem HttpServer.switchAcl_error {t t' : RadixTree} {req : AclLog} {err : GoError}
    (h : HttpServer.switchAcl t req = .ok (some err, t')) : t' = t := by
  unfold HttpServer.switchAcl at h
  split at h
  · exact RadixTree.Delete_error h
  · exact RadixTree.add_error h

/-- The readings agree on the two patterns both know. -/
theorem FSM.switchAcl_eq {a : AclLog} (h : a.pattern = 0 ∨ a.pattern = 1) (t : RadixTree) :
    FSM.switchAcl t a = HttpServer.switchAcl t a := by
  rcases h with h | h <;> simp [FSM.switchAcl, HttpServer.switchAcl, h]

end Cheryl.Server
