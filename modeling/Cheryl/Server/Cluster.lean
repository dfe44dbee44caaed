import Cheryl.Server.Admin

/-!
# A leader and a follower

The leader handles requests one after the other, and raft commits their entries; an entry has been
applied on the leader when its request is answered. The follower applies the entries in the order of
the log, some time later.
-/

namespace Cheryl.Server

open Library ReverseProxy Acl

/-- The leader with the log, and the follower, which has applied the first `applied` entries. -/
structure Cluster (δ : Type) where
  leader : HttpServer δ
  follower : Node
  applied : Nat

namespace Cluster

variable {δ : Type} {env : Env} {enc : Encoding δ}

inductive Action
  /-- the leader handles a request -/
  | request (o : Outside) (req : AdminRequest)
  /-- the follower applies the next entry -/
  | deliver (received : Bool)

inductive Step (env : Env) (enc : Encoding δ) : Cluster δ → Action → Cluster δ → Prop
  | request {c : Cluster δ} {o : Outside} {req : AdminRequest} {ending : Ending Reply}
      {leader : HttpServer δ} (commits : ∃ received, o.raft = .committed received)
      (h : c.leader.handle env enc o req = (ending, leader)) (up : ∀ fault, ending ≠ .down fault) :
      Step env enc c (.request o req) { c with leader := leader }
  | deliver {c : Cluster δ} {received : Bool} {entry : LogEntry δ} {ret : Option GoError} {n : Node}
      (next : c.leader.committed[c.applied]? = some entry)
      (h : FSM.apply env enc c.follower entry received = (.ok ret, n)) :
      Step env enc c (.deliver received) { c with follower := n, applied := c.applied + 1 }

def start (leader follower : Node) : Cluster δ := ⟨⟨true, leader, []⟩, follower, 0⟩

/-- The follower has applied every entry. -/
def Quiet (c : Cluster δ) : Prop := c.applied = c.leader.committed.length

end Cluster

/-! ## What a handler does to the leader

A handler that comes to its end has left the leader unchanged, or has made one change and had one entry
committed, which was then applied to the changed state. The proofs about replicas start from there. -/

section Handled

variable {δ : Type} {env : Env} {enc : Encoding δ} {h h' : HttpServer δ} {optType : UInt16} {data : δ}
  {received : Bool} {ending : Ending Reply}

/-- A handler that changes the node first, and then has its entry committed and applied. -/
structure Replicated (env : Env) (enc : Encoding δ) (h h' : HttpServer δ) (change : Change)
    (entry : LogEntry δ) (received : Bool) (n : Node) : Prop where
  changed : Changed env h.state n change
  applied : FSM.Applied env enc n entry received h'.state
  committed : h'.committed = h.committed ++ [entry]

/-- Nothing was changed and nothing committed. -/
structure Unchanged (h h' : HttpServer δ) : Prop where
  state : h'.state = h.state
  committed : h'.committed = h.committed

/-- An entry that raft commits has been applied on the leader when the call returns. -/
theorem writeLogEntry_committed {h : HttpServer δ} {out : Outcome} (R : Ready h.state)
    (heq : h.writeLogEntry env enc optType data (.committed received) = (out, h'))
    (up : ∀ fault, out ≠ .error fault) :
    out = .ok none ∧ FSM.Applied env enc h.state ⟨optType, data⟩ received h'.state ∧
      h'.committed = h.committed ++ [⟨optType, data⟩] := by
  simp only [HttpServer.writeLogEntry] at heq
  rcases happly : FSM.apply env enc h.state ⟨optType, data⟩ received with ⟨fault | ret, n⟩ <;>
    rw [happly] at heq <;> cases heq
  · exact absurd rfl (up fault)
  · exact ⟨rfl, FSM.apply_spec R happly, rfl⟩

/-- The end of most handlers: no change, or the change of the call and then its entry. -/
theorem mutateAndReplicate_spec {call : Outcome × Node} {change : Change}
    (hcall : (call.2 = h.state ∧ call.1 ≠ .ok none) ∨ Changed env h.state call.2 change ∧
      call.1 = .ok none)
    (heq : h.mutateAndReplicate env enc call optType data (.committed received) = (ending, h'))
    (up : ∀ fault, ending ≠ .down fault) :
    Unchanged h h' ∨ (call.1 = .ok none ∧ Replicated env enc h h' change ⟨optType, data⟩ received call.2) := by
  obtain ⟨out, n⟩ := call
  rcases hcall with ⟨hsame, hout⟩ | ⟨hchanged, hout⟩
  -- the call has failed, so there is no entry
  · obtain rfl : n = h.state := hsame
    rcases out with fault | _ | err
    · cases heq
      exact .inl ⟨rfl, rfl⟩
    · exact absurd rfl hout
    · cases heq
      exact .inl ⟨rfl, rfl⟩
  · obtain rfl : out = .ok none := hout
    rcases hwrite : (h.withState n).writeLogEntry env enc optType data (.committed received) with
      ⟨out, h₁⟩
    simp only [HttpServer.mutateAndReplicate, hwrite] at heq
    rcases out with fault | _ | err
    · cases heq
      exact absurd rfl (up fault)
    · cases heq
      obtain ⟨-, happlied, hcommitted⟩ :=
        writeLogEntry_committed (h := h.withState n) hchanged.ready hwrite (fun _ h => by cases h)
      exact .inr ⟨rfl, hchanged, happlied, hcommitted⟩
    -- what raft commits is never reported as refused
    · obtain ⟨hnone, -⟩ :=
        writeLogEntry_committed (h := h.withState n) hchanged.ready hwrite (fun _ h => by cases h)
      cases hnone

end Handled

end Cheryl.Server
