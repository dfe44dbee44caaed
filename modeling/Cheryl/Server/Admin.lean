import Cheryl.Library.Trace
import Cheryl.Server.HttpServer
import Cheryl.Server.Run

/-!
# Admin requests on one node

A node that raft notifies of its leadership, handles admin requests, applies entries and restores
snapshots. A request is all or nothing when a failure leaves the node as it was and a success means
that its entry was committed; only the leader writes when a request handled while the node is not
the leader changes nothing. Both hold of every request that the local call turns down
(`Rejected`); where they hold beyond that is said by `Replicated` and `Guarded`.
-/

namespace Cheryl.Server

open Library ReverseProxy Acl RateLimit

/-! ## Requests

A handler turns a request away because of its body, of the write flag, or of what the local call says. The
last of these is `Rejected`; it is read off the node before the request. -/

/-- The local call of the handler turns the request down. -/
def AdminRequest.Rejected (env : Env) (n : Node) (o : Outside) : AdminRequest → Prop
  | .limiter body => ∀ info, body = .ok info →
      n.current.relations.lookup info.Prefix = none ∨ info.limiterType ≠ "qps"
  | .addProxy body => ∀ l, body = .ok l →
      HttpServer.validLocation l ≠ .ok none ∨ ¬ l.Constructible env
  | .addHost body => ∀ req, body = .ok req →
      n.current.relations.lookup req.pattern = none ∨ ∃ err, env.parse req.host = .error err
  | .acl body => ∀ req, body = .ok req → ∀ t, HttpServer.switchAcl n.acl req ≠ .ok (none, t)
  | .removeProxy body => ∀ pattern, body = .ok pattern → n.current.relations.lookup pattern = none
  | .removeHost body => ∀ req, body = .ok req → ∀ a, n.current.relations.lookup req.pattern = some a →
      ¬ (o.received = true ∧ req.host ∈ (n.proxies a).hostsShutDown)
  | .changeLb body => ∀ req, body = .ok req →
      n.current.relations.lookup req.Prefix = none ∨
        ∃ err, Balancer.build env.toEnv req.lb o.order = .error err

/-- The handlers that look at the write flag. -/
def AdminRequest.Gated : AdminRequest → Prop
  | .limiter _ => True
  | .addProxy _ => True
  | .acl _ => True
  | _ => False

namespace HttpServer

variable {δ : Type} {env : Env} {enc : Encoding δ} {h : HttpServer δ} {o : Outside}

/-! ## What a handler comes to

Seven handlers, and five ways to end: `Handles` lists these, with what each has called, so that the proofs
about requests go by its cases and unfold no handler. -/

def answer (text : GoError → String) : Outcome → Ending Reply
  | .error fault => .panicked fault
  | .ok (some err) => .returned (.error (text err))
  | .ok none => .returned .ok

/-- The call with which a handler begins that makes its change first, and what it replicates then. -/
inductive LocalCall (env : Env) (enc : Encoding δ) (n : Node) (received : Bool) :
    AdminRequest → Outcome × Node → UInt16 → δ → Prop
  | addHost {req : HostLog} : LocalCall env enc n received (.addHost (.ok req))
      (n.addProxy env req.pattern req.host) 6 (enc.hostLog.marshal req)
  | acl {req : AclLog} : LocalCall env enc n received (.acl (.ok req)) (callAcl n req) 3
      (enc.aclLog.marshal req)
  | removeProxy {pattern : String} : LocalCall env enc n received (.removeProxy (.ok pattern))
      (n.removeProxy pattern) 4 (enc.bytes pattern)
  | removeHost {req : HostLog} : LocalCall env enc n received (.removeHost (.ok req))
      (n.removeHost req.pattern req.host received) 5 (enc.hostLog.marshal req)

/-- How `/limiter` goes on after `writeLogEntry`: it ends there, or sets the limiter again. -/
inductive LimiterSet (a : Nat) (info : LimiterInfo) (h : HttpServer δ) :
    Outcome → Ending Reply × HttpServer δ → Prop
  | down {fault : Fault} : LimiterSet a info h (.error fault) (.down fault, h)
  | refused {err : GoError} : LimiterSet a info h (.ok (some err)) (.returned (cantApply err), h)
  | set {out : Outcome} {n : Node} (hset : h.state.setRateLimiter a info = (out, n)) :
      LimiterSet a info h (.ok none) (answer (fun err => "can't set the " ++ info.Prefix ++
        info.pathName ++ " RateLimiter: " ++ err.text) out, h.withState n)

/-- How `/addProxy` is answered after `createProxyWithLocation`. -/
inductive Created (h : HttpServer δ) : Ending Unit → Ending Reply × HttpServer δ → Prop
  | returned : Created h (.returned ()) (.returned .ok, h)
  | panicked {fault : Fault} : Created h (.panicked fault) (.panicked fault, h)
  | down {fault : Fault} : Created h (.down fault) (.down fault, h)

/-- What a handler comes to: how it ends, and the server it leaves. -/
inductive Handles (env : Env) (enc : Encoding δ) (h : HttpServer δ) (o : Outside) :
    AdminRequest → Ending Reply × HttpServer δ → Prop
  /-- nothing is called -/
  | turnedAway {req : AdminRequest} {ending : Ending Reply} (notOk : ending ≠ .returned .ok)
      (up : ∀ fault, ending ≠ .down fault) : Handles env enc h o req (ending, h)
  | limiter {info : LimiterInfo} {a : Nat} {out : Outcome} {h' : HttpServer δ}
      {res : Ending Reply × HttpServer δ} (flag : h.enableWrite = true)
      (hp : h.state.current.relations.lookup info.Prefix = some a)
      (hwrite : h.writeLogEntry env enc 2 (enc.limiterInfo.marshal info) o.raft = (out, h'))
      (hset : LimiterSet a info h' out res) : Handles env enc h o (.limiter (.ok info)) res
  | addProxy {l : Location} {ending : Ending Unit} {h' : HttpServer δ}
      {res : Ending Reply × HttpServer δ} (flag : h.enableWrite = true)
      (valid : validLocation l = .ok none)
      (hcreate : h.createProxyWithLocation env enc l o.raft = (ending, h'))
      (hcreated : Created h' ending res) : Handles env enc h o (.addProxy (.ok l)) res
  | replicated {req : AdminRequest} {call : Outcome × Node} {optType : UInt16} {data : δ}
      (flag : req.Gated → h.enableWrite = true)
      (hcall : LocalCall env enc h.state o.received req call optType data) :
      Handles env enc h o req (h.mutateAndReplicate env enc call optType data o.raft)
  | changeLb {req : ChangeLbReq} {out : Outcome} {n : Node}
      (hcall : h.state.changeLb env req.Prefix req.lb o.order = (out, n)) :
      Handles env enc h o (.changeLb (.ok req)) (answer GoError.text out, h.withState n)

/-- Every handler comes to one of these. -/
theorem handle_handles (env : Env) (enc : Encoding δ) (h : HttpServer δ) (o : Outside)
    (req : AdminRequest) : Handles env enc h o req (h.handle env enc o req) := by
  have away : ∀ {req r}, r ≠ Reply.ok → Handles env enc h o req (.returned r, h) :=
    fun hr => .turnedAway (fun hok => hr (by cases hok; rfl)) fun fault hdown => by cases hdown
  have hflag : ¬ h.checkWritePermission = false → h.enableWrite = true := by
    simp [checkWritePermission]
  -- handler by handler, down its branches
  cases req with
  | limiter body =>
      show Handles env enc h o _ (h.doSetRateLimiter env enc body o.raft)
      unfold doSetRateLimiter
      split
      · exact away (by simp [notAllowed])
      · next hcheck =>
          split
          · exact away (by simp [cantReceive])
          · next info =>
              split
              · exact away (by simp)
              · next a hp =>
                  have flag := hflag hcheck
                  rcases hwrite : h.writeLogEntry env enc 2 (enc.limiterInfo.marshal info) o.raft with
                    ⟨fault | _ | err, h'⟩
                  · exact .limiter flag hp hwrite .down
                  · simp only
                    rcases hset : h'.state.setRateLimiter a info with ⟨fault | _ | err, n⟩ <;>
                      exact .limiter flag hp hwrite (.set hset)
                  · exact .limiter flag hp hwrite .refused
  | addProxy body =>
      show Handles env enc h o _ (h.doAddProxy env enc body o.raft)
      unfold doAddProxy
      split
      · exact away (by simp [notAllowed])
      · next hcheck =>
          split
          · exact away (by simp [cantReceive])
          · next l =>
              split
              · exact .turnedAway (by simp) (by simp)
              · exact away (by simp)
              · next valid =>
                  have flag := hflag hcheck
                  rcases hcreate : h.createProxyWithLocation env enc l o.raft with
                    ⟨_ | fault | fault, h'⟩
                  · exact .addProxy flag valid hcreate .returned
                  · exact .addProxy flag valid hcreate .panicked
                  · exact .addProxy flag valid hcreate .down
  | addHost body =>
      cases body with
      | error err => exact away (by simp [cantReceive])
      | ok req => exact .replicated (fun hgated => hgated.elim) .addHost
  | acl body =>
      show Handles env enc h o _ (h.doHandleAcl env enc body o.raft)
      unfold doHandleAcl
      split
      · exact away (by simp [notAllowed])
      · next hcheck =>
          split
          · exact away (by simp)
          · exact .replicated (fun _ => hflag hcheck) .acl
  | removeProxy body =>
      cases body with
      | error err => exact away (by simp [cantReceive])
      | ok pattern => exact .replicated (fun hgated => hgated.elim) .removeProxy
  | removeHost body =>
      cases body with
      | error err => exact away (by simp [cantReceive])
      | ok req => exact .replicated (fun hgated => hgated.elim) .removeHost
  | changeLb body =>
      cases body with
      | error err => exact away (by simp [cantReceive])
      | ok req =>
          show Handles env enc h o _ (h.doChangeLb env (.ok req) o.order)
          simp only [doChangeLb]
          rcases hcall : h.state.changeLb env req.Prefix req.lb o.order with ⟨fault | _ | err, n⟩ <;>
            exact .changeLb hcall

/-! ## Requests that are turned down

A request that the local call turns down ends before anything is written, with one exception: `/limiter` has
its entry committed before it asks the node, but the entry of an unknown limiter is applied without effect.
-/

/-- Nothing has changed, and the client was not told `Ok`. -/
def Untouched (h : HttpServer δ) (res : Ending Reply × HttpServer δ) : Prop :=
  res.2.state = h.state ∧ res.1 ≠ .returned .ok

theorem mutateAndReplicate_rejected {call : Outcome × Node} {optType : UInt16} {data : δ}
    {raft : RaftOutcome} (hcall : call.1 ≠ .ok none) (hsame : call.2 = h.state) :
    Untouched h (h.mutateAndReplicate env enc call optType data raft) := by
  obtain ⟨out, n⟩ := call
  obtain rfl : n = h.state := hsame
  rcases out with fault | _ | err
  · exact ⟨rfl, fun hok => by cases hok⟩
  · exact absurd rfl hcall
  · exact ⟨rfl, fun hok => by cases hok⟩

/-- An entry for a limiter of an unknown type is applied without effect. -/
theorem writeLogEntry_unsupported {raft : RaftOutcome} {info : LimiterInfo} {a : Nat} {out : Outcome}
    {h' : HttpServer δ} (hp : h.state.current.relations.lookup info.Prefix = some a)
    (hqps : info.limiterType ≠ "qps")
    (hwrite : h.writeLogEntry env enc 2 (enc.limiterInfo.marshal info) raft = (out, h')) :
    (∀ fault, out ≠ .error fault) ∧ h'.state = h.state := by
  cases raft with
  | failed err =>
      cases hwrite
      exact ⟨by simp, rfl⟩
  | committed received =>
      have happly : FSM.apply env enc h.state ⟨2, enc.limiterInfo.marshal info⟩ received =
          (.ok (some limiterTypeNotSupportedError), h.state) := by
        have hbuild : RateLimit.build info.limiterType = .error limiterTypeNotSupportedError :=
          if_neg hqps
        show FSM.doSetRateLimiter enc h.state (enc.limiterInfo.marshal info) = _
        simp only [FSM.doSetRateLimiter, enc.limiterInfo.unmarshal_marshal, hp,
          setRateLimiter_error hbuild]
      simp only [writeLogEntry, happly] at hwrite
      cases hwrite
      exact ⟨by simp, rfl⟩

theorem LocalCall.rejected {n : Node} {req : AdminRequest} {call : Outcome × Node} {optType : UInt16}
    {data : δ} (hcall : LocalCall env enc n o.received req call optType data)
    (hr : req.Rejected env n o) : call.1 ≠ .ok none ∧ call.2 = n := by
  cases hcall with
  | @addHost req =>
      unfold Node.addProxy
      rcases hr req rfl with hnone | ⟨err, hurl⟩
      · rw [hnone]
        exact ⟨by simp, rfl⟩
      · split
        · exact ⟨by simp, rfl⟩
        · rw [hurl]
          exact ⟨by simp, rfl⟩
  | @acl req =>
      unfold callAcl
      rcases hswitch : switchAcl n.acl req with fault | ⟨_ | err, t⟩
      · exact ⟨by simp, rfl⟩
      -- the tree would have made the change
      · exact absurd hswitch (hr req rfl t)
      · refine ⟨by simp, ?_⟩
        rw [switchAcl_error hswitch]
  | @removeProxy pattern =>
      unfold Node.removeProxy
      rw [hr pattern rfl]
      exact ⟨by simp, rfl⟩
  | @removeHost req =>
      unfold Node.removeHost
      split
      · exact ⟨by simp, rfl⟩
      · next a ha =>
          rw [if_neg (hr req rfl a ha)]
          exact ⟨by simp, rfl⟩

/-- A request that is turned down changes nothing. -/
theorem handle_rejected {req : AdminRequest} (hr : req.Rejected env h.state o) :
    Untouched h (h.handle env enc o req) := by
  have hhandles := handle_handles env enc h o req
  generalize h.handle env enc o req = res at hhandles ⊢
  cases hhandles with
  | turnedAway notOk up => exact ⟨rfl, notOk⟩
  | @limiter info a out h' res flag hp hwrite hset =>
      have hqps : info.limiterType ≠ "qps" := (hr info rfl).resolve_left (by simp [hp])
      obtain ⟨hup, hstate⟩ := writeLogEntry_unsupported hp hqps hwrite
      cases hset with
      | down => exact absurd rfl (hup _)
      | refused => exact ⟨hstate, by simp [cantApply]⟩
      | set hset =>
          -- setting it again fails as applying the entry has
          rw [setRateLimiter_error (if_neg hqps)] at hset
          cases hset
          exact ⟨hstate, by simp [answer]⟩
  | @addProxy l ending h' res flag valid hcreate hcreated =>
      have hcon : ¬ l.Constructible env := (hr l rfl).resolve_left fun hne => hne valid
      obtain ⟨err, hadd⟩ := addProxyWithLocation_of_not h.state hcon
      simp only [createProxyWithLocation, hadd] at hcreate
      cases hcreate
      cases hcreated
      exact ⟨rfl, by simp⟩
  | replicated flag hcall =>
      obtain ⟨hne, hsame⟩ := hcall.rejected hr
      exact mutateAndReplicate_rejected hne hsame
  | @changeLb req out n hcall =>
      unfold Node.changeLb at hcall
      rcases hr req rfl with hnone | ⟨err, hbuild⟩
      · rw [hnone] at hcall
        cases hcall
        exact ⟨rfl, by simp [answer]⟩
      · split at hcall
        · cases hcall
          exact ⟨rfl, by simp [answer]⟩
        · rw [hbuild] at hcall
          cases hcall
          exact ⟨rfl, by simp [answer]⟩

/-! ## All or nothing

What can go wrong comes in two orders. Most handlers change the node and then replicate; if raft refuses,
the change stays. `/limiter` replicates and then changes, so a refusal leaves nothing. What remains is that
a success is a commit, in all of them. -/

/-- A failure leaves the node as it was, and a success means that the entry was committed. -/
structure AllOrNothing (entry : LogEntry δ) (h : HttpServer δ) (res : Ending Reply × HttpServer δ) :
    Prop where
  failed : ∀ r, res.1 = .returned r → r ≠ .ok → res.2.state = h.state
  succeeded : res.1 = .returned .ok → res.2.committed = h.committed ++ [entry]

section AllOrNothing

variable {entry : LogEntry δ} {optType : UInt16} {data : δ} {raft : RaftOutcome}
  {h' : HttpServer δ} {err : GoError}

/-- A request that did nothing, and says so. -/
theorem AllOrNothing.of_untouched {res : Ending Reply × HttpServer δ} (hu : Untouched h res) :
    AllOrNothing entry h res :=
  ⟨fun _ _ _ => hu.1, fun hok => absurd hok hu.2⟩

/-- A call that did not return is not answered. -/
theorem AllOrNothing.of_unanswered {res : Ending Reply × HttpServer δ}
    (hno : ∀ r, res.1 ≠ .returned r) : AllOrNothing entry h res :=
  ⟨fun r hr => absurd hr (hno r), fun hok => absurd hok (hno .ok)⟩

/-- The entry is committed, and a client that is told anything is told `Ok`. -/
theorem AllOrNothing.of_committed (hcommitted : h'.committed = h.committed ++ [entry]) :
    AllOrNothing entry h (.returned .ok, h') :=
  ⟨fun r hr hne => absurd (by cases hr; rfl) hne, fun _ => hcommitted⟩

/-- What returns from `writeLogEntry`: raft's error, or nothing when the entry is committed. -/
theorem writeLogEntry_returned {ret : Option GoError}
    (heq : h.writeLogEntry env enc optType data raft = (.ok ret, h')) :
    (∃ err, raft = .failed err ∧ ret = some err ∧ h' = h) ∨
      ret = none ∧ h'.committed = h.committed ++ [⟨optType, data⟩] := by
  cases raft with
  | failed err =>
      cases heq
      exact .inl ⟨err, rfl, rfl, rfl⟩
  | committed received =>
      simp only [writeLogEntry] at heq
      rcases happly : FSM.apply env enc h.state ⟨optType, data⟩ received with ⟨fault | ret, n⟩ <;>
        rw [happly] at heq <;> cases heq
      exact .inr ⟨rfl, rfl⟩

/-- What is reported as written has been committed. -/
theorem writeLogEntry_ok (heq : h.writeLogEntry env enc optType data raft = (.ok none, h')) :
    h'.committed = h.committed ++ [⟨optType, data⟩] := by
  obtain ⟨err, -, hret, -⟩ | ⟨-, hcommitted⟩ := writeLogEntry_returned heq
  · cases hret
  · exact hcommitted

/-- What is reported as refused has not been touched. -/
theorem writeLogEntry_error (heq : h.writeLogEntry env enc optType data raft = (.ok (some err), h')) :
    h' = h ∧ raft = .failed err := by
  obtain ⟨_, hraft, hret, hh⟩ | ⟨hret, -⟩ := writeLogEntry_returned heq
  · cases hret
    exact ⟨hh, hraft⟩
  · cases hret

/-- A handler that makes its change first, when the entry is committed. -/
theorem mutateAndReplicate_committed {call : Outcome × Node} {received : Bool}
    (hfail : ∀ err n, call = (.ok (some err), n) → n = h.state) :
    AllOrNothing ⟨optType, data⟩ h
      (h.mutateAndReplicate env enc call optType data (.committed received)) := by
  obtain ⟨fault | _ | err, n⟩ := call
  · exact .of_unanswered fun r hr => by cases hr
  · simp only [mutateAndReplicate]
    rcases heq : (h.withState n).writeLogEntry env enc optType data (.committed received) with
      ⟨fault | _ | err, h'⟩
    · exact .of_unanswered fun r hr => by cases hr
    · have hcommitted := writeLogEntry_ok heq
      exact .of_committed hcommitted
    · cases (writeLogEntry_error heq).2
  · exact .of_untouched ⟨hfail err n rfl, fun hok => by cases hok⟩

/-! ### Handler by handler

What each kind of handler does with its call, its entry and raft's answer. -/

theorem LocalCall.unchanged {n n' : Node} {received : Bool} {req : AdminRequest}
    (hcall : LocalCall env enc n received req (.ok (some err), n') optType data) : n' = n := by
  generalize hc : (Except.ok (some err), n') = call at hcall
  cases hcall with
  | addHost =>
      unfold Node.addProxy at hc
      split at hc
      · cases hc
        rfl
      · split at hc <;> cases hc
        rfl
  | @acl req =>
      unfold callAcl at hc
      rcases hswitch : switchAcl n.acl req with fault | ⟨err', t⟩ <;> rw [hswitch] at hc <;> cases hc
      rw [switchAcl_error hswitch]
  | removeProxy =>
      unfold Node.removeProxy at hc
      split at hc
      · cases hc
        rfl
      · split at hc
        · simp only at hc
          split at hc <;> cases hc
        · cases hc
  | removeHost =>
      unfold Node.removeHost at hc
      split at hc
      · cases hc
      · split at hc <;> cases hc
        rfl

/-- `/limiter` replicates before it changes anything; setting the limiter again cannot fail. -/
theorem LimiterSet.allOrNothing {info : LimiterInfo} {a : Nat} {out : Outcome}
    {res : Ending Reply × HttpServer δ} (hqps : info.limiterType = "qps")
    (hwrite : h.writeLogEntry env enc optType data raft = (out, h'))
    (hset : LimiterSet a info h' out res) : AllOrNothing ⟨optType, data⟩ h res := by
  cases hset with
  | down => exact .of_unanswered fun r hr => by cases hr
  | refused =>
      obtain ⟨rfl, -⟩ := writeLogEntry_error hwrite
      exact .of_untouched ⟨rfl, by simp [cantApply]⟩
  | @set out n hset =>
      have hcommitted := writeLogEntry_ok hwrite
      simp only [Node.setRateLimiter, build_eq_ok.mpr ⟨hqps, rfl⟩, Node.recordLimiter] at hset
      split at hset <;> cases hset
      · exact .of_unanswered fun r hr => by cases hr
      · exact .of_committed hcommitted

/-- A request is all or nothing when raft commits its entry, when it is `/limiter`, or when the
local call turns it down. -/
theorem handle_allOrNothing {req : AdminRequest} (hentry : req.entry enc = some entry)
    (hreq : (∃ received, o.raft = .committed received) ∨ (∃ body, req = .limiter body) ∨
      req.Rejected env h.state o) : AllOrNothing entry h (h.handle env enc o req) := by
  -- a request that is turned down is untouched; the others are replicated or are `/limiter`
  by_cases hr : req.Rejected env h.state o
  · exact .of_untouched (handle_rejected hr)
  · replace hreq := hreq.imp_right fun hor => hor.resolve_right hr
    have hhandles := handle_handles env enc h o req
    generalize h.handle env enc o req = res at hhandles ⊢
    cases hhandles with
    | turnedAway notOk up => exact .of_untouched ⟨rfl, notOk⟩
    | @limiter info a out h' res flag hp hwrite hset =>
        cases hentry
        have hqps : info.limiterType = "qps" := by
          by_contra hne
          refine hr fun info' hinfo => .inr ?_
          cases hinfo
          exact hne
        exact hset.allOrNothing hqps hwrite
    | @addProxy l ending h' res flag valid hcreate hcreated =>
        cases hentry
        obtain ⟨received, hraft⟩ := hreq.resolve_right (by rintro ⟨body', h⟩; cases h)
        cases hcreated with
        | panicked => exact .of_unanswered fun r hr => by cases hr
        | down => exact .of_unanswered fun r hr => by cases hr
        | returned =>
            rw [hraft] at hcreate
            unfold createProxyWithLocation at hcreate
            rcases hadd : h.state.addProxyWithLocation env l with ⟨fault | _ | err, n⟩ <;>
              rw [hadd] at hcreate
            · cases hcreate
            · simp only at hcreate
              rcases heq : (h.withState n).writeLogEntry env enc 1 (enc.location.marshal l)
                (.committed received) with ⟨fault | _ | err, h''⟩ <;> rw [heq] at hcreate
              · cases hcreate
              · cases hcreate
                have hcommitted := writeLogEntry_ok heq
                exact .of_committed hcommitted
              · cases (writeLogEntry_error heq).2
            · cases hcreate
    | @replicated req call optType data flag hcall =>
        obtain ⟨received, hraft⟩ := hreq.resolve_right (by rintro ⟨body', rfl⟩; cases hcall)
        obtain rfl : entry = ⟨optType, data⟩ := by cases hcall <;> cases hentry <;> rfl
        rw [hraft]
        exact mutateAndReplicate_committed fun err n heq => (heq ▸ hcall).unchanged
    | changeLb hcall => cases hentry

end AllOrNothing

/-! ## Only the leader writes

The write flag stands for the leadership. Three handlers look at it. So while it is not set these three
change nothing, and the others are as free as on a leader. -/

/-- Writing an entry does not change the flag. -/
theorem enableWrite_writeLogEntry (env : Env) (enc : Encoding δ) (h : HttpServer δ)
    (optType : UInt16) (data : δ) (raft : RaftOutcome) :
    (h.writeLogEntry env enc optType data raft).2.enableWrite = h.enableWrite := by
  cases raft with
  | failed err => rfl
  | committed received =>
      simp only [writeLogEntry]
      rcases FSM.apply env enc h.state ⟨optType, data⟩ received with ⟨fault | ret, n⟩ <;> rfl

/-- Nor does the end of a handler. -/
theorem enableWrite_mutateAndReplicate (env : Env) (enc : Encoding δ) (h : HttpServer δ)
    (call : Outcome × Node) (optType : UInt16) (data : δ) (raft : RaftOutcome) :
    (h.mutateAndReplicate env enc call optType data raft).2.enableWrite = h.enableWrite := by
  obtain ⟨fault | _ | err, n⟩ := call
  · rfl
  · have hwrite := enableWrite_writeLogEntry env enc (h.withState n) optType data raft
    simp only [mutateAndReplicate]
    split <;> next heq => rw [heq] at hwrite; exact hwrite
  · rfl

/-- Nor does creating a proxy. -/
theorem enableWrite_createProxyWithLocation (env : Env) (enc : Encoding δ) (h : HttpServer δ)
    (l : Location) (raft : RaftOutcome) :
    (h.createProxyWithLocation env enc l raft).2.enableWrite = h.enableWrite := by
  unfold createProxyWithLocation
  split
  · rfl
  · rfl
  · next n hadd =>
      have hwrite := enableWrite_writeLogEntry env enc (h.withState n) 1
        (enc.location.marshal l) raft
      split <;> next heq => rw [heq] at hwrite; exact hwrite

/-- No request sets the write flag. -/
theorem enableWrite_handle (env : Env) (enc : Encoding δ) (h : HttpServer δ) (o : Outside)
    (req : AdminRequest) :
    (h.handle env enc o req).2.enableWrite = h.enableWrite := by
  have hhandles := handle_handles env enc h o req
  generalize h.handle env enc o req = res at hhandles ⊢
  cases hhandles with
  | turnedAway notOk up => rfl
  | @limiter info a out h' res flag hp hwrite hset =>
      have hsame := enableWrite_writeLogEntry env enc h 2 (enc.limiterInfo.marshal info) o.raft
      rw [hwrite] at hsame
      cases hset <;> exact hsame
  | @addProxy l ending h' res flag valid hcreate hcreated =>
      have hsame := enableWrite_createProxyWithLocation env enc h l o.raft
      rw [hcreate] at hsame
      cases hcreated <;> exact hsame
  | replicated flag hcall => exact enableWrite_mutateAndReplicate ..
  | changeLb hcall => rfl

/-- The handlers that look at the write flag turn requests away while it is not set. -/
theorem handle_notAllowed {req : AdminRequest} (hflag : h.enableWrite = false)
    (hgated : req.Gated) : (h.handle env enc o req).2 = h := by
  have hcheck : h.checkWritePermission = false := hflag
  cases req with
  | limiter body =>
      show (h.doSetRateLimiter env enc body o.raft).2 = h
      unfold doSetRateLimiter
      rw [if_pos hcheck]
  | addProxy body =>
      show (h.doAddProxy env enc body o.raft).2 = h
      unfold doAddProxy
      rw [if_pos hcheck]
  | acl body =>
      show (h.doHandleAcl env enc body o.raft).2 = h
      unfold doHandleAcl
      rw [if_pos hcheck]
  | addHost body => cases hgated
  | removeProxy body => cases hgated
  | removeHost body => cases hgated
  | changeLb body => cases hgated

/-- `/limiter` changes nothing when raft does not commit. -/
theorem handle_limiter_failed {body : Except GoError LimiterInfo} {err : GoError}
    (hraft : o.raft = .failed err) : (h.handle env enc o (.limiter body)).2 = h := by
  show (h.doSetRateLimiter env enc body o.raft).2 = h
  unfold doSetRateLimiter
  rw [hraft]
  split
  · rfl
  · split
    · rfl
    · split <;> rfl

end HttpServer

/-! ## Runs

A member of a cluster hears of its leadership through notifications, and what it has heard last is kept
beside the server. The flag follows these, except that a configuration with `leader: true` sets it at every
one of them. -/

/-- A node in its cluster: its server, and the last notification of its leadership. -/
structure Member (δ : Type) where
  server : HttpServer δ
  latest : Option Bool

namespace Member

variable {δ : Type} {env : Env} {enc : Encoding δ} {conf : StartConfig}

inductive Event (δ : Type)
  /-- a value arrives on `leaderNotifych` -/
  | notify (leader : Bool) (raft : Nat → RaftOutcome)
  /-- an admin request is handled -/
  | request (o : Outside) (req : AdminRequest)
  /-- `FSM.Apply`, for an entry from elsewhere -/
  | apply (entry : LogEntry δ) (received : Bool)
  /-- `FSM.Restore` -/
  | restore (s : Snapshot) (orders : Orders)

inductive Step (env : Env) (enc : Encoding δ) (conf : StartConfig) :
    Member δ → Event δ → Member δ → Prop
  | notify {m : Member δ} {leader : Bool} {raft : Nat → RaftOutcome} {server : HttpServer δ}
      (h : HttpServer.leaderRound env enc conf leader raft m.server = (.returned (), server)) :
      Step env enc conf m (.notify leader raft) ⟨server, some leader⟩
  | request {m : Member δ} {o : Outside} {req : AdminRequest} {ending : Ending Reply}
      {server : HttpServer δ} (h : m.server.handle env enc o req = (ending, server))
      (up : ∀ fault, ending ≠ .down fault) :
      Step env enc conf m (.request o req) { m with server := server }
  | apply {m : Member δ} {entry : LogEntry δ} {received : Bool} {ret : Option GoError} {n : Node}
      (h : FSM.apply env enc m.server.state entry received = (.ok ret, n)) :
      Step env enc conf m (.apply entry received) { m with server := m.server.withState n }
  | restore {m : Member δ} {s : Snapshot} {orders : Orders} {ret : Option GoError} {n : Node}
      (h : FSM.restore env s orders m.server.state = (.ok ret, n)) :
      Step env enc conf m (.restore s orders) { m with server := m.server.withState n }

def start (n : Node) : Member δ := ⟨.newHttpServer n, none⟩

/-- A request that asks to commit an entry gets it committed, or is `/limiter`, or is turned down by
the local call. -/
def Event.Replicated (env : Env) (enc : Encoding δ) (m : Member δ) : Event δ → Prop
  | .request o req => ∀ entry, req.entry enc = some entry →
      (∃ received, o.raft = .committed received) ∨ (∃ body, req = .limiter body) ∨
        req.Rejected env m.server.state o
  | _ => True

/-- The step is no request to replicate anything, or it was all or nothing. -/
def Event.Atomic (env : Env) (enc : Encoding δ) (m : Member δ) : Event δ → Prop
  | .request o req => ∀ entry, req.entry enc = some entry →
      HttpServer.AllOrNothing entry m.server (m.server.handle env enc o req)
  | _ => True

/-! ### Replicated or not

The condition is on the requests alone. It leaves out those that change the node and then fail to get their
entry committed. -/

/-- In every run in which every request is replicated: every request is all or nothing. -/
theorem requests_all_or_nothing {m₀ m : Member δ} {es : List (Event δ)}
    (hrun : Trace (fun m e m' => Step env enc conf m e m' ∧ e.Replicated env enc m) m₀ es m) :
    Trace (fun m e m' => Step env enc conf m e m' ∧ e.Atomic env enc m) m₀ es m := by
  refine hrun.mono fun {m e m'} ⟨hstep, hrep⟩ => ⟨hstep, ?_⟩
  cases e with
  | request o req => exact fun entry hentry => HttpServer.handle_allOrNothing hentry (hrep entry hentry)
  | notify leader raft => trivial
  | apply entry received => trivial
  | restore s orders => trivial

/-- A node that was not made the leader by its configuration and has its data directory. -/
def oldNode : StartConfig := ⟨false, true, []⟩

def commits : Outside := ⟨.committed false, false, []⟩

def refuses : Outside := ⟨.failed ⟨"node is not the leader"⟩, false, []⟩

/-- A proxy is created; a limiter is refused by raft; a host for an unknown pattern is turned
down. -/
theorem requests_all_or_nothing_refused : ∃ m es, es.length = 4 ∧
    Trace (fun m e m' => Step Env.plain Payload.encoding oldNode m e m' ∧
      e.Atomic Env.plain Payload.encoding m) (start Node.new) es m ∧ m.server.committed.length = 1 := by
  have hrun : Trace (fun m e m' => Step Env.plain Payload.encoding oldNode m e m' ∧
      e.Replicated Env.plain Payload.encoding m) (start Node.new) [] (start Node.new) := .nil
  have hrun := hrun.snoc (e := Event.notify true fun _ => .committed false) ⟨.notify rfl, trivial⟩
  have hrun := hrun.snoc (e := Event.request commits (.addProxy (.ok apiLocation)))
    ⟨.request (show _ = (Ending.returned .ok, _) from rfl) (by simp), fun _ _ => .inl ⟨false, rfl⟩⟩
  have hrun := hrun.snoc
    (e := Event.request refuses (.limiter (.ok ⟨"/api", "/x", "qps", 10, 5, 0, 0⟩)))
    ⟨.request (show _ = (Ending.returned (.error _), _) from rfl) (by simp),
      fun _ _ => .inr (.inl ⟨_, rfl⟩)⟩
  have hrun := hrun.snoc (e := Event.request refuses (.addHost (.ok ⟨"/b", "http://b:80"⟩)))
    ⟨.request (show _ = (Ending.returned (.error _), _) from rfl) (by simp),
      fun _ _ => .inr (.inr fun req hreq => .inl (by cases hreq; rfl))⟩
  exact ⟨_, _, rfl, requests_all_or_nothing hrun, rfl⟩

/-- Raft refuses the entry of `/addProxy`, and the client is told `Ok`. -/
theorem not_requests_all_or_nothing : ¬ ∀ (n₀ : Node) (m : Member Payload) (es : List (Event Payload)),
    Start n₀ → Trace (Step Env.plain Payload.encoding oldNode) (start n₀) es m →
    m.server.enableWrite = true → ∀ o req entry, req.entry Payload.encoding = some entry →
    HttpServer.AllOrNothing entry m.server
      (m.server.handle Env.plain Payload.encoding o req) := by
  intro h
  have hrun : Trace (Step Env.plain Payload.encoding oldNode) (start Node.new)
      ([] ++ [.notify true fun _ => .committed false]) _ := .snoc .nil (.notify rfl)
  have hall := h _ _ _ start_new hrun rfl refuses (.addProxy (.ok apiLocation)) _ rfl
  have hcommitted := congrArg List.length (hall.succeeded rfl)
  revert hcommitted
  decide

/-! ### The write flag

The flag is set by the leader loop and by nobody else, so while a node is not the leader the handlers that
look at it turn requests away. The others change the node whoever leads. -/

/-- Nothing is changed that only the leader may change. -/
def Event.LeaderOnly (m m' : Member δ) : Event δ → Prop
  | .request _ _ => m.latest ≠ some true → m'.server.state = m.server.state
  | .notify leader _ => leader = false → m'.server.state = m.server.state
  | _ => True

/-- While the node is not the leader: a request is turned away at the write flag, which is not set
by a configuration with `leader: true`, or it is turned down, or is a `/limiter` that raft refuses;
and the loss of leadership creates no proxies. -/
def Event.Guarded (env : Env) (conf : StartConfig) (m : Member δ) : Event δ → Prop
  | .request o req => m.latest ≠ some true →
      (req.Gated ∧ (conf.isLeader = false ∨ m.latest = none)) ∨
      req.Rejected env m.server.state o ∨
      ∃ body err, req = .limiter body ∧ o.raft = .failed err
  | .notify leader _ => leader = false →
      conf.isLeader = false ∨ conf.init = true ∨ conf.location = []
  | _ => True

/-- The write flag is set only after a notification, and by `true` unless the configuration has
`leader: true`. -/
def FlagFollows (conf : StartConfig) (m : Member δ) : Prop :=
  m.server.enableWrite = true → m.latest = some true ∨ conf.isLeader = true ∧ m.latest ≠ none

/-- Every step keeps the flag behind the notifications. -/
theorem FlagFollows.step {m m' : Member δ} {e : Event δ} (hI : FlagFollows conf m)
    (hstep : Step env enc conf m e m') : FlagFollows conf m' := by
  cases hstep with
  | notify h =>
      next leader raft server =>
        intro hflag
        by_cases hl : leader = true
        · exact .inl (by rw [hl])
        · by_cases hc : conf.isLeader = true
          · exact .inr ⟨hc, by simp⟩
          · rw [HttpServer.leaderRound, if_neg (by simp [hl, hc])] at h
            cases h
            cases hflag
  | request h up =>
      next o req ending server =>
        intro hflag
        refine hI ?_
        have heq := HttpServer.enableWrite_handle env enc m.server o req
        rw [h] at heq
        rw [← heq]
        exact hflag
  | apply h => exact hI
  | restore h => exact hI

/-- In every run from the start in which every step is guarded: nothing is changed while the node is
not the leader, except by applying entries and by restoring. -/
theorem only_leader_writes {n₀ : Node} {m : Member δ} {es : List (Event δ)}
    (hrun : Trace (fun m e m' => Step env enc conf m e m' ∧ e.Guarded env conf m) (start n₀) es m) :
    Trace (fun m e m' => Step env enc conf m e m' ∧ e.LeaderOnly m m') (start n₀) es m := by
  refine hrun.mono_of_invariant (I := FlagFollows conf) (fun h => by cases h)
    (fun hI hstep => hI.step hstep.1) ?_
  rintro m e m' hI ⟨hstep, hguard⟩
  refine ⟨hstep, ?_⟩
  cases hstep with
  | notify h =>
      next leader raft server =>
        intro hl
        subst hl
        show server.state = m.server.state
        by_cases hc : conf.isLeader = true
        · rw [HttpServer.leaderRound, if_pos (.inr hc)] at h
          rcases hguard rfl with hnot | hinit | hloc
          · rw [hc] at hnot
            cases hnot
          · rw [if_neg (by simp [hinit])] at h
            cases h
            rfl
          · split at h
            · simp only [hloc, HttpServer.createProxy] at h
              cases h
              rfl
            · cases h
              rfl
        · rw [HttpServer.leaderRound, if_neg (by simp [hc])] at h
          cases h
          rfl
  | request h up =>
      next o req ending server =>
        intro hlatest
        show server.state = m.server.state
        have hserver : server = (m.server.handle env enc o req).2 := by rw [h]
        rw [hserver]
        rcases hguard hlatest with ⟨hgated, hflag⟩ | hrejected | ⟨body, err, rfl, hraft⟩
        -- the flag could only be set by a notification that there has not been
        · have hoff : m.server.enableWrite = false := by
            by_contra hon
            rcases hI (by simpa using hon) with htrue | ⟨hc, hsome⟩
            · exact hlatest htrue
            · rcases hflag with hnot | hnone
              · rw [hc] at hnot
                cases hnot
              · exact hsome hnone
          rw [HttpServer.handle_notAllowed hoff hgated]
        · exact (HttpServer.handle_rejected hrejected).1
        · rw [HttpServer.handle_limiter_failed hraft]
  | apply h => trivial
  | restore h => trivial

/-- A follower turns requests away, or down. -/
theorem only_leader_writes_follower : ∃ m es, es.length = 4 ∧
    Trace (fun m e m' => Step Env.plain Payload.encoding oldNode m e m' ∧ e.LeaderOnly m m')
      (start Node.new) es m ∧ m.server.state.config.services "/api" ≠ none := by
  have hrun : Trace (fun m e m' => Step Env.plain Payload.encoding oldNode m e m' ∧
      e.Guarded Env.plain oldNode m) (start Node.new) [] (start Node.new) := .nil
  have hrun := hrun.snoc (e := Event.apply createApi false) ⟨.apply rfl, trivial⟩
  have hrun := hrun.snoc (e := Event.notify false fun _ => .committed false)
    ⟨.notify rfl, fun _ => .inl rfl⟩
  have hrun := hrun.snoc (e := Event.request refuses (.addProxy (.ok apiLocation)))
    ⟨.request (show _ = (Ending.returned (.error _), _) from rfl) (by simp),
      fun _ => .inl ⟨trivial, .inl rfl⟩⟩
  have hrun := hrun.snoc (e := Event.request refuses (.removeProxy (.ok "/b")))
    ⟨.request (show _ = (Ending.returned (.error _), _) from rfl) (by simp),
      fun _ => .inr (.inl fun pattern hp => by cases hp; rfl)⟩
  exact ⟨_, _, rfl, only_leader_writes hrun, by decide⟩

/-- A follower takes `/addHost`. -/
theorem not_only_leader_writes : ¬ ∀ (n₀ : Node) (m m' : Member Payload) (es : List (Event Payload))
    (o : Outside) (req : AdminRequest), Start n₀ →
    Trace (Step Env.plain Payload.encoding oldNode) (start n₀) es m →
    Step Env.plain Payload.encoding oldNode m (.request o req) m' →
    m.latest ≠ some true → m'.server.state = m.server.state := by
  intro h
  have hrun : Trace (Step Env.plain Payload.encoding oldNode) (start Node.new)
      ([] ++ [.apply createApi false] ++ [.notify false fun _ => .committed false]) _ :=
    .snoc (.snoc .nil (.apply rfl)) (.notify rfl)
  have hsame := h _ _ _ _ refuses (.addHost (.ok ⟨"/api", "http://b:80"⟩)) start_new hrun
    (.request (show _ = (Ending.returned (.error _), _) from rfl) (by simp)) (by decide)
  have hhosts := congrArg (fun n => (n.config.services "/api").map fun s => s.hosts.card) hsame
  revert hhosts
  decide

end Member

end Cheryl.Server
