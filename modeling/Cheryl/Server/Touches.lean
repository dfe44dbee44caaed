import Mathlib.Logic.Relation
import Cheryl.Server.LimiterReplication

/-!
# Touches

Whatever a node is asked to do, to apply an entry, to serve a request or to handle an admin request, it
comes to a few touches of its state: each makes at most one change of the configuration, and calls the tree
at most once. So what every touch keeps, every handler keeps (`handle_touches`), and a node stays sane.
-/

namespace Cheryl.Server

open Library ReverseProxy Acl

/-! ## One touch

A handler may make two changes, its own and that of its entry. What is kept by one change is kept by both,
so for invariants it is enough to know that a handler is a row of touches. -/

/-- The node has made one change at most, and called the tree once at most. -/
structure Touched (env : Env) (n n' : Node) : Prop where
  ready : Ready n'
  config : n'.config = n.config ∨ ∃ change : Change, change.Permitted env ∧ n'.config = change.apply env n.config
  acl : n'.acl = n.acl ∨ ∃ aclLog err, FSM.switchAcl n.acl aclLog = .ok (err, n'.acl)

/-- One touch after the other. -/
abbrev Touches (env : Env) : Node → Node → Prop := Relation.ReflTransGen (Touched env)

section Touched

variable {δ : Type} {env : Env} {enc : Encoding δ} {n n' : Node} {change : Change} {e : Event δ}

theorem Touched.refl (R : Ready n) : Touched env n n := ⟨R, .inl rfl, .inl rfl⟩

/-- A change that is permitted is a touch. -/
theorem Changed.touched (h : Changed env n n' change) (hpermitted : change.Permitted env) : Touched env n n' :=
  ⟨h.ready, .inr ⟨change, hpermitted, h.config⟩, .inl h.acl⟩

/-- So is every step of a node. -/
theorem Step.touched (R : Ready n) (h : Step env enc n e n') : Touched env n n' := by
  obtain ⟨hready, ⟨change, hasks, hconfig⟩, hacl⟩ := h.spec R
  refine ⟨hready, ?_, hacl⟩
  cases change with
  | none => exact .inl hconfig
  | some change => exact .inr ⟨change, hasks.permitted, hconfig⟩

/-- A touch keeps a node sane. -/
theorem Sane.touched (S : Sane env n) (h : Touched env n n') : Sane env n' := by
  have htree : RadixTree.Intact n'.acl ∧ ∀ s ∈ n'.acl.record, RadixTree.Accepted s := by
    rcases h.acl with heq | ⟨aclLog, err, hcall⟩
    · rw [heq]
      exact ⟨S.intact, S.accepted⟩
    · exact switchAcl_intact S.intact S.accepted hcall
  refine ⟨h.ready, htree.1, htree.2, ?_⟩
  rcases h.config with heq | ⟨change, hpermitted, heq⟩ <;> rw [heq]
  · exact S.storable
  · exact S.storable.change hpermitted

/-- What every touch keeps, any number of them keep. -/
theorem Touches.invariant {P : Node → Prop} (hP : ∀ {n n'}, P n → Touched env n n' → P n')
    (h : Touches env n n') (hn : P n) : P n' := by
  induction h with
  | refl => exact hn
  | tail _ htouched ih => exact hP ih htouched

/-- And so do many. -/
theorem Sane.touches (S : Sane env n) (h : Touches env n n') : Sane env n' := h.invariant Sane.touched S

end Touched

/-! ## The handlers

A handler touches the node with its local call, and raft touches it again by applying the entry. Both are
touches of a state that is ready, so what comes between does not matter. -/

section Handlers

variable {δ : Type} {env : Env} {enc : Encoding δ} {n n' : Node} {h h' : HttpServer δ}
  {optType : UInt16} {data : δ} {raft : RaftOutcome} {ending : Ending Reply} {out : Outcome} {p : String}

/-- The handler's reading of an `AclLog` is that of the state machine for the pattern 0 or 1. -/
theorem switchAcl_eq_fsm (t : RadixTree) (req : AclLog) : HttpServer.switchAcl t req =
    FSM.switchAcl t { req with pattern := if req.pattern = 0 then 0 else 1 } := by
  unfold HttpServer.switchAcl FSM.switchAcl
  split <;> simp

/-- The call on the tree. -/
theorem Ready.callAcl (R : Ready n) (req : AclLog) : Touched env n (HttpServer.callAcl n req).2 := by
  unfold HttpServer.callAcl
  rcases hcall : HttpServer.switchAcl n.acl req with fault | ⟨err, t⟩
  · exact .refl R
  · refine ⟨⟨⟨R.linked.routerType, R.linked.serves, R.linked.allocated⟩, R.synced⟩, .inl rfl, ?_⟩
    exact .inr ⟨_, err, (switchAcl_eq_fsm n.acl req).symm.trans hcall⟩

/-- `AddProxy` adds one host or none. -/
theorem Ready.addProxy_touched (R : Ready n) (host : String) : Touched env n (n.addProxy env p host).2 := by
  rcases R.addProxy (Prod.eta (n.addProxy env p host)).symm with ⟨-, hsame, -⟩ | ⟨-, -, url, -, hchanged⟩
  · rw [hsame]
    exact .refl R
  · exact hchanged.touched trivial

/-- `RemoveProxy` removes one pattern or none. -/
theorem Ready.removeProxy_touched (R : Ready n) : Touched env n (n.removeProxy p).2 := by
  rcases R.removeProxy env (Prod.eta (n.removeProxy p)).symm with ⟨-, hsame, -⟩ | ⟨-, -, hchanged⟩
  · rw [hsame]
    exact .refl R
  · exact hchanged.touched trivial

/-- `RemoveHost` removes one host or none. -/
theorem Ready.removeHost_touched (R : Ready n) (host : String) (received : Bool) :
    Touched env n (n.removeHost p host received).2 := by
  rcases R.removeHost env (Prod.eta (n.removeHost p host received)).symm with
    ⟨-, hsame, -⟩ | ⟨-, hsame, -⟩ | ⟨-, -, -, hchanged⟩
  · rw [hsame]
    exact .refl R
  · rw [hsame]
    exact .refl R
  · exact hchanged.touched trivial

/-- `ChangeLb` sets one mode or none. -/
theorem Ready.changeLb_touched (R : Ready n) {mode : String} {order : List String}
    (heq : n.changeLb env p mode order = (out, n')) : Touched env n n' := by
  rcases R.changeLb heq with ⟨-, rfl, -⟩ | ⟨err, -, rfl, -⟩ | ⟨-, -, -, hchanged⟩
  · exact .refl R
  · exact .refl R
  · exact hchanged.touched trivial

/-- `SetRateLimiter` sets one limiter or none. -/
theorem Ready.setRateLimiter_touched (R : Ready n) {a : Nat} {info : LimiterInfo}
    (hp : n.current.relations.lookup p = some a) (heq : n.setRateLimiter a info = (out, n')) :
    Touched env n n' := by
  rcases R.setRateLimiter env hp heq with ⟨-, rfl, -⟩ | ⟨hqps, -, hchanged⟩
  · exact .refl R
  · exact hchanged.touched hqps

/-! ### Entries and handlers

On the leader an entry is applied before `writeLogEntry` returns, so a handler is at most a call, a second
call by the entry, and for `/limiter` a third. -/

/-- The entry that is committed is applied; one that is not is not. -/
theorem writeLogEntry_touched (R : Ready h.state)
    (heq : h.writeLogEntry env enc optType data raft = (out, h')) (up : ∀ fault, out ≠ .error fault) :
    Touched env h.state h'.state := by
  cases raft with
  | failed err =>
      cases heq
      exact .refl R
  | committed received =>
      simp only [HttpServer.writeLogEntry] at heq
      rcases happly : FSM.apply env enc h.state ⟨optType, data⟩ received with ⟨fault | ret, n⟩ <;>
        rw [happly] at heq <;> cases heq
      · exact absurd rfl (up fault)
      · have hstep : Step env enc h.state (.apply ⟨optType, data⟩ received) n := .apply happly
        exact hstep.touched R

/-- The change, and then the entry. -/
theorem mutateAndReplicate_touches {call : Outcome × Node} (hcall : Touched env h.state call.2)
    (heq : h.mutateAndReplicate env enc call optType data raft = (ending, h'))
    (up : ∀ fault, ending ≠ .down fault) : Touches env h.state h'.state := by
  obtain ⟨fault | _ | err, n⟩ := call
  · cases heq
    exact .single hcall
  · simp only [HttpServer.mutateAndReplicate] at heq
    rcases hwrite : (h.withState n).writeLogEntry env enc optType data raft with ⟨out, h₁⟩
    rw [hwrite] at heq
    have hup : ∀ fault, out ≠ .error fault := by
      rintro fault rfl
      cases heq
      exact up fault rfl
    have happlied : Touched env n h₁.state := writeLogEntry_touched (h := h.withState n) hcall.ready hwrite hup
    obtain rfl : h₁ = h' := by
      rcases out with fault | _ | err <;> cases heq <;> rfl
    exact (Relation.ReflTransGen.single hcall).tail happlied
  · cases heq
    exact .single hcall

/-- The proxy, and then its entry; what cannot be made ends the process. -/
theorem createProxyWithLocation_touches {l : Location} {ending : Ending Unit} (R : Ready h.state)
    (hrouter : h.state.router ≠ none) (heq : h.createProxyWithLocation env enc l raft = (ending, h'))
    (up : ∀ fault, ending ≠ .down fault) : Touches env h.state h'.state := by
  by_cases hcon : l.Constructible env
  · obtain ⟨n, hadd, hchanged⟩ := R.addProxyWithLocation_ok hcon hrouter
    rcases hwrite : (h.withState n).writeLogEntry env enc 1 (enc.location.marshal l) raft with ⟨out, h₁⟩
    simp only [HttpServer.createProxyWithLocation, hadd, hwrite] at heq
    cases out with
    | error fault =>
        cases heq
        exact absurd rfl (up fault)
    | ok err =>
        cases heq
        refine (Relation.ReflTransGen.single (hchanged.touched hcon)).tail ?_
        exact writeLogEntry_touched (h := h.withState n) hchanged.ready hwrite (by simp)
  · obtain ⟨err, hadd⟩ := addProxyWithLocation_of_not h.state hcon
    simp only [HttpServer.createProxyWithLocation, hadd] at heq
    cases heq
    exact absurd rfl (up .exit)

/-- Every handler that leaves the process up, if `/addProxy` finds a router. -/
theorem handle_touches {o : Outside} {req : AdminRequest} (R : Ready h.state)
    (hrouter : ∀ l, req = .addProxy (.ok l) → h.state.router ≠ none)
    (heq : h.handle env enc o req = (ending, h')) (up : ∀ fault, ending ≠ .down fault) :
    Touches env h.state h'.state := by
  have hhandles := HttpServer.handle_handles env enc h o req
  rw [heq] at hhandles
  generalize hres : (ending, h') = res at hhandles
  cases hhandles with
  | turnedAway =>
      cases hres
      exact .refl
  | @limiter info a out h₁ _ flag hp hwrite hset =>
      cases hset with
      | down =>
          cases hres
          exact absurd rfl (up _)
      | refused =>
          cases hres
          exact .single (writeLogEntry_touched R hwrite (by simp))
      | set hset =>
          cases hres
          have happlied := writeLogEntry_touched R hwrite (by simp)
          -- the entry was committed, so the proxy is still the one of its pattern
          have hp₁ : h₁.state.current.relations.lookup info.Prefix = some a := by
            cases hraft : o.raft with
            | failed err =>
                rw [hraft] at hwrite
                cases hwrite
            | committed received =>
                rw [hraft] at hwrite
                rw [relations_applied R hwrite, hp]
          exact (Relation.ReflTransGen.single happlied).tail
            (happlied.ready.setRateLimiter_touched hp₁ hset)
  | @addProxy l ending₁ h₁ _ flag valid hcreate hcreated =>
      have hup : ∀ fault, ending₁ ≠ .down fault := by
        rintro fault rfl
        cases hcreated
        cases hres
        exact up fault rfl
      have htouches := createProxyWithLocation_touches R (hrouter l rfl) hcreate hup
      cases hcreated <;> cases hres <;> exact htouches
  | @replicated _ call optType data flag hcall =>
      refine mutateAndReplicate_touches ?_ hres.symm up
      cases hcall with
      | addHost => exact R.addProxy_touched _
      | acl => exact R.callAcl _
      | removeProxy => exact R.removeProxy_touched
      | removeHost => exact R.removeHost_touched _ _
  | changeLb hcall =>
      cases hres
      exact .single (R.changeLb_touched hcall)

end Handlers

end Cheryl.Server
