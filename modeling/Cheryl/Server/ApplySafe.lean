import Cheryl.Server.Run

/-!
# When `Apply` returns

`Apply` may panic in three ways: a new proxy while there is no router, a call on the ACL that
panics, and `RemoveHost` for a pattern that is not served. In every state of every run these are
the only ones, and an error that is returned leaves the node as it was (`apply_safe_iff`).
-/

namespace Cheryl.Server

open Library ReverseProxy Acl

/-! ## Ways to return

`Apply` may return nil, return an error, or panic, and a panic in it ends the process. To return cleanly is
one of the first two, with the node unchanged in the second. -/

def ReturnsCleanly (n : Node) (res : Outcome × Node) : Prop :=
  ∃ ret, res.1 = .ok ret ∧ (ret ≠ none → res.2 = n)

/-- An error that is returned with the node as it was. -/
theorem ReturnsCleanly.error {n : Node} (err : GoError) : ReturnsCleanly n (.ok (some err), n) :=
  ⟨some err, rfl, fun _ => rfl⟩

/-- A call that has succeeded. -/
theorem ReturnsCleanly.ok {n n' : Node} : ReturnsCleanly n (.ok none, n') :=
  ⟨none, rfl, fun h => absurd rfl h⟩

/-- A panic is no return. -/
theorem not_returnsCleanly {n n' : Node} (fault : Fault) : ¬ ReturnsCleanly n (.error fault, n') := by
  rintro ⟨ret, h, -⟩
  cases h

/-- The entry stays clear of the panics in this state. -/
structure Applicable {δ : Type} (env : Env) (enc : Encoding δ) (n : Node) (entry : LogEntry δ) :
    Prop where
  /-- a pattern that is not served and for which a proxy can be made finds a router -/
  newHttpProxy : entry.opt = 1 → ∀ l, enc.location.unmarshal entry.data = .ok l →
    n.current.relations.lookup l.pattern = none → l.Constructible env → n.router ≠ none
  /-- the text is not one on which the call panics -/
  handleAcl : entry.opt = 3 → ∀ aclLog, enc.aclLog.unmarshal entry.data = .ok aclLog →
    (aclLog.pattern = 0 → ¬ RadixTree.DeletePanics n.acl aclLog.ipAddress) ∧
      (aclLog.pattern = 1 → ¬ RadixTree.AddPanics aclLog.ipAddress)
  /-- the pattern whose host is removed is served -/
  removeHost : entry.opt = 5 → ∀ log, enc.hostLog.unmarshal entry.data = .ok log →
    n.current.relations.lookup log.pattern ≠ none

namespace FSM

variable {δ : Type} {env : Env} {enc : Encoding δ} {n n₀ : Node}

/-! ## Entry by entry

For each operation: when it returns cleanly on a node that is ready. `SetRateLimiter`, `RemoveProxy` and
`AddProxy` always do, since the patterns they find lead to linked proxies; the other three depend on the
router, on the text of the address, and on whether the pattern is served. -/

/-- A new proxy needs a router, unless there is nothing to make. -/
theorem newHttpProxy_returns (R : Ready n) (data : δ) :
    ReturnsCleanly n (doNewHttpProxy env enc n data) ↔
      ∀ l, enc.location.unmarshal data = .ok l → n.current.relations.lookup l.pattern = none →
        l.Constructible env → n.router ≠ none := by
  unfold doNewHttpProxy
  split
  · next err hdata =>
      refine ⟨fun _ l hl => ?_, fun _ => .error err⟩
      rw [hdata] at hl
      cases hl
  · next l hdata =>
      have hsame : ∀ {l'}, enc.location.unmarshal data = .ok l' → l' = l := by
        intro l' hl'
        rw [hdata] at hl'
        cases hl'
        rfl
      split
      · next a hp =>
          refine ⟨fun _ l' hl' hnone => ?_, fun _ => .ok⟩
          rw [hsame hl', hp] at hnone
          cases hnone
      · next hp =>
          by_cases hcon : l.Constructible env
          · obtain ⟨-, -, -, -, -, hout⟩ := addProxyWithLocation_spec R.linked hcon
            rcases heq : n.addProxyWithLocation env l with ⟨out, n'⟩
            rw [heq] at hout
            -- the only way not to return is to find no router
            by_cases hr : n.router = none
            · rw [if_pos hr] at hout
              cases hout
              exact ⟨fun h => absurd h (not_returnsCleanly _), fun h => absurd hr (h l hdata hp hcon)⟩
            · rw [if_neg hr] at hout
              cases hout
              exact ⟨fun _ _ _ _ _ => hr, fun _ => .ok⟩
          · obtain ⟨err, heq⟩ := addProxyWithLocation_of_not n hcon
            rw [heq]
            refine ⟨fun _ l' hl' _ hcon' => ?_, fun _ => .ok⟩
            rw [hsame hl'] at hcon'
            exact absurd hcon' hcon

theorem setRateLimiter_returns (R : Ready n) (data : δ) :
    ReturnsCleanly n (doSetRateLimiter enc n data) := by
  unfold doSetRateLimiter
  split
  · exact .error _
  · next info hdata =>
      split
      · exact .error _
      · next a hp =>
          cases hbuild : RateLimit.build info.limiterType with
          | error err =>
              rw [setRateLimiter_error hbuild]
              exact .error err
          | ok limiter =>
              obtain ⟨n', heq, -⟩ := setRateLimiter_spec R.linked hp hbuild
              rw [heq]
              exact .ok

/-! ### The access list

`Add` and `Delete` panic on texts that begin with more than four numbers and on masks that leave a negative
shift count, and `Delete` also where its second loop starts at the root. Everything else they take, or refuse
with an error and no change. -/

/-- The tree panics on some texts; everything else it takes or refuses. -/
theorem switchAcl_returns {t : RadixTree} (I : RadixTree.Intact t) (aclLog : AclLog) :
    (∃ ret t', switchAcl t aclLog = .ok (ret, t') ∧ (ret ≠ none → t' = t)) ↔
      (aclLog.pattern = 0 → ¬ RadixTree.DeletePanics t aclLog.ipAddress) ∧
        (aclLog.pattern = 1 → ¬ RadixTree.AddPanics aclLog.ipAddress) := by
  unfold switchAcl
  by_cases h0 : aclLog.pattern = 0
  -- a `Delete`, whose three ways to end are those of the tree
  · have h1 : aclLog.pattern ≠ 1 := by rw [h0]; decide
    simp only [h0, if_true, true_implies]
    rcases I.Delete aclLog.ipAddress with ⟨hpanics, fault, heq⟩ | ⟨hnot, err, heq⟩ |
      ⟨hnot, t', heq, -⟩
    · rw [heq]
      exact ⟨fun ⟨_, _, h, _⟩ => (by cases h), fun h => absurd hpanics h.1⟩
    · rw [heq]
      exact ⟨fun _ => ⟨hnot, fun h => absurd h (by decide)⟩, fun _ => ⟨_, _, rfl, fun _ => rfl⟩⟩
    · rw [heq]
      exact ⟨fun _ => ⟨hnot, fun h => absurd h (by decide)⟩,
        fun _ => ⟨_, _, rfl, fun h => absurd rfl h⟩⟩
  · rw [if_neg h0]
    by_cases h1 : aclLog.pattern = 1
    · rw [if_pos h1]
      -- an `Add`
      rcases I.add aclLog.ipAddress with ⟨hpanics, fault, heq⟩ | ⟨hnot, -, err, heq⟩ |
        ⟨hnot, -, t', heq, -⟩
      · rw [heq]
        exact ⟨fun ⟨_, _, h, _⟩ => (by cases h), fun h => absurd hpanics (h.2 h1)⟩
      · rw [heq]
        exact ⟨fun _ => ⟨fun h => absurd h h0, fun _ => hnot⟩, fun _ => ⟨_, _, rfl, fun _ => rfl⟩⟩
      · rw [heq]
        exact ⟨fun _ => ⟨fun h => absurd h h0, fun _ => hnot⟩,
          fun _ => ⟨_, _, rfl, fun h => absurd rfl h⟩⟩
    · rw [if_neg h1]
      exact ⟨fun _ => ⟨fun h => absurd h h0, fun h => absurd h h1⟩,
        fun _ => ⟨_, _, rfl, fun _ => rfl⟩⟩

/-- The same for the entry. -/
theorem handleAcl_returns (I : RadixTree.Intact n.acl) (data : δ) :
    ReturnsCleanly n (doHandleAcl enc n data) ↔ ∀ aclLog, enc.aclLog.unmarshal data = .ok aclLog →
      (aclLog.pattern = 0 → ¬ RadixTree.DeletePanics n.acl aclLog.ipAddress) ∧
        (aclLog.pattern = 1 → ¬ RadixTree.AddPanics aclLog.ipAddress) := by
  unfold doHandleAcl
  split
  · next err hdata =>
      refine ⟨fun _ a ha => ?_, fun _ => .error err⟩
      rw [hdata] at ha
      cases ha
  · next aclLog hdata =>
      have hreturns := switchAcl_returns I aclLog
      constructor
      · intro h a ha
        rw [hdata] at ha
        cases ha
        refine hreturns.mp ?_
        -- what is returned is what the call on the tree returned
        rcases hcall : switchAcl n.acl aclLog with fault | ⟨ret, t⟩
        · rw [hcall] at h
          exact absurd h (not_returnsCleanly fault)
        · rw [hcall] at h
          obtain ⟨ret', hret, hsame⟩ := h
          cases hret
          exact ⟨ret, t, rfl, fun hne => congrArg Node.acl (hsame hne)⟩
      · intro h
        obtain ⟨ret, t, hcall, hsame⟩ := hreturns.mpr (h aclLog hdata)
        rw [hcall]
        refine ⟨ret, rfl, fun hne => ?_⟩
        rw [hsame hne]

/-! ### Proxies and hosts

`RemoveProxy` and `AddProxy` find a linked proxy or return an error. `RemoveHost` reads `HostsShutDown` of
the proxy it has looked up before it asks whether there is one, so it fails for a pattern that is not
served. -/

/-- The goroutine of a linked proxy waits, so the send in `RemoveProxy` finds it. -/
theorem removeProxy_returns (R : Ready n) (data : δ) :
    ReturnsCleanly n (doRemoveProxy enc n data) := by
  unfold doRemoveProxy
  rcases heq : n.removeProxy (enc.string data) with ⟨out, n'⟩
  cases hp : n.current.relations.lookup (enc.string data) with
  | none =>
      simp only [Node.removeProxy, hp] at heq
      cases heq
      exact .error _
  | some a =>
      obtain ⟨n₁, hok, -⟩ := removeProxy_spec R.linked hp (R.router_eq hp)
      rw [heq] at hok
      cases hok
      exact .ok

/-- A host of a pattern that is not served is looked for in a `nil` proxy. -/
theorem removeHost_returns (data : δ) :
    (∀ received, ReturnsCleanly n (doRemoveHost enc n data received)) ↔
      ∀ log, enc.hostLog.unmarshal data = .ok log → n.current.relations.lookup log.pattern ≠ none := by
  unfold doRemoveHost
  split
  · next err hdata =>
      refine ⟨fun _ log hl => ?_, fun _ _ => .error err⟩
      rw [hdata] at hl
      cases hl
  · next log hdata =>
      constructor
      · intro h log' hlog' hnone
        rw [hdata] at hlog'
        cases hlog'
        have hret := h true
        simp only [Node.removeHost, hnone] at hret
        exact not_returnsCleanly _ hret
      · intro h received
        obtain ⟨a, ha⟩ := Option.ne_none_iff_exists'.mp (h log hdata)
        simp only [Node.removeHost, ha]
        split
        · exact .ok
        · exact .error _

theorem addHost_returns (R : Ready n) (data : δ) : ReturnsCleanly n (doAddHost env enc n data) := by
  unfold doAddHost
  split
  · exact .error _
  · next log hdata =>
      rcases heq : n.addProxy env log.pattern log.host with ⟨out, n'⟩
      rcases R.addProxy heq with ⟨-, rfl, err, rfl⟩ | ⟨rfl, -⟩
      · exact .error err
      · exact .ok

/-! ### `Apply`

Put together by the type of the entry, in any state that a run can reach. -/

/-- In every state of every run, for every entry and whichever checkers answer: `Apply` returns,
and leaves the node as it was if it returns an error, exactly when the entry is applicable. -/
theorem apply_safe_iff {es : List (Event δ)} (h₀ : Start n₀)
    (hrun : Trace (Step env enc) n₀ es n) (entry : LogEntry δ) :
    (∀ received, ReturnsCleanly n (apply env enc n entry received)) ↔ Applicable env enc n entry := by
  have S : Sane env n := run_sane h₀ hrun
  have R := S.toReady
  unfold apply
  constructor
  · intro h
    refine ⟨fun opt => ?_, fun opt => ?_, fun opt => ?_⟩
    -- whether a proxy can be hung in does not depend on the checker
    · simp only [opt, if_true] at h
      exact (newHttpProxy_returns R entry.data).mp (h true)
    · have hacl := h true
      simp only [opt] at hacl
      exact (handleAcl_returns S.intact entry.data).mp hacl
    · simp only [opt] at h
      exact (removeHost_returns entry.data).mp h
  · intro h received
    split
    · next opt => exact (newHttpProxy_returns R entry.data).mpr (h.newHttpProxy opt)
    split
    · exact setRateLimiter_returns R entry.data
    split
    · next opt => exact (handleAcl_returns S.intact entry.data).mpr (h.handleAcl opt)
    split
    · exact removeProxy_returns R entry.data
    split
    · next opt => exact (removeHost_returns entry.data).mpr (h.removeHost opt) received
    split
    · exact addHost_returns R entry.data
    · exact .ok

/-- An ACL entry with the mask 0, once the tree has a node. -/
theorem apply_safe_iff_maskZero : ∃ n es, Trace (Step Env.plain Payload.encoding) Node.new es n ∧
    es.length = 1 ∧ ∀ received, ReturnsCleanly n
      (apply Env.plain Payload.encoding n ⟨3, .aclLog ⟨0, "0.0.0.0/0"⟩⟩ received) := by
  have hrun : Trace (Step Env.plain Payload.encoding) Node.new
      ([] ++ [.apply ⟨3, .aclLog ⟨1, "0.0.0.0/1"⟩⟩ false]) _ := .snoc .nil (.apply rfl)
  refine ⟨_, _, hrun, rfl, (apply_safe_iff start_new hrun _).mpr ⟨?_, fun _ a ha => ?_, ?_⟩⟩
  · intro h
    exact absurd h (by decide)
  · cases ha
    refine ⟨fun _ => ?_, fun h => absurd h (by decide)⟩
    rintro (hnumbers | ⟨-, -, -, hleft⟩)
    · exact absurd hnumbers (by decide +kernel)
    · cases hleft
  · intro h
    exact absurd h (by decide)

/-- A host is removed after the entry that removed its proxy. -/
theorem not_apply_safe : ¬ ∀ (n₀ n : Node) (es : List (Event Payload)), Start n₀ →
    Trace (Step Env.plain Payload.encoding) n₀ es n → ∀ entry received,
    ReturnsCleanly n (apply Env.plain Payload.encoding n entry received) := by
  intro h
  have hrun : Trace (Step Env.plain Payload.encoding) Node.new
      ([] ++ [.apply createApi false] ++ [.apply ⟨4, .text "/api"⟩ false]) _ :=
    .snoc (.snoc .nil (.apply rfl)) (.apply rfl)
  have hclean := h _ _ _ start_new hrun removeApiHost true
  obtain ⟨ret, hret, -⟩ := hclean
  cases hret

end FSM

end Cheryl.Server
