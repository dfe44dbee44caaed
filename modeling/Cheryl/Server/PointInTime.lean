import Cheryl.Server.Run

/-!
# When a snapshot is persisted

`FSM.Snapshot` keeps references to the proxy map and the tree, and `Persist` reads them when raft
gets to it. Entries applied in between change the same maps, so what is persisted is the state at the
time of `Snapshot` as long as each of them is `Quiet`: it leaves `Record`, `Locations` and `Limiters`
as they are.
-/

namespace Cheryl.Server

open Library ReverseProxy Acl

/-! ## References

`Snapshot` copies two pointers, and `Persist` reads through them, later and in another goroutine. What is
written is what stands there then. -/

/-- `snapshot`: references to a proxy map and to the tree. `Apply` never replaces the tree, it is that
of the node. -/
structure References where
  proxyMap : Nat

def FSM.takeSnapshot (n : Node) : References := ⟨n.proxyMap⟩

/-- `snapshot.Persist`: it marshals what the references lead to now. -/
def References.persist (r : References) (n : Node) : Snapshot where
  locations := (n.proxyMaps r.proxyMap).locations
  limiters := (n.proxyMaps r.proxyMap).limiters
  routerType := (n.proxyMaps r.proxyMap).routerType
  record := n.acl.record

/-- Persisted at once, it is the snapshot of the node. -/
theorem FSM.persist_takeSnapshot (n : Node) : (takeSnapshot n).persist n = snapshot n := rfl

/-! ## Entries that leave a snapshot alone

An entry is quiet when nothing that `Persist` reads is other after it. The entries about hosts are always
so, since hosts are not persisted; the others only when they fail, or find what they ask for done. -/

/-- The call leaves `Record` as it is: it deletes a text that is not there or has no network, or adds
one that is there or cannot be added. -/
def AclLog.Quiet (t : RadixTree) (a : AclLog) : Prop :=
  (a.pattern = 0 → a.ipAddress ∈ t.record → ∃ err, t.Delete a.ipAddress = .ok (some err, t)) ∧
    (a.pattern = 1 → a.ipAddress ∉ t.record → ¬ RadixTree.Accepted a.ipAddress)

/-- The entry leaves what is persisted as it is: a location is served already or cannot be, a limiter
is of no kind or for no pattern, a pattern to remove is not there. Hosts are not persisted. -/
structure Quiet {δ : Type} (env : Env) (enc : Encoding δ) (n : Node) (entry : LogEntry δ) : Prop where
  create : entry.opt = 1 → ∀ l, enc.location.unmarshal entry.data = .ok l →
    l.pattern ∈ n.current.relations ∨ ¬ l.Constructible env
  limiter : entry.opt = 2 → ∀ info, enc.limiterInfo.unmarshal entry.data = .ok info →
    info.Prefix ∉ n.current.relations ∨ info.limiterType ≠ "qps"
  acl : entry.opt = 3 → ∀ aclLog, enc.aclLog.unmarshal entry.data = .ok aclLog → aclLog.Quiet n.acl
  remove : entry.opt = 4 → enc.string entry.data ∉ n.current.relations

/-- Nothing that a snapshot refers to has changed. -/
structure Unmoved (n n' : Node) : Prop where
  proxyMaps : n'.proxyMaps = n.proxyMaps
  proxyMap : n'.proxyMap = n.proxyMap
  record : n'.acl.record = n.acl.record

section Apply

variable {δ : Type} {env : Env} {enc : Encoding δ} {n n' : Node} {entry : LogEntry δ}
  {received : Bool} {ret : Option GoError} {p host : String}

/-- To do nothing moves nothing. -/
theorem Unmoved.refl (n : Node) : Unmoved n n := ⟨rfl, rfl, rfl⟩

/-- What is read through the references is the same then. -/
theorem Unmoved.persist (h : Unmoved n n') (r : References) : r.persist n' = r.persist n := by
  unfold References.persist
  rw [h.proxyMaps, h.record]

/-- Only proxies are assigned to. -/
theorem unmoved_addProxy (env : Env) (n : Node) (p host : String) :
    Unmoved n (n.addProxy env p host).2 := by
  unfold Node.addProxy
  split
  · exact .refl n
  · split
    · exact .refl n
    · exact ⟨rfl, rfl, rfl⟩

/-- The same of `RemoveHost`. -/
theorem unmoved_removeHost (n : Node) (p host : String) (received : Bool) :
    Unmoved n (n.removeHost p host received).2 := by
  unfold Node.removeHost
  split
  · exact .refl n
  · split
    · exact ⟨rfl, rfl, rfl⟩
    · exact .refl n

/-- A quiet call on the tree leaves `Record` as it is. -/
theorem AclLog.Quiet.record {t t' : RadixTree} {a : AclLog} {err : Option GoError} (hq : a.Quiet t)
    (h : FSM.switchAcl t a = .ok (err, t')) : t'.record = t.record := by
  unfold FSM.switchAcl at h
  split at h
  · next hpattern =>
      cases err with
      | some e => rw [RadixTree.Delete_error h]
      | none =>
          rw [RadixTree.record_Delete h]
          refine Finset.erase_eq_of_notMem fun hmem => ?_
          obtain ⟨e, hfails⟩ := hq.1 hpattern hmem
          rw [h] at hfails
          cases hfails
  split at h
  · next hpattern =>
      cases err with
      | some e => rw [RadixTree.add_error h]
      | none =>
          obtain ⟨hacc, hrec⟩ := RadixTree.record_add h
          rw [hrec]
          refine Finset.insert_eq_of_mem (by_contra fun hmem => ?_)
          exact hq.2 hpattern hmem hacc
  · cases h
    rfl

/-- A call on the tree that leaves `Record` as it is is quiet. -/
theorem AclLog.Quiet.of_record {t t' : RadixTree} {a : AclLog} {err : Option GoError}
    (h : FSM.switchAcl t a = .ok (err, t')) (hrec : t'.record = t.record) : a.Quiet t := by
  unfold FSM.switchAcl at h
  refine ⟨fun hpattern hmem => ?_, fun hpattern hnot hacc => ?_⟩
  · rw [if_pos hpattern] at h
    cases err with
    | some e =>
        obtain rfl := RadixTree.Delete_error h
        exact ⟨e, h⟩
    | none =>
        rw [RadixTree.record_Delete h, Finset.erase_eq_self] at hrec
        exact absurd hmem hrec
  · rw [if_neg (by rw [hpattern]; decide), if_pos hpattern] at h
    cases err with
    | some e =>
        obtain ⟨ip, mask, hread⟩ := hacc
        rw [RadixTree.add_eq_readAdd, hread] at h
        cases h
    | none =>
        rw [(RadixTree.record_add h).2, Finset.insert_eq_self] at hrec
        exact hnot hrec

/-! ### Entry by entry

A quiet entry leaves what is read through the references, and an entry that leaves it is quiet. So the
condition is exact for the next entry. -/

/-- A quiet entry moves nothing that a snapshot refers to. -/
theorem Quiet.unmoved (hq : Quiet env enc n entry)
    (h : FSM.apply env enc n entry received = (.ok ret, n')) : Unmoved n n' := by
  have hcalls := FSM.apply_calls env enc n entry received
  rw [h] at hcalls
  cases hcalls with
  | idle => exact .refl _
  | @create l opt data new =>
      -- a location that is not served is one that no proxy can be made for
      have hnot : ¬ l.Constructible env :=
        (hq.create opt l data).resolve_left (Finmap.lookup_eq_none.mp new)
      obtain ⟨err, hadd⟩ := addProxyWithLocation_of_not n hnot
      rw [hadd]
      exact .refl n
  | @limiter info a opt data hp =>
      have hqps : info.limiterType ≠ "qps" := (hq.limiter opt info data).resolve_left fun hnot =>
        hnot (Finmap.mem_of_lookup_eq_some hp)
      have hbuild : RateLimit.build info.limiterType = .error RateLimit.limiterTypeNotSupportedError :=
        if_neg hqps
      rw [setRateLimiter_error hbuild]
      exact .refl n
  | @acl aclLog err t opt data hcall => exact ⟨rfl, rfl, (hq.acl opt aclLog data).record hcall⟩
  | removeProxy opt =>
      -- the pattern is not served, and `RemoveProxy` returns its error
      unfold Node.removeProxy
      rw [Finmap.lookup_eq_none.mpr (hq.remove opt)]
      exact .refl n
  | removeHost opt data => exact unmoved_removeHost n _ _ received
  | addHost opt data => exact unmoved_addProxy env n _ _

/-! ### Only quiet entries leave it alone

On a sane node the record of what is served and the tables agree, so an entry that asks for a change of a
location, a limiter or the access list does make one that shows in what is persisted. -/

/-- Entries are applied to the proxy map that there is. -/
theorem proxyMap_apply (env : Env) (enc : Encoding δ) (n : Node) (entry : LogEntry δ)
    (received : Bool) : (FSM.apply env enc n entry received).2.proxyMap = n.proxyMap := by
  have hcalls := FSM.apply_calls env enc n entry received
  generalize (FSM.apply env enc n entry received).2 = n' at hcalls ⊢
  cases hcalls with
  | idle => rfl
  | create opt data new =>
      unfold Node.addProxyWithLocation
      split
      · rfl
      · rw [Node.addRelations_eq]
        cases n.router <;> rfl
  | limiter opt data hp =>
      unfold Node.setRateLimiter Node.recordLimiter
      split
      · rfl
      · simp only
        split <;> rfl
  | acl opt data hcall => rfl
  | removeProxy opt =>
      unfold Node.removeProxy
      split
      · rfl
      · split
        · simp only [Node.router_modifyProxy]
          cases n.router <;> rfl
        · rfl
  | removeHost opt data => exact (unmoved_removeHost n _ _ received).proxyMap
  | addHost opt data => exact (unmoved_addProxy env n _ _).proxyMap

/-- An entry that leaves `Record`, `Locations` and `Limiters` of a sane node as they are is quiet. -/
theorem Quiet.of_same (S : Sane env n) (h : FSM.apply env enc n entry received = (.ok ret, n'))
    (hlocations : n'.current.locations = n.current.locations)
    (hlimiters : n'.current.limiters = n.current.limiters)
    (hrecord : n'.acl.record = n.acl.record) : Quiet env enc n entry := by
  have A := FSM.apply_spec S.toReady h
  have hlocs : n'.config.locations = n.config.locations := by
    funext p
    show n'.current.locations.lookup p = _
    rw [hlocations]
    rfl
  have hlims : n'.config.limiters = n.config.limiters := by
    funext p
    show (n'.current.limiters.lookup p).getD [] = _
    rw [hlimiters]
    rfl
  -- a pattern that is served has a location
  have hserved : ∀ p, p ∈ n.current.relations ↔ n.config.locations p ≠ none := by
    intro p
    rw [← not_iff_not, not_not, ← S.storable.served p, Node.services_eq_none, Finmap.lookup_eq_none]
  refine ⟨fun opt l data => ?_, fun opt info data => ?_, fun opt aclLog data => ?_, fun opt => ?_⟩
  -- each other entry is asked for a change that shows in what is persisted
  · by_contra hcon
    rw [not_or, not_not] at hcon
    obtain ⟨hnew, proxy, hproxy⟩ := hcon
    have hasked : FSM.asked env enc n.config entry received = some (.create l) := by
      have hnone : n.config.services l.pattern = none :=
        Node.services_eq_none.mpr (Finmap.lookup_eq_none.mpr hnew)
      simp [FSM.asked, opt, data, hnone, hproxy]
    have hconfig := A.config
    rw [hasked] at hconfig
    have hput : n'.config.locations l.pattern = some l := by
      rw [hconfig]
      exact Config.locations_put_self
    rw [hlocs] at hput
    exact hnew ((hserved _).mpr (by rw [hput]; simp))
  · by_contra hcon
    rw [not_or, not_not] at hcon
    obtain ⟨hmem, hqps⟩ := hcon
    obtain ⟨a, hp⟩ := Finmap.mem_iff.mp hmem
    have hasked : FSM.asked env enc n.config entry received =
        some (.setLimiter info.Prefix info) := by
      simp [FSM.asked, opt, data, Node.services_of_lookup hp, hqps]
    have hconfig := A.config
    rw [hasked] at hconfig
    have hgrown : n'.config.limiters info.Prefix = n.config.limiters info.Prefix ++ [info] := by
      rw [hconfig]
      simp [Change.perform, Change.apply, Config.record, Config.modify]
    rw [hlims] at hgrown
    simp at hgrown
  · unfold FSM.apply at h
    simp only [opt] at h
    unfold FSM.doHandleAcl at h
    rw [data] at h
    rcases hcall : FSM.switchAcl n.acl aclLog with fault | ⟨err, t⟩ <;> simp only [hcall] at h <;> cases h
    exact AclLog.Quiet.of_record hcall hrecord
  · by_contra hmem
    obtain ⟨a, hp⟩ := Finmap.mem_iff.mp hmem
    have hasked : FSM.asked env enc n.config entry received =
        some (.remove (enc.string entry.data)) := by
      simp [FSM.asked, opt, Node.services_of_lookup hp]
    have hconfig := A.config
    rw [hasked] at hconfig
    have hgone : n'.config.locations (enc.string entry.data) = none := by
      rw [hconfig]
      exact Config.locations_remove_self
    rw [hlocs] at hgone
    exact (hserved _).mp hmem hgone

/-! ### From `Snapshot` to `Persist`

Raft persists a snapshot in a goroutine of its own, while it goes on to apply entries. -/

/-- The entry is applied, and `Apply` returns. -/
def Applies (env : Env) (enc : Encoding δ) (n : Node) (e : LogEntry δ × Bool) (n' : Node) : Prop :=
  ∃ ret, FSM.apply env enc n e.1 e.2 = (.ok ret, n')

/-- Whatever quiet entries are applied between `Snapshot` and `Persist`, to whatever node: what is
persisted is what would have been persisted at once. On a sane node any other entry ends that. -/
theorem persist_eq_snapshot {es : List (LogEntry δ × Bool)}
    (hrun : Trace (fun n e n' => Applies env enc n e n' ∧ Quiet env enc n e.1) n es n') :
    (FSM.takeSnapshot n).persist n' = FSM.snapshot n ∧
      (Sane env n' → ∀ entry received ret n'', FSM.apply env enc n' entry received = (.ok ret, n'') →
        ((FSM.takeSnapshot n).persist n'' = FSM.snapshot n ↔ Quiet env enc n' entry)) := by
  -- what the references lead to is as it was after any number of quiet entries
  have hunmoved : Unmoved n n' := by
    refine hrun.invariant (I := Unmoved n) (.refl n) ?_
    rintro n₁ e n₂ h ⟨⟨ret, happly⟩, hq⟩
    have h' := hq.unmoved happly
    exact ⟨h'.proxyMaps.trans h.proxyMaps, h'.proxyMap.trans h.proxyMap, h'.record.trans h.record⟩
  have hpersist := hunmoved.persist (FSM.takeSnapshot n)
  refine ⟨hpersist, fun S entry received ret n'' happly => ⟨fun hsame => ?_, fun hq => ?_⟩⟩
  · -- the reference leads to the current proxy map, before and after
    have haddr' : n'.proxyMap = (FSM.takeSnapshot n).proxyMap := hunmoved.proxyMap
    have hmap := proxyMap_apply env enc n' entry received
    rw [happly] at hmap
    have haddr'' : n''.proxyMap = (FSM.takeSnapshot n).proxyMap :=
      hmap.trans haddr'
    have hboth : (FSM.takeSnapshot n).persist n'' = (FSM.takeSnapshot n).persist n' :=
      hsame.trans hpersist.symm
    refine .of_same S happly ?_ ?_ (congrArg Snapshot.record hboth)
    · unfold Node.current
      rw [haddr', haddr'']
      exact congrArg Snapshot.locations hboth
    · unfold Node.current
      rw [haddr', haddr'']
      exact congrArg Snapshot.limiters hboth
  · rw [(hq.unmoved happly).persist]
    exact hpersist

end Apply

/-- Hosts come and go, and `/api` is created a second time. -/
theorem persist_eq_snapshot_hosts : ∃ n' es, es.length = 2 ∧
    Trace (Applies Env.plain Payload.encoding) Node.api es n' ∧
    (FSM.takeSnapshot Node.api).persist n' = FSM.snapshot Node.api := by
  have hrun : Trace (fun n e n' => Applies Env.plain Payload.encoding n e n' ∧
      Quiet Env.plain Payload.encoding n e.1) Node.api [] Node.api := .nil
  have hrun := hrun.snoc (e := (createApi, false)) ⟨⟨_, rfl⟩, ⟨fun _ l data => by
    cases data
    exact .inl (by decide), fun opt => (by cases opt), fun opt => (by cases opt), fun opt => (by cases opt)⟩⟩
  have hrun := hrun.snoc (e := ((⟨6, .hostLog ⟨"/api", "http://b:80"⟩⟩ : LogEntry Payload), false))
    ⟨⟨_, rfl⟩, ⟨fun opt => (by cases opt), fun opt => (by cases opt), fun opt => (by cases opt),
      fun opt => (by cases opt)⟩⟩
  exact ⟨_, _, rfl, hrun.mono fun h => h.1, (persist_eq_snapshot hrun).1⟩

/-- `/api` is created between `Snapshot` and `Persist`, and persisted. -/
theorem not_persist_eq_snapshot : ¬ ∀ (env : Env) (n n' : Node) (es : List (LogEntry Payload × Bool)),
    Reachable env Payload.encoding n → Trace (Applies env Payload.encoding) n es n' →
    (FSM.takeSnapshot n).persist n' = FSM.snapshot n := by
  intro h
  have hrun : Trace (Applies Env.plain Payload.encoding) Node.new ([] ++ [(createApi, false)]) Node.api :=
    .snoc .nil ⟨_, rfl⟩
  have hsame := congrArg (fun s => (s.locations.lookup "/api").isSome) (h _ _ _ _ reachable_new hrun)
  revert hsame
  decide

end Cheryl.Server
