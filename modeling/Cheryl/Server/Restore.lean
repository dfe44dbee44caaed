import Cheryl.Server.Run

/-!
# What `Restore` makes of a snapshot

`Restore` builds the configuration `Config.restored`, whatever the node held before and in whatever
order the maps are visited: each location is served as a new proxy, the limiters recorded for it are
set again, and doing so records them once more. The result can be stored and restored again.
-/

namespace Cheryl.Server

open ReverseProxy Acl RateLimit

/-! ## The configuration that is restored

What `Restore` comes to, as a function of tables. It does not mention the node that is restored, which is
why restoring makes nodes alike. -/

def Service.replay (s : Service) (infos : List LimiterInfo) : Service :=
  infos.foldl (fun s info => s.setLimiter info.pathName info.described) s

@[simp] theorem Service.hosts_replay (s : Service) (infos : List LimiterInfo) :
    (Service.replay s infos).hosts = s.hosts := by
  induction infos generalizing s with
  | nil => rfl
  | cons info infos ih => exact ih _

@[simp] theorem Service.mode_replay (s : Service) (infos : List LimiterInfo) :
    (Service.replay s infos).mode = s.mode := by
  induction infos generalizing s with
  | nil => rfl
  | cons info infos ih => exact ih _

/-- What becomes of a configuration that is stored and restored. -/
def Config.restored (env : Env) (c : Config) : Config where
  services := fun p => (c.locations p).map fun l => Service.replay (l.service env) (c.limiters p)
  locations := c.locations
  limiters := fun p => if (c.locations p).isSome then c.limiters p ++ c.limiters p else c.limiters p

/-- A node of which a snapshot can be restored. -/
structure Restorable (env : Env) (n : Node) : Prop where
  linked : Linked n
  accepted : ∀ s ∈ n.acl.record, RadixTree.Accepted s
  storable : Config.Storable env n.config

/-- Every node that is sane can be restored from. -/
theorem Sane.restorable {env : Env} {n : Node} (S : Sane env n) : Restorable env n :=
  ⟨S.linked, S.accepted, S.storable⟩

/-- What was restored can be stored again. -/
theorem Config.Storable.restored {env : Env} {c : Config} (h : Config.Storable env c) :
    Config.Storable env (Config.restored env c) where
  served := fun p => by simp [Config.restored]
  pattern := h.pattern
  constructible := h.constructible
  supported := by
    intro p info hmem
    refine h.supported (p := p) ?_
    simp only [Config.restored] at hmem
    split at hmem
    · simpa using hmem
    · exact hmem
  recorded := by
    intro p s hs hnil
    simp only [Config.restored] at hs hnil
    obtain ⟨l, hl, rfl⟩ := Option.map_eq_some_iff.mp hs
    rw [hl] at hnil
    have hempty : c.limiters p = [] := by simpa using hnil
    rw [hempty]
    rfl

/-! ## The loops of `Restore`

Three loops over maps. Each is an induction over the keys in the order they are visited, and each result is
stated without that order: what a pattern has afterwards depends on whether it was among the keys. -/

section Loops

variable {env : Env} {n : Node} {p : String} {a : Nat}

/-! ### The tree

The last loop is a run of `Add` on a new tree. -/

/-- The loop over `Record` adds every text. -/
theorem restore_accepted (keys : List String) : ∀ {t : RadixTree}, RadixTree.Intact t →
    (∀ s ∈ keys, RadixTree.Accepted s) → ∃ t', RadixTree.restore keys t = .ok t' ∧
      RadixTree.Intact t' ∧ ∀ s, s ∈ t'.record ↔ s ∈ t.record ∨ s ∈ keys := by
  induction keys with
  | nil => exact fun I _ => ⟨_, rfl, I, fun s => by simp⟩
  | cons key keys ih =>
      intro t I hacc
      have hkey : RadixTree.Accepted key := hacc key (List.mem_cons_self ..)
      rcases I.add key with ⟨-, fault, heq⟩ | ⟨-, hnot, -⟩ | ⟨-, -, t₁, heq, I₁, hrec⟩
      · obtain ⟨ip, mask, hread⟩ := hkey
        rw [RadixTree.add_eq_readAdd, hread] at heq
        cases heq
      · exact absurd hkey hnot
      · obtain ⟨t', hrest, I', hmem⟩ := ih I₁ fun s hs => hacc s (List.mem_cons_of_mem _ hs)
        refine ⟨t', by rw [RadixTree.restore, heq]; exact hrest, I', fun s => ?_⟩
        rw [hmem, hrec, Finset.mem_insert, List.mem_cons]
        rw [or_assoc, or_left_comm]

/-! ### The proxies

Each location is added again as it is found in the map that the loop goes through. It is stored under its
own pattern, so the map is the same afterwards, whichever order the keys are visited in. -/

/-- The loop over `Locations` serves them all. The locations stay as they are, since each is put
back under its own pattern. -/
theorem restoreLocations_spec {L : String → Option Location}
    (hpattern : ∀ {p l}, L p = some l → l.pattern = p)
    (hcon : ∀ {p l}, L p = some l → l.Constructible env) (keys : List String) :
    ∀ {n : Node}, Linked n → n.router ≠ none → n.config.locations = L →
    ∃ n', FSM.restoreLocations env keys n = (.ok none, n') ∧ Linked n' ∧
      n'.config.locations = L ∧ n'.config.limiters = n.config.limiters ∧
      ∀ p, n'.config.services p =
        if p ∈ keys ∧ (L p).isSome then (L p).map fun l => l.service env else n.config.services p := by
  induction keys with
  | nil => exact fun hlinked _ hlocs => ⟨_, rfl, hlinked, hlocs, rfl, fun p => by simp⟩
  | cons key keys ih =>
      intro n hlinked hr hlocs
      have hlookup : n.current.locations.lookup key = L key := by rw [← hlocs]; rfl
      cases hl : L key with
      | none =>
          obtain ⟨n', heq, hlinked', hlocs', hlims', hserv'⟩ := ih hlinked hr hlocs
          refine ⟨n', by rw [FSM.restoreLocations, hlookup, hl]; exact heq, hlinked', hlocs', hlims',
            fun p => ?_⟩
          rw [hserv']
          by_cases hp : p = key
          · subst hp; simp [hl]
          · simp [hp]
      | some l =>
          -- a location is stored under its own pattern, so it is put back where it was read
          have hkey : l.pattern = key := hpattern hl
          obtain ⟨hlinked₁, hconfig₁, -, hrouter₁, -, hout₁⟩ :=
            addProxyWithLocation_spec hlinked (hcon hl)
          rcases hadd : n.addProxyWithLocation env l with ⟨out, n₁⟩
          rw [hadd] at hlinked₁ hconfig₁ hrouter₁ hout₁
          rw [if_neg hr] at hout₁
          cases hout₁
          have hlocs₁ : n₁.config.locations = L := by
            rw [hconfig₁]
            show Function.update n.config.locations l.pattern (some l) = L
            rw [hlocs, hkey, ← hl, Function.update_eq_self]
          have hr₁ : n₁.router ≠ none := by
            rw [show n₁.router = _ from hrouter₁]
            simpa using hr
          obtain ⟨n', heq, hlinked', hlocs', hlims', hserv'⟩ := ih hlinked₁ hr₁ hlocs₁
          refine ⟨n', by rw [FSM.restoreLocations, hlookup, hl]; simp only [hadd]; exact heq,
            hlinked', hlocs', ?_, fun p => ?_⟩
          · rw [hlims', show n₁.config = _ from hconfig₁]
            rfl
          · rw [hserv', show n₁.config = _ from hconfig₁]
            by_cases hp : p = key
            · subst hp
              have hput : (n.config.put l (l.service env)).services p = some (l.service env) := by
                rw [← hkey]
                exact Config.services_put_self
              simp [hl, hput]
            · rw [Config.services_put_of_ne (hkey ▸ hp)]
              simp [hp]

/-! ### The limiters

For a pattern that is served, `SetRateLimiter` is called for every limiter in its list, and appends it to
that list. The list a round goes through was read before, so the round ends, with the list twice as long. -/

def setLimiters (p : String) (c : Config) (infos : List LimiterInfo) : Config :=
  infos.foldl (fun c info =>
    (c.modify p fun s => s.setLimiter info.pathName info.described).record p info) c

/-- What that does to the table, row by row. -/
theorem setLimiters_spec (p : String) (infos : List LimiterInfo) : ∀ c : Config,
    (setLimiters p c infos).locations = c.locations ∧
    (∀ q, (setLimiters p c infos).limiters q =
      if q = p then c.limiters q ++ infos else c.limiters q) ∧
    ∀ q, (setLimiters p c infos).services q =
      if q = p then (c.services q).map fun s => Service.replay s infos else c.services q := by
  induction infos with
  | nil =>
      intro c
      refine ⟨rfl, fun q => by simp [setLimiters], fun q => ?_⟩
      simp [setLimiters, Service.replay]
  | cons info infos ih =>
      intro c
      -- the limiters that follow are set on the table that has the first
      obtain ⟨hlocs, hlims, hserv⟩ :=
        ih ((c.modify p fun s => s.setLimiter info.pathName info.described).record p info)
      refine ⟨hlocs, fun q => ?_, fun q => ?_⟩
      · refine (hlims q).trans ?_
        by_cases hq : q = p
        · subst hq
          simp [Config.record, Config.modify]
        · simp [hq, Config.record, Config.modify]
      · refine (hserv q).trans ?_
        by_cases hq : q = p
        · subst hq
          simp only [if_true]
          show Option.map _ ((c.modify q _).services q) = _
          rw [Config.services_modify_self, Option.map_map]
          rfl
        · simp only [if_neg hq]
          exact Config.services_modify_of_ne hq

/-- The loop over the limiters recorded for one proxy. -/
theorem replayLimiters_spec (infos : List LimiterInfo) :
    ∀ {n : Node}, Linked n → n.current.relations.lookup p = some a →
    (∀ info ∈ infos, info.limiterType = "qps") →
    ∃ n', FSM.replayLimiters a infos n = (.ok none, n') ∧ Linked n' ∧
      n'.current.relations = n.current.relations ∧
      n'.config = setLimiters p n.config infos := by
  induction infos with
  | nil => exact fun hlinked _ _ => ⟨_, rfl, hlinked, rfl, rfl⟩
  | cons info infos ih =>
      intro n hlinked hp hqps
      have hbuild : RateLimit.build info.limiterType = .ok newQpsRateLimiter :=
        build_eq_ok.mpr ⟨hqps info (List.mem_cons_self ..), rfl⟩
      obtain ⟨n₁, hset, hrec⟩ := setRateLimiter_spec hlinked hp hbuild
      obtain ⟨n', heq, hlinked', hrel', hconfig'⟩ := ih hrec.linked (by rw [hrec.relations]; exact hp)
        fun info' h => hqps info' (List.mem_cons_of_mem _ h)
      refine ⟨n', by rw [FSM.replayLimiters, hset]; exact heq, hlinked', ?_, ?_⟩
      · rw [hrel', hrec.relations]
      · rw [hconfig', hrec.config]
        rfl

/-- The loop over `Limiters`. The list of a pattern grows while it is visited, the others stay. -/
theorem restoreLimiters_spec (keys : List String) :
    ∀ {n : Node}, Linked n → keys.Nodup →
    (∀ {p info}, info ∈ n.config.limiters p → info.limiterType = "qps") →
    ∃ n', FSM.restoreLimiters keys n = (.ok none, n') ∧ Linked n' ∧
      n'.config.locations = n.config.locations ∧
      (∀ p, n'.config.limiters p = if p ∈ keys ∧ (n.config.services p).isSome then
        n.config.limiters p ++ n.config.limiters p else n.config.limiters p) ∧
      ∀ p, n'.config.services p = if p ∈ keys then
        (n.config.services p).map fun s => Service.replay s (n.config.limiters p)
        else n.config.services p := by
  induction keys with
  | nil => exact fun hlinked _ _ => ⟨_, rfl, hlinked, rfl, fun p => by simp, fun p => by simp⟩
  | cons key keys ih =>
      intro n hlinked hnodup hqps
      obtain ⟨hnew, hnodup⟩ := List.nodup_cons.mp hnodup
      cases hkey : n.current.relations.lookup key with
      | none =>
          obtain ⟨n', heq, hlinked', hlocs', hlims', hserv'⟩ := ih hlinked hnodup hqps
          have hunserved := Node.services_eq_none.mpr hkey
          refine ⟨n', by rw [FSM.restoreLimiters, hkey]; exact heq, hlinked', hlocs', fun p => ?_,
            fun p => ?_⟩
          · rw [hlims']
            by_cases hp : p = key
            · subst hp; simp [hunserved]
            · simp [hp]
          · rw [hserv']
            by_cases hp : p = key
            · subst hp; simp [hunserved]
            · simp [hp]
      | some a =>
          obtain ⟨n₁, hreplay, hlinked₁, -, hconfig₁⟩ := replayLimiters_spec
            (n.config.limiters key) hlinked hkey fun info h => hqps h
          obtain ⟨hlocs₁, hlims₁, hserv₁⟩ :=
            setLimiters_spec key (n.config.limiters key) n.config
          rw [← hconfig₁] at hlocs₁ hlims₁ hserv₁
          -- the records of this pattern have been written a second time, and are of the same type
          have hqps₁ : ∀ {p info}, info ∈ n₁.config.limiters p → info.limiterType = "qps" := by
            intro p info hmem
            rw [hlims₁] at hmem
            split at hmem
            · next h =>
                subst h
                exact hqps (by simpa using hmem)
            · exact hqps hmem
          obtain ⟨n', heq, hlinked', hlocs', hlims', hserv'⟩ := ih hlinked₁ hnodup hqps₁
          refine ⟨n', ?_, hlinked', hlocs'.trans hlocs₁, fun p => ?_, fun p => ?_⟩
          · rw [FSM.restoreLimiters, hkey]
            have hread : (n.current.limiters.lookup key).getD [] = n.config.limiters key := rfl
            simp only [hread, hreplay]
            exact heq
          · rw [hlims', hlims₁, hserv₁]
            by_cases hp : p = key
            · subst hp
              simp [hnew, Node.services_of_lookup hkey]
            · simp [hp]
          · rw [hserv', hserv₁, hlims₁]
            by_cases hp : p = key
            · subst hp
              simp [hnew]
            · simp [hp]

end Loops

/-! ## `Restore`

The three loops in a row, on the node that the snapshot decodes to. The first finds a router and locations
that can be served, the second the proxies of the first, and the third an empty tree. -/

section Restore

variable {env : Env} {n m : Node} {o : Orders}

theorem linked_decoded (n m : Node) (h : n.current.routerType = "default") :
    Linked (FSM.decoded (FSM.snapshot n) m) where
  routerType := by simpa [FSM.decoded, FSM.snapshot, Node.current] using h
  serves := by
    intro p a hp
    simp [FSM.decoded, Node.current] at hp
  allocated := by
    intro p a hp
    simp [FSM.decoded, Node.current] at hp

/-- A node that has just decoded has the locations and the records of the snapshot. -/
theorem config_decoded (n m : Node) : (FSM.decoded (FSM.snapshot n) m).config =
    { n.config with services := fun _ => none } := by
  refine Config.ext ?_ ?_ ?_ <;> funext p <;>
    simp [FSM.decoded, FSM.snapshot, Node.config, Node.current]

/-- `Restore` succeeds on any node, and makes the configuration `restored`. -/
theorem restore_spec (R : Restorable env n) (ho : o.Of (FSM.snapshot n)) :
    ∃ m', FSM.restore env (FSM.snapshot n) o m = (.ok none, m') ∧ Restorable env m' ∧
      m'.config = Config.restored env n.config := by
  have hdecoded := linked_decoded n m R.linked.routerType
  have hconfig := config_decoded n m
  have hrouter : ((FSM.decoded (FSM.snapshot n) m).getRouterInstance
      (FSM.snapshot n).routerType).router ≠ none :=
    router_getRouterInstance _ R.linked.routerType
  obtain ⟨hconfig₀, -⟩ := config_getRouterInstance (FSM.decoded (FSM.snapshot n) m)
    (FSM.snapshot n).routerType
  have hlinked₀ : Linked ((FSM.decoded (FSM.snapshot n) m).getRouterInstance
      (FSM.snapshot n).routerType) := by
    unfold Node.getRouterInstance
    split
    · exact ⟨hdecoded.routerType, hdecoded.serves, hdecoded.allocated⟩
    · exact hdecoded
  rw [hconfig] at hconfig₀
  obtain ⟨n₁, hloop₁, hlinked₁, hlocs₁, hlims₁, hserv₁⟩ := restoreLocations_spec
    (L := n.config.locations) R.storable.pattern R.storable.constructible o.locations
    hlinked₀ hrouter (by rw [hconfig₀])
  rw [hconfig₀] at hlims₁ hserv₁
  have hserved₁ : ∀ p, n₁.config.services p = (n.config.locations p).map fun l => l.service env := by
    intro p
    rw [hserv₁]
    split
    · rfl
    · next h =>
        cases hl : n.config.locations p with
        | none => rfl
        | some l =>
            refine absurd ⟨(ho.locations.mem_iff p).mpr ?_, by rw [hl]; rfl⟩ h
            exact Finmap.mem_of_lookup_eq_some hl
  obtain ⟨n₂, hloop₂, hlinked₂, hlocs₂, hlims₂, hserv₂⟩ := restoreLimiters_spec o.limiters
    hlinked₁ ho.limiters.nodup (by rw [hlims₁]; exact R.storable.supported)
  -- a pattern that the second loop did not visit has no record to set
  have hunrecorded : ∀ p, p ∉ o.limiters → n.config.limiters p = [] := by
    intro p hp
    have hmem : p ∉ n.current.limiters := fun h => hp ((ho.limiters.mem_iff p).mpr h)
    show (n.current.limiters.lookup p).getD [] = []
    rw [Finmap.lookup_eq_none.mpr hmem]
    rfl
  obtain ⟨t, hacl, -, hrec⟩ := restore_accepted o.record RadixTree.intact_new fun s hs =>
    R.accepted s ((ho.mem_record s).mp hs)
  have hrestored : n₂.config = Config.restored env n.config := by
    refine Config.ext ?_ (hlocs₂.trans hlocs₁) ?_
    · funext p
      rw [hserv₂, hlims₁, hserved₁]
      show _ = (n.config.locations p).map _
      split
      · rw [Option.map_map]
        rfl
      · next hp =>
          rw [hunrecorded p hp]
          rfl
    · funext p
      rw [hlims₂, hlims₁, hserved₁]
      show _ = if (n.config.locations p).isSome then _ else _
      by_cases hp : p ∈ o.limiters
      · simp [hp]
      · simp [hunrecorded p hp]
  refine ⟨{ n₂ with acl := t }, ?_, ⟨?_, ?_, ?_⟩, hrestored⟩
  · simp only [FSM.restore, hloop₁, hloop₂, hacl]
  · exact ⟨hlinked₂.routerType, hlinked₂.serves, hlinked₂.allocated⟩
  · intro s hs
    rcases (hrec s).mp hs with h | h
    · simp [RadixTree.new] at h
    · exact R.accepted s ((ho.mem_record s).mp h)
  · show Config.Storable env n₂.config
    rw [hrestored]
    exact R.storable.restored

end Restore

end Cheryl.Server
