import Cheryl.Server.LimiterReplication

/-!
# The leader loop and the locations of the configuration

The loop in `Start` receives the notifications of raft. A node that had no data directory when it
started creates the locations of its configuration whenever it is told that it leads, or on any
notification if it is configured as the leader: `init` is read once and never set. The loop is modelled
with two steps for each location, `AddProxyWithLocation` and then `writeLogEntry`, so that entries and
admin requests come in between. An entry for which raft gives an error may be applied all the same, as
when the leader changes meanwhile; then it comes late.
-/

namespace Cheryl.Server.Bootstrap

open Library ReverseProxy

/-! ## The loop and what comes in between

`createProxyWithLocation` adds the proxy on the node and then waits for raft. In between the node goes on:
entries that raft had committed before are applied, and admin requests are handled. So a location is created
in two steps, and while the second is not settled, a `/removeProxy` of the pattern, or an old entry to the
same effect, takes away what the entry then brings back. This is why the orderly runs exclude it as long as
the loop owes raft an answer. -/

/-- A node with its leader loop: `pending` are the locations that the present round is still to
create, `none` while the loop waits, and `writing` is the one whose entry is on its way. `late` are those
that raft has not settled, `created` all that the loop has created, and `removed` the patterns that were
taken out of `Relations`, ever. -/
structure Loop (δ : Type) where
  server : HttpServer δ
  pending : Option (List Location)
  writing : Option Location
  late : List Location
  created : List Location
  removed : Finset String

variable {δ : Type}

/-- What happens to a node. -/
inductive Event (δ : Type)
  /-- a value arrives on `leaderNotifych` -/
  | notify (leader : Bool)
  /-- `AddProxyWithLocation` for the next location -/
  | create
  /-- `writeLogEntry` for it -/
  | write (raft : RaftOutcome)
  /-- raft applies an entry of the loop for which it gave an error -/
  | applyLate (l : Location) (received : Bool)
  /-- such an entry is lost -/
  | lose (l : Location)
  /-- the end of a round that has created all locations -/
  | finish
  /-- an admin request is handled -/
  | request (o : Outside) (req : AdminRequest)
  /-- `FSM.Apply` -/
  | apply (entry : LogEntry δ) (received : Bool)

def Event.OfLoop : Event δ → Prop
  | request _ _ => False
  | apply _ _ => False
  | _ => True

namespace Loop

def start (n : Node) : Loop δ := ⟨.newHttpServer n, none, none, [], [], ∅⟩

/-- The patterns `Relations` has. -/
def patterns (s : Loop δ) : Finset String := s.server.state.current.relations.keys

/-- Something else than the loop has been at work. -/
def worked (s : Loop δ) (server : HttpServer δ) : Loop δ :=
  { s with
    server := server
    removed := s.removed ∪ (s.patterns \ server.state.current.relations.keys) }

/-- The loop has gone on to `writeLogEntry`, or raft has settled the entry. -/
def wrote (s : Loop δ) (server : HttpServer δ) (l : Location) : RaftOutcome → Loop δ
  | .committed _ => { s with server := server, writing := none }
  | .failed _ => { s with server := server, writing := none, late := s.late ++ [l] }

end Loop

/-- One step, of a process that stays up. A request is handled at one go, up to its entry; where others
come before its entry is applied, that is a request to which raft gives an error, and an `apply` later. -/
inductive Step (env : Env) (enc : Encoding δ) (conf : StartConfig) :
    Loop δ → Event δ → Loop δ → Prop
  | leads {s : Loop δ} {leader : Bool} (waits : s.pending = none)
      (leads : leader = true ∨ conf.isLeader = true) (first : conf.init = false) :
      Step env enc conf s (.notify leader) { s with pending := some conf.location }
  | leadsAgain {s : Loop δ} {leader : Bool} (waits : s.pending = none)
      (leads : leader = true ∨ conf.isLeader = true) (again : conf.init = true) :
      Step env enc conf s (.notify leader) { s with server := s.server.setWriteFlag true }
  | follows {s : Loop δ} {leader : Bool} (waits : s.pending = none)
      (follows : ¬ (leader = true ∨ conf.isLeader = true)) :
      Step env enc conf s (.notify leader) { s with server := s.server.setWriteFlag false }
  | create {s : Loop δ} {l : Location} {ls : List Location} {n : Node}
      (next : s.pending = some (l :: ls)) (idle : s.writing = none)
      (h : s.server.state.addProxyWithLocation env l = (.ok none, n)) :
      Step env enc conf s .create
        { s with
          server := s.server.withState n
          pending := some ls
          writing := some l
          created := s.created ++ [l] }
  | write {s : Loop δ} {l : Location} {raft : RaftOutcome} {ret : Option GoError} {server : HttpServer δ}
      (writes : s.writing = some l)
      (h : s.server.writeLogEntry env enc 1 (enc.location.marshal l) raft = (.ok ret, server)) :
      Step env enc conf s (.write raft) (s.wrote server l raft)
  | applyLate {s : Loop δ} {l : Location} {received : Bool} {ret : Option GoError} {n : Node}
      (isLate : l ∈ s.late)
      (h : FSM.apply env enc s.server.state ⟨1, enc.location.marshal l⟩ received = (.ok ret, n)) :
      Step env enc conf s (.applyLate l received)
        { s.worked (s.server.withState n) with late := s.late.erase l }
  | lose {s : Loop δ} {l : Location} (isLate : l ∈ s.late) :
      Step env enc conf s (.lose l) { s with late := s.late.erase l }
  | finish {s : Loop δ} (done : s.pending = some []) (idle : s.writing = none) :
      Step env enc conf s .finish { s with server := s.server.setWriteFlag true, pending := none }
  | request {s : Loop δ} {o : Outside} {req : AdminRequest} {reply : Reply} {server : HttpServer δ}
      (h : s.server.handle env enc o req = (.returned reply, server)) :
      Step env enc conf s (.request o req) (s.worked server)
  | apply {s : Loop δ} {entry : LogEntry δ} {received : Bool} {ret : Option GoError} {n : Node}
      (h : FSM.apply env enc s.server.state entry received = (.ok ret, n)) :
      Step env enc conf s (.apply entry received) (s.worked (s.server.withState n))

/-- A step of the loop has left all proxies there were as they are, and has brought no pattern back
that was removed. -/
structure Undisturbed (s s' : Loop δ) : Prop where
  kept : ∀ p a, s.server.state.current.relations.lookup p = some a →
    s'.server.state.current.relations.lookup p = some a ∧
      s'.server.state.proxies a = s.server.state.proxies a
  limiters : s'.server.state.current.limiters = s.server.state.current.limiters
  stays : ∀ p ∈ s.removed, p ∉ s.patterns → p ∉ s'.patterns

/-- A location for a pattern that the present round is still to create. -/
def Loop.Awaits (s : Loop δ) (l : Location) : Prop :=
  ∃ ls, s.pending = some ls ∧ ∃ l' ∈ ls, l'.pattern = l.pattern

/-- A location the loop has created, whose entry raft has not settled yet. -/
def Loop.Owes (s : Loop δ) (l : Location) : Prop := s.writing = some l ∨ l ∈ s.late

/-- What keeps the loop from undoing anything. The notification on which it creates the locations is
the first of its kind, and their patterns are different, not there and never removed; nobody else creates
one of them while it does so, and nobody removes one before raft has settled its entry. -/
def Event.Orderly (env : Env) (enc : Encoding δ) (conf : StartConfig) (s : Loop δ) : Event δ → Prop
  | notify leader => (leader = true ∨ conf.isLeader = true) → conf.init = false →
      conf.location ≠ [] → s.created = [] ∧ (conf.location.map Location.pattern).Nodup ∧
        ∀ l ∈ conf.location, l.pattern ∉ s.patterns ∧ l.pattern ∉ s.removed
  | request _ req => (∀ l, req = .addProxy (.ok l) → s.Awaits l → ¬ l.Constructible env) ∧
      ∀ l, s.Owes l → req ≠ .removeProxy (.ok l.pattern)
  | apply entry _ => (∀ l, entry.opt = 1 → enc.location.unmarshal entry.data = .ok l → s.Awaits l →
      ¬ l.Constructible env) ∧
      ∀ l, s.Owes l → entry.opt = 4 → enc.string entry.data ≠ l.pattern
  | _ => True

/-! ## What others create and remove

An entry or a request creates and removes at most the pattern it names. -/

/-- The node is ready, has no patterns but those it had and those of `S`, and has lost none but those
of `T`. -/
structure Within (S T : Set String) (n n' : Node) : Prop where
  ready : Ready n'
  created : ∀ p, n'.config.services p ≠ none → n.config.services p ≠ none ∨ p ∈ S
  kept : ∀ p, n.config.services p ≠ none → n'.config.services p ≠ none ∨ p ∈ T

def creates : Change → Set String
  | .create l => {l.pattern}
  | _ => ∅

def removes : Change → Set String
  | .remove p => {p}
  | _ => ∅

section Within

variable {env : Env} {enc : Encoding δ} {n n' n'' : Node} {S S' T T' : Set String} {change : Change}
  {h h' : HttpServer δ} {entry : LogEntry δ} {received : Bool} {ret : Option GoError}

theorem Within.refl (R : Ready n) : Within S T n n := ⟨R, fun _ hp => .inl hp, fun _ hp => .inl hp⟩

theorem Within.trans (g : Within S T n n') (g' : Within S T n' n'') : Within S T n n'' where
  ready := g'.ready
  created := by
    intro p hp
    rcases g'.created p hp with hp | hp
    · exact g.created p hp
    · exact .inr hp
  kept := by
    intro p hp
    rcases g.kept p hp with hp | hp
    · exact g'.kept p hp
    · exact .inr hp

theorem Within.mono (g : Within S T n n') (sub : S ⊆ S') (sub' : T ⊆ T') : Within S' T' n n' :=
  ⟨g.ready, fun p hp => (g.created p hp).imp_right fun hS => sub hS,
    fun p hp => (g.kept p hp).imp_right fun hT => sub' hT⟩

/-- A change of a service makes and removes none. -/
theorem services_modify_ne_none {c : Config} {p q : String} {f : Service → Service} :
    (c.modify q f).services p ≠ none ↔ c.services p ≠ none := by
  by_cases hq : p = q
  · subst hq
    rw [Config.services_modify_self]
    cases c.services p <;> simp
  · rw [Config.services_modify_of_ne hq]

/-- A change creates at most its pattern. -/
theorem services_created {c : Config} {p : String} (hp : (change.apply env c).services p ≠ none) :
    c.services p ≠ none ∨ p ∈ creates change := by
  cases change with
  | create l =>
      by_cases hpl : p = l.pattern
      · exact .inr hpl
      · rw [Change.apply, Config.services_put_of_ne hpl] at hp
        exact .inl hp
  | remove q =>
      by_cases hq : p = q
      · subst hq
        simp [Change.apply] at hp
      · rw [Change.apply, Config.services_remove_of_ne hq] at hp
        exact .inl hp
  | addHost q host => exact .inl (services_modify_ne_none.mp hp)
  | removeHost q host => exact .inl (services_modify_ne_none.mp hp)
  | setMode q mode => exact .inl (services_modify_ne_none.mp hp)
  | setLimiter q info => exact .inl (services_modify_ne_none.mp hp)

/-- And it removes at most its pattern. -/
theorem services_kept {c : Config} {p : String} (hp : c.services p ≠ none) :
    (change.apply env c).services p ≠ none ∨ p ∈ removes change := by
  cases change with
  | create l =>
      by_cases hpl : p = l.pattern
      · subst hpl
        exact .inl (by simp [Change.apply])
      · rw [Change.apply, Config.services_put_of_ne hpl]
        exact .inl hp
  | remove q =>
      by_cases hq : p = q
      · exact .inr hq
      · rw [Change.apply, Config.services_remove_of_ne hq]
        exact .inl hp
  | addHost q host => exact .inl (services_modify_ne_none.mpr hp)
  | removeHost q host => exact .inl (services_modify_ne_none.mpr hp)
  | setMode q mode => exact .inl (services_modify_ne_none.mpr hp)
  | setLimiter q info => exact .inl (services_modify_ne_none.mpr hp)

/-- A change does what it says. -/
theorem Within.of_changed (hchanged : Changed env n n' change) :
    Within (creates change) (removes change) n n' where
  ready := hchanged.ready
  created := by
    intro p hp
    rw [hchanged.config] at hp
    exact services_created hp
  kept := by
    intro p hp
    rw [hchanged.config]
    exact services_kept hp

/-! ### Entries and requests

What an entry or a request names bounds what is created and removed, whatever raft makes of it. For a
request this is the call of its handler and then its entry. -/

def entryCreates (env : Env) (enc : Encoding δ) (entry : LogEntry δ) : Set String :=
  {p | ∃ l, entry.opt = 1 ∧ enc.location.unmarshal entry.data = .ok l ∧ l.Constructible env ∧
    l.pattern = p}

def entryRemoves (enc : Encoding δ) (entry : LogEntry δ) : Set String :=
  {p | entry.opt = 4 ∧ enc.string entry.data = p}

/-- An entry asks for a change of what it names. -/
theorem asked_within {c : Config} (hasked : FSM.asked env enc c entry received = some change) :
    creates change ⊆ entryCreates env enc entry ∧ removes change ⊆ entryRemoves enc entry := by
  have hpermitted := FSM.asked_permitted hasked
  unfold FSM.asked at hasked
  cases change with
  | create l =>
      refine ⟨?_, Set.empty_subset _⟩
      rintro p rfl
      -- only an entry of type 1 asks for a location, and for the one that it holds
      split at hasked
      · next opt =>
          split at hasked
          · cases hasked
          · next l' data =>
              split at hasked
              · cases hasked
                exact ⟨l, opt, data, hpermitted, rfl⟩
              · cases hasked
      · grind
  | remove q =>
      refine ⟨Set.empty_subset _, ?_⟩
      rintro p rfl
      -- and only one of type 4 for a removal
      show entry.opt = 4 ∧ enc.string entry.data = p
      grind
  | addHost q host => exact ⟨Set.empty_subset _, Set.empty_subset _⟩
  | removeHost q host => exact ⟨Set.empty_subset _, Set.empty_subset _⟩
  | setMode q mode => exact ⟨Set.empty_subset _, Set.empty_subset _⟩
  | setLimiter q info => exact ⟨Set.empty_subset _, Set.empty_subset _⟩

/-- `FSM.Apply` creates and removes what its entry names. -/
theorem Within.of_apply (R : Ready n) (happly : FSM.apply env enc n entry received = (.ok ret, n')) :
    Within (entryCreates env enc entry) (entryRemoves enc entry) n n' := by
  have happlied := FSM.apply_spec R happly
  have hconfig : n'.config = Change.perform env n.config (FSM.asked env enc n.config entry received) :=
    happlied.config
  cases hasked : FSM.asked env enc n.config entry received with
  | none =>
      rw [hasked] at hconfig
      have hsame : n'.config = n.config := hconfig
      exact ⟨happlied.ready, fun p hp => .inl (hsame ▸ hp), fun p hp => .inl (hsame.symm ▸ hp)⟩
  | some change =>
      rw [hasked] at hconfig
      obtain ⟨hcreates, hremoves⟩ := asked_within hasked
      refine ⟨happlied.ready, fun p hp => ?_, fun p hp => ?_⟩
      · rw [hconfig] at hp
        exact (services_created hp).imp_right fun hp => hcreates hp
      · rw [hconfig]
        exact (services_kept hp).imp_right fun hp => hremoves hp

/-- So does `writeLogEntry`, if it does anything. -/
theorem Within.of_writeLogEntry {optType : UInt16} {data : δ} {raft : RaftOutcome} (R : Ready h.state)
    (hwrite : h.writeLogEntry env enc optType data raft = (.ok ret, h')) :
    Within (entryCreates env enc ⟨optType, data⟩) (entryRemoves enc ⟨optType, data⟩) h.state h'.state := by
  cases raft with
  | failed err =>
      cases hwrite
      exact .refl R
  | committed received =>
      simp only [HttpServer.writeLogEntry] at hwrite
      rcases happly : FSM.apply env enc h.state ⟨optType, data⟩ received with ⟨fault | ret', n⟩ <;>
        rw [happly] at hwrite <;> cases hwrite
      exact .of_apply R happly

theorem Within.of_other {optType : UInt16} {data : δ} (hother : optType ≠ 1)
    (g : Within (entryCreates env enc ⟨optType, data⟩) T n n') : Within S T n n' :=
  g.mono (fun _ ⟨_, opt, _⟩ => absurd opt hother) subset_rfl

/-- A handler that makes its change first, and then replicates it. -/
theorem Within.of_mutateAndReplicate {call : Outcome × Node} {optType : UInt16} {data : δ}
    {raft : RaftOutcome} {reply : Reply} (hcall : Within S T h.state call.2) (hother : optType ≠ 1)
    (hremoves : entryRemoves enc ⟨optType, data⟩ ⊆ T)
    (heq : h.mutateAndReplicate env enc call optType data raft = (.returned reply, h')) :
    Within S T h.state h'.state := by
  obtain ⟨fault | _ | err, n⟩ := call
  · cases heq
  · simp only [HttpServer.mutateAndReplicate] at heq
    rcases hwrite : (h.withState n).writeLogEntry env enc optType data raft with ⟨fault | ret, h₁⟩
    · rw [hwrite] at heq
      cases heq
    -- the entry may do once more what the call has done
    · have hwritten : Within S T n h₁.state :=
        ((Within.of_writeLogEntry hcall.ready hwrite).of_other hother).mono subset_rfl hremoves
      rw [hwrite] at heq
      cases ret <;> cases heq <;> exact hcall.trans hwritten
  · cases heq
    exact hcall

/-! ### The entries of the loop, and what requests come to

An entry of the loop finds its pattern served, if nobody has taken it out meanwhile, and `doNewHttpProxy`
does nothing then. So the second step for a location leaves the node as the first one made it. -/

/-- The entry of a location that is served changes nothing. -/
theorem apply_served (env : Env) (enc : Encoding δ) {l : Location} {a : Nat} (received : Bool)
    (hp : n.current.relations.lookup l.pattern = some a) :
    FSM.apply env enc n ⟨1, enc.location.marshal l⟩ received = (.ok none, n) := by
  show FSM.doNewHttpProxy env enc n (enc.location.marshal l) = _
  simp only [FSM.doNewHttpProxy, enc.location.unmarshal_marshal, hp]

/-- `writeLogEntry` of a location that is served only makes the log longer. -/
theorem writeLogEntry_served (env : Env) (enc : Encoding δ) {l : Location} {a : Nat}
    (raft : RaftOutcome) (hp : h.state.current.relations.lookup l.pattern = some a) :
    ∃ err h', h.writeLogEntry env enc 1 (enc.location.marshal l) raft = (.ok err, h') ∧
      h'.state = h.state := by
  cases raft with
  | failed err => exact ⟨_, _, rfl, rfl⟩
  | committed received =>
      refine ⟨none, { h with committed := h.committed ++ [⟨1, enc.location.marshal l⟩] }, ?_, rfl⟩
      simp only [HttpServer.writeLogEntry, apply_served env enc received hp]
      rfl

/-- `createProxyWithLocation` that returns has hung the proxy in, and its own entry finds it there. -/
theorem createProxyWithLocation_eq {l : Location} {raft : RaftOutcome}
    (heq : h.createProxyWithLocation env enc l raft = (.returned (), h')) :
    h.state.addProxyWithLocation env l = (.ok none, h'.state) := by
  simp only [HttpServer.createProxyWithLocation] at heq
  rcases hadd : h.state.addProxyWithLocation env l with ⟨fault | _ | err, n⟩
  · rw [hadd] at heq
    cases heq
  · have hp : (h.withState n).state.current.relations.lookup l.pattern = some h.state.nextProxy :=
      Node.lookup_addProxyWithLocation hadd
    obtain ⟨ret, h₁, hwrite, hstate⟩ := writeLogEntry_served env enc raft hp
    simp only [hadd, hwrite] at heq
    cases heq
    rw [hstate]
    rfl
  · rw [hadd] at heq
    cases heq

def requestCreates (env : Env) (req : AdminRequest) : Set String :=
  {p | ∃ l, req = .addProxy (.ok l) ∧ l.Constructible env ∧ l.pattern = p}

def requestRemoves (req : AdminRequest) : Set String := {p | req = .removeProxy (.ok p)}

/-- The handler of `/limiter` neither creates nor removes anything. -/
theorem Within.of_limiterSet {info : LimiterInfo} {a : Nat} {raft : RaftOutcome} {out : Outcome}
    {h₁ : HttpServer δ} {reply : Reply} (R : Ready h.state)
    (hp : h.state.current.relations.lookup info.Prefix = some a)
    (hwrite : h.writeLogEntry env enc 2 (enc.limiterInfo.marshal info) raft = (out, h₁))
    (hset : HttpServer.LimiterSet a info h₁ out (.returned reply, h')) :
    Within S T h.state h'.state := by
  have hentry : ∀ {ret}, h.writeLogEntry env enc 2 (enc.limiterInfo.marshal info) raft = (.ok ret, h₁) →
      Within S T h.state h₁.state := fun hwrite =>
    ((Within.of_writeLogEntry R hwrite).of_other (by decide)).mono subset_rfl
      fun _ ⟨opt, _⟩ => (by cases opt)
  generalize hres : ((Ending.returned reply, h') : Ending Reply × HttpServer δ) = res at hset
  cases hset with
  | down => cases hres
  | refused =>
      cases hres
      exact hentry hwrite
  | @set out n hset =>
      have hwithin := hentry hwrite
      obtain ⟨-, rfl⟩ := Prod.mk.inj hres
      -- the entry was applied, so the pattern has its proxy still
      have hp₁ : h₁.state.current.relations.lookup info.Prefix = some a := by
        cases raft with
        | failed err => cases hwrite
        | committed received =>
            rw [relations_applied R hwrite]
            exact hp
      rcases hwithin.ready.setRateLimiter env hp₁ hset with ⟨-, rfl, -⟩ | ⟨-, -, hchanged⟩
      · exact hwithin
      · exact hwithin.trans ((Within.of_changed hchanged).mono (Set.empty_subset S) (Set.empty_subset T))

/-- What a handler does before its entry is replicated, and that entry. -/
theorem Within.of_localCall {req : AdminRequest} {call : Outcome × Node} {optType : UInt16} {data : δ}
    (R : Ready h.state)
    (hcall : HttpServer.LocalCall env enc h.state received req call optType data) :
    Within ∅ (requestRemoves req) h.state call.2 ∧ optType ≠ 1 ∧
      entryRemoves enc ⟨optType, data⟩ ⊆ requestRemoves req := by
  cases hcall with
  | @addHost req =>
      refine ⟨?_, by decide, fun _ ⟨opt, _⟩ => (by cases opt)⟩
      rcases R.addProxy (Prod.eta (h.state.addProxy env req.pattern req.host)).symm with
        ⟨-, hsame, -⟩ | ⟨-, -, url, -, hchanged⟩
      · rw [hsame]
        exact .refl R
      · exact (Within.of_changed hchanged).mono subset_rfl (Set.empty_subset _)
  | acl =>
      -- the tree has no part in what is served
      refine ⟨?_, by decide, fun _ ⟨opt, _⟩ => (by cases opt)⟩
      unfold HttpServer.callAcl
      split
      · exact .refl R
      · exact ⟨⟨⟨R.linked.routerType, R.linked.serves, R.linked.allocated⟩, R.synced⟩,
          fun _ hp => .inl hp, fun _ hp => .inl hp⟩
  | @removeProxy pattern =>
      refine ⟨?_, by decide, ?_⟩
      · rcases R.removeProxy env (Prod.eta (h.state.removeProxy pattern)).symm with
          ⟨-, hsame, -⟩ | ⟨-, -, hchanged⟩
        · rw [hsame]
          exact .refl R
        · refine (Within.of_changed hchanged).mono subset_rfl ?_
          rintro p rfl
          rfl
      · rintro p ⟨-, hstring⟩
        -- the entry names the pattern of the request
        have hstring : enc.string (enc.bytes pattern) = p := hstring
        rw [enc.string_bytes] at hstring
        subst hstring
        rfl
  | @removeHost req =>
      refine ⟨?_, by decide, fun _ ⟨opt, _⟩ => (by cases opt)⟩
      rcases R.removeHost env (Prod.eta (h.state.removeHost req.pattern req.host received)).symm with
        ⟨-, hsame, -⟩ | ⟨-, hsame, -⟩ | ⟨-, -, -, hchanged⟩
      · rw [hsame]
        exact .refl R
      · rw [hsame]
        exact .refl R
      · exact (Within.of_changed hchanged).mono subset_rfl (Set.empty_subset _)

/-- A request that is answered. -/
theorem Within.of_handle {o : Outside} {req : AdminRequest} {reply : Reply} (R : Ready h.state)
    (heq : h.handle env enc o req = (.returned reply, h')) :
    Within (requestCreates env req) (requestRemoves req) h.state h'.state := by
  have hhandles := HttpServer.handle_handles env enc h o req
  generalize hres : h.handle env enc o req = res at hhandles
  rw [heq] at hres
  cases hhandles with
  | turnedAway notOk up =>
      cases hres
      exact .refl R
  | limiter flag hp hwrite hset =>
      rw [← hres] at hset
      exact .of_limiterSet R hp hwrite hset
  | @addProxy l ending h₁ res flag valid hcreate hcreated =>
      cases hcreated with
      | returned =>
          cases hres
          rcases R.addProxyWithLocation (createProxyWithLocation_eq hcreate) with
            ⟨-, -, hne⟩ | ⟨hcon, -, hchanged⟩
          · exact absurd rfl hne
          · exact (Within.of_changed hchanged).mono (fun p hp => ⟨l, rfl, hcon, hp.symm⟩)
              (Set.empty_subset _)
      | panicked => cases hres
      | down => cases hres
  | replicated flag hcall =>
      obtain ⟨hwithin, hother, hremoves⟩ := Within.of_localCall R hcall
      exact .of_mutateAndReplicate (hwithin.mono (Set.empty_subset _) subset_rfl) hother hremoves hres.symm
  | @changeLb req out n hcall =>
      obtain ⟨-, rfl⟩ := Prod.mk.inj hres
      rcases R.changeLb hcall with ⟨-, rfl, -⟩ | ⟨err, -, rfl, -⟩ | ⟨-, -, -, hchanged⟩
      · exact .refl R
      · exact .refl R
      · exact (Within.of_changed hchanged).mono (Set.empty_subset _) (Set.empty_subset _)

end Within

/-! ## Runs

The invariant is about the three tables the loop keeps for itself: what it is still to create, what it has
created, and what it owes raft. Steps of others are bounded by `Within`, so an orderly one leaves all three
alone. A step of the loop changes the node only when it creates a location, as every entry it writes finds
its pattern served. -/

/-- What holds of a loop that is orderly. While it creates, what it is still to create is different,
not there and never removed; and what it has created is there until raft has settled its entry. -/
structure Orderly (conf : StartConfig) (s : Loop δ) : Prop where
  ready : Ready s.server.state
  waits : s.pending = none → s.created <+: conf.location
  creates : ∀ ls, s.pending = some ls → s.created ++ ls = conf.location ∧
    (ls.map Location.pattern).Nodup ∧ ∀ l ∈ ls, l.pattern ∉ s.patterns ∧ l.pattern ∉ s.removed
  owes : ∀ l, s.Owes l → l.pattern ∈ s.patterns

section Run

variable {env : Env} {enc : Encoding δ} {conf : StartConfig} {s s' : Loop δ} {e : Event δ}
  {es : List (Event δ)} {n₀ : Node} {l : Location}

theorem Loop.mem_patterns {p : String} :
    p ∈ s.patterns ↔ s.server.state.config.services p ≠ none := by
  rw [Loop.patterns, Finmap.mem_keys, ← not_iff_not, not_not, Node.services_eq_none,
    Finmap.lookup_eq_none]

/-- At any time, what was created is a beginning of the configuration. -/
theorem Orderly.once (O : Orderly conf s) : s.created <+: conf.location := by
  cases hpending : s.pending with
  | none => exact O.waits hpending
  | some ls => exact ⟨ls, (O.creates ls hpending).1⟩

/-- What the loop owes raft is served. -/
theorem Orderly.served (O : Orderly conf s) (howes : s.Owes l) :
    ∃ a, s.server.state.current.relations.lookup l.pattern = some a :=
  Finmap.mem_iff.mp (Finmap.mem_keys.mp (O.owes l howes))

theorem orderly_start (h₀ : Start n₀) : Orderly conf (Loop.start n₀ : Loop δ) where
  ready := by
    have hsane : Sane Env.plain n₀ := h₀.sane
    exact hsane.toReady
  waits := fun _ => List.nil_prefix
  creates := fun ls h => by cases h
  owes := by
    rintro l (h | h)
    · cases h
    · cases h

/-- A step of the loop that leaves the node alone, and owes nothing new. -/
theorem Orderly.of_state (O : Orderly conf s) (hstate : s'.server.state = s.server.state)
    (hpending : s'.pending = s.pending) (hcreated : s'.created = s.created)
    (hremoved : s'.removed = s.removed) (howes : ∀ l, s'.Owes l → s.Owes l) : Orderly conf s' where
  ready := by rw [hstate]; exact O.ready
  waits := by rw [hpending, hcreated]; exact O.waits
  creates := by
    unfold Loop.patterns
    rw [hpending, hcreated, hremoved, hstate]
    exact O.creates
  owes := by
    intro l hl
    unfold Loop.patterns
    rw [hstate]
    exact O.owes l (howes l hl)

/-! ### What the others do, and what the loop does

Everybody else goes by bounds. The loop has one step that counts, creating a location: its pattern is new by
the invariant, so nothing is replaced. -/

/-- Something else than the loop has been at work, has created none of what the loop awaits, and has
removed none of what it owes. -/
theorem Orderly.worked (O : Orderly conf s) {server : HttpServer δ} {S T : Set String}
    (g : Within S T s.server.state server.state) (hS : ∀ l, s.Awaits l → l.pattern ∉ S)
    (hT : ∀ l, s.Owes l → l.pattern ∉ T) : Orderly conf (s.worked server) where
  ready := g.ready
  waits := O.waits
  creates := by
    intro ls hpending
    obtain ⟨hall, hnodup, hnew⟩ := O.creates ls hpending
    refine ⟨hall, hnodup, fun l hl => ⟨fun hmem => ?_, fun hmem => ?_⟩⟩
    · rcases g.created _ (Loop.mem_patterns.mp hmem) with hp | hp
      · exact (hnew l hl).1 (Loop.mem_patterns.mpr hp)
      · exact hS l ⟨ls, hpending, l, hl, rfl⟩ hp
    -- what the step has removed was there, and what the loop awaits was not
    · rcases Finset.mem_union.mp hmem with hmem | hmem
      · exact (hnew l hl).2 hmem
      · exact (hnew l hl).1 (Finset.mem_sdiff.mp hmem).1
  owes := by
    intro l howes
    have howes : s.Owes l := howes
    rcases g.kept _ (Loop.mem_patterns.mp (O.owes l howes)) with hp | hp
    · exact Loop.mem_patterns.mpr hp
    · exact absurd hp (hT l howes)

/-- What a new proxy leaves alone. -/
theorem undisturbed_related {n n' : Node} (L : Linked n)
    (h : n.addProxyWithLocation env l = (.ok none, n')) :
    n'.current.relations.keys = insert l.pattern n.current.relations.keys ∧
      n'.current.limiters = n.current.limiters ∧
      ∀ p a, p ≠ l.pattern → n.current.relations.lookup p = some a →
        n'.current.relations.lookup p = some a ∧ n'.proxies a = n.proxies a := by
  obtain ⟨proxy, hosts, -, -, rfl⟩ := Node.addProxyWithLocation_eq_ok h
  have hcur := n.current_related l proxy
  refine ⟨?_, ?_, fun p a hp ha => ⟨?_, ?_⟩⟩
  · show (n.related l proxy).current.relations.keys = _
    rw [hcur]
    ext p
    simp only [Finmap.mem_keys, Finmap.mem_insert, Finset.mem_insert]
  · show (n.related l proxy).current.limiters = _
    rw [hcur]
  · show (n.related l proxy).current.relations.lookup p = _
    rw [n.lookup_related, if_neg hp]
    exact ha
  · show (n.related l proxy).proxies a = _
    have hlt := L.allocated ha
    rw [n.proxies_related, Function.update_of_ne (by omega)]

theorem Undisturbed.refl (hstate : s'.server.state = s.server.state) : Undisturbed s s' where
  kept := fun p a hp => by rw [hstate]; exact ⟨hp, rfl⟩
  limiters := by rw [hstate]
  stays := by
    intro p _ hp
    rw [Loop.patterns, hstate]
    exact hp

/-! ### Step by step

An orderly step keeps the invariant. Of the steps of the loop, `create` is the only one that writes to the
node; the entries that it owes find their patterns, and the rest is bookkeeping. -/

/-- The loop creates the next location: its pattern is new, so nothing else is touched. -/
theorem Orderly.create (O : Orderly conf s) {ls : List Location} {n : Node}
    (next : s.pending = some (l :: ls))
    (hadd : s.server.state.addProxyWithLocation env l = (.ok none, n))
    (hs' : s' = { s with
      server := s.server.withState n
      pending := some ls
      writing := some l
      created := s.created ++ [l] }) : Orderly conf s' ∧ Undisturbed s s' := by
  obtain ⟨hall, hnodup, hnew⟩ := O.creates _ next
  obtain ⟨hp, hremoved⟩ := hnew l List.mem_cons_self
  obtain ⟨hkeys, hlimiters, hkept⟩ := undisturbed_related O.ready.linked hadd
  have hpatterns : s'.patterns = insert l.pattern s.patterns := by
    subst hs'
    exact hkeys
  rw [List.map_cons, List.nodup_cons] at hnodup
  subst hs'
  refine ⟨⟨?_, fun h => (by cases h), fun ls' hls => ?_, ?_⟩, ⟨fun p a ha => ?_, hlimiters, ?_⟩⟩
  · rcases O.ready.addProxyWithLocation hadd with ⟨-, -, hne⟩ | ⟨-, -, hchanged⟩
    · exact absurd rfl hne
    · exact hchanged.ready
  · cases hls
    refine ⟨by rw [List.append_assoc]; exact hall, hnodup.2, fun l' hl' => ⟨fun hmem => ?_, ?_⟩⟩
    · -- the patterns are different, so the new one is none of those to come
      rw [hpatterns, Finset.mem_insert] at hmem
      rcases hmem with heq | hmem
      · exact hnodup.1 (heq ▸ List.mem_map_of_mem hl')
      · exact (hnew l' (List.mem_cons_of_mem _ hl')).1 hmem
    · exact (hnew l' (List.mem_cons_of_mem _ hl')).2
  · rintro l' howes
    rw [hpatterns, Finset.mem_insert]
    rcases howes with h | h
    · cases h
      exact .inl rfl
    · exact .inr (O.owes l' (.inr h))
  · -- the pattern was not there, so no proxy is replaced
    refine hkept p a ?_ ha
    rintro rfl
    exact hp (Finmap.mem_keys.mpr (Finmap.mem_of_lookup_eq_some ha))
  · intro p hgone hnot hmem
    rw [hpatterns, Finset.mem_insert] at hmem
    rcases hmem with rfl | hmem
    · exact hremoved hgone
    · exact hnot hmem

/-- An orderly step keeps the loop orderly, and a step of the loop disturbs nothing. -/
theorem Orderly.step (O : Orderly conf s) (h : Step env enc conf s e s')
    (ho : e.Orderly env enc conf s) : Orderly conf s' ∧ (e.OfLoop → Undisturbed s s') := by
  cases h with
  | leads waits leads first =>
      refine ⟨⟨O.ready, fun h => (by cases h), fun ls hls => ?_, O.owes⟩, fun _ => .refl rfl⟩
      cases hls
      -- with nothing configured there is nothing to create, and the loop may lead again and again
      by_cases hnone : conf.location = []
      · have hcreated : s.created = [] := List.prefix_nil.mp (hnone ▸ O.waits waits)
        rw [hcreated, hnone]
        exact ⟨rfl, List.nodup_nil, fun l hl => by cases hl⟩
      · obtain ⟨hcreated, hnodup, hnew⟩ := ho leads first hnone
        exact ⟨by rw [hcreated]; rfl, hnodup, hnew⟩
  | leadsAgain waits leads again => exact ⟨O.of_state rfl rfl rfl rfl fun _ => id, fun _ => .refl rfl⟩
  | follows waits follows => exact ⟨O.of_state rfl rfl rfl rfl fun _ => id, fun _ => .refl rfl⟩
  | create next idle h =>
      obtain ⟨O', hundisturbed⟩ := O.create next h rfl
      exact ⟨O', fun _ => hundisturbed⟩
  | @write l raft ret server writes h =>
      -- the location is still served, so its entry finds it
      obtain ⟨a, hp⟩ := O.served (.inl writes)
      obtain ⟨ret', server', h', hstate⟩ := writeLogEntry_served env enc raft hp
      rw [h] at h'
      cases h'
      cases raft with
      | committed received =>
          refine ⟨O.of_state hstate rfl rfl rfl fun l' hl' => ?_, fun _ => .refl hstate⟩
          rcases hl' with hl' | hl'
          · cases hl'
          · exact .inr hl'
      | failed err =>
          refine ⟨O.of_state hstate rfl rfl rfl fun l' hl' => ?_, fun _ => .refl hstate⟩
          rcases hl' with hl' | hl'
          · cases hl'
          · rcases List.mem_append.mp hl' with hl' | hl'
            · exact .inr hl'
            · obtain rfl := List.mem_singleton.mp hl'
              exact .inl writes
  | @applyLate l received ret n isLate h =>
      obtain ⟨a, hp⟩ := O.served (.inr isLate)
      rw [apply_served env enc received hp] at h
      cases h
      -- nothing was taken out, so `removed` is what it was
      have hremoved : s.removed ∪ (s.patterns \ s.server.state.current.relations.keys) = s.removed := by
        rw [Loop.patterns, Finset.sdiff_self, Finset.union_empty]
      exact ⟨O.of_state rfl rfl rfl hremoved fun l' hl' => hl'.imp_right List.mem_of_mem_erase,
        fun _ => .refl rfl⟩
  | @lose l isLate =>
      exact ⟨O.of_state rfl rfl rfl rfl fun l' hl' => hl'.imp_right List.mem_of_mem_erase,
        fun _ => .refl rfl⟩
  | finish done idle =>
      refine ⟨⟨O.ready, fun _ => ?_, fun ls h => (by cases h), O.owes⟩, fun _ => .refl rfl⟩
      exact ⟨[], (O.creates [] done).1⟩
  | request h =>
      refine ⟨O.worked (.of_handle O.ready h) ?_ ?_, fun hloop => hloop.elim⟩
      · -- a request for a pattern that the loop awaits is for a location that cannot be created
        rintro l hawaits ⟨l', rfl, hcon, hpattern⟩
        refine ho.1 l' rfl ?_ hcon
        unfold Loop.Awaits at hawaits ⊢
        rw [hpattern]
        exact hawaits
      · intro l howes hremoves
        exact ho.2 l howes hremoves
  | apply h =>
      refine ⟨O.worked (.of_apply O.ready h) ?_ ?_, fun hloop => hloop.elim⟩
      · rintro l hawaits ⟨l', opt, data, hcon, hpattern⟩
        refine ho.1 l' opt data ?_ hcon
        unfold Loop.Awaits at hawaits ⊢
        rw [hpattern]
        exact hawaits
      · rintro l howes ⟨opt, hstring⟩
        exact ho.2 l howes opt hstring

/-! ### Runs of the loop

The loop of two steps for a location is the loop of the source: where nothing comes in between, a whole
notification is a run of it. -/

/-- In every orderly run of a node from its start: the loop creates each location of the configuration
at most once, and no step of it disturbs what is there or brings back what was removed. -/
theorem run_undisturbed (h₀ : Start n₀) (hrun : Trace (fun s e s' => Step env enc conf s e s' ∧
      e.Orderly env enc conf s) (Loop.start n₀) es s) :
    s.created <+: conf.location ∧ ∀ e s', e.OfLoop → Step env enc conf s e s' →
      e.Orderly env enc conf s → Undisturbed s s' := by
  have O : Orderly conf s := hrun.invariant (orderly_start h₀) fun O h => (O.step h.1 h.2).1
  exact ⟨O.once, fun e s' hloop h ho => (O.step h ho).2 hloop⟩

/-- `createProxyWithLocation` at one go is the two steps of the loop. -/
theorem createProxyWithLocation_run {ls : List Location} {raft : RaftOutcome} {server : HttpServer δ}
    (next : s.pending = some (l :: ls)) (idle : s.writing = none)
    (h : s.server.createProxyWithLocation env enc l raft = (.returned (), server)) :
    ∃ late, Trace (Step env enc conf) s [.create, .write raft]
      { s with server := server, pending := some ls, late := late, created := s.created ++ [l] } := by
  have hadd := createProxyWithLocation_eq h
  simp only [HttpServer.createProxyWithLocation] at h
  rcases hadd' : s.server.state.addProxyWithLocation env l with ⟨fault | _ | err, n⟩
  · rw [hadd'] at h
    cases h
  · rw [hadd'] at h
    simp only at h
    rcases hwrite : (s.server.withState n).writeLogEntry env enc 1 (enc.location.marshal l) raft with
      ⟨fault | ret, h₁⟩ <;> rw [hwrite] at h <;> cases h
    have hfirst : Trace (Step env enc conf) s ([] ++ [.create]) _ := .snoc .nil (.create next idle hadd')
    have hsecond := hfirst.snoc (.write rfl hwrite)
    cases raft with
    | committed received =>
        refine ⟨s.late, ?_⟩
        simpa [Loop.wrote, idle] using hsecond
    | failed err =>
        refine ⟨s.late ++ [l], ?_⟩
        simpa [Loop.wrote, idle] using hsecond
  · rw [hadd'] at h
    cases h

/-- A notification that is handled without anything in between is a run of the loop. -/
theorem leaderRound_run {leader : Bool} {raft : Nat → RaftOutcome} {server : HttpServer δ}
    (waits : s.pending = none) (idle : s.writing = none)
    (h : HttpServer.leaderRound env enc conf leader raft s.server = (.returned (), server)) :
    ∃ es late created, Trace (Step env enc conf) s es
      { s with server := server, late := late, created := created } := by
  have hloop : ∀ (ls : List Location) (raft : Nat → RaftOutcome) (s : Loop δ) (server : HttpServer δ),
      s.pending = some ls → s.writing = none →
      HttpServer.createProxy env enc ls raft s.server = (.returned (), server) →
      ∃ es late, Trace (Step env enc conf) s es
        { s with server := server, pending := some [], late := late, created := s.created ++ ls } := by
    intro ls
    -- two steps for each location
    induction ls with
    | nil =>
        intro raft s server hpending idle h
        cases h
        refine ⟨[], s.late, ?_⟩
        rw [List.append_nil, ← hpending]
        exact .nil
    | cons l ls ih =>
        intro raft s server hpending idle h
        unfold HttpServer.createProxy at h
        split at h
        · next h₁ hcreate =>
            obtain ⟨late, hfirst⟩ := createProxyWithLocation_run hpending idle hcreate
            obtain ⟨es, late', hrest⟩ := ih _ { s with
              server := h₁, pending := some ls, late := late, created := s.created ++ [l] } server rfl
              idle h
            exact ⟨_, late', by simpa using hfirst.append hrest⟩
        · cases h
        · cases h
  unfold HttpServer.leaderRound at h
  split at h
  · next leads =>
      split at h
      · next first =>
          split at h
          · next h₁ hcreate =>
              cases h
              obtain ⟨es, late, hrest⟩ := hloop conf.location raft { s with pending := some conf.location }
                h₁ rfl idle hcreate
              have hfirst : Trace (Step env enc conf) s ([] ++ [.notify leader]) _ :=
                .snoc .nil (.leads waits leads first)
              -- notification, two steps for each location, and the end of the round
              have hlast := (hfirst.append hrest).snoc (.finish rfl idle)
              rw [← waits] at hlast
              exact ⟨_, _, _, hlast⟩
          · cases h
          · cases h
      · next again =>
          cases h
          have hinit : conf.init = true := by simpa using again
          exact ⟨_, s.late, s.created, .snoc .nil (.leadsAgain waits leads hinit)⟩
  · next follows =>
      cases h
      exact ⟨_, s.late, s.created, .snoc .nil (.follows waits follows)⟩

end Run

/-- A new node that is configured as the leader, with two locations. -/
def twoLocations : StartConfig where
  isLeader := true
  init := false
  location := [⟨"/api", ["http://a:80"], "round-robin"⟩, ⟨"/web", ["http://c:80"], "round-robin"⟩]

/-- A host is added to `/api` before its entry is written. -/
theorem run_undisturbed_between : ∃ (s s' : Loop Payload) (es : List (Event Payload)), es.length = 4 ∧
    Trace (Step Env.plain Payload.encoding twoLocations) (Loop.start Node.new) es s ∧
    s.created <+: twoLocations.location ∧ s'.created = twoLocations.location ∧ Undisturbed s s' := by
  have hrun : Trace (fun s e s' => Step Env.plain Payload.encoding twoLocations s e s' ∧
      e.Orderly Env.plain Payload.encoding twoLocations s) (Loop.start Node.new) [] _ := .nil
  have hrun := hrun.snoc (e := Event.notify true) ⟨.leads rfl (.inl rfl) rfl, fun _ _ _ =>
    ⟨rfl, by decide, fun l _ => ⟨fun hmem => (by cases hmem), fun hmem => (by cases hmem)⟩⟩⟩
  have hrun := hrun.snoc (e := Event.create) ⟨.create rfl rfl rfl, trivial⟩
  have hrun := hrun.snoc (e := Event.apply ⟨6, .hostLog ⟨"/api", "http://b:80"⟩⟩ false)
    ⟨.apply rfl, fun l opt => (by cases opt), fun l _ opt => (by cases opt)⟩
  have hrun := hrun.snoc (e := Event.write (.committed false)) ⟨.write rfl rfl, trivial⟩
  obtain ⟨honce, hloop⟩ := run_undisturbed start_new hrun
  -- the next step of the loop creates `/web`
  have hlast := hloop .create _ trivial (.create rfl rfl rfl) trivial
  exact ⟨_, _, _, rfl, hrun.mono fun h => h.1, honce, rfl, hlast⟩

/-- A node that leads for the second time makes the proxy of `/api` anew. -/
theorem not_run_undisturbed : ¬ ∀ (env : Env) (conf : StartConfig) (n₀ : Node) (s s' : Loop Payload)
    (es : List (Event Payload)) (e : Event Payload), Start n₀ →
    Trace (Step env Payload.encoding conf) (Loop.start n₀) es s → e.OfLoop →
    Step env Payload.encoding conf s e s' → Undisturbed s s' := by
  intro h
  let conf : StartConfig := ⟨true, false, [⟨"/api", ["http://a:80"], "round-robin"⟩]⟩
  have hrun : Trace (Step Env.plain Payload.encoding conf) (Loop.start Node.new) [] _ := .nil
  have hrun := hrun.snoc (e := Event.notify true) (.leads rfl (.inl rfl) rfl)
  have hrun := hrun.snoc (e := Event.create) (.create rfl rfl rfl)
  have hrun := hrun.snoc (e := Event.write (.committed false)) (.write rfl rfl)
  have hrun := hrun.snoc (e := Event.finish) (.finish rfl rfl)
  have hrun := hrun.snoc (e := Event.apply ⟨6, .hostLog ⟨"/api", "http://b:80"⟩⟩ false) (.apply rfl)
  have hrun := hrun.snoc (e := Event.notify true) (.leads rfl (.inl rfl) rfl)
  have hlast := (h _ conf _ _ _ _ .create start_new hrun trivial (.create rfl rfl rfl)).kept "/api" 0
    (by decide)
  have hsame := hlast.1
  clear hlast
  revert hsame
  decide

end Cheryl.Server.Bootstrap
