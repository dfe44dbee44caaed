import Cheryl.Server.Cluster

/-!
# Replication of the proxies

Of the configuration a follower is to share with its leader the `Table`: the hosts and the mode of
each pattern, and the locations. The table after an entry depends on the table before it alone, so
the follower's table is that of a replay of the log. The leader runs every entry on top of the
change its handler has made. That comes to the same table, except where the handler makes a change
of which the entry says nothing: a mode that is changed, or a proxy that replaces another one.
-/

namespace Cheryl.Server

open Library ReverseProxy

/-! ## The table

Services also have methods, which the limiters set and which every node sets for itself as paths come up.
The table leaves them out. It is closed under what entries do: the table after an entry can be told from the
table before it. -/

/-- The hosts and the mode of each pattern, and the locations. -/
@[ext] structure Table where
  backends : String → Option (Finset String × String)
  locations : String → Option Location

def Config.table (c : Config) : Table := ⟨Config.backends c, c.locations⟩

/-- Change the hosts or the mode of a pattern, if it is served. -/
def Table.modify (t : Table) (p : String) (g : Finset String × String → Finset String × String) :
    Table :=
  { t with backends := Function.update t.backends p ((t.backends p).map g) }

/-- What a change does to the table. -/
def Change.onTable (env : Env) (t : Table) : Change → Table
  | .create l =>
      { backends := Function.update t.backends l.pattern (some (hostsOf env l.proxyPass, l.balanceMode))
        locations := Function.update t.locations l.pattern (some l) }
  | .remove p =>
      { backends := Function.update t.backends p none
        locations := Function.update t.locations p none }
  | .addHost p host => t.modify p fun b => (insert host b.1, b.2)
  | .removeHost p host => t.modify p fun b => (b.1.erase host, b.2)
  | .setMode p mode => t.modify p fun b => (b.1, mode)
  | .setLimiter _ _ => t

/-- The configuration after an entry, when every checker that is asked answers. -/
def Config.applied {δ : Type} (env : Env) (enc : Encoding δ) (c : Config) (entry : LogEntry δ) :
    Config := Change.perform env c (FSM.asked env enc c entry true)

def Config.replay {δ : Type} (env : Env) (enc : Encoding δ) (c : Config) (log : List (LogEntry δ)) :
    Config := log.foldl (Config.applied env enc) c

section Table

variable {δ : Type} {env : Env} {enc : Encoding δ} {c c' : Config} {entry : LogEntry δ}

/-! ### The table of a change

A change acts on tables as it acts on configurations, and the table is all that the next change of a table
depends on. So the table of a node can be followed through the log without knowing the rest. -/

/-- The table of a configuration in which one service is modified. -/
theorem table_modify (c : Config) (p : String) {f : Service → Service}
    {g : Finset String × String → Finset String × String}
    (hfg : ∀ s, ((f s).hosts, (f s).mode) = g (s.hosts, s.mode)) :
    Config.table (c.modify p f) = (Config.table c).modify p g := by
  refine Table.ext ?_ rfl
  funext q
  show Config.backends (c.modify p f) q =
    Function.update (Config.backends c) p ((Config.backends c p).map g) q
  by_cases hq : q = p
  · subst hq
    simp only [Config.backends, Config.services_modify_self, Option.map_map, Function.update_self]
    congr 1
    funext s
    exact hfg s
  · simp only [Config.backends, Config.services_modify_of_ne hq, Function.update_of_ne hq]

/-- A modification that does not add up, made twice, is one that is made once. -/
theorem Table.modify_modify (t : Table) (p : String)
    {g : Finset String × String → Finset String × String} (hg : ∀ b, g (g b) = g b) :
    (t.modify p g).modify p g = t.modify p g := by
  refine Table.ext ?_ rfl
  simp only [Table.modify, Function.update_self, Function.update_idem, Option.map_map]
  congr 2
  funext b
  exact hg b

/-- A change does the same to the table as to the configuration it is of. -/
theorem table_apply (change : Change) :
    Config.table (change.apply env c) = change.onTable env (Config.table c) := by
  cases change with
  | create l =>
      refine Table.ext ?_ rfl
      funext q
      show ((c.put l (l.service env)).services q).map _ = _
      by_cases hq : q = l.pattern
      · subst hq
        simp [Change.onTable, Location.service]
      · rw [Config.services_put_of_ne hq]
        simp [Change.onTable, Config.table, Config.backends, hq]
  | remove p =>
      refine Table.ext ?_ rfl
      funext q
      show ((c.remove p).services q).map _ = _
      by_cases hq : q = p
      · subst hq
        simp [Change.onTable]
      · rw [Config.services_remove_of_ne hq]
        simp [Change.onTable, Config.table, Config.backends, hq]
  | addHost p host => exact table_modify c p fun s => rfl
  | removeHost p host => exact table_modify c p fun s => rfl
  | setMode p mode => exact table_modify c p fun s => rfl
  | setLimiter p info =>
      refine Table.ext ?_ rfl
      -- a limiter changes the service, but neither its hosts nor its mode
      have hmodify := table_modify c p (f := fun s => s.setLimiter info.pathName info.described)
        (g := id) fun s => rfl
      refine (congrArg Table.backends hmodify).trans ?_
      show Function.update (Config.backends c) p ((Config.backends c p).map id) = Config.backends c
      rw [Option.map_id_fun, id_eq, Function.update_eq_self]

/-- A change of a pattern that does not add up shows once when it is made twice. -/
theorem table_apply_apply (env : Env) (change : Change) {p : String}
    {g : Finset String × String → Finset String × String}
    (hmodify : ∀ t, change.onTable env t = t.modify p g) (hg : ∀ b, g (g b) = g b) :
    Config.table (change.apply env (change.apply env c)) = Config.table (change.apply env c) := by
  rw [table_apply, table_apply, hmodify, hmodify]
  exact Table.modify_modify _ _ hg

/-- Which change an entry asks for depends on which patterns are served. -/
theorem asked_congr (h : ∀ p, (c.services p).isSome = (c'.services p).isSome) (received : Bool) :
    FSM.asked env enc c entry received = FSM.asked env enc c' entry received := by
  unfold FSM.asked
  split
  · split
    · rfl
    · next l hl =>
        have hp := h l.pattern
        cases hc : c.services l.pattern <;> cases hc' : c'.services l.pattern <;>
          rw [hc, hc'] at hp <;> first | rfl | cases hp
  · simp only [h]

/-- The table shows which patterns are served. -/
theorem isSome_of_table (h : Config.table c = Config.table c') (p : String) :
    (c.services p).isSome = (c'.services p).isSome := by
  have hp := congrFun (congrArg Table.backends h) p
  have hmap := congrArg Option.isSome hp
  simpa [Config.table, Config.backends] using hmap

/-- The table after a change depends on the table before it. -/
theorem table_perform_congr (h : Config.table c = Config.table c') (change : Option Change) :
    Config.table (Change.perform env c change) = Config.table (Change.perform env c' change) := by
  cases change with
  | none => exact h
  | some change =>
      show Config.table (change.apply env c) = Config.table (change.apply env c')
      rw [table_apply, table_apply, h]

/-- And so does the table after an entry. -/
theorem table_applied_congr (h : Config.table c = Config.table c') :
    Config.table (Config.applied env enc c entry) = Config.table (Config.applied env enc c' entry) := by
  unfold Config.applied
  rw [asked_congr (isSome_of_table h)]
  exact table_perform_congr h _

theorem replay_snoc (log : List (LogEntry δ)) : Config.replay env enc c (log ++ [entry]) =
    Config.applied env enc (Config.replay env enc c log) entry := by
  simp [Config.replay]

end Table

/-! ## The leader

The leader's handler has made its change by the time raft applies the entry of it on the leader. `Followed`
is what has to come out: the table has moved as one replay of the entry moves it. For this the change and
the entry have to agree, and the entry on top of the change must not add up. -/

namespace Cluster

variable {δ : Type} {env : Env} {enc : Encoding δ} {c c' : Cluster δ} {a : Action} {base : Config}

/-- A step after which the nodes are not apart. The leader handles requests for proxies: one that
creates a pattern finds a router, and if the pattern is served it brings the location, the hosts and
the mode the pattern has; one that changes a mode names the mode the pattern has. And on the follower
the checker of a host that is served answers. -/
def Sound (env : Env) (enc : Encoding δ) (c : Cluster δ) : Action → Prop
  | .request _ (.addProxy body) => ∀ l, body = .ok l → c.leader.state.router ≠ none ∧
      ∀ s, c.leader.state.config.services l.pattern = some s →
        c.leader.state.config.locations l.pattern = some l ∧
          s.hosts = hostsOf env l.proxyPass ∧ s.mode = l.balanceMode
  | .request _ (.changeLb body) => ∀ req, body = .ok req →
      ∀ s, c.leader.state.config.services req.Prefix = some s → s.mode = req.lb
  | .request _ (.limiter _) => False
  | .request _ (.acl _) => False
  | .request _ _ => True
  | .deliver received => ∀ entry log, c.leader.committed[c.applied]? = some entry → entry.opt = 5 →
      enc.hostLog.unmarshal entry.data = .ok log →
        received = true ∨ ∀ s, c.follower.config.services log.pattern = some s → log.host ∉ s.hosts

def SoundStep (env : Env) (enc : Encoding δ) (c : Cluster δ) (a : Action) (c' : Cluster δ) : Prop :=
  Step env enc c a c' ∧ c.Sound env enc a

/-- The nodes have the same patterns, each with the same hosts, mode and location. -/
def Agree (c : Cluster δ) : Prop :=
  Config.table c.leader.state.config = Config.table c.follower.config

section Leader

variable {h h' : HttpServer δ} {o : Outside} {ending : Ending Reply} {received : Bool}

/-- What a request has done to the leader: nothing that shows in the table, or what its entry does. -/
def Followed (env : Env) (enc : Encoding δ) (h h' : HttpServer δ) : Prop :=
  Ready h'.state ∧
    ((Config.table h'.state.config = Config.table h.state.config ∧ h'.committed = h.committed) ∨
      ∃ entry, h'.committed = h.committed ++ [entry] ∧
        Config.table h'.state.config = Config.table (Config.applied env enc h.state.config entry))

/-- A request that comes to nothing. -/
theorem Followed.of_unchanged (R : Ready h.state) (hu : Unchanged h h') : Followed env enc h h' :=
  ⟨by rw [hu.state]; exact R, .inl ⟨by rw [hu.state], hu.committed⟩⟩

/-- A change made by the handler is what its entry asks for, and made again by the entry it is no
further change. -/
theorem Followed.of_replicated {change : Change} {entry : LogEntry δ} {n : Node}
    (hr : Replicated env enc h h' change entry received n)
    (hasked : Config.table (change.apply env h.state.config) =
      Config.table (Config.applied env enc h.state.config entry))
    (hagain : Config.table (Change.perform env (change.apply env h.state.config)
        (FSM.asked env enc (change.apply env h.state.config) entry received)) =
      Config.table (change.apply env h.state.config)) : Followed env enc h h' := by
  refine ⟨hr.applied.ready, .inr ⟨entry, hr.committed, ?_⟩⟩
  rw [hr.applied.config, hr.changed.config, hagain, hasked]

/-! ### Request by request

Each handler changes the node and then has its entry applied on the same node. What is to be seen is that
the second change adds nothing to the first, as far as the table goes. -/

/-- Putting a location in the place of itself does not show in the table. -/
theorem onTable_create_self {c : Config} {l : Location} {s : Service}
    (hs : c.services l.pattern = some s) (hl : c.locations l.pattern = some l)
    (hhosts : s.hosts = hostsOf env l.proxyPass) (hmode : s.mode = l.balanceMode) :
    (Change.create l).onTable env (Config.table c) = Config.table c := by
  refine Table.ext ?_ ?_
  · have hb : (Config.table c).backends l.pattern = some (hostsOf env l.proxyPass, l.balanceMode) := by
      simp [Config.table, Config.backends, hs, hhosts, hmode]
    show Function.update (Config.table c).backends l.pattern _ = _
    rw [← hb, Function.update_eq_self]
  · show Function.update c.locations l.pattern (some l) = c.locations
    rw [← hl, Function.update_eq_self]

/-- `/addProxy` creates a pattern, or puts a proxy in the place of one just like it. -/
theorem addProxy_followed (R : Ready h.state) {body : Except GoError Location}
    (hsound : ∀ l, body = .ok l → h.state.router ≠ none ∧
      ∀ s, h.state.config.services l.pattern = some s →
        h.state.config.locations l.pattern = some l ∧
          s.hosts = hostsOf env l.proxyPass ∧ s.mode = l.balanceMode)
    (heq : h.doAddProxy env enc body (.committed received) = (ending, h'))
    (up : ∀ fault, ending ≠ .down fault) : Followed env enc h h' := by
  unfold HttpServer.doAddProxy at heq
  split at heq
  · cases heq
    exact .of_unchanged R ⟨rfl, rfl⟩
  cases body with
  | error err =>
      cases heq
      exact .of_unchanged R ⟨rfl, rfl⟩
  | ok l =>
      obtain ⟨hrouter, hsame⟩ := hsound l rfl
      simp only at heq
      split at heq
      · cases heq
        exact .of_unchanged R ⟨rfl, rfl⟩
      · cases heq
        exact .of_unchanged R ⟨rfl, rfl⟩
      cases hproxy : newHTTPProxy env l.pattern l.proxyPass l.balanceMode with
      | error err =>
          simp only [HttpServer.createProxyWithLocation, addProxyWithLocation_error hproxy] at heq
          cases heq
          -- a location that cannot be made ends the process
          exact absurd rfl (up .exit)
      | ok proxy =>
          obtain ⟨n, hadd, hchanged⟩ := R.addProxyWithLocation_ok ⟨proxy, hproxy⟩ hrouter
          rcases hwrite : (h.withState n).writeLogEntry env enc 1 (enc.location.marshal l)
            (.committed received) with ⟨out, h₁⟩
          simp only [HttpServer.createProxyWithLocation, hadd, hwrite] at heq
          have hup : ∀ fault, out ≠ .error fault := by
            rintro fault rfl
            cases heq
            exact absurd rfl (up fault)
          obtain ⟨rfl, happlied, hcommitted⟩ :=
            writeLogEntry_committed (h := h.withState n) hchanged.ready hwrite hup
          cases heq
          have hr : Replicated env enc h h' (.create l) ⟨1, enc.location.marshal l⟩ received n :=
            ⟨hchanged, happlied, hcommitted⟩
          refine .of_replicated hr ?_ ?_
          · cases hserved : h.state.config.services l.pattern with
            | none =>
                simp only [Config.applied, FSM.asked, enc.location.unmarshal_marshal, hserved, hproxy]
                rfl
            | some s =>
                -- the entry does nothing, and the proxy is like the one it replaces
                obtain ⟨hl, hhosts, hmode⟩ := hsame s hserved
                rw [table_apply, onTable_create_self hserved hl hhosts hmode]
                simp only [Config.applied, FSM.asked, enc.location.unmarshal_marshal, hserved]
                rfl
          · simp only [FSM.asked, enc.location.unmarshal_marshal, Change.apply,
              Config.services_put_self]
            rfl

/-- `/addHost`: to add a host twice is to add it once. -/
theorem addHost_followed (R : Ready h.state) {body : Except GoError HostLog}
    (heq : h.doAddHost env enc body (.committed received) = (ending, h'))
    (up : ∀ fault, ending ≠ .down fault) : Followed env enc h h' := by
  cases body with
  | error err =>
      cases heq
      exact .of_unchanged R ⟨rfl, rfl⟩
  | ok req =>
      rcases hcall : h.state.addProxy env req.pattern req.host with ⟨out, n⟩
      simp only [HttpServer.doAddHost, hcall] at heq
      rcases R.addProxy hcall with ⟨-, rfl, err, rfl⟩ | ⟨rfl, hserved, url, hurl, hchanged⟩
      · cases heq
        exact .of_unchanged R ⟨rfl, rfl⟩
      rcases mutateAndReplicate_spec (.inr ⟨hchanged, rfl⟩) heq up with hu | ⟨-, hr⟩
      · exact .of_unchanged R hu
      have hsome : (h.state.config.services req.pattern).isSome :=
        Option.isSome_iff_ne_none.mpr hserved
      refine .of_replicated hr ?_ ?_
      · simp only [Config.applied, FSM.asked, enc.hostLog.unmarshal_marshal, hurl, hsome]
        rfl
      · simp only [FSM.asked, enc.hostLog.unmarshal_marshal, hurl, Change.apply,
          Config.services_modify_self, Option.isSome_map, hsome]
        exact table_apply_apply env (.addHost req.pattern (Utils.getHost url)) (fun t => rfl)
          fun b => by simp

/-! ### What is taken out, and the mode

`/removeProxy` and `/removeHost` have taken out what their entry asks for, so the entry finds nothing to do;
that of a host may also wait for a checker in vain, which is an error and no change. `/changeLb` has no
entry at all, and so must not change anything either. -/

/-- `/removeProxy`: the entry finds the pattern gone. -/
theorem removeProxy_followed (R : Ready h.state) {body : Except GoError String}
    (heq : h.doRemoveProxy env enc body (.committed received) = (ending, h'))
    (up : ∀ fault, ending ≠ .down fault) : Followed env enc h h' := by
  cases body with
  | error err =>
      cases heq
      exact .of_unchanged R ⟨rfl, rfl⟩
  | ok pattern =>
      rcases hcall : h.state.removeProxy pattern with ⟨out, n⟩
      simp only [HttpServer.doRemoveProxy, hcall] at heq
      rcases R.removeProxy env hcall with ⟨-, rfl, err, rfl⟩ | ⟨rfl, hserved, hchanged⟩
      · cases heq
        exact .of_unchanged R ⟨rfl, rfl⟩
      rcases mutateAndReplicate_spec (.inr ⟨hchanged, rfl⟩) heq up with hu | ⟨-, hr⟩
      · exact .of_unchanged R hu
      have hsome : (h.state.config.services pattern).isSome := Option.isSome_iff_ne_none.mpr hserved
      refine .of_replicated hr ?_ ?_
      · simp only [Config.applied, FSM.asked, enc.string_bytes, hsome]
        rfl
      · simp only [FSM.asked, enc.string_bytes, Change.apply, Config.services_remove_self]
        rfl

/-- `/removeHost`: the entry finds the host gone, or times out. -/
theorem removeHost_followed (R : Ready h.state) {body : Except GoError HostLog} {answered : Bool}
    (heq : h.doRemoveHost env enc body answered (.committed received) = (ending, h'))
    (up : ∀ fault, ending ≠ .down fault) : Followed env enc h h' := by
  cases body with
  | error err =>
      cases heq
      exact .of_unchanged R ⟨rfl, rfl⟩
  | ok req =>
      rcases hcall : h.state.removeHost req.pattern req.host answered with ⟨out, n⟩
      simp only [HttpServer.doRemoveHost, hcall] at heq
      rcases R.removeHost env hcall with ⟨-, rfl, rfl⟩ | ⟨-, rfl, rfl, -⟩ |
        ⟨hserved, -, rfl, hchanged⟩
      · cases heq
        exact .of_unchanged R ⟨rfl, rfl⟩
      · cases heq
        exact .of_unchanged R ⟨rfl, rfl⟩
      rcases mutateAndReplicate_spec (.inr ⟨hchanged, rfl⟩) heq up with hu | ⟨-, hr⟩
      · exact .of_unchanged R hu
      have hsome : (h.state.config.services req.pattern).isSome :=
        Option.isSome_iff_ne_none.mpr hserved
      refine .of_replicated hr ?_ ?_
      · simp only [Config.applied, FSM.asked, enc.hostLog.unmarshal_marshal, hsome]
        rfl
      · simp only [FSM.asked, enc.hostLog.unmarshal_marshal, Change.apply,
          Config.services_modify_self, Option.isSome_map, hsome]
        -- the entry times out, or takes the host out again
        cases received with
        | false => rfl
        | true =>
            exact table_apply_apply env (.removeHost req.pattern req.host) (fun t => rfl)
              fun b => by simp

/-- `/changeLb`, to the mode the pattern has. -/
theorem changeLb_followed (R : Ready h.state) {body : Except GoError ChangeLbReq}
    {order : List String}
    (hsound : ∀ req, body = .ok req → ∀ s, h.state.config.services req.Prefix = some s →
      s.mode = req.lb)
    (heq : h.doChangeLb env body order = (ending, h')) : Followed env enc h h' := by
  cases body with
  | error err =>
      cases heq
      exact .of_unchanged R ⟨rfl, rfl⟩
  | ok req =>
      rcases hcall : h.state.changeLb env req.Prefix req.lb order with ⟨out, n⟩
      simp only [HttpServer.doChangeLb, hcall] at heq
      rcases R.changeLb hcall with ⟨-, rfl, rfl⟩ | ⟨err, -, rfl, rfl⟩ | ⟨rfl, -, -, hchanged⟩
      · cases heq
        exact .of_unchanged R ⟨rfl, rfl⟩
      · cases heq
        exact .of_unchanged R ⟨rfl, rfl⟩
      · cases heq
        refine ⟨hchanged.ready, .inl ⟨?_, rfl⟩⟩
        -- the mode is the one it was, so nothing shows
        have hkeep : (h.state.config.modify req.Prefix fun s => s.setMode req.lb) = h.state.config :=
          Config.modify_eq_self fun s hs => Service.ext rfl (hsound req rfl s hs).symm rfl
        show Config.table n.config = _
        rw [hchanged.config]
        exact congrArg Config.table hkeep

/-! ### Any request

The requests of a sound step are those above. `/limiter` and `/acl` are no part of the table, and are left
to modules of their own. -/

/-- Every request of a sound step leaves the leader where its entry leads. -/
theorem request_followed (R : Ready c.leader.state) {req : AdminRequest}
    (hsound : c.Sound env enc (.request o req)) (hraft : o.raft = .committed received)
    (heq : c.leader.handle env enc o req = (ending, h')) (up : ∀ fault, ending ≠ .down fault) :
    Followed env enc c.leader h' := by
  cases req with
  | limiter body => exact hsound.elim
  | acl body => exact hsound.elim
  | addProxy body =>
      simp only [HttpServer.handle, hraft] at heq
      exact addProxy_followed R hsound heq up
  | addHost body =>
      simp only [HttpServer.handle, hraft] at heq
      exact addHost_followed R heq up
  | removeProxy body =>
      simp only [HttpServer.handle, hraft] at heq
      exact removeProxy_followed R heq up
  | removeHost body =>
      simp only [HttpServer.handle, hraft] at heq
      exact removeHost_followed R heq up
  | changeLb body => exact changeLb_followed R hsound heq

end Leader

/-! ## The cluster

Both nodes are described by one function, the replay of the log from a common start: the leader by the whole
log, the follower by the part that it has applied. When that part is all of it they are described alike. -/

/-- The leader's table is that of the whole log, the follower's that of the entries delivered. -/
structure Inv (env : Env) (enc : Encoding δ) (base : Config) (c : Cluster δ) : Prop where
  leaderReady : Ready c.leader.state
  followerReady : Ready c.follower
  applied_le : c.applied ≤ c.leader.committed.length
  leader : Config.table c.leader.state.config =
    Config.table (Config.replay env enc base c.leader.committed)
  follower : Config.table c.follower.config =
    Config.table (Config.replay env enc base (c.leader.committed.take c.applied))

/-- An entry makes the same table whether or not the checker answers, if it is not about a host that
is served. -/
theorem table_asked_received {config : Config} {entry : LogEntry δ} {received : Bool}
    (hsound : ∀ log, entry.opt = 5 → enc.hostLog.unmarshal entry.data = .ok log →
      received = true ∨ ∀ s, config.services log.pattern = some s → log.host ∉ s.hosts) :
    Config.table (Change.perform env config (FSM.asked env enc config entry received)) =
      Config.table (Config.applied env enc config entry) := by
  by_cases hrec : received = true
  · subst hrec
    rfl
  by_cases opt : entry.opt = 5
  -- without an answer the entry asks for nothing
  · have hfalse : FSM.asked env enc config entry received = none := by
      simp only [FSM.asked, opt]
      simp [hrec]
      split <;> rfl
    rw [hfalse]
    refine congrArg Config.table ?_
    show config = Change.perform env config (FSM.asked env enc config entry true)
    simp only [FSM.asked, opt]
    cases hlog : enc.hostLog.unmarshal entry.data with
    | error err => rfl
    | ok log =>
        cases hs : config.services log.pattern with
        | none => simp [hs, Change.perform]
        | some s =>
            -- and with one it takes out a host that is not there
            have habsent := (hsound log opt hlog).resolve_left hrec
            simp only [hs]
            exact (Config.modify_eq_self fun s' hs' =>
              Service.removeHost_eq_self (habsent s' hs')).symm
  · unfold Config.applied
    simp only [FSM.asked, opt, if_false]

/-- A sound step keeps both where the log says. -/
theorem Inv.step (I : Inv env enc base c) (hstep : SoundStep env enc c a c') : Inv env enc base c' := by
  obtain ⟨hstep, hsound⟩ := hstep
  cases hstep with
  | request commits h up =>
      obtain ⟨received, hraft⟩ := commits
      -- the request came to nothing, or made the log one longer
      obtain ⟨hready, ⟨htable, hcommitted⟩ | ⟨entry, hcommitted, htable⟩⟩ :=
        request_followed I.leaderReady hsound hraft h up
      · refine ⟨hready, I.followerReady, ?_, ?_, ?_⟩
        · rw [hcommitted]; exact I.applied_le
        · rw [htable, hcommitted]; exact I.leader
        · rw [hcommitted]; exact I.follower
      · refine ⟨hready, I.followerReady, ?_, ?_, ?_⟩
        · rw [hcommitted, List.length_append]
          exact Nat.le_add_right_of_le I.applied_le
        · rw [htable, hcommitted, replay_snoc]
          exact table_applied_congr I.leader
        · rw [hcommitted, List.take_append_of_le_length I.applied_le]
          exact I.follower
  | deliver next h =>
      next received entry ret n =>
        have A := FSM.apply_spec I.followerReady h
        have hlt : c.applied < c.leader.committed.length := (List.getElem?_eq_some_iff.mp next).1
        refine ⟨I.leaderReady, A.ready, hlt, I.leader, ?_⟩
        have htake : c.leader.committed.take (c.applied + 1) =
            c.leader.committed.take c.applied ++ [entry] := by
          rw [List.take_add_one, next]
          rfl
        calc Config.table n.config
          _ = Config.table (Config.applied env enc c.follower.config entry) := by
              rw [A.config, table_asked_received fun log => hsound entry log next]
          _ = Config.table (Config.applied env enc (Config.replay env enc base
                (c.leader.committed.take c.applied)) entry) := table_applied_congr I.follower
          _ = Config.table (Config.replay env enc base (c.leader.committed.take (c.applied + 1))) := by
              rw [htake, replay_snoc]

/-- From nodes with the same table, in every run of sound steps: once the follower has applied every
entry, the nodes have the same patterns with the same hosts, modes and locations. -/
theorem proxy_replicas_agree {leader follower : Node} (hleader : Reachable env enc leader)
    (hfollower : Reachable env enc follower)
    (heq : Config.table leader.config = Config.table follower.config) {as : List Action}
    (hrun : Trace (SoundStep env enc) (start leader follower) as c) (hquiet : c.Quiet) : c.Agree := by
  have hinit : Inv env enc follower.config (start leader follower : Cluster δ) :=
    ⟨hleader.sane.toReady, hfollower.sane.toReady, Nat.le_refl _, heq, rfl⟩
  have I : Inv env enc follower.config c := hrun.invariant hinit fun I hstep => I.step hstep
  have hfollow := I.follower
  rw [hquiet, List.take_length] at hfollow
  exact I.leader.trans hfollow.symm

/-- A proxy is created, the same is created once more, and it gets a host, before the follower hears
of any of it. -/
theorem proxy_replicas_agree_late : ∃ as c,
    Trace (SoundStep Env.plain Payload.encoding) (start Node.new Node.new) as c ∧ as.length = 6 ∧
    c.follower.config.services "/api" ≠ none ∧ c.Agree := by
  have hrun : Trace (SoundStep Env.plain Payload.encoding) (start Node.new Node.new) []
    (start Node.new Node.new) := .nil
  have hrun := hrun.snoc (e := Action.request Member.commits (.addProxy (.ok apiLocation)))
    ⟨.request ⟨false, rfl⟩ (show _ = (Ending.returned .ok, _) from rfl) (by simp), by
      intro l hl
      cases hl
      exact ⟨by simp [start, Node.new], fun s hs => by cases hs⟩⟩
  have hrun := hrun.snoc (e := Action.request Member.commits (.addProxy (.ok apiLocation)))
    ⟨.request ⟨false, rfl⟩ (show _ = (Ending.returned .ok, _) from rfl) (by simp), by
      intro l hl
      cases hl
      refine ⟨(by decide +kernel), fun s hs => ?_⟩
      cases hs
      exact ⟨rfl, rfl, rfl⟩⟩
  have hrun := hrun.snoc
    (e := Action.request Member.commits (.addHost (.ok ⟨"/api", "http://b:80"⟩)))
    ⟨.request ⟨false, rfl⟩ (show _ = (Ending.returned .ok, _) from rfl) (by simp), trivial⟩
  have hdeliver : ∀ {c : Cluster Payload}, (∀ entry, c.leader.committed[c.applied]? = some entry →
      entry.opt ≠ 5) → c.Sound Env.plain Payload.encoding (.deliver false) :=
    fun hne entry log hentry hopt => absurd hopt (hne entry hentry)
  have hrun := hrun.snoc (e := Action.deliver false)
    ⟨.deliver rfl rfl, hdeliver fun entry h => by cases h; decide⟩
  have hrun := hrun.snoc (e := Action.deliver false)
    ⟨.deliver rfl rfl, hdeliver fun entry h => by cases h; decide⟩
  have hrun := hrun.snoc (e := Action.deliver false)
    ⟨.deliver rfl rfl, hdeliver fun entry h => by cases h; decide⟩
  exact ⟨_, _, hrun, rfl, by decide, proxy_replicas_agree reachable_new reachable_new rfl hrun rfl⟩

/-- A mode that is changed stays with the leader. -/
theorem not_proxy_replicas_agree : ¬ ∀ (leader follower : Node) (as : List Action)
    (c : Cluster Payload), Reachable Env.plain Payload.encoding leader →
    Reachable Env.plain Payload.encoding follower →
    Config.table leader.config = Config.table follower.config →
    Trace (Step Env.plain Payload.encoding) (start leader follower) as c → c.Quiet → c.Agree := by
  intro h
  have hrun : Trace (Step Env.plain Payload.encoding) (start Node.api Node.api)
      ([] ++ [Action.request Member.commits (.changeLb (.ok ⟨"/api", "consistence-hash"⟩))]) _ :=
    .snoc .nil (.request ⟨false, rfl⟩ (show _ = (Ending.returned .ok, _) from rfl) (by simp))
  have hagree := h _ _ _ _ reachable_api reachable_api rfl hrun rfl
  have hmode := congrArg (fun t => (t.backends "/api").map Prod.snd) hagree
  revert hmode
  decide

end Cluster

end Cheryl.Server
