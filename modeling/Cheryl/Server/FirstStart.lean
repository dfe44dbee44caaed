import Cheryl.Server.Bootstrap
import Cheryl.Server.ProxyReplication
import Cheryl.Server.Wire

/-!
# The first start of a cluster

`createProxy` creates the locations of the configuration, one after the other, on the node that leads:
first on the node itself, where a location takes the place of an earlier one with its pattern, and then
through the log, where it is ignored if the pattern is there. So the leader keeps the last location of
each pattern and the other nodes keep the first one (`firstStart_agrees_iff`). Nothing in the
configuration is checked for patterns that come twice.
-/

namespace Cheryl.Server.FirstStart

open Library ReverseProxy

/-- The first location for a pattern. -/
def firstOf (ls : List Location) (p : String) : Option Location := ls.find? fun l => l.pattern = p

/-- The last location for a pattern. -/
def lastOf (ls : List Location) (p : String) : Option Location := firstOf ls.reverse p

def tableOf (env : Env) (L : String → Option Location) : Table :=
  ⟨fun p => (L p).map fun l => (hostsOf env l.proxyPass, l.balanceMode), L⟩

section Tables

variable {env : Env} {L : String → Option Location} {l : Location} {ls : List Location} {p : String}

/-! ## First and last

Creating locations one after the other updates a map from patterns to locations; on the leader every one of
them is an update, elsewhere only those whose pattern is not there yet. Both are folds over the list, and
the two lookups below are what they come to. -/

/-- Creating a location replaces what is served for its pattern, and nothing else. -/
theorem onTable_create : (Change.create l).onTable env (tableOf env L) =
    tableOf env (Function.update L l.pattern (some l)) := by
  refine Table.ext ?_ rfl
  funext q
  by_cases hq : q = l.pattern
  · subst hq
    simp [Change.onTable, tableOf]
  · simp [Change.onTable, tableOf, hq]

/-- A location in front comes first where the pattern is its own. -/
theorem firstOf_cons : firstOf (l :: ls) p = if l.pattern = p then some l else firstOf ls p := by
  unfold firstOf
  rw [List.find?_cons]
  by_cases hp : l.pattern = p <;> simp [hp]

/-- A location in front is the last one where no later one has its pattern. -/
theorem lastOf_cons : lastOf (l :: ls) p = (lastOf ls p).or (if l.pattern = p then some l else none) := by
  unfold lastOf
  rw [List.reverse_cons, firstOf, List.find?_append]
  by_cases hp : l.pattern = p <;> simp [firstOf, hp]

/-- There is a last one where there is a first one. -/
theorem lastOf_eq_none : lastOf ls p = none ↔ firstOf ls p = none := by
  simp [lastOf, firstOf, List.find?_eq_none]

end Tables

section Start

variable {δ : Type} {env : Env} {enc : Encoding δ} {n n' : Node} {h h' : HttpServer δ} {l : Location}
  {L : String → Option Location}

def creation (enc : Encoding δ) (l : Location) : LogEntry δ := ⟨1, enc.location.marshal l⟩

/-! ## The leader and the others

The leader runs `createProxyWithLocation` for each location and then applies its own entry, which finds the
pattern served and does nothing. Another node only applies the entries. -/

/-- `createProxyWithLocation` that returns: the location is served, whatever was before, and its entry is
in the log. -/
theorem createProxyWithLocation_spec {received : Bool} (R : Ready h.state)
    (htable : Config.table h.state.config = tableOf env L)
    (heq : h.createProxyWithLocation env enc l (.committed received) = (.returned (), h')) :
    Ready h'.state ∧ l.Constructible env ∧ h'.committed = h.committed ++ [creation enc l] ∧
      Config.table h'.state.config = tableOf env (Function.update L l.pattern (some l)) := by
  have hadd := Bootstrap.createProxyWithLocation_eq heq
  obtain ⟨-, -, herr⟩ | ⟨hcon, -, hchanged⟩ := R.addProxyWithLocation hadd
  · exact absurd rfl herr
  refine ⟨hchanged.ready, hcon, ?_, ?_⟩
  · simp only [HttpServer.createProxyWithLocation, hadd, HttpServer.writeLogEntry] at heq
    rcases happly : FSM.apply env enc (h.withState h'.state).state ⟨1, enc.location.marshal l⟩ received
      with ⟨fault | ret, n⟩ <;> rw [happly] at heq
    · simp at heq
    · exact (congrArg (fun res => res.2.committed) heq).symm
  · rw [hchanged.config, table_apply, htable, onTable_create]

/-- On a node where the pattern is served its entry does nothing, on another one it is created. -/
theorem apply_creation {received : Bool} {ret : Option GoError} (R : Ready n) (hcon : l.Constructible env)
    (htable : Config.table n.config = tableOf env L)
    (happly : FSM.apply env enc n (creation enc l) received = (.ok ret, n')) :
    Ready n' ∧ Config.table n'.config =
      tableOf env (Function.update L l.pattern ((L l.pattern).or (some l))) := by
  obtain ⟨hready, hconfig, -⟩ := FSM.apply_spec R happly
  refine ⟨hready, ?_⟩
  have hserved : (n.config.services l.pattern).isSome = (L l.pattern).isSome := by
    have hbackends := congrFun (congrArg Table.backends htable) l.pattern
    have hsome := congrArg Option.isSome hbackends
    simpa [Config.table, Config.backends, tableOf] using hsome
  obtain ⟨proxy, hproxy⟩ := hcon
  rw [hconfig]
  cases hL : L l.pattern with
  -- the pattern is served: the entry asks for nothing
  | some l' =>
      have hidle : FSM.asked env enc n.config (creation enc l) received = none := by
        rw [hL] at hserved
        obtain ⟨s, hs⟩ := Option.isSome_iff_exists.mp hserved
        simp only [FSM.asked, creation, enc.location.unmarshal_marshal, hs]
        rfl
      have hsame : Function.update L l.pattern ((some l').or (some l)) = L := by
        rw [Option.some_or, ← hL, Function.update_eq_self]
      rw [hidle, hsame]
      exact htable
  -- the pattern is not served: the entry creates the location
  | none =>
      have hcreate : FSM.asked env enc n.config (creation enc l) received = some (.create l) := by
        rw [hL] at hserved
        have hnone := Option.isSome_eq_false_iff.mp hserved
        rw [Option.isNone_iff_eq_none] at hnone
        simp only [FSM.asked, creation, enc.location.unmarshal_marshal, hnone, hproxy]
        rfl
      rw [hcreate]
      show Config.table ((Change.create l).apply env n.config) = _
      rw [table_apply, htable, onTable_create, Option.none_or]

/-! ### The whole list

`createProxy` goes through the list and puts each location over what its pattern had, so the last one stays.
A node that has only the entries skips a pattern it serves, so there the first one stays. Both are
inductions over the list, with the table that is there already as a parameter. -/

/-- The leader has the last location of each pattern, and all of them in the log. -/
theorem createProxy_spec (ls : List Location) : ∀ {h : HttpServer δ} {raft : Nat → RaftOutcome}
    {L : String → Option Location}, Ready h.state → Config.table h.state.config = tableOf env L →
    (∀ i, ∃ received, raft i = .committed received) →
    h.createProxy env enc ls raft = (.returned (), h') →
    Ready h'.state ∧ (∀ l ∈ ls, l.Constructible env) ∧
      h'.committed = h.committed ++ ls.map (creation enc) ∧
      Config.table h'.state.config = tableOf env fun p => (lastOf ls p).or (L p) := by
  induction ls with
  | nil =>
      intro h raft L R htable hraft heq
      cases heq
      refine ⟨R, fun l hl => absurd hl (List.not_mem_nil), by simp, ?_⟩
      rw [htable]
      rfl
  | cons l ls ih =>
      intro h raft L R htable hraft heq
      obtain ⟨received, hfirst⟩ := hraft 0
      rw [HttpServer.createProxy, hfirst] at heq
      rcases hcreate : h.createProxyWithLocation env enc l (.committed received) with
        ⟨⟨⟩ | fault | fault, h₁⟩ <;> rw [hcreate] at heq
      · obtain ⟨R₁, hcon, hcommitted₁, htable₁⟩ := createProxyWithLocation_spec R htable hcreate
        obtain ⟨R', hcons, hcommitted, htable'⟩ := ih R₁ htable₁ (fun i => hraft (i + 1)) heq
        refine ⟨R', ?_, ?_, ?_⟩
        · intro l' hl'
          rcases List.mem_cons.mp hl' with rfl | hlater
          · exact hcon
          · exact hcons l' hlater
        · rw [hcommitted, hcommitted₁, List.append_assoc]
          rfl
        · rw [htable']
          congr 1
          funext p
          -- a later location for the pattern wins over this one, and this one over what was there
          rw [lastOf_cons, Option.or_assoc]
          congr 1
          by_cases hp : l.pattern = p
          · subst hp
            simp
          · rw [Function.update_of_ne fun heq => hp heq.symm, if_neg hp, Option.none_or]
      · cases heq
      · cases heq

/-- A node that applies their entries has the first location of each pattern. -/
theorem runEntries_spec (ls : List Location) : ∀ {n : Node} {L : String → Option Location}
    {answers : List Bool}, Ready n → Config.table n.config = tableOf env L →
    (∀ l ∈ ls, l.Constructible env) → answers.length = ls.length →
    FSM.runEntries env enc ((ls.map (creation enc)).zip answers) n = (.ok none, n') →
    Config.table n'.config = tableOf env fun p => (L p).or (firstOf ls p) := by
  induction ls with
  | nil =>
      intro n L answers R htable hcon hlen heq
      cases heq
      rw [htable]
      congr 1
      funext p
      exact (Option.or_none).symm
  | cons l ls ih =>
      intro n L answers R htable hcon hlen heq
      match answers, hlen with
      | received :: answers, hlen =>
          rw [List.map_cons, List.zip_cons_cons, FSM.runEntries] at heq
          rcases happly : FSM.apply env enc n (creation enc l) received with ⟨fault | ret, n₁⟩ <;>
            rw [happly] at heq
          · cases heq
          · obtain ⟨R₁, htable₁⟩ := apply_creation R (hcon l (List.mem_cons_self ..)) htable happly
            rw [ih R₁ htable₁ (fun l' hl' => hcon l' (List.mem_cons_of_mem _ hl')) (by simpa using hlen) heq]
            congr 1
            funext p
            -- what is there wins over this location, and this one over the later ones
            rw [firstOf_cons]
            by_cases hp : l.pattern = p
            · subst hp
              cases L l.pattern <;> simp
            · rw [Function.update_of_ne fun heq => hp heq.symm, if_neg hp]

/-! ### The two nodes

The tables differ exactly where the first and the last location of a pattern do, in hosts or in mode. -/

/-- When the leader of a new cluster has created the locations of the configuration, and another new node
has applied its log: the leader has the last location of each pattern and the other one the first. So they
serve the same if and only if the first and the last location of each pattern have the same hosts and the
same mode. -/
theorem firstStart_agrees_iff {ls : List Location} {raft : Nat → RaftOutcome} {flag : Bool} {n₀ m₀ m : Node}
    {answers : List Bool} (h₀ : Start n₀) (hm₀ : Start m₀) (hraft : ∀ i, ∃ received, raft i = .committed received)
    (hcreate : HttpServer.createProxy env enc ls raft ⟨flag, n₀, []⟩ = (.returned (), h))
    (hlen : answers.length = ls.length)
    (hrun : FSM.runEntries env enc (h.committed.zip answers) m₀ = (.ok none, m)) :
    Config.table h.state.config = tableOf env (lastOf ls) ∧ Config.table m.config = tableOf env (firstOf ls) ∧
      (Config.backends h.state.config = Config.backends m.config ↔ ∀ p l l', firstOf ls p = some l →
        lastOf ls p = some l' → hostsOf env l.proxyPass = hostsOf env l'.proxyPass ∧
          l.balanceMode = l'.balanceMode) := by
  have hblank : ∀ {n : Node}, Start n → Config.table n.config = tableOf env fun _ => none := fun hn => by
    rw [hn.config]
    rfl
  have S₀ : Sane env n₀ := h₀.sane
  have S₁ : Sane env m₀ := hm₀.sane
  obtain ⟨-, hcon, hcommitted, hleader⟩ := createProxy_spec ls (h := ⟨flag, n₀, []⟩) S₀.toReady
    (hblank h₀) hraft hcreate
  rw [hcommitted, List.nil_append] at hrun
  have hother := runEntries_spec ls S₁.toReady (hblank hm₀) hcon hlen hrun
  simp only [Option.or_none, Option.none_or] at hleader hother
  refine ⟨hleader, hother, ?_⟩
  have hlast : Config.backends h.state.config = (tableOf env (lastOf ls)).backends :=
    congrArg Table.backends hleader
  have hfirst : Config.backends m.config = (tableOf env (firstOf ls)).backends :=
    congrArg Table.backends hother
  rw [hlast, hfirst]
  constructor
  · intro heq p l l' hl hl'
    have hp := congrFun heq p
    simp only [tableOf, hl, hl', Option.map_some, Option.some.injEq, Prod.mk.injEq] at hp
    exact ⟨hp.1.symm, hp.2.symm⟩
  · intro hsame
    funext p
    cases hl : firstOf ls p with
    | none => simp only [tableOf, hl, lastOf_eq_none.mpr hl]
    | some l =>
        obtain ⟨l', hl'⟩ := Option.ne_none_iff_exists'.mp fun hnone => by
          rw [lastOf_eq_none.mp hnone] at hl
          cases hl
        obtain ⟨hhosts, hmode⟩ := hsame p l l' hl hl'
        simp only [tableOf, hl, hl', Option.map_some, hhosts, hmode]

end Start

/-- A configuration with a pattern twice. -/
def twiceApi : List Location := [apiLocation, ⟨"/api", ["http://b:80"], "round-robin"⟩]

/-- The two nodes send requests for it to different hosts. -/
theorem firstStart_agrees_iff_twice : ∃ (h : HttpServer Payload) (m : Node),
    HttpServer.createProxy Env.plain Payload.encoding twiceApi (fun _ => .committed false)
      ⟨false, Node.new, []⟩ = (.returned (), h) ∧
    FSM.runEntries Env.plain Payload.encoding (h.committed.zip [false, false]) Node.new = (.ok none, m) ∧
    Config.backends h.state.config ≠ Config.backends m.config := by
  have hcreate : HttpServer.createProxy Env.plain Payload.encoding twiceApi (fun _ => .committed false)
      ⟨false, Node.new, []⟩ = (.returned (), _) := rfl
  have hrun : FSM.runEntries Env.plain Payload.encoding
      ((twiceApi.map (creation Payload.encoding)).zip [false, false]) Node.new = (.ok none, _) := rfl
  refine ⟨_, _, hcreate, hrun, fun heq => ?_⟩
  have hagrees := (firstStart_agrees_iff start_new start_new (fun _ => ⟨false, rfl⟩) hcreate rfl hrun).2.2
  have hsame := hagrees.mp heq "/api" apiLocation ⟨"/api", ["http://b:80"], "round-robin"⟩ rfl rfl
  exact absurd hsame.1 (by decide)

end Cheryl.Server.FirstStart
