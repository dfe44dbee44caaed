import Cheryl.Library.Replicas
import Cheryl.Server.ProxyReplication
import Cheryl.Server.Routing
import Cheryl.Server.Snapshots
import Cheryl.Server.AclRestore
import Cheryl.Server.Touches

/-!
# Any number of nodes

Every node follows the log of raft at its own place, and any node can be the leader that handles the
admin requests, as soon as it has applied the whole log. A node may crash and start again, and it may
be put back to a snapshot that it or another node has stored. In a run that keeps clear of the changes
the log says nothing of, and of the hosts a snapshot leaves out, the table of a node is that of the part
of the log it has applied (`run_follows`), so nodes at the same place serve the same.
-/

namespace Cheryl.Server

open Library ReverseProxy Acl

/-! ## What `Restore` leaves

Of a sane node, and of a snapshot of one, the restored configuration is known from the locations and the
limiters alone. What has to be added is that the other invariants of a node hold again: the router files the
patterns the tables have, and the tree is intact. -/

section Restored

variable {env : Env} {n m m' : Node} {o : Orders} {err : Option GoError}

/-- `Restore` of a snapshot of a sane node, on a node whose router has no other patterns, leaves a sane
node. -/
theorem Sane.restore (S : Sane env n) (ho : o.Of (FSM.snapshot n))
    (hreplaces : (FSM.snapshot n).Replaces m)
    (h : FSM.restore env (FSM.snapshot n) o m = (.ok err, m')) :
    Sane env m' ∧ m'.config = Config.restored env n.config := by
  obtain ⟨m₁, heq, hrestorable, hconfig⟩ := restore_spec (m := m) S.restorable ho
  rw [h] at heq
  cases heq
  have hfiled : (FSM.snapshot n).Filed := fun p l hl => S.storable.pattern hl
  have F : Filing m' := Filing.restore ho hfiled hreplaces h
  -- a node without a router has no patterns either
  have hsynced : Synced m' := by
    cases hr : m'.router with
    | none => exact .inr ⟨hr, F.unrouted hr⟩
    | some hosts =>
        refine .inl ?_
        rw [hr, F.router hosts hr]
  have haccepted : ∀ key ∈ o.record, RadixTree.Accepted key := fun key hkey =>
    S.accepted key ((ho.mem_record key).mp hkey)
  obtain ⟨t, htree, hintact, -⟩ := restore_accepted o.record RadixTree.intact_new haccepted
  refine ⟨⟨⟨hrestorable.linked, hsynced⟩, ?_, hrestorable.accepted, hrestorable.storable⟩, hconfig⟩
  rw [acl_restore htree h]
  exact hintact

/-- Where every pattern has the hosts and the mode of its location, the table is restored. -/
theorem Config.AsLocated.table_restored {c : Config} (hlocated : Config.AsLocated env c)
    (hs : Config.Storable env c) : Config.table (Config.restored env c) = Config.table c :=
  Table.ext (hlocated.backends_restored hs) rfl

/-- A node as it is made has no patterns that a snapshot could lack. -/
theorem Start.replaces (h : Start m) (s : Snapshot) : s.Replaces m := by
  intro hosts hr p hp
  rcases h.router with hnone | hempty
  · rw [hnone] at hr
    cases hr
  · rw [hempty] at hr
    cases hr
    exact absurd hp (Finmap.notMem_empty)

end Restored

/-! ## Requests that are none of the table's business

The table is what two nodes are compared by: hosts, mode and location of each pattern. `/limiter` and `/acl`
change other parts of the node, on the leader and where their entries are applied. -/

section Quiet

variable {δ : Type} {env : Env} {enc : Encoding δ} {c : Config} {entry : LogEntry δ}
  {h h' : HttpServer δ} {ending : Ending Reply} {received : Bool}

/-- An entry for a limiter or the ACL leaves the table as it is. -/
theorem table_perform_asked (opt : entry.opt = 2 ∨ entry.opt = 3) :
    Config.table (Change.perform env c (FSM.asked env enc c entry received)) = Config.table c := by
  unfold FSM.asked
  rcases opt with opt | opt
  · rw [opt, if_neg (by decide), if_pos rfl]
    cases enc.limiterInfo.unmarshal entry.data with
    | error err => rfl
    | ok info =>
        by_cases hserved : (c.services info.Prefix).isSome ∧ info.limiterType = "qps"
        · simp only [if_pos hserved]
          have htable : Config.table ((Change.setLimiter info.Prefix info).apply env c) = Config.table c :=
            table_apply _
          exact htable
        · simp only [if_neg hserved]
          rfl
  · rw [opt]
    rfl

/-- A limiter is no part of the table. -/
theorem Changed.table_setLimiter {n n' : Node} {p : String} {info : LimiterInfo}
    (h : Changed env n n' (.setLimiter p info)) : Config.table n'.config = Config.table n.config := by
  rw [h.config]
  exact table_apply (.setLimiter p info)

/-- `/limiter` and `/acl` leave the table as it is, as do their entries: the leader's table is that of the
log still. -/
theorem quiet_followed {o : Outside} {req : AdminRequest} (S : Sane env h.state)
    (hreq : (∃ body, req = .limiter body) ∨ ∃ body, req = .acl body)
    (hraft : o.raft = .committed received) (heq : h.handle env enc o req = (ending, h'))
    (up : ∀ fault, ending ≠ .down fault) : Cluster.Followed env enc h h' := by
  have hhandles := HttpServer.handle_handles env enc h o req
  rw [heq] at hhandles
  generalize hres : (ending, h') = res at hhandles
  cases hhandles with
  | turnedAway =>
      cases hres
      exact .of_unchanged S.toReady ⟨rfl, rfl⟩
  | @limiter info a out h₁ _ flag hp hwrite hset =>
      rw [hraft] at hwrite
      have hup : ∀ fault, out ≠ .error fault := by
        rintro fault rfl
        cases hset
        cases hres
        exact up fault rfl
      obtain ⟨rfl, happlied, hcommitted⟩ := writeLogEntry_committed S.toReady hwrite hup
      have htable : Config.table h₁.state.config = Config.table h.state.config := by
        rw [happlied.config]
        exact table_perform_asked (.inl rfl)
      -- `SetRateLimiter` runs a second time here, after the entry has been applied
      cases hset with
      | @set out n hset =>
          cases hres
          have hp₁ : h₁.state.current.relations.lookup info.Prefix = some a := by
            rw [relations_applied S.toReady hwrite, hp]
          have hn : Ready n ∧ Config.table n.config = Config.table h₁.state.config := by
            rcases happlied.ready.setRateLimiter env hp₁ hset with
              ⟨-, hsame, -⟩ | ⟨-, -, hchanged⟩
            · rw [hsame]
              exact ⟨happlied.ready, rfl⟩
            · exact ⟨hchanged.ready, hchanged.table_setLimiter⟩
          refine ⟨hn.1, .inr ⟨_, hcommitted, ?_⟩⟩
          calc Config.table n.config = Config.table h₁.state.config := hn.2
            _ = Config.table h.state.config := htable
            _ = _ := (table_perform_asked (.inl rfl)).symm
  | addProxy => simp at hreq
  | changeLb => simp at hreq
  | @replicated _ call optType data flag hcall =>
      cases hcall with
      | addHost => simp at hreq
      | removeProxy => simp at hreq
      | removeHost => simp at hreq
      | @acl aclLog =>
          rw [hraft] at hres
          have S₁ : Sane env (HttpServer.callAcl h.state aclLog).2 := S.touched (S.callAcl aclLog)
          have hconfig : (HttpServer.callAcl h.state aclLog).2.config = h.state.config := by
            unfold HttpServer.callAcl
            split <;> rfl
          rcases hcall : HttpServer.callAcl h.state aclLog with ⟨fault | _ | err, n⟩ <;>
            rw [hcall] at hres S₁ hconfig
          · cases hres
            exact ⟨S₁.toReady, .inl ⟨congrArg Config.table hconfig, rfl⟩⟩
          · rcases hwrite : (h.withState n).writeLogEntry env enc 3 (enc.aclLog.marshal aclLog)
              (.committed received) with ⟨out, h₁⟩
            simp only [HttpServer.mutateAndReplicate, hwrite] at hres
            have hup : ∀ fault, out ≠ .error fault := by
              rintro fault rfl
              cases hres
              exact up fault rfl
            obtain ⟨rfl, happlied, hcommitted⟩ :=
              writeLogEntry_committed (h := h.withState n) S₁.toReady hwrite hup
            cases hres
            refine ⟨happlied.ready, .inr ⟨_, hcommitted, ?_⟩⟩
            rw [happlied.config, table_perform_asked (.inr rfl)]
            exact (congrArg Config.table hconfig).trans (table_perform_asked (.inr rfl)).symm
          · cases hres
            exact ⟨S₁.toReady, .inl ⟨congrArg Config.table hconfig, rfl⟩⟩

end Quiet

/-! ## The fleet

As with a leader and one follower, but the nodes take turns in leading, and what a node has applied is
counted for each node. A crashed node is at place 0 again, and one that is put back to a snapshot at the
place the snapshot was taken at. -/

/-- The nodes, the log, and the snapshots there are. A node's place is the number of entries it has
applied. -/
abbrev Fleet (ι δ : Type) := Replicas ι (List (LogEntry δ)) Node Snapshot

namespace Fleet

variable {ι δ : Type}

def leader (f : Fleet ι δ) (i : ι) : HttpServer δ := ⟨true, f.node i, f.history⟩

inductive Action (ι : Type)
  /-- the node handles a request, as the leader -/
  | request (i : ι) (o : Outside) (req : AdminRequest)
  /-- the node applies its next entry -/
  | deliver (i : ι) (received : Bool)
  /-- the node stores a snapshot: nothing comes between `Snapshot` and `Persist` -/
  | save (i : ι)
  /-- the node is put back to a snapshot, which is of the first `k` entries -/
  | install (i : ι) (s : Snapshot) (k : Nat) (o : Orders)
  /-- the node starts again with nothing -/
  | crash (i : ι)

/-- One step. A leader has applied the whole log when it handles a request, and raft commits every
entry. -/
inductive Step [DecidableEq ι] (env : Env) (enc : Encoding δ) :
    Fleet ι δ → Action ι → Fleet ι δ → Prop
  | request {f : Fleet ι δ} {i : ι} {o : Outside} {req : AdminRequest} {ending : Ending Reply}
      {h : HttpServer δ} (caughtUp : f.place i = f.history.length)
      (commits : ∃ received, o.raft = .committed received)
      (heq : (f.leader i).handle env enc o req = (ending, h)) (up : ∀ fault, ending ≠ .down fault) :
      Step env enc f (.request i o req) (f.move i h.committed h.state h.committed.length)
  | deliver {f : Fleet ι δ} {i : ι} {received : Bool} {entry : LogEntry δ} {ret : Option GoError}
      {n : Node} (next : f.history[f.place i]? = some entry)
      (happly : FSM.apply env enc (f.node i) entry received = (.ok ret, n)) :
      Step env enc f (.deliver i received) (f.move i f.history n (f.place i + 1))
  | save {f : Fleet ι δ} (i : ι) :
      Step env enc f (.save i) (f.store (FSM.snapshot (f.node i)) (f.place i))
  | install {f : Fleet ι δ} {i : ι} {s : Snapshot} {k : Nat} {o : Orders} {err : Option GoError}
      {n : Node} (kept : (s, k) ∈ f.stored) (order : o.Of s)
      (hrestore : FSM.restore env s o (f.node i) = (.ok err, n)) :
      Step env enc f (.install i s k o) (f.move i f.history n k)
  | crash {f : Fleet ι δ} {i : ι} {n : Node} (fresh : Start n) :
      Step env enc f (.crash i) (f.move i f.history n 0)

/-- A step after which the nodes are not apart. A request asks for no change of which its entry says
nothing (`Cluster.Sound`), the checker of a host that is served answers, a snapshot is stored while every
pattern has the hosts and the mode of its location, and it is put on a node whose router has no other
patterns. -/
def Sound (env : Env) (enc : Encoding δ) (f : Fleet ι δ) : Action ι → Prop
  | .request _ _ (.limiter _) => True
  | .request _ _ (.acl _) => True
  | .request i o req => Cluster.Sound env enc ⟨f.leader i, f.node i, 0⟩ (.request o req)
  | .deliver i received => ∀ entry log, f.history[f.place i]? = some entry → entry.opt = 5 →
      enc.hostLog.unmarshal entry.data = .ok log →
        received = true ∨ ∀ s, (f.node i).config.services log.pattern = some s → log.host ∉ s.hosts
  | .save i => Config.AsLocated env (f.node i).config
  | .install i s _ _ => s.Replaces (f.node i)
  | .crash _ => True

def SoundStep [DecidableEq ι] (env : Env) (enc : Encoding δ) (f : Fleet ι δ) (a : Action ι)
    (f' : Fleet ι δ) : Prop := Step env enc f a f' ∧ f.Sound env enc a

def start (node : ι → Node) : Fleet ι δ := ⟨[], node, fun _ => 0, []⟩

def nothing : Config := ⟨fun _ => none, fun _ => none, fun _ => []⟩

/-- The table after the first entries of the log. -/
def tableAt (env : Env) (enc : Encoding δ) (log : List (LogEntry δ)) (k : Nat) : Table :=
  Config.table (Config.replay env enc nothing (log.take k))

/-- A node that has applied the first `k` entries. -/
structure Fits (env : Env) (enc : Encoding δ) (log : List (LogEntry δ)) (k : Nat) (n : Node) : Prop where
  le : k ≤ log.length
  sane : Sane env n
  table : Config.table n.config = tableAt env enc log k

/-- A snapshot of such a node, from which its table can be restored. -/
def Keeps (env : Env) (enc : Encoding δ) (log : List (LogEntry δ)) (k : Nat) (s : Snapshot) : Prop :=
  ∃ n, s = FSM.snapshot n ∧ Fits env enc log k n ∧ Config.AsLocated env n.config

section Steps

variable {env : Env} {enc : Encoding δ} {log : List (LogEntry δ)} {entry : LogEntry δ} {k : Nat} {n : Node}
  {f f' : Fleet ι δ} {i : ι} {a : Action ι} {s : Snapshot}

/-! ### What one step does

One lemma for each kind of step. A request makes the log longer for everybody, and all other steps only move
one node. -/

/-- A log that goes on says nothing else about its beginning. -/
theorem Fits.snoc (h : Fits env enc log k n) : Fits env enc (log ++ [entry]) k n where
  le := by
    rw [List.length_append]
    exact Nat.le_add_right_of_le h.le
  sane := h.sane
  table := by
    rw [h.table, tableAt, tableAt, List.take_append_of_le_length h.le]

theorem Keeps.snoc (h : Keeps env enc log k s) : Keeps env enc (log ++ [entry]) k s := by
  obtain ⟨n, hs, hfits, hlocated⟩ := h
  exact ⟨n, hs, hfits.snoc, hlocated⟩

theorem fits_start (h : Start n) : Fits env enc log 0 n where
  le := Nat.zero_le _
  sane := h.sane
  table := by
    rw [h.config]
    rfl

theorem Fits.deliver {received : Bool} {ret : Option GoError} {n' : Node} (h : Fits env enc log k n)
    (hnext : log[k]? = some entry)
    (hsound : ∀ hostLog, entry.opt = 5 → enc.hostLog.unmarshal entry.data = .ok hostLog →
      received = true ∨ ∀ s, n.config.services hostLog.pattern = some s → hostLog.host ∉ s.hosts)
    (happly : FSM.apply env enc n entry received = (.ok ret, n')) : Fits env enc log (k + 1) n' where
  le := (List.getElem?_eq_some_iff.mp hnext).1
  sane := h.sane.step (.apply happly)
  table := by
    -- the first `k + 1` entries are the first `k` and this one
    have htake : log.take (k + 1) = log.take k ++ [entry] := by
      rw [List.take_add_one, hnext]
      rfl
    rw [(FSM.apply_spec h.sane.toReady happly).config, Cluster.table_asked_received hsound, tableAt,
      htake, replay_snoc]
    exact table_applied_congr h.table

/-- Every sound request either leaves the table alone or is sound for a leader and its follower. -/
theorem Sound.cases {o : Outside} {req : AdminRequest} (h : f.Sound env enc (.request i o req)) :
    ((∃ body, req = .limiter body) ∨ ∃ body, req = .acl body) ∨
      Cluster.Sound env enc ⟨f.leader i, f.node i, 0⟩ (.request o req) := by
  cases req with
  | limiter body => exact .inl (.inl ⟨body, rfl⟩)
  | acl body => exact .inl (.inr ⟨body, rfl⟩)
  | _ => exact .inr h

/-! ### A request, and a snapshot

The node that handles the request has applied the whole log before, and has so afterwards. That its table is
the one its log makes is what is known of a leader with one follower. A snapshot that has been stored brings
the place it was taken at with it. -/

/-- A request on a leader that has applied the whole log. -/
theorem Fits.request {o : Outside} {req : AdminRequest} {ending : Ending Reply} {h : HttpServer δ}
    (hfits : Fits env enc f.history f.history.length (f.node i))
    (hsound : f.Sound env enc (.request i o req)) (commits : ∃ received, o.raft = .committed received)
    (heq : (f.leader i).handle env enc o req = (ending, h)) (up : ∀ fault, ending ≠ .down fault) :
    (h.committed = f.history ∨ ∃ entry, h.committed = f.history ++ [entry]) ∧
      Fits env enc h.committed h.committed.length h.state := by
  obtain ⟨received, hraft⟩ := commits
  have S : Sane env (f.leader i).state := hfits.sane
  have hfollowed : Cluster.Followed env enc (f.leader i) h := by
    -- limiters and the access list apart, the leader is followed as one with a single follower is
    rcases hsound.cases with hquiet | hsound
    · exact quiet_followed S hquiet hraft heq up
    · exact Cluster.request_followed S.toReady hsound hraft heq up
  have hrouter : ∀ l, req = .addProxy (.ok l) → (f.leader i).state.router ≠ none := by
    rintro l rfl
    exact (hsound l rfl).1
  have hsane : Sane env h.state := S.touches (handle_touches S.toReady hrouter heq up)
  obtain ⟨-, ⟨htable, hcommitted⟩ | ⟨entry, hcommitted, htable⟩⟩ := hfollowed
  · have hsame : h.committed = f.history := hcommitted
    rw [hsame]
    exact ⟨.inl rfl, hfits.le, hsane, htable.trans hfits.table⟩
  · have hsnoc : h.committed = f.history ++ [entry] := hcommitted
    rw [hsnoc]
    refine ⟨.inr ⟨entry, rfl⟩, Nat.le_refl _, hsane, ?_⟩
    rw [htable, tableAt, List.take_length, replay_snoc]
    refine table_applied_congr ?_
    have hbefore := hfits.table
    rw [tableAt, List.take_length] at hbefore
    exact hbefore

/-- A snapshot put on a node. -/
theorem Keeps.install {o : Orders} {err : Option GoError} {n' : Node} (h : Keeps env enc log k s)
    (ho : o.Of s) (hreplaces : s.Replaces n) (hrestore : FSM.restore env s o n = (.ok err, n')) :
    Fits env enc log k n' := by
  obtain ⟨m, rfl, hfits, hlocated⟩ := h
  obtain ⟨hsane, hconfig⟩ := hfits.sane.restore ho hreplaces hrestore
  refine ⟨hfits.le, hsane, ?_⟩
  rw [hconfig, hlocated.table_restored hfits.sane.storable, hfits.table]

variable [DecidableEq ι]

/-- Every node fits its place, and every snapshot keeps what was there. -/
abbrev Follows (env : Env) (enc : Encoding δ) (f : Fleet ι δ) : Prop :=
  f.Tracks (Fits env enc) (Keeps env enc)

/-- A sound step keeps every node fitting its place, and every snapshot keeping what was there. -/
theorem Follows.step (T : Follows env enc f) (hstep : SoundStep env enc f a f') :
    Follows env enc f' := by
  obtain ⟨hstep, hsound⟩ := hstep
  cases hstep with
  | @request i o req ending h caughtUp commits heq up =>
      -- the leader has applied the whole log, so its place is the end of it
      have hfits := T.node i
      rw [caughtUp] at hfits
      obtain ⟨hcommitted, hnew⟩ := hfits.request hsound commits heq up
      refine T.move ?_ ?_ hnew
      -- the other nodes fit a log that may have grown by one entry
      · intro k n hn
        rcases hcommitted with hsame | ⟨entry, hsnoc⟩
        · rwa [hsame]
        · rw [hsnoc]
          exact hn.snoc
      -- and so do the snapshots
      · intro k s hs
        rcases hcommitted with hsame | ⟨entry, hsnoc⟩
        · rwa [hsame]
        · rw [hsnoc]
          exact hs.snoc
  | @deliver i received entry ret n next happly =>
      exact T.move_along ((T.node i).deliver next (fun log => hsound entry log next) happly)
  | save i => exact T.store ⟨_, rfl, T.node i, hsound⟩
  | install kept order hrestore =>
      exact T.move_along ((T.stored _ _ kept).install order hsound hrestore)
  | crash fresh => exact T.move_along (fits_start fresh)

end Steps

end Fleet

end Cheryl.Server
