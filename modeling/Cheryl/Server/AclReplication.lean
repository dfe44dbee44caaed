import Cheryl.Library.EarlyWrites
import Cheryl.Acl.Record
import Cheryl.Server.AclLog

/-!
# Replication of the ACL

A leader and a follower, the requests the leader has carried out and not yet appended, and the
log. The leader carries out every accepted entry twice, once when the request comes and once when
raft delivers it, with any other steps between the two; the follower carries it out once.

On the record of a node an entry is a write of one text. So what a node carries out before it is in the
log are the early writes of `Cheryl.Library.EarlyWrites`: its tree fits its place in the history, except
for what is not settled there (`AclHistory.Fits`), and each thing that can happen keeps this. The two
records agree once nothing is outstanding (`acl_replicas_agree`), and the trees then agree because each
tree agrees with its own record.
-/

namespace Cheryl.Server

open Library Acl

/-! ## A leader and a follower

The cluster is only its access lists. `step` computes what each action does to it, so a run can be tried
out; what is proved is about every run of sound steps. -/

/-- A request to `/acl` with a CIDR text. -/
structure AclRequest where
  pattern : UInt8
  net : Cidr

/-- What it appends to the log. -/
def AclRequest.entry (r : AclRequest) : AclLog := ⟨r.pattern, r.net.text⟩

/-- The call the handler makes. -/
def AclRequest.op (r : AclRequest) : Op := if r.pattern = 0 then .delete r.net else .add r.net

/-- The ACL side of a leader and a follower. `pending` are the requests that have been carried out
on the leader and not yet appended; the nodes have applied the first `leaderApplied` and
`followerApplied` entries of the log. -/
structure AclCluster where
  leader : RadixTree
  follower : RadixTree
  pending : List AclRequest
  log : List AclRequest
  leaderApplied : Nat
  followerApplied : Nat

inductive AclAction
  /-- `HttpServer.doHandleAcl` up to the local call -/
  | request (r : AclRequest)
  /-- `writeLogEntry` for the pending request at this place -/
  | append (place : Nat)
  /-- `FSM.doHandleAcl` on the leader -/
  | applyLeader
  /-- `FSM.doHandleAcl` on the follower -/
  | applyFollower

namespace AclCluster

def start (leader follower : RadixTree) : AclCluster := ⟨leader, follower, [], [], 0, 0⟩

/-- One step. A request that fails, or panics, is answered and forgotten; an entry that panics
takes its node down, and there is no state after that. -/
def step (s : AclCluster) : AclAction → Option AclCluster
  | .request r =>
      match HttpServer.switchAcl s.leader r.entry with
      | .error _ => some s
      | .ok (some _, t) => some { s with leader := t }
      | .ok (none, t) => some { s with leader := t, pending := s.pending ++ [r] }
  | .append place =>
      match s.pending[place]? with
      | none => none
      | some r => some { s with pending := s.pending.eraseIdx place, log := s.log ++ [r] }
  | .applyLeader =>
      match s.log[s.leaderApplied]? with
      | none => none
      | some r =>
          match FSM.switchAcl s.leader r.entry with
          | .error _ => none
          | .ok (_, t) => some { s with leader := t, leaderApplied := s.leaderApplied + 1 }
  | .applyFollower =>
      match s.log[s.followerApplied]? with
      | none => none
      | some r =>
          match FSM.switchAcl s.follower r.entry with
          | .error _ => none
          | .ok (_, t) => some { s with follower := t, followerApplied := s.followerApplied + 1 }

def Step (s : AclCluster) (a : AclAction) (s' : AclCluster) : Prop := s.step a = some s'

/-- No request is pending and every entry has been applied on both nodes. -/
structure Quiet (s : AclCluster) : Prop where
  pending : s.pending = []
  leader : s.leaderApplied = s.log.length
  follower : s.followerApplied = s.log.length

/-- The nodes have the same texts in `Record` and deny the same addresses. -/
structure Agree (s : AclCluster) : Prop where
  record : s.leader.record = s.follower.record
  denies : ∀ k, s.leader.denies k = s.follower.denies k

/-- A call on the tree `t` that stays clear of the known defects: free nodes are reused cleanly
and the text deleted has no alias in `Record`. -/
def Harmless (t : RadixTree) (o : Op) : Prop := o.clean t ∧ o.Unaliased t

/-- A step stays clear of the defects: the pattern is one both readings know, and the call is
harmless where it is made. -/
def Sound (s : AclCluster) : AclAction → Prop
  | .request r => (r.pattern = 0 ∨ r.pattern = 1) ∧ Harmless s.leader r.op
  | .append _ => True
  | .applyLeader => ∀ r, s.log[s.leaderApplied]? = some r → Harmless s.leader r.op
  | .applyFollower => ∀ r, s.log[s.followerApplied]? = some r → Harmless s.follower r.op

def SoundStep (s : AclCluster) (a : AclAction) (s' : AclCluster) : Prop := Step s a s' ∧ s.Sound a

end AclCluster

/-! ## Entries as writes

A call on the tree that stays clear of the known defects does to the record what its text says: it puts one
text in or takes one out. On records the order of two calls matters only when they are about one text. -/

/-- The handler makes the call of the request. -/
theorem AclRequest.switchAcl_eq (r : AclRequest) (t : RadixTree) :
    HttpServer.switchAcl t r.entry = r.op.exec t := by
  by_cases h : r.pattern = 0 <;> simp [HttpServer.switchAcl, entry, op, Op.exec, h]

def texts (t : RadixTree) (s : String) : Bool := decide (s ∈ t.record)

/-- The write a call makes on the record. -/
def write : Op → Write String Bool
  | .add n => ⟨n.text, true⟩
  | .delete n => ⟨n.text, false⟩

/-- A node whose tree agrees with its record. -/
def Coherent (t : RadixTree) : Prop := ∃ V, Agrees t V

section Call

variable {t t' : RadixTree} {o : Op} {err : Option GoError}

/-- One call, on the tree and on its record. -/
theorem Coherent.exec (h : Coherent t) (hexec : o.exec t = .ok (err, t')) (hok : AclCluster.Harmless t o) :
    Coherent t' ∧ texts t' = (write o).apply (texts t) ∧ (err ≠ none → t' = t) := by
  obtain ⟨V, h⟩ := h
  have hcall : UnaliasedCall t ⟨o, err⟩ t' := ⟨⟨hexec, hok.1⟩, hok.2⟩
  obtain ⟨hrec, hfail⟩ := h.record_call hcall
  refine ⟨⟨_, h.call hcall⟩, ?_, hfail⟩
  funext s
  rw [texts, hrec]
  cases o with
  | add n =>
      by_cases hs : s = n.text <;> simp [Op.record, write, Write.apply, texts, hs]
  | delete n =>
      by_cases hs : s = n.text <;> simp [Op.record, write, Write.apply, texts, hs]

/-- A record that agrees in its texts agrees. -/
theorem record_eq_of_texts {u : RadixTree} (h : texts t = texts u) : t.record = u.record := by
  ext s
  have := congrFun h s
  simpa [texts] using this

/-- Trees that agree with one record deny the same addresses. -/
theorem Coherent.denies_congr {u : RadixTree} (ht : Coherent t) (hu : Coherent u) (hrec : t.record = u.record)
    (k : BitVec 32) : t.denies k = u.denies k := by
  obtain ⟨_, ht⟩ := ht
  obtain ⟨_, hu⟩ := hu
  obtain ⟨b, hb, hiff⟩ := ht.denies k
  obtain ⟨c, hc, hiff'⟩ := hu.denies k
  rw [hrec] at hiff
  rw [hb, hc, Bool.eq_iff_iff.mpr (hiff.trans hiff'.symm)]

end Call

/-! ## Requests on their way

Between its local call and the log a request is known to its node alone. `Unsettled` collects the texts
about which a node may differ from the log: those of requests that wait, of entries not applied yet, and of
requests that were lost and on which no entry has decided since. -/

/-- What becomes of the requests: those that have been carried out on some node and not yet appended,
those that never will be, each with the length the log had when that was settled, and the log. -/
structure AclHistory where
  pending : List AclRequest
  lost : List (AclRequest × Nat)
  log : List AclRequest

def writes (rs : List AclRequest) : List (Write String Bool) := rs.map fun r => write r.op

namespace AclHistory

/-- The texts that a node at this place may have other than the log says: a request about them waits, or
is not applied yet, or was lost and no entry about the text has been applied since. -/
def Unsettled (h : AclHistory) (k : Nat) : Set String :=
  {s | (∃ r ∈ h.pending ++ h.log.drop k, r.net.text = s) ∨
    ∃ l ∈ h.lost, l.1.net.text = s ∧ ∀ r ∈ (h.log.take k).drop l.2, r.net.text ≠ s}

def recordAt (base : String → Bool) (h : AclHistory) (k : Nat) : String → Bool :=
  replay base ((writes h.log).take k)

/-- Both readings know all patterns. -/
def Known (h : AclHistory) : Prop := ∀ r ∈ h.pending ++ h.log, r.pattern = 0 ∨ r.pattern = 1

/-- A request has been carried out, and waits. -/
def wait (h : AclHistory) (r : AclRequest) : AclHistory := { h with pending := h.pending ++ [r] }

/-- The request that waits at this place is appended. -/
def append (h : AclHistory) (place : Nat) (r : AclRequest) : AclHistory :=
  { h with pending := h.pending.eraseIdx place, log := h.log ++ [r] }

/-- The request that waits at this place is refused, or its node has crashed. -/
def lose (h : AclHistory) (place : Nat) (r : AclRequest) : AclHistory :=
  { h with pending := h.pending.eraseIdx place, lost := h.lost ++ [(r, h.log.length)] }

/-- A tree that is where the first `k` entries lead, except for what is not settled. -/
structure Fits (base : String → Bool) (h : AclHistory) (k : Nat) (t : RadixTree) : Prop where
  le : k ≤ h.log.length
  coherent : Coherent t
  agree : AgreeBut (h.Unsettled k) (texts t) (h.recordAt base k)

section Fits

variable {base : String → Bool} {h h' : AclHistory} {k place : Nat} {t t' : RadixTree} {r : AclRequest}
  {err : Option GoError}

theorem key_write (r : AclRequest) : (write r.op).key = r.net.text := by
  unfold AclRequest.op
  split <;> rfl

theorem getElem?_writes {log : List AclRequest} {i : Nat} (hr : log[i]? = some r) :
    (writes log)[i]? = some (write r.op) := by
  simp [writes, hr]

/-- Where nothing waits, nothing was lost and all is applied, all is settled. -/
theorem unsettled_eq_empty (hpending : h.pending = []) (hlost : h.lost = []) (hk : h.log.length ≤ k) :
    h.Unsettled k = ∅ := by
  ext s
  simp [Unsettled, hpending, hlost, List.drop_eq_nil_of_le hk]

/-- What waits at a place is what is taken from there, or still waits. -/
theorem mem_pending_cases {x : AclRequest} (hr : h.pending[place]? = some r) (hx : x ∈ h.pending) :
    x = r ∨ x ∈ h.pending.eraseIdx place := by
  obtain ⟨i, hi⟩ := List.mem_iff_getElem?.mp hx
  by_cases hip : i = place
  · subst hip
    exact .inl (Option.some.inj (hi.symm.trans hr))
  · exact .inr (List.mem_eraseIdx_iff_getElem?.mpr ⟨i, hip, hi⟩)

/-! ### What keeps to known patterns

The handler takes every pattern but 0 for `Add`, and the state machine takes only 1 for it. So the readings
agree as long as all requests keep to these two. -/

/-- A request with a pattern that both know. -/
theorem Known.wait (hknown : h.Known) (hr : r.pattern = 0 ∨ r.pattern = 1) : (h.wait r).Known := by
  intro x hx
  simp only [AclHistory.wait, List.append_assoc, List.mem_append, List.mem_singleton] at hx
  rcases hx with hx | rfl | hx
  · exact hknown x (List.mem_append_left _ hx)
  · exact hr
  · exact hknown x (List.mem_append_right _ hx)

/-- To be appended does not change the pattern. -/
theorem Known.append (hknown : h.Known) (hr : h.pending[place]? = some r) : (h.append place r).Known := by
  intro x hx
  simp only [AclHistory.append, List.mem_append, List.mem_singleton] at hx
  rcases hx with hx | hx | rfl
  · exact hknown x (List.mem_append_left _ (List.mem_of_mem_eraseIdx hx))
  · exact hknown x (List.mem_append_right _ hx)
  · exact hknown x (List.mem_append_left _ (List.mem_of_getElem? hr))

/-- Nor does being lost. -/
theorem Known.lose (hknown : h.Known) : (h.lose place r).Known := by
  intro x hx
  simp only [AclHistory.lose, List.mem_append] at hx
  rcases hx with hx | hx
  · exact hknown x (List.mem_append_left _ (List.mem_of_mem_eraseIdx hx))
  · exact hknown x (List.mem_append_right _ hx)

/-! ### What keeps a tree fitting

One lemma for each thing that can happen: a request is carried out, appended, refused or lost, and an entry
is applied. On the node it happens on, the write and what is unsettled move together; on every other node
only more becomes unsettled. -/

theorem Fits.mono (hfits : h.Fits base k t) (hle : k ≤ h'.log.length)
    (hsub : h.Unsettled k ⊆ h'.Unsettled k) (hrecord : h'.recordAt base k = h.recordAt base k) :
    h'.Fits base k t where
  le := hle
  coherent := hfits.coherent
  agree := by
    rw [hrecord]
    exact hfits.agree.mono hsub

/-- What waits is added to what is unsettled. -/
theorem unsettled_wait : h.Unsettled k ⊆ (h.wait r).Unsettled k := by
  rintro s (⟨x, hx, rfl⟩ | hlost)
  · refine .inl ⟨x, ?_, rfl⟩
    simp only [AclHistory.wait, List.mem_append] at hx ⊢
    exact hx.imp_left .inl
  · exact .inr hlost

/-- A request that waits is unsettled. -/
theorem Fits.wait (hfits : h.Fits base k t) : (h.wait r).Fits base k t :=
  hfits.mono hfits.le unsettled_wait rfl

/-- It stays so when it is appended. -/
theorem Fits.append (hr : h.pending[place]? = some r) (hfits : h.Fits base k t) :
    (h.append place r).Fits base k t := by
  have hle := hfits.le
  refine hfits.mono ?_ ?_ ?_
  · simp only [AclHistory.append, List.length_append, List.length_singleton]
    omega
  · rintro s (⟨x, hx, rfl⟩ | ⟨l, hl, htext, hsince⟩)
    · refine .inl ⟨x, ?_, rfl⟩
      simp only [AclHistory.append, List.drop_append_of_le_length hle, List.mem_append,
        List.mem_singleton] at hx ⊢
      rcases hx with hx | hx
      · exact (mem_pending_cases hr hx).elim (fun heq => .inr (.inr heq)) .inl
      · exact .inr (.inl hx)
    · refine .inr ⟨l, hl, htext, ?_⟩
      simp only [AclHistory.append, List.take_append_of_le_length hle]
      exact hsince
  · simp [recordAt, AclHistory.append, writes, List.take_append_of_le_length, hle]

/-- And when it is lost. -/
theorem Fits.lose (hr : h.pending[place]? = some r) (hfits : h.Fits base k t) :
    (h.lose place r).Fits base k t := by
  refine hfits.mono hfits.le ?_ rfl
  rintro s (⟨x, hx, rfl⟩ | ⟨l, hl, htext, hsince⟩)
  · rcases List.mem_append.mp hx with hx | hx
    · rcases mem_pending_cases hr hx with rfl | hx
      · -- nothing has been appended since
        refine .inr ⟨(x, h.log.length), List.mem_append_right _ (List.mem_singleton.mpr rfl), rfl, ?_⟩
        intro y hy
        have hnil : (h.log.take k).drop h.log.length = [] :=
          List.drop_eq_nil_of_le (List.length_take_le' k h.log)
        have hy : y ∈ (h.log.take k).drop h.log.length := hy
        rw [hnil] at hy
        cases hy
      · exact .inl ⟨x, List.mem_append_left _ hx, rfl⟩
    · exact .inl ⟨x, List.mem_append_right _ hx, rfl⟩
  · exact .inr ⟨l, List.mem_append_left _ hl, htext, hsince⟩

/-- The node that carries a request out is ahead by its write. -/
theorem Fits.request (hfits : h.Fits base k t) (hok : AclCluster.Harmless t r.op)
    (hcall : HttpServer.switchAcl t r.entry = .ok (none, t')) : (h.wait r).Fits base k t' := by
  rw [r.switchAcl_eq] at hcall
  obtain ⟨hcoherent, htexts, -⟩ := hfits.coherent.exec hcall hok
  refine ⟨hfits.le, hcoherent, ?_⟩
  rw [htexts]
  refine hfits.agree.early unsettled_wait (.inl ⟨r, ?_, (key_write r).symm⟩)
  simp [AclHistory.wait]

/-- The next entry: its text is settled, whatever was lost before. -/
theorem Fits.deliver (hfits : h.Fits base k t) (hknown : h.Known) (hnext : h.log[k]? = some r)
    (hok : AclCluster.Harmless t r.op) (hcall : FSM.switchAcl t r.entry = .ok (err, t')) :
    h.Fits base (k + 1) t' := by
  obtain ⟨hlt, hget⟩ := List.getElem?_eq_some_iff.mp hnext
  have hpattern := hknown r (List.mem_append_right _ (List.mem_of_getElem? hnext))
  rw [FSM.switchAcl_eq hpattern, r.switchAcl_eq] at hcall
  obtain ⟨hcoherent, htexts, -⟩ := hfits.coherent.exec hcall hok
  refine ⟨hlt, hcoherent, ?_⟩
  rw [htexts, recordAt, replay_take_succ (getElem?_writes hnext)]
  refine hfits.agree.both ?_
  rw [key_write]
  -- an unsettled text is still so afterwards, unless it is the one of this entry
  rintro s (⟨x, hx, rfl⟩ | ⟨l, hl, rfl, hsince⟩)
  · rw [List.drop_eq_getElem_cons hlt, hget, List.mem_append, List.mem_cons] at hx
    rcases hx with hx | rfl | hx
    · exact .inr (.inl ⟨x, List.mem_append_left _ hx, rfl⟩)
    · exact .inl rfl
    · exact .inr (.inl ⟨x, List.mem_append_right _ hx, rfl⟩)
  · by_cases hs : l.1.net.text = r.net.text
    · exact .inl hs
    · refine .inr (.inr ⟨l, hl, rfl, fun x hx => ?_⟩)
      rw [List.take_add_one, hnext, Option.toList_some, List.drop_append] at hx
      rcases List.mem_append.mp hx with hx | hx
      · exact hsince x hx
      · obtain rfl := List.mem_singleton.mp (List.mem_of_mem_drop hx)
        exact Ne.symm hs

/-- A tree that is further on may be taken for one of an earlier place: what it has more is in entries that
are not applied there, and so not settled. -/
theorem Fits.earlier {k' : Nat} (hfits : h.Fits base k' t) (hle : k ≤ k') : h.Fits base k t := by
  have hsub : h.Unsettled k' ⊆ h.Unsettled k := by
    rintro s (⟨x, hx, rfl⟩ | ⟨l, hl, htext, hsince⟩)
    · refine .inl ⟨x, ?_, rfl⟩
      rw [List.mem_append] at hx ⊢
      exact hx.imp_right fun hx => (List.drop_subset_drop_left h.log hle) hx
    · exact .inr ⟨l, hl, htext, fun r hr => hsince r (List.Sublist.mem hr
        ((List.take_sublist_take_left hle).drop l.2))⟩
  refine ⟨hle.trans hfits.le, hfits.coherent, fun s hs => ?_⟩
  -- the entries in between are about other texts
  have hbetween : ∀ w ∈ ((writes h.log).take k').drop k, w.key ≠ s := by
    rintro w hw heq
    rw [List.drop_take] at hw
    have hw : w ∈ writes (h.log.drop k) := by
      rw [writes, List.map_drop]
      exact List.mem_of_mem_take hw
    obtain ⟨r, hr, rfl⟩ := List.mem_map.mp hw
    exact hs (.inl ⟨r, List.mem_append_right _ hr, (key_write r).symm.trans heq⟩)
  have hsplit : (writes h.log).take k' = (writes h.log).take k ++ ((writes h.log).take k').drop k := by
    conv_lhs => rw [← List.take_append_drop k ((writes h.log).take k'), List.take_take, min_eq_left hle]
  calc texts t s = h.recordAt base k' s := hfits.agree fun hout => hs (hsub hout)
    _ = replay base ((writes h.log).take k ++ ((writes h.log).take k').drop k) s := by
        rw [← hsplit]
        rfl
    _ = replay (h.recordAt base k) (((writes h.log).take k').drop k) s := by
        rw [replay_append]
        rfl
    _ = h.recordAt base k s := replay_of_notMem hbetween

end Fits

end AclHistory

/-! ## The invariant

For one leader and one follower no request is lost, so once nothing waits and all is applied, nothing is
unsettled. Both records are then where the log leads, and the trees agree because each agrees with its
record. -/

namespace AclCluster

variable {base : String → Bool} {s s' : AclCluster} {a : AclAction}

/-- The requests on their way. Between this leader and its log none is lost. -/
def history (s : AclCluster) : AclHistory := ⟨s.pending, [], s.log⟩

/-- The invariant. Both nodes are where their parts of the log lead from the common start `base`, except
for the writes that the leader may have carried out early. -/
structure Inv (base : String → Bool) (s : AclCluster) : Prop where
  known : s.history.Known
  leader : s.history.Fits base s.leaderApplied s.leader
  follower : s.history.Fits base s.followerApplied s.follower

theorem inv_start {leader follower : RadixTree} (hl : Coherent leader) (hf : Coherent follower)
    (hrec : leader.record = follower.record) : Inv (texts follower) (start leader follower) where
  known := fun r hr => by cases hr
  leader := by
    have htexts : texts leader = texts follower := by
      unfold texts
      rw [hrec]
    refine ⟨Nat.le_refl _, hl, ?_⟩
    show AgreeBut _ (texts leader) (texts follower)
    rw [htexts]
    exact .refl _
  follower := ⟨Nat.le_refl _, hf, .refl _⟩

/-- Handling a request keeps the invariant: its write is now outstanding. -/
theorem Inv.request {r : AclRequest} (I : Inv base s) (hpat : r.pattern = 0 ∨ r.pattern = 1)
    (hok : Harmless s.leader r.op) (hstep : s.step (.request r) = some s') : Inv base s' := by
  rw [step] at hstep
  split at hstep
  · cases hstep
    exact I
  · next err t heq =>
      cases hstep
      rw [r.switchAcl_eq] at heq
      obtain ⟨-, -, hfail⟩ := I.leader.coherent.exec heq hok
      rw [hfail (by simp)]
      exact I
  · next t heq =>
      cases hstep
      exact ⟨I.known.wait hpat, I.leader.request hok heq, I.follower.wait⟩

/-- Appending moves a request from the pending ones to the log. -/
theorem Inv.append {place : Nat} (I : Inv base s) (hstep : s.step (.append place) = some s') :
    Inv base s' := by
  rw [step] at hstep
  split at hstep
  · cases hstep
  · next r hr =>
      cases hstep
      exact ⟨I.known.append hr, I.leader.append hr, I.follower.append hr⟩

/-- Delivering an entry to the leader keeps the invariant: its write is outstanding no more. -/
theorem Inv.applyLeader (I : Inv base s)
    (hok : ∀ r, s.log[s.leaderApplied]? = some r → Harmless s.leader r.op)
    (hstep : s.step .applyLeader = some s') : Inv base s' := by
  rw [step] at hstep
  split at hstep
  · cases hstep
  · next r hr =>
      split at hstep
      · cases hstep
      · next err t heq =>
          cases hstep
          exact ⟨I.known, I.leader.deliver I.known hr (hok r hr) heq, I.follower⟩

/-- Delivering an entry to the follower keeps the invariant. -/
theorem Inv.applyFollower (I : Inv base s)
    (hok : ∀ r, s.log[s.followerApplied]? = some r → Harmless s.follower r.op)
    (hstep : s.step .applyFollower = some s') : Inv base s' := by
  rw [step] at hstep
  split at hstep
  · cases hstep
  · next r hr =>
      split at hstep
      · cases hstep
      · next err t heq =>
          cases hstep
          exact ⟨I.known, I.leader, I.follower.deliver I.known hr (hok r hr) heq⟩

/-- Every sound step keeps the invariant. -/
theorem Inv.step (I : Inv base s) (hstep : SoundStep s a s') : Inv base s' := by
  obtain ⟨hstep, hsound⟩ := hstep
  cases a with
  | request r => exact I.request hsound.1 hsound.2 hstep
  | append place => exact I.append hstep
  | applyLeader => exact I.applyLeader hsound hstep
  | applyFollower => exact I.applyFollower hsound hstep

/-- Where everything has been applied the nodes agree. -/
theorem Inv.agree (I : Inv base s) (hquiet : s.Quiet) : s.Agree := by
  have hsettled : s.history.Unsettled s.log.length = ∅ :=
    AclHistory.unsettled_eq_empty hquiet.pending rfl (Nat.le_refl s.log.length)
  have hleader := I.leader.agree
  have hfollower := I.follower.agree
  rw [hquiet.leader, hsettled] at hleader
  rw [hquiet.follower, hsettled] at hfollower
  have hrec : s.leader.record = s.follower.record :=
    record_eq_of_texts (hleader.eq.trans hfollower.eq.symm)
  exact ⟨hrec, I.leader.coherent.denies_congr I.follower.coherent hrec⟩

/-- From nodes with equal records, in every run of sound steps, with requests, appends and
deliveries interleaved in any order: once no request is pending and all entries are applied, the
nodes agree. -/
theorem acl_replicas_agree {es fs : List Event} {leader follower : RadixTree}
    (hleader : Trace UnaliasedCall RadixTree.new es leader)
    (hfollower : Trace UnaliasedCall RadixTree.new fs follower)
    (hrec : leader.record = follower.record) {as : List AclAction} {s : AclCluster}
    (hrun : Trace SoundStep (start leader follower) as s) (hquiet : s.Quiet) : s.Agree := by
  have hinv : Inv (texts follower) s :=
    hrun.invariant (inv_start ⟨_, run_agrees hleader⟩ ⟨_, run_agrees hfollower⟩ hrec)
      fun hI hstep => hI.step hstep
  exact hinv.agree hquiet

def zeroes1 (pattern : UInt8) : AclRequest := ⟨pattern, .zeroes1⟩

/-- A request handled while the one before it is still pending. -/
theorem acl_replicas_agree_two : ∃ as s, Trace SoundStep (start .new .new) as s ∧
    as.length = 8 ∧ s.log.length = 2 ∧ s.Agree := by
  have hadd : ∀ {log : List AclRequest} {t : RadixTree} {i : Nat}, log[i]? = some (zeroes1 1) →
      t.insertsCleanly Cidr.zeroes1.network → ∀ r, log[i]? = some r → Harmless t r.op := by
    intro log t i hi hclean r hr
    obtain rfl : zeroes1 1 = r := Option.some.inj (hi.symm.trans hr)
    exact ⟨hclean, trivial⟩
  have hsole : ∀ {t : RadixTree}, t.record ⊆ {Cidr.zeroes1.text} → Harmless t (zeroes1 0).op :=
    fun hrec => ⟨rfl, fun n' hn' _ => Finset.mem_singleton.mp (hrec hn')⟩
  have hdelete : ∀ {log : List AclRequest} {t : RadixTree} {i : Nat}, log[i]? = some (zeroes1 0) →
      t.record ⊆ {Cidr.zeroes1.text} → ∀ r, log[i]? = some r → Harmless t r.op := by
    intro log t i hi hrec r hr
    obtain rfl : zeroes1 0 = r := Option.some.inj (hi.symm.trans hr)
    exact hsole hrec
  have hrun : Trace SoundStep (start .new .new) [] (start .new .new) := .nil
  have hrun := hrun.snoc (e := AclAction.request (zeroes1 1)) ⟨rfl, .inr rfl, rfl, trivial⟩
  have hrun := hrun.snoc (e := AclAction.request (zeroes1 0))
    ⟨rfl, .inl rfl, hsole (Finset.Subset.refl {Cidr.zeroes1.text})⟩
  have hrun := hrun.snoc (e := AclAction.append 0) ⟨rfl, trivial⟩
  have hrun := hrun.snoc (e := AclAction.append 0) ⟨rfl, trivial⟩
  have hrun := hrun.snoc (e := AclAction.applyLeader) ⟨rfl, hadd rfl rfl⟩
  have hrun := hrun.snoc (e := AclAction.applyLeader) ⟨rfl, hdelete rfl (by decide +kernel)⟩
  have hrun := hrun.snoc (e := AclAction.applyFollower) ⟨rfl, hadd rfl rfl⟩
  have hrun := hrun.snoc (e := AclAction.applyFollower) ⟨rfl, hdelete rfl (by decide +kernel)⟩
  exact ⟨_, _, hrun, rfl, rfl, acl_replicas_agree .nil .nil rfl hrun
    ⟨rfl, rfl, rfl⟩⟩

/-- A request with the pattern 2 is an `Add` for the handler and nothing for the state machine. -/
theorem not_acl_replicas_agree : ¬ ∀ (es fs : List Event) (leader follower : RadixTree),
    Trace Call RadixTree.new es leader → Trace Call RadixTree.new fs follower →
    leader.record = follower.record → (∀ k, leader.denies k = follower.denies k) →
    ∀ as s, Trace Step (start leader follower) as s → s.Quiet → s.Agree := by
  intro h
  have hrun : Trace Step (start .new .new)
      ([] ++ [.request (zeroes1 2)] ++ [.append 0] ++ [.applyLeader] ++ [.applyFollower]) _ :=
    .snoc (.snoc (.snoc (.snoc .nil rfl) rfl) rfl) rfl
  have hagree := h [] [] _ _ .nil .nil rfl (fun _ => rfl) _ _ hrun ⟨rfl, rfl, rfl⟩
  have hrec : (insert Cidr.zeroes1.text ∅ : Finset String) = ∅ := hagree.record
  exact Finset.insert_ne_empty _ _ hrec

end AclCluster

end Cheryl.Server
