import Cheryl.Library.Replicas
import Cheryl.Server.AclReplication

/-!
# The ACL on any number of nodes

As for a leader and a follower in `Cheryl.Server.AclReplication`, but any node may handle requests, and
the nodes may crash, start again, and be put back to a snapshot of one of them. A snapshot is of the place
where `Snapshot` was called, and has the record as `Persist` finds it later. A request is carried out on
its node at once and waits to be appended; it may also be lost, as when raft refuses it or its node
crashes. So trees and stored records may be ahead of the log, by what waits or is not yet applied, and by
what was lost, until an entry about the same text is applied. Nodes at the same place agree on all other
texts (`acl_fleet_agrees`).
-/

namespace Cheryl.Server

open Library Acl AclHistory

abbrev AclFleet (ι : Type) := Replicas ι AclHistory RadixTree (Finset String)

namespace AclFleet

variable {ι : Type}

inductive Action (ι : Type)
  /-- `HttpServer.doHandleAcl` on the node, up to the local call -/
  | request (i : ι) (r : AclRequest)
  /-- `writeLogEntry` for the pending request at this place -/
  | append (place : Nat)
  /-- that request never comes into the log -/
  | lose (place : Nat)
  /-- `FSM.doHandleAcl` on the node, for its next entry -/
  | deliver (i : ι)
  /-- `Persist` writes the record for a `Snapshot` that the node has taken when it had applied `k` entries -/
  | save (i : ι) (k : Nat)
  /-- `Restore` builds the tree of a stored record, which is of the first `k` entries -/
  | install (i : ι) (record : Finset String) (k : Nat) (order : List String)
  /-- the node starts again with nothing -/
  | crash (i : ι)

/-- One step. A request that fails, or panics, is answered and forgotten; an entry that panics takes its
node down, which is a `crash`. The requests of a node that crashes may still be appended, or are lost. -/
inductive Step [DecidableEq ι] : AclFleet ι → Action ι → AclFleet ι → Prop
  | panicked {f : AclFleet ι} {i : ι} {r : AclRequest} {fault : Fault}
      (hcall : HttpServer.switchAcl (f.node i) r.entry = .error fault) : Step f (.request i r) f
  | failed {f : AclFleet ι} {i : ι} {r : AclRequest} {err : GoError} {t : RadixTree}
      (hcall : HttpServer.switchAcl (f.node i) r.entry = .ok (some err, t)) :
      Step f (.request i r) (f.move i f.history t (f.place i))
  | request {f : AclFleet ι} {i : ι} {r : AclRequest} {t : RadixTree}
      (hcall : HttpServer.switchAcl (f.node i) r.entry = .ok (none, t)) :
      Step f (.request i r)
        (f.move i (f.history.wait r) t (f.place i))
  | append {f : AclFleet ι} {place : Nat} {r : AclRequest}
      (hr : f.history.pending[place]? = some r) :
      Step f (.append place) { f with history := f.history.append place r }
  | lose {f : AclFleet ι} {place : Nat} {r : AclRequest} (hr : f.history.pending[place]? = some r) :
      Step f (.lose place) { f with history := f.history.lose place r }
  | deliver {f : AclFleet ι} {i : ι} {r : AclRequest} {err : Option GoError} {t : RadixTree}
      (next : f.history.log[f.place i]? = some r)
      (hcall : FSM.switchAcl (f.node i) r.entry = .ok (err, t)) :
      Step f (.deliver i) (f.move i f.history t (f.place i + 1))
  | save {f : AclFleet ι} {i : ι} {k : Nat} (taken : k ≤ f.place i) :
      Step f (.save i k) (f.store (f.node i).record k)
  | install {f : AclFleet ι} {i : ι} {record : Finset String} {k : Nat} {order : List String}
      {t : RadixTree} (kept : (record, k) ∈ f.stored)
      (visits : order.Nodup ∧ ∀ s, s ∈ order ↔ s ∈ record)
      (hrestore : RadixTree.new.restore order = .ok t) :
      Step f (.install i record k order) (f.move i f.history t k)
  | crash {f : AclFleet ι} (i : ι) : Step f (.crash i) (f.move i f.history .new 0)

/-- A step stays clear of the defects: the pattern is one both readings know, and the call is harmless
where it is made. -/
def Sound (f : AclFleet ι) : Action ι → Prop
  | .request i r => (r.pattern = 0 ∨ r.pattern = 1) ∧ AclCluster.Harmless (f.node i) r.op
  | .deliver i => ∀ r, f.history.log[f.place i]? = some r → AclCluster.Harmless (f.node i) r.op
  | _ => True

def SoundStep [DecidableEq ι] (f : AclFleet ι) (a : Action ι) (f' : AclFleet ι) : Prop :=
  Step f a f' ∧ f.Sound a

/-- Nodes without entries. -/
def start : AclFleet ι := ⟨⟨[], [], []⟩, fun _ => .new, fun _ => 0, []⟩

/-! ## The invariant

A tree fits its place when it has every text as the applied entries leave it, except those that are
unsettled. A stored record is good for a place when a tree with this record fits it, and `install` builds
such a tree again. A tree fits all places before its own as well, which is why it does not matter how much
later `Persist` comes. Requests that wait and requests that are lost only add to the unsettled texts, so they
break neither. -/

def nothing : String → Bool := fun _ => false

/-- The record of a tree that fits. -/
def Keeps (h : AclHistory) (k : Nat) (record : Finset String) : Prop :=
  ∃ t : RadixTree, t.record = record ∧ h.Fits nothing k t

section Invariant

variable {h h' : AclHistory} {k : Nat} {t : RadixTree} {record : Finset String}

theorem fits_new : h.Fits nothing 0 .new := ⟨Nat.zero_le _, ⟨_, agrees_new⟩, .refl _⟩

theorem Keeps.mono (hkeeps : Keeps h k record) (hmono : ∀ t, h.Fits nothing k t → h'.Fits nothing k t) :
    Keeps h' k record := by
  obtain ⟨t, hrecord, hfits⟩ := hkeeps
  exact ⟨t, hrecord, hmono t hfits⟩

/-- The tree of a stored record. -/
theorem Keeps.install {order : List String} (hkeeps : Keeps h k record)
    (hvisits : order.Nodup ∧ ∀ s, s ∈ order ↔ s ∈ record)
    (hrestore : RadixTree.new.restore order = .ok t) : h.Fits nothing k t := by
  obtain ⟨t₀, rfl, hfits⟩ := hkeeps
  obtain ⟨V, hagrees⟩ := hfits.coherent
  obtain ⟨t₁, V₁, heq, hagrees₁, hrecord⟩ := restore_spec order agrees_new rfl fun s hs =>
    hagrees.recorded s ((hvisits.2 s).mp hs)
  rw [hrestore] at heq
  cases heq
  have hsame : t.record = t₀.record := by
    rw [hrecord]
    ext s
    simp [RadixTree.new, hvisits.2 s]
  refine ⟨hfits.le, ⟨V₁, hagrees₁⟩, ?_⟩
  have htexts : texts t = texts t₀ := by
    unfold texts
    rw [hsame]
  rw [htexts]
  exact hfits.agree

end Invariant

/-! ## Runs

The invariant is preserved by each action, whichever node it is about, as an action moves one node and at
most extends the history. That the requests of the other nodes go on waiting is in the history, which all
nodes share. -/

section Runs

variable [DecidableEq ι] {f f' : AclFleet ι} {a : Action ι} {as : List (Action ι)}

/-- Every tree fits its place, every record was that of such a tree, and all patterns are known. -/
structure Inv (f : AclFleet ι) : Prop where
  known : f.history.Known
  tracks : f.Tracks (fun h => h.Fits nothing) Keeps

/-- A sound step keeps the invariant: each action is one of the ways in which a tree, a record or the
history moves on. -/
theorem Inv.step (I : Inv f) (hstep : SoundStep f a f') : Inv f' := by
  obtain ⟨hstep, hsound⟩ := hstep
  cases hstep with
  | panicked hcall => exact I
  | @failed i r err t hcall =>
      rw [r.switchAcl_eq] at hcall
      obtain ⟨-, -, hsame⟩ := (I.tracks.node i).coherent.exec hcall hsound.2
      refine ⟨I.known, I.tracks.move_along ?_⟩
      -- a call that fails leaves the tree as it is
      rw [hsame (by simp)]
      exact I.tracks.node i
  | @request i r t hcall =>
      refine ⟨I.known.wait hsound.1, I.tracks.move (fun k t hfits => hfits.wait) ?_ ?_⟩
      · exact fun k record hkeeps => hkeeps.mono fun t hfits => hfits.wait
      · exact (I.tracks.node i).request hsound.2 hcall
  | @append place r hr =>
      refine ⟨I.known.append hr, I.tracks.extend (fun k t hfits => hfits.append hr) ?_⟩
      exact fun k record hkeeps => hkeeps.mono fun t hfits => hfits.append hr
  | @lose place r hr =>
      refine ⟨I.known.lose, I.tracks.extend (fun k t hfits => hfits.lose hr) ?_⟩
      exact fun k record hkeeps => hkeeps.mono fun t hfits => hfits.lose hr
  | @deliver i r err t next hcall =>
      exact ⟨I.known, I.tracks.move_along ((I.tracks.node i).deliver I.known next (hsound r next) hcall)⟩
  | save taken => exact ⟨I.known, I.tracks.store ⟨_, rfl, (I.tracks.node _).earlier taken⟩⟩
  | install kept visits hrestore =>
      exact ⟨I.known, I.tracks.move_along ((I.tracks.stored _ _ kept).install visits hrestore)⟩
  | crash i => exact ⟨I.known, I.tracks.move_along fits_new⟩

omit [DecidableEq ι] in
theorem inv_start : Inv (start : AclFleet ι) where
  known := fun r hr => by cases hr
  tracks := ⟨fun _ => fits_new, fun s k hmem => by cases hmem⟩

theorem run_inv (hrun : Trace SoundStep start as f) : Inv f :=
  hrun.invariant inv_start fun I hstep => I.step hstep

end Runs

end AclFleet

end Cheryl.Server
