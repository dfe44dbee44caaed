import Cheryl.Server.AclFleet
import Cheryl.Server.Run
import Cheryl.ReverseProxy.Gates

/-!
# Who is turned away

A request to the gateway is answered by the tree of one node, and the trees follow a log that other nodes
may have extended, with some entries carried out ahead of it (`AclFleet`). So an IPv4 address is turned away
according to the entries the node has applied, as far as no text that covers it is unsettled there:
`requests_denied` says this for every node, at any time in a run.
-/

namespace Cheryl.Server.AclFleet

open Library Acl Utils ReverseProxy AclHistory

/-! ## The tree

The record of a tree that fits its place is known text by text, and the tree denies what its record covers.
-/

section Tree

variable {h : AclHistory} {k : Nat} {t : RadixTree} {m : Cidr} {key : BitVec 32}

/-- The tree has a settled entry just in case the log has. -/
theorem texts_settled (hfits : h.Fits nothing k t) (hm : m.text ∉ h.Unsettled k) :
    texts t m.text = h.recordAt nothing k m.text := hfits.agree hm

/-- What the tree says about an address. -/
theorem denies_of_fits (hfits : h.Fits nothing k t) (key : BitVec 32) :
    ∃ denied, t.denies key = .ok denied ∧
      (denied = true ↔ ∃ m : Cidr, texts t m.text = true ∧ m.Covers key) := by
  obtain ⟨V, hagrees⟩ := hfits.coherent
  obtain ⟨denied, heq, hiff⟩ := hagrees.denies key
  refine ⟨denied, heq, hiff.trans ?_⟩
  simp [Covered, texts]

end Tree

/-! ## The request

`ServeHTTP` asks the tree before anything else, and nothing behind that gate answers with 403. So the status
is the verdict of the tree on the client's address, and the port plays no part in it. -/

section Request

variable {n : Node} {req : Request} {r : RemoteAddr}

/-- Behind the first gate no request is forbidden. -/
theorem serveHTTP_ne_forbidden (hacl : n.acl.accessControl req.remoteAddr = .ok false) :
    (n.serveHTTP req).1 ≠ .ok .forbidden := by
  unfold Node.serveHTTP
  rw [hacl]
  cases n.router with
  | none => simp
  | some hosts =>
      dsimp only
      split
      · simp
      · simp
      · split
        · simp
        · simp
        · split
          · simp
          · split <;> simp

/-- The router turns a request away exactly when the tree denies its address. -/
theorem serveHTTP_forbidden_iff (haddr : req.remoteAddr = r.text) :
    (n.serveHTTP req).1 = .ok .forbidden ↔ n.acl.denies r.host.key = .ok true := by
  rw [← router_gate, ← haddr]
  constructor
  · intro hres
    cases hacl : n.acl.accessControl req.remoteAddr with
    | error fault =>
        rw [Node.serveHTTP, hacl] at hres
        cases hres
    | ok denied =>
        cases denied with
        | true => rfl
        | false => exact absurd hres (serveHTTP_ne_forbidden hacl)
  · intro hacl
    rw [Node.serveHTTP, hacl]

variable {ι : Type} [DecidableEq ι] {f : AclFleet ι} {as : List (Action ι)}

/-- In every run of sound steps, a request to any node from an IPv4 address never meets a panic of the
access list, and: a settled entry that covers the address and that the applied log has added turns it away;
when it is turned away, some entry covers it that the applied log has added, or that is not settled. So
where every entry that covers the address is settled, the applied log decides. -/
theorem requests_denied (hrun : Trace SoundStep start as f) (i : ι) (hacl : n.acl = f.node i)
    {a b c d port : List Char} (octets : IsOctet a ∧ IsOctet b ∧ IsOctet c ∧ IsOctet d)
    (haddr : req.remoteAddr = (RemoteAddr.mk (.ipv4 a b c d octets) port).text) :
    (∃ denied, n.acl.accessControl req.remoteAddr = .ok denied) ∧
    (∀ m : Cidr, m.Covers (quadAddress a b c d) → m.text ∉ f.history.Unsettled (f.place i) →
      f.history.recordAt nothing (f.place i) m.text = true → (n.serveHTTP req).1 = .ok .forbidden) ∧
    ((n.serveHTTP req).1 = .ok .forbidden → ∃ m : Cidr, m.Covers (quadAddress a b c d) ∧
      (f.history.recordAt nothing (f.place i) m.text = true ∨
        m.text ∈ f.history.Unsettled (f.place i))) ∧
    ((∀ m : Cidr, m.Covers (quadAddress a b c d) → m.text ∉ f.history.Unsettled (f.place i)) →
      ((n.serveHTTP req).1 = .ok .forbidden ↔ ∃ m : Cidr, m.Covers (quadAddress a b c d) ∧
        f.history.recordAt nothing (f.place i) m.text = true)) := by
  have hfits : f.history.Fits nothing (f.place i) n.acl := hacl ▸ (run_inv hrun).tracks.node i
  obtain ⟨denied, heq, hdenied⟩ := denies_of_fits hfits (quadAddress a b c d)
  have hforbidden : (n.serveHTTP req).1 = .ok .forbidden ↔
      ∃ m : Cidr, texts n.acl m.text = true ∧ m.Covers (quadAddress a b c d) := by
    have hkey : n.acl.denies (Host.ipv4 a b c d octets).key = .ok denied := heq
    rw [serveHTTP_forbidden_iff haddr, hkey, ← hdenied, Except.ok.injEq]
  have hadded : ∀ m : Cidr, m.Covers (quadAddress a b c d) →
      m.text ∉ f.history.Unsettled (f.place i) →
      f.history.recordAt nothing (f.place i) m.text = true → (n.serveHTTP req).1 = .ok .forbidden := by
    intro m hcovers hsettled hrecord
    exact hforbidden.mpr ⟨m, (texts_settled hfits hsettled).trans hrecord, hcovers⟩
  refine ⟨⟨denied, ?_⟩, hadded, fun hres => ?_, fun hsettled => ⟨fun hres => ?_, ?_⟩⟩
  · rw [haddr, router_gate]
    exact heq
  · obtain ⟨m, htexts, hcovers⟩ := hforbidden.mp hres
    by_cases hm : m.text ∈ f.history.Unsettled (f.place i)
    · exact ⟨m, hcovers, .inr hm⟩
    · exact ⟨m, hcovers, .inl ((texts_settled hfits hm).symm.trans htexts)⟩
  · obtain ⟨m, htexts, hcovers⟩ := hforbidden.mp hres
    exact ⟨m, hcovers, (texts_settled hfits (hsettled m hcovers)).symm.trans htexts⟩
  · rintro ⟨m, hcovers, hrecord⟩
    exact hadded m hcovers (hsettled m hcovers) hrecord

end Request

def upperHalf : Cidr := .ofParts "128" "0" "0" "0" "1" (by decide)

/-- Two entries are added on one node, the first has come to the other node, the second waits. The other
node turns `1.2.3.4:80` away. -/
theorem requests_denied_waiting : ∃ (as : List (Action Bool)) (f : AclFleet Bool) (n : Node),
    Trace SoundStep start as f ∧ n.acl = f.node true ∧ f.history.pending.length = 1 ∧
    (n.serveHTTP ⟨onePort80.text, "/", none, true⟩).1 = .ok .forbidden := by
  have hadd : ∀ r, [AclCluster.zeroes1 1][0]? = some r → AclCluster.Harmless .new r.op := by
    intro r hr
    obtain rfl : AclCluster.zeroes1 1 = r := Option.some.inj hr
    exact ⟨rfl, trivial⟩
  have hrun : Trace SoundStep (start : AclFleet Bool) [] start := .nil
  have hrun := hrun.snoc (e := Action.request false (AclCluster.zeroes1 1))
    ⟨.request rfl, .inr rfl, rfl, trivial⟩
  have hrun := hrun.snoc (e := Action.append 0) ⟨.append rfl, trivial⟩
  have hrun := hrun.snoc (e := Action.deliver true) ⟨.deliver rfl rfl, hadd⟩
  have hrun := hrun.snoc (e := Action.request false ⟨1, upperHalf⟩)
    ⟨.request rfl, .inr rfl, rfl, trivial⟩
  refine ⟨_, _, { Node.new with acl := _ }, hrun, rfl, rfl, ((requests_denied hrun true rfl
    (a := "1".toList) (b := "2".toList) (c := "3".toList) (d := "4".toList) (by decide) rfl).2.2.2 ?_).mpr
      ⟨.zeroes1, by decide, by decide +kernel⟩⟩
  rintro m hcovers (⟨r, hr, htext⟩ | ⟨l, hl, -⟩)
  · -- the only request under way is about the upper half
    obtain rfl : r = ⟨1, upperHalf⟩ := List.mem_singleton.mp hr
    rw [Cidr.Covers, ← Cidr.network_congr htext] at hcovers
    exact absurd hcovers (by decide)
  · cases hl

end Cheryl.Server.AclFleet
