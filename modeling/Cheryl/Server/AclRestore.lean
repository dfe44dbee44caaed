import Cheryl.Acl.Addresses
import Cheryl.ReverseProxy.Gates
import Cheryl.Server.Fsm

/-!
# The tree that `Restore` builds

Go visits `Record` in an order of its own, and texts of it may name the same network or nested ones.
The tree that comes out denies what the record covers, in every order (`restore_rebuilds`). Only which
of two names of one network `Search` answers with depends on the order: the one added last.
-/

namespace Cheryl.Server

open Library Acl ReverseProxy Utils

/-- A tree for a record of CIDR texts: an address, with a port or without, is denied when the record
covers it, and `Search` then answers with a text of the record that names the longest network covering
the address. -/
structure Rebuilds (record : Finset String) (t : RadixTree) : Prop where
  recorded : t.record = record
  denies : ∀ {address : String} {a b c d : List Char},
    IsQuad ((split address ':').headD "") a b c d → ∃ denied, t.accessControl address = .ok denied ∧
      (denied = true ↔ Covered record (quadAddress a b c d))
  longest : ∀ {ip : String} {a b c d : List Char}, IsQuad ip a b c d →
    Covered record (quadAddress a b c d) → ∃ n : Cidr, t.Search ip = .ok n.text ∧
      n.text ∈ record ∧ n.Covers (quadAddress a b c d) ∧
      ∀ n' : Cidr, n'.text ∈ record → n'.Covers (quadAddress a b c d) → n'.mask ≤ n.mask
  uncovered : ∀ {ip : String} {a b c d : List Char}, IsQuad ip a b c d →
    ¬ Covered record (quadAddress a b c d) → t.Search ip = .ok noValue

section Rebuilds

variable {t t' : RadixTree} {V : List Bool → Option String} {k : BitVec 32}

/-- `AccessControl` of an address is the verdict on the number `Search` reads it as. -/
theorem accessControl_of_inetToi {address : String}
    (h : inetToi ((split address ':').headD "") = .ok (.ok k)) :
    t.accessControl address = t.denies k := by
  rw [RadixTree.accessControl, Search_of_inetToi h]
  rfl

/-- Trees that pass the same verdicts on numbers pass the same verdicts on texts. -/
theorem accessControl_congr (h : ∀ k, t'.denies k = t.denies k) (address : String) :
    t'.accessControl address = t.accessControl address := by
  cases hread : inetToi ((split address ':').headD "") with
  | error fault => simp only [RadixTree.accessControl, RadixTree.Search, hread, Except.map]
  | ok r =>
      cases r with
      | error err =>
          simp only [RadixTree.accessControl, Search_of_error hread]
          exact h 0
      | ok k =>
          rw [accessControl_of_inetToi hread, accessControl_of_inetToi hread]
          exact h k

/-- Where every value stored is a text of the record, stored for the network it names, the longest
match is a text with the longest mask. -/
theorem search_longest (h : Agrees t V)
    (hnames : ∀ p s, V p = some s → ∃ n : Cidr, n.text = s ∧ s ∈ t.record ∧ n.network = p)
    (hcovered : Covered t.record k) : ∃ n : Cidr, t.search k = .ok n.text ∧ n.text ∈ t.record ∧
      n.Covers k ∧ ∀ n' : Cidr, n'.text ∈ t.record → n'.Covers k → n'.mask ≤ n.mask := by
  have hstored : ∀ n' : Cidr, n'.text ∈ t.record → V n'.network ≠ none := fun n' hn' =>
    (h.named n'.network).mpr ⟨n', hn', rfl⟩
  obtain ⟨s, hs⟩ : ∃ s, longestMatch V (bits k) = some s := by
    obtain ⟨n', hn', hcovers⟩ := hcovered
    rw [← Option.isSome_iff_exists, longestMatch_isSome]
    exact ⟨n'.network, hcovers, Option.isSome_iff_ne_none.mpr (hstored n' hn')⟩
  obtain ⟨p, hp, hv, hlast⟩ := longestMatch_eq_some.mp hs
  obtain ⟨n, rfl, hmem, rfl⟩ := hnames p s hv
  refine ⟨n, by rw [h.stores.search, hs]; rfl, hmem, hp, fun n' hn' hcovers => ?_⟩
  -- a text with a longer mask is stored for a longer prefix of the key
  by_contra hlt
  rw [← n.length_network, ← n'.length_network, not_le] at hlt
  exact hstored n' hn' (hlast n'.network hcovers hlt)

/-- Where the record covers nothing, nothing stored is a prefix of the key. -/
theorem search_uncovered (h : Agrees t V) (hnot : ¬ Covered t.record k) :
    t.search k = .ok noValue := by
  have hnone : longestMatch V (bits k) = none := by
    rw [longestMatch_eq_none]
    intro p hp
    by_contra hv
    obtain ⟨n, hn, rfl⟩ := (h.named p).mp hv
    exact hnot ⟨n, hn, hp⟩
  rw [h.stores.search, hnone]
  rfl

/-! ## A tree for a record

What `Rebuilds` says of texts follows from what `Agrees` says of numbers, as `Search` reads a quad as the
number with its octets. The map of values is not unique: two names of one network leave the one that came
last, which is why `longest` says which mask the answer has and not which text it is. -/

/-- A tree that agrees with a map of values, each a text of the record under the network it names, is one
for its record. -/
theorem Rebuilds.of_agrees (h : Agrees t V)
    (hnames : ∀ p s, V p = some s → ∃ n : Cidr, n.text = s ∧ s ∈ t.record ∧ n.network = p) :
    Rebuilds t.record t where
  recorded := rfl
  denies := by
    intro address a b c d Q
    rw [accessControl_of_inetToi Q.inetToi]
    exact h.denies _
  longest := by
    intro ip a b c d Q hcovered
    rw [Search_of_inetToi Q.inetToi]
    exact search_longest h hnames hcovered
  uncovered := by
    intro ip a b c d Q hnot
    rw [Search_of_inetToi Q.inetToi]
    exact search_uncovered h hnot

end Rebuilds

section Restore

variable {s : Snapshot} {o : Orders}

/-! ## `Restore`

The tree is built in the last loop of `Restore`, from the texts of the record alone, so neither the proxies
before it nor the tree the node had come into it. `Restore` does not look at the error of `Add`: a text
that `Add` does not take would be left out without notice. -/

/-- The tree that `Restore` leaves is the one its last loop builds. -/
theorem acl_restore {env : Env} {n n' : Node} {err : Option GoError} {t : RadixTree}
    (ht : RadixTree.new.restore o.record = .ok t) (h : FSM.restore env s o n = (.ok err, n')) :
    n'.acl = t := by
  rw [FSM.restore] at h
  split at h
  · cases h
  · split at h
    · cases h
    · rw [ht] at h
      cases h
      rfl

/-- The last loop of `Restore`, over a record of CIDR texts: it ends, and the tree is one for this
record. -/
theorem exists_rebuilds (hrec : Recorded s.record) (ho : o.Of s) :
    ∃ t V, RadixTree.new.restore o.record = .ok t ∧ Agrees t V ∧ Rebuilds s.record t := by
  have hkeys : ∀ text ∈ o.record, ∃ n : Cidr, n.text = text := fun text htext =>
    hrec text ((ho.mem_record text).mp htext)
  obtain ⟨t, V, heq, h, hunion, hnames⟩ := restore_names o.record agrees_new rfl hkeys
  have hsame : t.record = s.record := by
    rw [hunion]
    ext text
    simp [RadixTree.new, ho.mem_record]
  refine ⟨t, V, heq, h, hsame ▸ Rebuilds.of_agrees h fun p text hv => ?_⟩
  rcases hnames p text hv with hnew | ⟨n, htext, hmem, hnet⟩
  · cases hnew
  · exact ⟨n, htext, by rwa [hsame, ← ho.mem_record], hnet⟩

/-- In whatever order `Restore` visits a record of CIDR texts, the tree it leaves is one for this
record, and passes the same verdicts as in every other order. -/
theorem restore_rebuilds (hrec : Recorded s.record) (ho : o.Of s) :
    ∃ t, RadixTree.new.restore o.record = .ok t ∧ Rebuilds s.record t ∧
      (∀ env n n' err, FSM.restore env s o n = (.ok err, n') → n'.acl = t) ∧
      ∀ o' : Orders, o'.Of s → ∃ t', RadixTree.new.restore o'.record = .ok t' ∧
        Rebuilds s.record t' ∧ ∀ address, t'.accessControl address = t.accessControl address := by
  obtain ⟨t, V, heq, h, hrebuilds⟩ := exists_rebuilds hrec ho
  refine ⟨t, heq, hrebuilds, fun env n n' err => acl_restore heq, fun o' ho' => ?_⟩
  obtain ⟨t', V', heq', h', hrebuilds'⟩ := exists_rebuilds hrec ho'
  refine ⟨t', heq', hrebuilds', accessControl_congr fun k => ?_⟩
  obtain ⟨b, hb, hiff⟩ := h.denies k
  obtain ⟨b', hb', hiff'⟩ := h'.denies k
  rw [hrebuilds.recorded] at hiff
  rw [hrebuilds'.recorded] at hiff'
  -- both verdicts say whether the same record covers the address
  rw [hb, hb', Bool.eq_iff_iff.mpr (hiff'.trans hiff.symm)]

end Restore

/-- A record with two names of one network and a network within it. -/
def overlapping : Snapshot :=
  ⟨∅, ∅, "default", {Cidr.zeroes1.text, Cidr.zeroes2.text, Cidr.one1.text}⟩

/-- It is restored with the nested network between the two names of the outer one. -/
theorem restore_rebuilds_overlapping :
    ∃ t, RadixTree.new.restore [Cidr.one1.text, Cidr.zeroes2.text, Cidr.zeroes1.text] = .ok t ∧
      Rebuilds overlapping.record t := by
  have hrec : Recorded overlapping.record := by
    intro text htext
    simp only [overlapping, Finset.mem_insert, Finset.mem_singleton] at htext
    rcases htext with rfl | rfl | rfl
    · exact ⟨_, rfl⟩
    · exact ⟨_, rfl⟩
    · exact ⟨_, rfl⟩
  have ho : Orders.Of ⟨[], [], [Cidr.one1.text, Cidr.zeroes2.text, Cidr.zeroes1.text]⟩ overlapping :=
    ⟨.of_keys .nil rfl, .of_keys .nil rfl, by decide +kernel, fun text => by
      simp only [overlapping, Finset.mem_insert, Finset.mem_singleton, List.mem_cons,
        List.not_mem_nil, or_false]
      tauto⟩
  obtain ⟨t, heq, hrebuilds, -⟩ := restore_rebuilds hrec ho
  exact ⟨t, heq, hrebuilds⟩

end Cheryl.Server
