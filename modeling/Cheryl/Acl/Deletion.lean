import Cheryl.Acl.Delete
import Cheryl.Acl.Insert
import Cheryl.Acl.Runs
import Cheryl.Acl.Texts

/-!
# What `Delete` does, after any calls

`Add` and `Delete` are called with any texts here, and `Add` with any value. What a tree holds is
read off its links (`RadixTree.valueAt`). As long as values are not empty and `Add` reuses free
nodes cleanly the tree is well formed, and then `Delete` takes the value of a network, or finds
none, in every case but one: it cannot unlink the root (`run_deletesExactly`).
-/

namespace Cheryl.Acl

open Library Utils

variable {t t' : RadixTree} {V : List Bool → Option String} {ipNet value : String} {n : Cidr}

/-! ## The network of a text

`Add` and `Delete` do not read a mask alike. `Delete` turns down what is not between 0 and 32. `Add` takes
any number and subtracts it from 32, so a negative mask is as good as 0, and a number near the bound of an
`int` overflows. -/

/-- The network of a text that is read: the first bits of its address, as many as its mask says. -/
def networkOf (ipNet : String) : List Bool :=
  match inetToi (addressPart ipNet), (maskPart ipNet).map atoi with
  | .ok (.ok ip), some (.ok cidr) => (bits ip).take cidr.toNat
  | _, _ => []

/-- What `Atoi` gives is an `int`. -/
theorem atoi_range {s : String} {k : Int} (h : atoi s = .ok k) : -2 ^ 63 ≤ k ∧ k < 2 ^ 63 := by
  unfold atoi at h
  simp only at h
  generalize (if (atoiSign s.toList).1 = true then _ else _) = m at h
  split at h
  · next hok =>
      cases h
      exact ⟨hok.2.1, hok.2.2⟩
  · cases h

/-- The shift count of `Add` is not negative for the masks up to 32, unless it overflows. -/
theorem wrap64_sub {k : Int} (hlow : -2 ^ 63 ≤ k) (hhigh : k < 2 ^ 63) :
    wrap64 (32 - k) < 0 ∨ (k ≤ 32 ∧ wrap64 (32 - k) = 32 - k) := by
  rw [wrap64, BitVec.toInt_ofInt, Int.bmod]
  omega

/-- Beyond 32 places the shift leaves nothing, and the mask is that of the mask length 0. -/
theorem netMaskOf_eq {k : Int} (hk : k ≤ 32) :
    RadixTree.netMaskOf (32 - k) = netMask 32 k.toNat := by
  rcases le_total 0 k with hpos | hneg
  · rw [RadixTree.netMaskOf, show (32 - k).toNat = 32 - k.toNat by omega]
    rfl
  · have hgone : 1#32 <<< (32 - k).toNat = 0#32 := BitVec.shiftLeft_eq_zero (by omega)
    rw [RadixTree.netMaskOf, hgone, show k.toNat = 0 by omega]
    decide

namespace RadixTree

/-- `Add` inserts at the network of its text. -/
theorem readAdd_network {ip mask : BitVec 32} (h : readAdd ipNet = .ok (.ok (ip, mask))) :
    ∃ m ≤ 32, mask = netMask 32 m ∧ networkOf ipNet = (bits ip).take m := by
  unfold readAdd at h
  unfold networkOf
  split at h
  · cases h
  · cases h
  · next ip' hip =>
      split at h
      · cases h
      · next text htext =>
          split at h
          · cases h
          · next k hk =>
              obtain ⟨hlow, hhigh⟩ := atoi_range hk
              split at h
              · cases h
              · next hshift =>
                  obtain ⟨hle, heq⟩ := (wrap64_sub hlow hhigh).resolve_left hshift
                  cases h
                  refine ⟨k.toNat, by omega, ?_, ?_⟩
                  · rw [heq, netMaskOf_eq hle]
                  · simp only [hip, htext, Option.map_some, hk]

/-- `Delete` deletes at the network of its text. -/
theorem readDelete_network {ip : BitVec 32} {k : Int} (h : readDelete ipNet = .ok (.ok (ip, k))) :
    ∃ m ≤ 32, netMaskOf (32 - k) = netMask 32 m ∧ networkOf ipNet = (bits ip).take m := by
  unfold readDelete at h
  unfold networkOf
  split at h
  · cases h
  · cases h
  · next ip' hip =>
      split at h
      · cases h
      · next text htext =>
          split at h
          · cases h
          · next k' hk =>
              split at h
              · cases h
              · next hrange =>
                  cases h
                  refine ⟨k.toNat, by omega, netMaskOf_eq (by omega), ?_⟩
                  simp only [hip, htext, Option.map_some, hk]

end RadixTree

/-! ## Values

The claim about `Delete` is made without the representation invariant: `valueAt` follows the links of the
tree from its root, as a reader of the store would. -/

namespace RadixTree

/-- The value at the end of a path of links. -/
def valueAt (t : RadixTree) (p : List Bool) : Option String :=
  (follow t.store t.root p).bind fun a =>
    if (t.store a).value = noValue then none else some (t.store a).value

def Alone (t : RadixTree) : Prop := (t.store t.root).right = none ∧ (t.store t.root).left = none

instance (t : RadixTree) : Decidable t.Alone := inferInstanceAs (Decidable (_ ∧ _))

end RadixTree

/-- What the links say is what the tree stores. -/
theorem Stores.valueAt (h : Stores t V) : t.valueAt = V := by
  obtain ⟨A, fl, W, rfl⟩ := h
  funext p
  rw [RadixTree.valueAt, W.lays.follow_eq W.lays.top, List.nil_append]
  rfl

/-- What `Delete` of a CIDR text should be: it takes the value of the network and no other, or finds
none and changes nothing. -/
structure DeletesExactly (t : RadixTree) (n : Cidr) : Prop where
  found : t.valueAt n.network ≠ none → ∃ t', t.Delete n.text = .ok (none, t') ∧
    t'.valueAt n.network = none ∧ ∀ p, p ≠ n.network → t'.valueAt p = t.valueAt p
  missed : t.valueAt n.network = none → ∃ t', t.Delete n.text = .ok (some cantFindIpNet, t') ∧
    t'.valueAt = t.valueAt ∧ t'.record = t.record

theorem take_bits_eq_nil {ip : BitVec 32} {m : Nat} : (bits ip).take m = [] ↔ m = 0 := by
  rw [List.take_eq_nil_iff]
  refine or_iff_left fun hnil => ?_
  have hlen := congrArg List.length hnil
  rw [length_bits] at hlen
  cases hlen

/-- A network is empty if its mask is 0. -/
theorem Cidr.network_eq_nil (n : Cidr) : n.network = [] ↔ n.mask = 0 := take_bits_eq_nil

/-- The root of a tree of one node has no children. -/
theorem alone_of_bare {A : Layout} (L : Lays t.store t.root A) (hbare : ∀ b, A [b] = none) :
    t.Alone := by
  have hchild (b : Bool) : (t.store t.root).child b = none := by
    rw [← L.down L.top b]
    exact hbare b
  exact ⟨hchild true, hchild false⟩

/-- In a well-formed tree it is the root alone that `Delete` cannot take. -/
theorem Stores.deletesExactly_iff (h : Stores t V) (n : Cidr) :
    DeletesExactly t n ↔ ¬ (n.mask = 0 ∧ t.Alone) := by
  have hvalue := h.valueAt
  obtain ⟨A, fl, W, rfl⟩ := h
  constructor
  -- at the root without children the loop dereferences a parent that is not there
  · rintro D ⟨hmask, hright, hleft⟩
    have hpanics : t.Delete n.text = .error .nilDereference := by
      rw [n.Delete_eq, hmask, show netMask 32 0 = 0#32 by decide,
        RadixTree.delete_root (W.used W.lays.top) W.lays.noUp n.address hright hleft]
    by_cases hsome : t.valueAt n.network = none
    · obtain ⟨t', hok, -⟩ := D.missed hsome
      rw [hpanics] at hok
      cases hok
    · obtain ⟨t', hok, -⟩ := D.found hsome
      rw [hpanics] at hok
      cases hok
  · intro hnot
    rcases RadixTree.delete_spec W n.address (show n.mask ≤ 32 from n.mask_le) with
      ⟨hroot, hbare, -⟩ | ⟨hnone, heq⟩ | ⟨hsome, t', A', fl', heq, W', hcont, -⟩
    · exact absurd ⟨n.network_eq_nil.mp hroot, alone_of_bare W.lays hbare⟩ hnot
    · refine ⟨fun hsome => ?_, fun _ => ⟨t, ?_, rfl, rfl⟩⟩
      · rw [hvalue] at hsome
        exact absurd hnone hsome
      · rw [n.Delete_eq, heq]
    · refine ⟨fun _ => ⟨_, by rw [n.Delete_eq, heq], ?_⟩, fun hnone => ?_⟩
      · have hvalue' := (Stores.record ⟨A', fl', W', hcont⟩ (t'.record.erase n.text)).valueAt
        rw [hvalue', hvalue]
        exact ⟨Function.update_self .., fun p hp => Function.update_of_ne hp ..⟩
      · rw [hvalue] at hnone
        exact absurd hnone hsome

/-! ## Runs

The texts of a run may be any, and so may the values. Two things are asked: that no value is the empty one,
which the tree takes for no value at all, and that nodes are reused cleanly. -/

inductive TextOp
  | add (ipNet value : String)
  | delete (ipNet : String)

namespace TextOp

def exec (t : RadixTree) : TextOp → Except Fault (Option GoError × RadixTree)
  | add ipNet value => t.add ipNet value
  | delete ipNet => t.Delete ipNet

/-- What is added is not the empty value, and new nodes come without stale links. -/
def Clean (t : RadixTree) : TextOp → Prop
  | add ipNet value => value ≠ noValue ∧ t.insertsCleanly (networkOf ipNet) = true
  | delete _ => True

end TextOp

/-- The call has returned, with an error or without. -/
def TextCall (t : RadixTree) (op : TextOp) (t' : RadixTree) : Prop := ∃ err, op.exec t = .ok (err, t')

theorem Stores.add_text {err : Option GoError} (h : Stores t V) (hvalue : value ≠ noValue)
    (hclean : t.insertsCleanly (networkOf ipNet)) (hok : t.add ipNet value = .ok (err, t')) :
    ∃ V', Stores t' V' ∧ (err = none → V' = Function.update V (networkOf ipNet) (some value)) := by
  rw [RadixTree.add_eq_readAdd] at hok
  rcases hread : RadixTree.readAdd ipNet with fault | err' | ⟨ip, mask⟩ <;> rw [hread] at hok <;>
    cases hok
  · exact ⟨V, h, fun hnone => (by cases hnone)⟩
  · obtain ⟨m, hm, rfl, hnetwork⟩ := RadixTree.readAdd_network hread
    obtain ⟨A, fl, W, rfl⟩ := h
    rw [hnetwork] at hclean ⊢
    obtain ⟨A', fl', W', hcont, -⟩ := RadixTree.insert_spec W hm hvalue hclean
    exact ⟨_, Stores.record ⟨A', fl', W', hcont⟩ _, fun _ => rfl⟩

theorem Stores.Delete_text {err : Option GoError} (h : Stores t V)
    (hok : t.Delete ipNet = .ok (err, t')) : ∃ V', Stores t' V' := by
  rw [RadixTree.Delete_eq_readDelete] at hok
  rcases hread : RadixTree.readDelete ipNet with fault | err' | ⟨ip, k⟩
  · rw [hread] at hok
    cases hok
  · rw [hread] at hok
    cases hok
    exact ⟨V, h⟩
  · obtain ⟨m, hm, hmask, -⟩ := RadixTree.readDelete_network hread
    obtain ⟨A, fl, W, rfl⟩ := h
    simp only [hread, RadixTree.deleted, hmask] at hok
    rcases RadixTree.delete_spec W ip hm with
      ⟨-, -, heq⟩ | ⟨-, heq⟩ | ⟨-, t₁, A', fl', heq, W', hcont, -⟩ <;> rw [heq] at hok <;> cases hok
    · exact ⟨_, A, fl, W, rfl⟩
    · exact ⟨_, Stores.record ⟨A', fl', W', hcont⟩ _⟩

/-- After clean calls the tree is well formed. -/
theorem run_stores_texts {ops : List TextOp}
    (hrun : Trace (fun t op t' => TextCall t op t' ∧ op.Clean t) RadixTree.new ops t) :
    ∃ V, Stores t V := by
  refine hrun.history (I := fun _ t => ∃ V, Stores t V) ⟨_, stores_new⟩ ?_
  rintro ops t op t' ⟨V, h⟩ ⟨⟨err, hexec⟩, hclean⟩
  cases op with
  | add ipNet value =>
      obtain ⟨V', h', -⟩ := h.add_text hclean.1 hclean.2 hexec
      exact ⟨V', h'⟩
  | delete ipNet => exact h.Delete_text hexec

/-- In every state that clean calls lead to, `Delete` does what it should, unless it is asked for the
mask 0 while the root has no children. -/
theorem run_deletesExactly {ops : List TextOp}
    (hrun : Trace (fun t op t' => TextCall t op t' ∧ op.Clean t) RadixTree.new ops t) (n : Cidr) :
    DeletesExactly t n ↔ ¬ (n.mask = 0 ∧ t.Alone) := by
  obtain ⟨V, h⟩ := run_stores_texts hrun
  exact h.deletesExactly_iff n

/-- A network that is added, deleted and added again can be deleted. -/
theorem run_deletesExactly_again : ∃ ops t,
    Trace (fun t op t' => TextCall t op t' ∧ op.Clean t) RadixTree.new ops t ∧ ops.length = 3 ∧
      DeletesExactly t .zeroes1 := by
  have hrun : Trace (fun t op t' => TextCall t op t' ∧ op.Clean t) RadixTree.new
      ([] ++ [.add "0.0.0.0/1" "0.0.0.0/1"] ++ [.delete "0.0.0.0/1"] ++ [.add "0.0.0.0/1" "a"]) _ :=
    .snoc (.snoc (.snoc .nil ⟨⟨none, rfl⟩, by decide, by decide +kernel⟩) ⟨⟨none, rfl⟩, trivial⟩)
      ⟨⟨none, rfl⟩, by decide, by decide +kernel⟩
  exact ⟨_, _, hrun, rfl, (run_deletesExactly hrun .zeroes1).mpr fun h => absurd h.1 (by decide)⟩

def Cidr.zeroes0 : Cidr := .ofParts "0" "0" "0" "0" "0" (by decide)

/-- The new tree has no value for the empty network, and looks for the parent of its root. -/
theorem not_run_deletesExactly : ¬ ∀ (ops : List TextOp) (t : RadixTree) (n : Cidr),
    Trace TextCall RadixTree.new ops t → DeletesExactly t n := by
  intro h
  obtain ⟨t, hok, -⟩ := (h [] RadixTree.new .zeroes0 .nil).missed rfl
  have hpanics : RadixTree.new.Delete Cidr.zeroes0.text = .error .nilDereference := rfl
  rw [hpanics] at hok
  cases hok

end Cheryl.Acl
