import Cheryl.Acl.WellFormed

/-!
# Deletion from the radix tree

`delete_spec`: deleting takes one entry from the table, or finds none and changes nothing. Asked
for the empty network while the root has no children, it dereferences the parent of the root.

The second loop of `delete` is an induction on the path of the node it is at: one round takes a
leaf off (`unlinkedTree`), and the invariant may then fail only at the parent.
-/

namespace Cheryl.Acl

open Library

namespace RadixTree

section Delete

variable {t : RadixTree} {A : Layout} {fl : List Nat} {key : BitVec 32} {m : Nat}

/-! ## Descending -/

/-- The first loop of `delete` ends at the node of the network, if there is one. -/
theorem deleteDescend_spec {X : List Bool → Prop} (W : WellFormedBut X t A fl) (hm : m ≤ 32)
    (rounds : Nat) : ∀ {i : Nat}, i ≤ m → m - i < rounds →
      deleteDescend t.store key (netMask 32 m) rounds (probe 32 i) (A ((bits key).take i)) =
        A ((bits key).take m) := by
  induction rounds with
  | zero => intro i hi hr; omega
  | succ rounds ih =>
      intro i hi hr
      cases ha : A ((bits key).take i) with
      | none =>
          have hsplit : (bits key).take m = (bits key).take i ++ ((bits key).take m).drop i := by
            conv_lhs => rw [← List.take_append_drop i ((bits key).take m), List.take_take,
              Nat.min_eq_left hi]
          rw [deleteDescend, hsplit, W.lays.none_append ha]
      | some a =>
          by_cases him : i < m
          · rw [deleteDescend, if_pos ((probe_and_netMask hm).mpr him), turn_eq _ (by omega),
              ← W.lays.down ha, ← take_succ_bits (by omega), probe_shift]
            exact ih (by omega) (by omega)
          · obtain rfl : i = m := by omega
            rw [deleteDescend, if_neg (fun h => him ((probe_and_netMask hm).mp h)), ha]

/-! ## One round of the second loop

The node is a leaf. It leaves the tree and becomes the first node of the free list, with the old list behind
it. Its parent may be left without children and value, which is the one thing a well-formed tree must not
have. -/

/-- The tree after one round of the second loop: the leaf `node` hangs in the free list. -/
def unlinkedTree (t : RadixTree) (parent node : Nat) (b : Bool) : RadixTree :=
  { t with
    store := Function.update (Function.update t.store parent ((t.store parent).setChild b none))
      node { t.store node with right := t.free }
    free := some node }

section Unlink

variable {q : List Bool} {b : Bool} {node parent : Nat}

/-! The store after the round, at the parent, at the node and elsewhere. -/

/-- The parent has lost the link. -/
theorem unlinkedTree_store_parent (hne : parent ≠ node) :
    (unlinkedTree t parent node b).store parent = (t.store parent).setChild b none := by
  simp [unlinkedTree, hne]

theorem unlinkedTree_store_node :
    (unlinkedTree t parent node b).store node = { t.store node with right := t.free } := by
  simp [unlinkedTree]

theorem unlinkedTree_store {x : Nat} (hp : x ≠ parent) (hn : x ≠ node) :
    (unlinkedTree t parent node b).store x = t.store x := by
  simp [unlinkedTree, hp, hn]

theorem parent_ne (L : Lays t.store t.root A) (hparent : A q = some parent)
    (hnode : A (q ++ [b]) = some node) : parent ≠ node := by
  rintro rfl
  have := L.inj hparent hnode
  simp at this

/-- Taking a leaf off the tree keeps the invariant, except that its parent may now be bare. -/
theorem wellFormedBut_unlinkedTree (W : WellFormedBut (· = q ++ [b]) t A fl)
    (hparent : A q = some parent) (hnode : A (q ++ [b]) = some node)
    (hleaf : ∀ b', A (q ++ [b] ++ [b']) = none) :
    WellFormedBut (· = q) (unlinkedTree t parent node b) (Function.update A (q ++ [b]) none)
      (node :: fl) := by
  have hne := parent_ne W.lays hparent hnode
  have hold : ∀ {p x}, Function.update A (q ++ [b]) none p = some x → p ≠ q ++ [b] ∧ A p = some x := by
    intro p x hx
    have hp : p ≠ q ++ [b] := by rintro rfl; simp at hx
    exact ⟨hp, by rwa [Function.update_of_ne hp] at hx⟩
  have hother : ∀ {p x}, p ≠ q ++ [b] → A p = some x → x ≠ node := by
    rintro p x hp hx rfl
    exact hp (W.lays.inj hx hnode)
  have hsame : ∀ a ∈ fl, ((unlinkedTree t parent node b).store a) = t.store a := by
    intro a ha
    have hap : a ≠ parent := by rintro rfl; exact W.apart hparent ha
    have han : a ≠ node := by rintro rfl; exact W.apart hnode ha
    exact unlinkedTree_store hap han
  exact
    { lays := by
        refine W.lays.unlink hparent hnode hleaf ?_ ?_
        · rw [unlinkedTree_store_parent hne]; exact ⟨rfl, rfl, rfl⟩
        · intro p x _ hxp hxn
          rw [unlinkedTree_store hxp hxn]; exact ⟨rfl, rfl, rfl⟩
      depth := fun ha => W.depth (hold ha).2
      used := fun ha => W.used (hold ha).2
      chain := by
        refine ⟨rfl, ?_⟩
        rw [unlinkedTree_store_node]
        exact W.chain.congr fun a ha => by rw [hsame a ha]
      nodup := List.nodup_cons.mpr ⟨W.apart hnode, W.nodup⟩
      apart := by
        intro p a ha hmem
        obtain ⟨hp, ha⟩ := hold ha
        rcases List.mem_cons.mp hmem with rfl | hmem
        · exact hother hp ha rfl
        · exact W.apart ha hmem
      spare := by
        intro a ha
        rcases List.mem_cons.mp ha with rfl | ha
        · exact W.used hnode
        · exact W.spare a ha
      noLeft := by
        intro a ha
        rcases List.mem_cons.mp ha with rfl | ha
        · -- the node was a leaf
          rw [unlinkedTree_store_node, ← Cell.child_false, ← hleaf false, W.lays.down hnode]
          rfl
        · rw [hsame a ha]; exact W.noLeft a ha
      busy := by
        intro p a hpq hp ha hleaf'
        obtain ⟨hpb, ha⟩ := hold ha
        have hap : a ≠ parent := by rintro rfl; exact hpq (W.lays.inj ha hparent)
        rw [unlinkedTree_store hap (hother hpb ha)]
        -- away from `q` the same paths are leaves as before
        refine W.busy hpb hp ha fun b' => ?_
        have := hleaf' b'
        rwa [Function.update_of_ne (by simp [hpq])] at this }

/-- The entry of the node is gone from the table, and no other. -/
theorem contents_unlinkedTree (L : Lays t.store t.root A) (hparent : A q = some parent)
    (hnode : A (q ++ [b]) = some node) :
    contents (unlinkedTree t parent node b) (Function.update A (q ++ [b]) none) =
      Function.update (contents t A) (q ++ [b]) none := by
  funext p
  by_cases hp : p = q ++ [b]
  · simp [contents, hp]
  · rw [Function.update_of_ne hp, contents, contents, Function.update_of_ne hp]
    cases hx : A p with
    | none => rfl
    | some x =>
        have hxn : x ≠ node := by rintro rfl; exact hp (L.inj hx hnode)
        by_cases hxp : x = parent
        · subst hxp
          simp [unlinkedTree_store_parent hxn]
        · simp [unlinkedTree_store hxp hxn]

/-- The source unlinks the node on the side where it hangs. -/
theorem unlink_eq (L : Lays t.store t.root A) (hparent : A q = some parent)
    (hnode : A (q ++ [b]) = some node) :
    (if (t.store parent).right = some node then t.setRight parent none
      else t.setLeft parent none) = t.modify parent fun n => n.setChild b none := by
  have hchild : (t.store parent).child b = some node := by rw [← L.down hparent, hnode]
  cases b with
  | true =>
      have hright : (t.store parent).right = some node := hchild
      rw [if_pos hright]
      rfl
  | false =>
      rw [if_neg]
      · rfl
      · intro hright
        have htrue : A (q ++ [true]) = some node := by rw [L.down hparent]; exact hright
        have := L.inj htrue hnode
        simp at this

end Unlink

/-- A node with a child is seen by the test the loops make. -/
theorem hasChild_iff (n : RadixNode) :
    (n.right ≠ none ∨ n.left ≠ none) ↔ ∃ b, n.child b ≠ none := by
  constructor
  · rintro (h | h)
    · exact ⟨true, h⟩
    · exact ⟨false, h⟩
  · rintro ⟨b, h⟩
    cases b
    · exact .inr h
    · exact .inl h

/-- Adding nothing where there is nothing. -/
private theorem update_none_of_eq_none {V : List Bool → Option String} {q : List Bool}
    (h : V q = none) : Function.update V q none = V := by
  rw [← h, Function.update_eq_self]

/-! ### Pruning upwards

A round frees a leaf and looks at its parent. It goes on with a parent that is left without children and
value, which is a leaf now; at any other parent the tree is well-formed again, and so it is at the root, which
may be bare. On the table only the first round shows, since the nodes freed later had no entry. -/

section Prune

variable {q : List Bool} {b : Bool} {node parent : Nat}

/-- One round of the second loop of `delete`. -/
theorem deletePrune_unlinked (rounds : Nat) (L : Lays t.store t.root A) (hparent : A q = some parent)
    (hnode : A (q ++ [b]) = some node) :
    deletePrune (rounds + 1) t node =
      if ((unlinkedTree t parent node b).store parent).right ≠ none ∨
          ((unlinkedTree t parent node b).store parent).left ≠ none then
        .ok (unlinkedTree t parent node b)
      else if ((unlinkedTree t parent node b).store parent).value ≠ noValue then
        .ok (unlinkedTree t parent node b)
      else if ((unlinkedTree t parent node b).store parent).parent = none then
        .ok (unlinkedTree t parent node b)
      else deletePrune rounds (unlinkedTree t parent node b) parent := by
  have hne := parent_ne L hparent hnode
  have hup : (t.store node).parent = some parent := by rw [L.up hnode, hparent]
  have hset : (((t.modify parent fun n => n.setChild b none).setRight node
      (t.modify parent fun n => n.setChild b none).free)) =
      { unlinkedTree t parent node b with free := t.free } := by
    simp [setRight, modify, unlinkedTree, Function.update_of_ne hne.symm]
  rw [deletePrune, hup]
  simp only [unlink_eq L hparent hnode, hset]
  rfl

/-- Where the loop stops, the tree is well-formed: at a parent that has a child or a value, or is the
root. -/
theorem wellFormed_unlinkedTree (W : WellFormedBut (· = q ++ [b]) t A fl) (hparent : A q = some parent)
    (hnode : A (q ++ [b]) = some node) (hleaf : ∀ b', A (q ++ [b] ++ [b']) = none)
    (hstop : (∃ b', Function.update A (q ++ [b]) none (q ++ [b']) ≠ none) ∨
      ((unlinkedTree t parent node b).store parent).value ≠ noValue ∨ q = []) :
    WellFormed (unlinkedTree t parent node b) (Function.update A (q ++ [b]) none) (node :: fl) := by
  have W' := wellFormedBut_unlinkedTree W hparent hnode hleaf
  have hparent' : Function.update A (q ++ [b]) none q = some parent := by
    rw [Function.update_of_ne (by simp), hparent]
  refine { W' with busy := fun {p a} _ hp ha hbare => ?_ }
  by_cases hpq : p = q
  · subst hpq
    obtain rfl : a = parent := Option.some.inj (ha.symm.trans hparent')
    rcases hstop with ⟨b', hb'⟩ | hvalue | hroot
    · exact absurd (hbare b') hb'
    · exact hvalue
    · exact absurd hroot hp
  · exact W'.busy hpq hp ha hbare

/-- Where it goes on, the parent has no entry, so it can go too. -/
theorem update_contents_unlinkedTree (L : Lays t.store t.root A) (hparent : A q = some parent)
    (hnode : A (q ++ [b]) = some node)
    (hvalue : ((unlinkedTree t parent node b).store parent).value = noValue) :
    Function.update (contents (unlinkedTree t parent node b) (Function.update A (q ++ [b]) none)) q none =
      Function.update (contents t A) (q ++ [b]) none := by
  have hgone : contents (unlinkedTree t parent node b) (Function.update A (q ++ [b]) none) q = none := by
    rw [contents, Function.update_of_ne (by simp), hparent]
    simpa using hvalue
  rw [update_none_of_eq_none hgone, contents_unlinkedTree L hparent hnode]

end Prune

/-- The second loop of `delete` takes the entry of its node from the table, and no other. -/
theorem deletePrune_spec (rounds : Nat) : ∀ {t A fl q b node}, q.length < rounds →
    WellFormedBut (· = q ++ [b]) t A fl → A (q ++ [b]) = some node →
    (∀ b', A (q ++ [b] ++ [b']) = none) →
    ∃ t' A' fl', deletePrune rounds t node = .ok t' ∧ WellFormed t' A' fl' ∧
      contents t' A' = Function.update (contents t A) (q ++ [b]) none ∧
      t'.record = t.record := by
  induction rounds with
  | zero => intro t A fl q b node hq; omega
  | succ rounds ih =>
      intro t A fl q b node hq W hnode hleaf
      obtain ⟨parent, hparent⟩ := W.lays.exists_of_append hnode
      have W' := wellFormedBut_unlinkedTree W hparent hnode hleaf
      have hcont := contents_unlinkedTree W.lays hparent hnode
      have hparent' : Function.update A (q ++ [b]) none q = some parent := by
        rw [Function.update_of_ne (by simp), hparent]
      have hstop := wellFormed_unlinkedTree W hparent hnode hleaf
      rw [deletePrune_unlinked rounds W.lays hparent hnode]
      split
      -- the parent has another child
      · next hchild =>
          obtain ⟨b', hb'⟩ := (hasChild_iff _).mp hchild
          rw [← W'.lays.down hparent'] at hb'
          exact ⟨_, _, _, rfl, hstop (.inl ⟨b', hb'⟩), hcont, rfl⟩
      · next hchild =>
          split
          · next hvalue => exact ⟨_, _, _, rfl, hstop (.inr (.inl hvalue)), hcont, rfl⟩
          · next hvalue =>
              split
              · next htop =>
                  have hroot := (W'.lays.parent_eq_none_iff hparent').mp htop
                  exact ⟨_, _, _, rfl, hstop (.inr (.inr hroot)), hcont, rfl⟩
              -- the parent is a leaf now, and its turn comes next
              · next htop =>
                  have hroot : q ≠ [] := fun h =>
                    htop ((W'.lays.parent_eq_none_iff hparent').mpr h)
                  obtain ⟨q', b', rfl⟩ : ∃ q' b', q = q' ++ [b'] :=
                    ⟨q.dropLast, q.getLast hroot, (List.dropLast_append_getLast hroot).symm⟩
                  have hbare : ∀ c, Function.update A (q' ++ [b'] ++ [b]) none
                      (q' ++ [b'] ++ [c]) = none := by
                    intro c
                    by_contra hc
                    rw [W'.lays.down hparent'] at hc
                    exact hchild ((hasChild_iff _).mpr ⟨c, hc⟩)
                  obtain ⟨t', A', fl', heq, Wt, hc, hrec⟩ :=
                    ih (by simp only [List.length_append, List.length_singleton] at hq; omega)
                      W' hparent' hbare
                  refine ⟨t', A', fl', heq, Wt, ?_, hrec⟩
                  rw [hc, update_contents_unlinkedTree W.lays hparent hnode (not_not.mp hvalue)]

/-! ## `delete` -/

/-- Deleting a network takes its entry from the table, or finds none and changes nothing; at the
root of a tree without links it panics. -/
theorem delete_spec (W : WellFormed t A fl) (key : BitVec 32) (hm : m ≤ 32) :
    ((bits key).take m = [] ∧ (∀ b, A [b] = none) ∧
      t.delete key (netMask 32 m) = .error .nilDereference) ∨
    (contents t A ((bits key).take m) = none ∧ t.delete key (netMask 32 m) = .ok (false, t)) ∨
    (contents t A ((bits key).take m) ≠ none ∧
      ∃ t' A' fl', t.delete key (netMask 32 m) = .ok (true, t') ∧ WellFormed t' A' fl' ∧
        contents t' A' = Function.update (contents t A) ((bits key).take m) none ∧
        t'.record = t.record) := by
  have hdescend : deleteDescend t.store key (netMask 32 m) 33 (probe 32 0) (A ((bits key).take 0)) =
      A ((bits key).take m) := deleteDescend_spec W hm 33 (by omega) (by omega)
  rw [List.take_zero, W.lays.top] at hdescend
  rw [delete, maxIpv4Bit_eq, hdescend]
  cases hnode : A ((bits key).take m) with
  | none => exact .inr (.inl ⟨by simp [contents, hnode], rfl⟩)
  | some node =>
      simp only
      by_cases hchild : (t.store node).right ≠ none ∨ (t.store node).left ≠ none
      -- a node with children stays, and only its value goes
      · rw [if_pos hchild]
        obtain ⟨b, hb⟩ := (hasChild_iff _).mp hchild
        rw [← W.lays.down hnode] at hb
        by_cases hvalue : (t.store node).value = noValue
        · rw [if_neg (by simpa using hvalue)]
          exact .inr (.inl ⟨by simp [contents, hnode, hvalue], rfl⟩)
        · rw [if_pos hvalue]
          refine .inr (.inr ⟨by simp [contents, hnode, hvalue], _, A, fl, rfl,
            W.setValue hnode noValue (.inr (.inr ⟨b, hb⟩)) fun _ _ h => h, ?_, rfl⟩)
          simpa using W.contents_setValue hnode noValue
      · rw [if_neg hchild]
        have hleaf : ∀ b, A ((bits key).take m ++ [b]) = none := by
          intro b
          by_contra hb
          rw [W.lays.down hnode] at hb
          exact hchild ((hasChild_iff _).mpr ⟨b, hb⟩)
        by_cases hroot : (bits key).take m = []
        · -- the root has no parent to unlink it from
          refine .inl ⟨hroot, fun b => by simpa [hroot] using hleaf b, ?_⟩
          have hnext := W.length_lt_next hnode
          obtain ⟨rounds, hrounds⟩ : ∃ r, t.next = r + 1 := ⟨t.next - 1, by omega⟩
          rw [hrounds, deletePrune, (W.lays.parent_eq_none_iff hnode).mpr hroot]
          rfl
        -- a leaf other than the root: the loop takes it off the tree
        · have hvalue := W.busy (fun h => h) hroot hnode hleaf
          have hnext := W.length_lt_next hnode
          obtain ⟨q, b, hq⟩ : ∃ q b, (bits key).take m = q ++ [b] :=
            ⟨_, _, (List.dropLast_append_getLast hroot).symm⟩
          rw [hq] at hnode hleaf hnext ⊢
          obtain ⟨t', A', fl', heq, Wt, hcont, hrec⟩ := deletePrune_spec t.next
            (by simp only [List.length_append, List.length_singleton] at hnext; omega)
            (W.mono fun _ h => h.elim) hnode hleaf
          refine .inr (.inr ⟨by simp [contents, hnode, hvalue], t', A', fl', ?_, Wt, hcont, hrec⟩)
          rw [heq]
          rfl

end Delete

end RadixTree

end Cheryl.Acl
