import Mathlib.Data.Finset.Card
import Cheryl.Acl.RadixTree

/-!
# What holds of the tree in every state

Stale links can make the structure behind a `RadixTree` anything but a tree. Still some things
hold after all calls, with any arguments: `Intact`. Pointers stay among the allocated nodes and
never lead to the root, every other node has a parent, and none is without child and value. This
is enough for `delete` to return: a node that its second loop has visited keeps a value or a
`right` link, so the loop stops when it comes there again (`deletePrune_intact`).
-/

namespace Cheryl.Acl

open Library

namespace RadixTree

/-! ## The invariant

It looks at all allocated nodes, also at those that the tree has lost, since a stale link may lead to any of
them. What it says of a node is local: where its links lead, and that it is of some use. -/

/-- Intact, with the nodes in `X` allowed to have neither child nor value. -/
structure IntactBut (X : Nat → Prop) (t : RadixTree) : Prop where
  root_lt : t.root < t.next
  top : (t.store t.root).parent = none
  child : ∀ {a b c}, a < t.next → (t.store a).child b = some c → c < t.next ∧ c ≠ t.root
  parent : ∀ {a}, a < t.next → a ≠ t.root → ∃ p, (t.store a).parent = some p ∧ p < t.next
  spare : ∀ {a}, t.free = some a → a < t.next ∧ a ≠ t.root
  busy : ∀ {a}, a < t.next → a ≠ t.root → ¬ X a →
    (t.store a).value ≠ noValue ∨ ∃ b, (t.store a).child b ≠ none

abbrev Intact := IntactBut fun _ => False

theorem intact_new : Intact new where
  root_lt := by decide
  top := rfl
  child := by
    intro a b c _ h
    cases b <;> cases h
  parent := by
    intro a ha hroot
    exact absurd (Nat.lt_one_iff.mp ha) hroot
  spare := by
    intro a h
    cases h
  busy := by
    intro a ha hroot
    exact absurd (Nat.lt_one_iff.mp ha) hroot

/-! ## Assignments

Every operation is a row of assignments to single nodes, and `IntactBut.modify` is the one lemma about
these. -/

@[simp] theorem store_modify_self (t : RadixTree) (a : Nat) (f : RadixNode → RadixNode) :
    (t.modify a f).store a = f (t.store a) := by
  simp [modify]

theorem store_modify_of_ne (t : RadixTree) {a x : Nat} (h : x ≠ a) (f : RadixNode → RadixNode) :
    (t.modify a f).store x = t.store x := by
  simp [modify, h]

section Assign

variable {X Y : Nat → Prop} {t : RadixTree} {a : Nat} {f : RadixNode → RadixNode}

theorem IntactBut.mono (I : IntactBut X t) (sub : ∀ x, X x → Y x) : IntactBut Y t :=
  { I with busy := fun ha hroot hY => I.busy ha hroot fun hX => hY (sub _ hX) }

/-- An assignment to one node. -/
theorem IntactBut.modify (I : IntactBut X t)
    (hchild : ∀ b c, (f (t.store a)).child b = some c → c < t.next ∧ c ≠ t.root)
    (hparent : if a = t.root then (f (t.store a)).parent = none
      else ∃ p, (f (t.store a)).parent = some p ∧ p < t.next)
    (hbusy : Y a ∨ a = t.root ∨ (f (t.store a)).value ≠ noValue ∨ ∃ b, (f (t.store a)).child b ≠ none)
    (sub : ∀ x, x ≠ a → X x → Y x) : IntactBut Y (t.modify a f) where
  root_lt := I.root_lt
  top := by
    show ((t.modify a f).store t.root).parent = none
    by_cases h : t.root = a
    · subst h
      simpa using hparent
    · rw [store_modify_of_ne _ h, I.top]
  child := by
    intro x b c hx hc
    by_cases h : x = a
    · subst h
      rw [store_modify_self] at hc
      exact hchild b c hc
    · rw [store_modify_of_ne _ h] at hc
      exact I.child hx hc
  parent := by
    intro x hx hroot
    by_cases h : x = a
    · subst h
      have hroot' : ¬ x = t.root := hroot
      rw [if_neg hroot'] at hparent
      rw [store_modify_self]
      exact hparent
    · rw [store_modify_of_ne _ h]
      exact I.parent hx hroot
  spare := I.spare
  -- the node assigned to is busy by hypothesis, or excepted
  busy := by
    intro x hx hroot hY
    by_cases h : x = a
    · subst h
      rw [store_modify_self]
      exact hbusy.resolve_left hY |>.resolve_left hroot
    · rw [store_modify_of_ne _ h]
      exact I.busy hx hroot fun hX => hY (sub x h hX)

theorem IntactBut.setValue (I : IntactBut X t) (ha : a < t.next) {v : String}
    (hv : Y a ∨ v ≠ noValue ∨ ∃ b, (t.store a).child b ≠ none) (sub : ∀ x, x ≠ a → X x → Y x) :
    IntactBut Y (t.setValue a v) := by
  refine I.modify (fun b c hc => I.child ha hc) ?_ ?_ sub
  · split
    · next h => subst h; exact I.top
    · next h => exact I.parent ha h
  · rcases hv with h | h
    · exact .inl h
    · exact .inr (.inr h)

end Assign

/-! ## Insertion

Both loops stay among the allocated nodes. The second one hangs a node that has neither child nor value yet,
so that node is the exception until the next round, or the value, comes. -/

section Insert

variable {t : RadixTree} {key mask : BitVec 32}

/-- The descent stays among the allocated nodes. -/
theorem IntactBut.insertDescend {X : Nat → Prop} (I : IntactBut X t) (rounds : Nat) :
    ∀ {bit : BitVec 32} {node : Nat} {next : Option Nat}, node < t.next →
      (insertDescend t.store key mask rounds bit node next).2.1 < t.next := by
  induction rounds with
  | zero => intro bit node next h; exact h
  | succ rounds ih =>
      intro bit node next h
      unfold RadixTree.insertDescend
      split
      · split
        · exact h
        · next c hc =>
            refine ih ?_
            split at hc
            · exact (I.child (b := true) h hc).1
            · exact (I.child (b := false) h hc).1
      · exact h

/-- `newNode`, with the parent and the value that `insert` gives the node first. -/
theorem IntactBut.newNode {node next : Nat} {t₀ : RadixTree} (I : IntactBut (· = node) t)
    (hnode : node < t.next) (hnew : t.newNode = (next, t₀)) :
    IntactBut (fun x => x = node ∨ x = next)
        ((t₀.setParent next (some node)).setValue next noValue) ∧
      next < t₀.next ∧ next ≠ t₀.root ∧ node < t₀.next ∧ t₀.record = t.record := by
  unfold RadixTree.newNode at hnew
  split at hnew
  · next a hfree =>
      cases hnew
      obtain ⟨ha, hroot⟩ := I.spare hfree
      -- from the free list, links and all
      have I₁ : IntactBut (fun x => x = node ∨ x = next) { t with free := (t.store next).right } :=
        { I.mono (Y := fun x => x = node ∨ x = next) fun _ h => .inl h with
          spare := fun hright => I.child (b := true) ha hright }
      refine ⟨IntactBut.setValue (I₁.modify (fun b c hc => I.child ha hc) ?_ (.inl (.inr rfl))
        fun _ _ h => h) ha (.inl (.inr rfl)) fun _ _ h => h, ha, hroot, hnode, rfl⟩
      have hroot' : ¬ next = t.root := hroot
      rw [if_neg hroot']
      exact ⟨node, rfl, hnode⟩
  -- fresh
  · next hfree =>
      cases hnew
      have hroot := I.root_lt
      have hne : t.next ≠ t.root := by omega
      refine ⟨?_, Nat.lt_succ_self _, hne, Nat.lt_succ_of_lt hnode, rfl⟩
      generalize ht' : (RadixTree.setParent { t with
        store := Function.update t.store t.next blank, next := t.next + 1 } t.next
          (some node)).setValue t.next noValue = t'
      -- the new node is blank but for its parent, the others are as before
      have hhere : t'.store t.next = { blank with parent := some node } := by
        simp [← ht', setParent, RadixTree.setValue, RadixTree.modify, blank]
      have helse : ∀ x, x ≠ t.next → t'.store x = t.store x := by
        intro x hx
        simp [← ht', setParent, RadixTree.setValue, RadixTree.modify, hx]
      have hnext : t'.next = t.next + 1 := by rw [← ht']; rfl
      have hr : t'.root = t.root := by rw [← ht']; rfl
      have hfree' : t'.free = none := by rw [← ht']; exact hfree
      exact
        { root_lt := by omega
          top := by rw [hr, helse _ hne.symm, I.top]
          child := by
            intro a b c ha hc
            by_cases hx : a = t.next
            · subst hx
              rw [hhere] at hc
              cases b <;> cases hc
            · rw [helse _ hx] at hc
              obtain ⟨hlt, hne⟩ := I.child (by omega) hc
              exact ⟨by omega, by rwa [hr]⟩
          parent := by
            intro a ha hne
            by_cases hx : a = t.next
            · subst hx
              rw [hhere]
              exact ⟨node, rfl, by omega⟩
            · rw [helse _ hx]
              obtain ⟨p, hp, hlt⟩ := I.parent (show a < t.next by omega) (by rwa [← hr])
              exact ⟨p, hp, by omega⟩
          spare := by
            intro a ha
            rw [hfree'] at ha
            cases ha
          busy := by
            intro a ha hne hX
            have hx : a ≠ t.next := fun h => hX (.inr h)
            rw [helse _ hx]
            exact I.busy (by omega) (by rwa [← hr]) fun h => hX (.inl h) }

/-- The second loop of `insert` leaves at most its last node without a value. -/
theorem IntactBut.insertExtend (rounds : Nat) : ∀ {t t' : RadixTree} {bit : BitVec 32}
    {node node' : Nat}, IntactBut (· = node) t → node < t.next →
    insertExtend key mask rounds bit node t = (node', t') →
    IntactBut (· = node') t' ∧ node' < t'.next ∧ t'.record = t.record := by
  induction rounds with
  | zero =>
      intro t t' bit node node' I hnode h
      cases h
      exact ⟨I, hnode, rfl⟩
  | succ rounds ih =>
      intro t t' bit node node' I hnode h
      unfold RadixTree.insertExtend at h
      split at h
      · rcases hnew : t.newNode with ⟨next, t₀⟩
        rw [hnew] at h
        obtain ⟨I₁, hnext, hroot, hnode₁, hrec⟩ := I.newNode hnode hnew
        generalize hS : (t₀.setParent next (some node)).setValue next noValue = S at I₁ h
        have hSnext : S.next = t₀.next := by rw [← hS]; rfl
        have hSroot : S.root = t₀.root := by rw [← hS]; rfl
        have hSrec : S.record = t.record := by rw [← hS]; exact hrec
        -- the link from `node` to the new node
        have hlink : ∀ b, IntactBut (· = next) (S.modify node fun n => n.setChild b (some next)) := by
          intro b
          refine I₁.modify ?_ ?_ (.inr (.inr (.inr ⟨b, by simp⟩))) fun x hx h => h.resolve_left hx
          · intro b' c hc
            by_cases hbb : b' = b
            · subst hbb
              rw [Cell.child_setChild] at hc
              cases hc
              exact ⟨by omega, by rwa [hSroot]⟩
            · rw [Cell.child_setChild_of_ne _ hbb] at hc
              exact I₁.child (by omega) hc
          · rw [Cell.parent_setChild]
            split
            · next heq => rw [heq]; exact I₁.top
            · next hne => exact I₁.parent (by omega) hne
        simp only [hS] at h
        have hlt : next < S.next := by omega
        split at h
        · obtain ⟨I', hnode', hrec'⟩ := ih (hlink true) hlt h
          exact ⟨I', hnode', hrec'.trans hSrec⟩
        · obtain ⟨I', hnode', hrec'⟩ := ih (hlink false) hlt h
          exact ⟨I', hnode', hrec'.trans hSrec⟩
      · cases h
        exact ⟨I, hnode, rfl⟩

/-- `insert` keeps the tree intact, whatever the key, the mask and the state of the links. -/
theorem IntactBut.insert (I : Intact t) (key mask : BitVec 32) {v : String} (hv : v ≠ noValue) :
    Intact (t.insert key mask v) ∧ (t.insert key mask v).record = t.record := by
  have hdescend : (RadixTree.insertDescend t.store key mask 33 maxIpv4Bit t.root (some t.root)).2.1 < t.next :=
    I.insertDescend 33 I.root_lt
  unfold RadixTree.insert
  split
  · next bit node c heq =>
      rw [heq] at hdescend
      exact ⟨I.setValue hdescend (.inr (.inl hv)) fun _ _ h => h, rfl⟩
  · next bit node heq =>
      rw [heq] at hdescend
      rcases hext : RadixTree.insertExtend key mask 33 bit node t with ⟨node', t'⟩
      obtain ⟨I', hnode', hrec⟩ := IntactBut.insertExtend 33 (I.mono fun _ h => h.elim) hdescend hext
      exact ⟨I'.setValue hnode' (.inr (.inl hv)) fun x hx h => hx h, hrec⟩

end Insert

/-! ## Deletion

The first loop may run into free nodes through stale links, so nothing can be said of the node it ends at
but that it is allocated, and not the root unless there are no steps. The second loop climbs from there. On
a tree that would end by itself; here one has to show that it does not climb for ever. -/

section Delete

variable {t : RadixTree} {key mask : BitVec 32}

/-- The descent stays among the allocated nodes, and leaves the root with its first step. -/
theorem IntactBut.deleteDescend {X : Nat → Prop} (I : IntactBut X t) (rounds : Nat) :
    ∀ {bit : BitVec 32} {start : Option Nat} {node : Nat}, (∀ a, start = some a → a < t.next) →
      deleteDescend t.store key mask rounds bit start = some node →
      node < t.next ∧ (start = some node ∨ node ≠ t.root) := by
  induction rounds with
  | zero =>
      intro bit start node hstart h
      unfold RadixTree.deleteDescend at h
      exact ⟨hstart node h, .inl h⟩
  | succ rounds ih =>
      intro bit start node hstart h
      cases start with
      | none => cases h
      | some a =>
          -- a step goes to a child, and no child is the root
          unfold RadixTree.deleteDescend at h
          have ha := hstart a rfl
          split at h
          · have hchild : ∀ c, (if key &&& bit ≠ 0#32 then (t.store a).right
                else (t.store a).left) = some c → c < t.next ∧ c ≠ t.root := by
              intro c hc
              split at hc
              · exact I.child (b := true) ha hc
              · exact I.child (b := false) ha hc
            obtain ⟨hlt, hor⟩ := ih (fun c hc => (hchild c hc).1) h
            refine ⟨hlt, .inr ?_⟩
            rcases hor with hor | hor
            · exact (hchild node hor).2
            · exact hor
          · cases h
            exact ⟨ha, .inl rfl⟩

/-- The nodes the second loop has put on the free list keep a value, or a `right` link to one
another. -/
def Visited (t : RadixTree) (S : Finset Nat) : Prop :=
  ∀ s ∈ S, (s < t.next ∧ s ≠ t.root) ∧
    ((t.store s).value ≠ noValue ∨ ∃ c ∈ S, (t.store s).right = some c)

/-- The tree after one round of the second loop. -/
def released (t : RadixTree) (parent node : Nat) : RadixTree :=
  { (if (t.store parent).right = some node then t.setRight parent none
      else t.setLeft parent none).modify node fun n => { n with right := t.free } with
    free := some node }

/-- A link of the parent has been cut, on one side or the other. -/
theorem released_eq (t : RadixTree) (parent node : Nat) : ∃ b : Bool,
    released t parent node = { (t.modify parent fun n => n.setChild b none).modify node
      (fun n => { n with right := t.free }) with free := some node } ∧
    ((t.store parent).right ≠ some node → b = false) := by
  by_cases h : (t.store parent).right = some node
  · exact ⟨true, by rw [released, if_pos h]; rfl, fun hne => absurd h hne⟩
  · exact ⟨false, by rw [released, if_neg h]; rfl, fun _ => rfl⟩

/-! ### One round of the second loop

A round cuts the link from the parent to the node and puts the node at the head of the free list, by way of
its `right` link. Nothing else changes: root, record and the number of nodes stay, no value is touched, and
every node but these two is as it was. The cells are reused only by `newNode`, in a later call. -/

@[simp] theorem record_released (t : RadixTree) (parent node : Nat) :
    (released t parent node).record = t.record := by
  obtain ⟨b, heq, -⟩ := released_eq t parent node
  rw [heq]
  rfl

@[simp] theorem next_released (t : RadixTree) (parent node : Nat) :
    (released t parent node).next = t.next := by
  obtain ⟨b, heq, -⟩ := released_eq t parent node
  rw [heq]
  rfl

@[simp] theorem root_released (t : RadixTree) (parent node : Nat) :
    (released t parent node).root = t.root := by
  obtain ⟨b, heq, -⟩ := released_eq t parent node
  rw [heq]
  rfl

@[simp] theorem right_released (t : RadixTree) (parent node : Nat) :
    ((released t parent node).store node).right = t.free := by
  obtain ⟨b, heq, -⟩ := released_eq t parent node
  rw [heq]
  simp

theorem store_released {parent node x : Nat} (hx : x ≠ parent) (hx' : x ≠ node) :
    (released t parent node).store x = t.store x := by
  obtain ⟨b, heq, -⟩ := released_eq t parent node
  rw [heq]
  simp only [store_modify_of_ne _ hx', store_modify_of_ne _ hx]

theorem value_modify_setChild (t : RadixTree) (a : Nat) (b : Bool) (o : Option Nat) (x : Nat) :
    ((t.modify a fun n => n.setChild b o).store x).value = (t.store x).value := by
  by_cases h : x = a
  · subst h
    rw [store_modify_self, Cell.value_setChild]
  · rw [store_modify_of_ne _ h]

/-- No value is touched. -/
theorem value_released (t : RadixTree) (parent node x : Nat) :
    ((released t parent node).store x).value = (t.store x).value := by
  obtain ⟨b, heq, -⟩ := released_eq t parent node
  rw [heq, ← value_modify_setChild t parent b none x]
  by_cases h : x = node
  · subst h
    simp only [store_modify_self]
  · simp only [store_modify_of_ne _ h]

theorem right_released_of_ne {parent node : Nat} (hpn : parent ≠ node)
    (h : (t.store parent).right ≠ some node) :
    ((released t parent node).store parent).right = (t.store parent).right := by
  obtain ⟨b, heq, hb⟩ := released_eq t parent node
  obtain rfl : b = false := hb h
  rw [heq]
  simp only [store_modify_of_ne _ hpn, store_modify_self]
  rfl

theorem deletePrune_succ (rounds : Nat) {node parent : Nat}
    (hparent : (t.store node).parent = some parent) :
    deletePrune (rounds + 1) t node =
      if ((released t parent node).store parent).right ≠ none ∨
          ((released t parent node).store parent).left ≠ none then .ok (released t parent node)
      else if ((released t parent node).store parent).value ≠ noValue then
        .ok (released t parent node)
      else if ((released t parent node).store parent).parent = none then
        .ok (released t parent node)
      else deletePrune rounds (released t parent node) parent := by
  rw [deletePrune, hparent]
  by_cases h : (t.store parent).right = some node
  · simp only [released, if_pos h]
    rfl
  · simp only [released, if_neg h]
    rfl

/-- One round: the node is free and only its parent may now be bare. -/
theorem IntactBut.released {node parent : Nat} (I : IntactBut (· = node) t) (hnode : node < t.next)
    (hroot : node ≠ t.root) (hlt : parent < t.next)
    (hkeeps : (t.store node).value ≠ noValue ∨ t.free ≠ none) :
    IntactBut (· = parent) (released t parent node) := by
  obtain ⟨b, heq, -⟩ := released_eq t parent node
  have I₁ : IntactBut (fun x => x = node ∨ x = parent) (t.modify parent fun n => n.setChild b none) := by
    refine I.modify ?_ ?_ (.inl (.inr rfl)) fun x _ h => .inl h
    · intro b' c hc
      by_cases hbb : b' = b
      · subst hbb
        rw [Cell.child_setChild] at hc
        cases hc
      · rw [Cell.child_setChild_of_ne _ hbb] at hc
        exact I.child hlt hc
    · rw [Cell.parent_setChild]
      split
      · next h => rw [h]; exact I.top
      · next h => exact I.parent hlt h
  -- the node has what it keeps, or the rest of the free list at its right
  have I₂ : IntactBut (· = parent) ((t.modify parent fun n => n.setChild b none).modify node
      fun n => { n with right := t.free }) := by
    refine I₁.modify ?_ ?_ ?_ fun x hx h => h.resolve_left hx
    · intro b' c hc
      cases b' with
      | true => exact I.spare hc
      | false => exact I₁.child (b := false) hnode hc
    · rw [if_neg (show ¬ node = (t.modify parent _).root from hroot)]
      exact I₁.parent hnode hroot
    · refine .inr (.inr ?_)
      rcases hkeeps with hvalue | hfree
      · exact .inl (by rwa [value_modify_setChild])
      · exact .inr ⟨true, hfree⟩
  rw [heq]
  exact
    { I₂ with
      spare := fun ha => by
        cases ha
        exact ⟨hnode, hroot⟩ }

/-! ### The second loop ends

A stale link can lead the loop back to a node that it has freed. Then that node has a value, or its `right`
link goes to the node freed before it, so the loop finds it in use and stops. Hence every round frees a node
that was not free yet, and the number of nodes bounds the number of rounds. -/

/-- A node that is left without value and `right` link has not been visited. -/
theorem Visited.notMem {node parent : Nat} {S : Finset Nat} (V : Visited t S) (hS : node ∉ S)
    (hpn : parent ≠ node) (hvalue : ((released t parent node).store parent).value = noValue)
    (hright : ((released t parent node).store parent).right = none) : parent ∉ S := by
  intro hmem
  rcases (V parent hmem).2 with h | ⟨c, hc, h⟩
  · rw [value_released] at hvalue
    exact h hvalue
  · have hcn : c ≠ node := by
      rintro rfl
      exact hS hc
    have hne : (t.store parent).right ≠ some node := by
      rw [h]
      exact fun heq => hcn (Option.some.inj heq)
    rw [right_released_of_ne hpn hne, h] at hright
    cases hright

/-- One round: the node has been visited now. -/
theorem Visited.released {node parent : Nat} {S : Finset Nat} (V : Visited t S) (hnode : node < t.next)
    (hroot : node ≠ t.root) (hS : node ∉ S) (hpS : parent ∉ S)
    (hkeeps : (t.store node).value ≠ noValue ∨ ∃ c ∈ S, t.free = some c) :
    Visited (released t parent node) (Insert.insert node S) := by
  intro s hmem
  rw [next_released, root_released, value_released]
  rcases Finset.mem_insert.mp hmem with rfl | hs
  · refine ⟨⟨hnode, hroot⟩, ?_⟩
    rw [right_released]
    exact hkeeps.imp_right fun ⟨c, hc, h⟩ => ⟨c, Finset.mem_insert_of_mem hc, h⟩
  · have hsp : s ≠ parent := fun h => hpS (h ▸ hs)
    have hsn : s ≠ node := fun h => hS (h ▸ hs)
    rw [store_released hsp hsn]
    exact ⟨(V s hs).1, (V s hs).2.imp_right fun ⟨c, hc, h⟩ => ⟨c, Finset.mem_insert_of_mem hc, h⟩⟩

/-- A parent with a child or a value is where the loop stops, and so is the root. -/
theorem intact_released {node parent : Nat} (I : IntactBut (· = parent) (released t parent node))
    (h : ((released t parent node).store parent).value ≠ noValue ∨
      (∃ b, ((released t parent node).store parent).child b ≠ none) ∨ parent = t.root) :
    Intact (released t parent node) := by
  refine { I with busy := fun {a} ha hne _ => ?_ }
  by_cases hap : a = parent
  · subst hap
    rcases h with h | h | h
    · exact .inl h
    · exact .inr h
    · exact absurd h (by rwa [root_released] at hne)
  · exact I.busy ha hne hap

/-- A node that is its own parent still has what it keeps, so the loop does not go on with it. -/
theorem released_parent_ne {node parent : Nat} (hkeeps : (t.store node).value ≠ noValue ∨ t.free ≠ none)
    (hvalue : ((released t parent node).store parent).value = noValue)
    (hright : ((released t parent node).store parent).right = none) : parent ≠ node := by
  rintro rfl
  rw [value_released] at hvalue
  rw [right_released] at hright
  rcases hkeeps with h | h
  · exact h hvalue
  · exact h hright

/-- The loop does not visit more nodes than there are. -/
theorem Visited.card_lt {node : Nat} {S : Finset Nat} (V : Visited t S) (hnode : node < t.next)
    (hS : node ∉ S) : S.card < t.next := by
  have hsub : Insert.insert node S ⊆ Finset.range t.next := by
    intro x hx
    rcases Finset.mem_insert.mp hx with rfl | hx
    · exact Finset.mem_range.mpr hnode
    · exact Finset.mem_range.mpr (V x hx).1.1
  calc S.card < (Insert.insert node S).card := by
        rw [Finset.card_insert_of_notMem hS]
        exact Nat.lt_succ_self _
    _ ≤ (Finset.range t.next).card := Finset.card_le_card hsub
    _ = t.next := Finset.card_range _

/-- The second loop of `delete` ends. In the rounds `S` it has freed the nodes in `S`; when it
comes to one of them again it stops there. -/
theorem deletePrune_intact (rounds : Nat) : ∀ {t : RadixTree} {node : Nat} {S : Finset Nat},
    IntactBut (· = node) t → node < t.next → node ≠ t.root → node ∉ S → Visited t S →
    ((t.store node).value ≠ noValue ∨ ∃ c ∈ S, t.free = some c) → t.next ≤ rounds + S.card →
    ∃ t', deletePrune rounds t node = .ok t' ∧ Intact t' ∧ t'.record = t.record := by
  induction rounds with
  | zero =>
      intro t node S I hnode _ hS hvisited _ hcard
      have := hvisited.card_lt hnode hS
      omega
  | succ rounds ih =>
      intro t node S I hnode hroot hS hvisited hkeeps hcard
      obtain ⟨parent, hparent, hlt⟩ := I.parent hnode hroot
      have hkeeps' : (t.store node).value ≠ noValue ∨ t.free ≠ none := by
        rcases hkeeps with h | ⟨c, -, h⟩
        · exact .inl h
        · exact .inr (by simp [h])
      have I' := I.released hnode hroot hlt hkeeps'
      have hrec := record_released t parent node
      have hlt' : parent < (released t parent node).next := by rwa [next_released]
      rw [deletePrune_succ rounds hparent]
      split
      · next hchild =>
          refine ⟨_, rfl, intact_released I' (.inr (.inl ?_)), hrec⟩
          rcases hchild with h | h
          · exact ⟨true, h⟩
          · exact ⟨false, h⟩
      · next hchild =>
          split
          · next hvalue => exact ⟨_, rfl, intact_released I' (.inl hvalue), hrec⟩
          · next hvalue =>
              simp only [ne_eq, not_or, not_not] at hchild hvalue
              split
              · next htop =>
                  -- a node without parent is the root
                  refine ⟨_, rfl, intact_released I' (.inr (.inr ?_)), hrec⟩
                  by_contra hne
                  obtain ⟨p, hp, -⟩ := I'.parent hlt' (by rwa [root_released])
                  rw [htop] at hp
                  cases hp
              · next htop =>
                  -- the parent has not been visited, and is the next one
                  have hproot : parent ≠ t.root := by
                    intro h
                    have htop' := I'.top
                    rw [root_released, ← h] at htop'
                    exact htop htop'
                  have hpn := released_parent_ne hkeeps' hvalue hchild.1
                  have hpS := hvisited.notMem hS hpn hvalue hchild.1
                  have hcard' : (Insert.insert node S).card = S.card + 1 := Finset.card_insert_of_notMem hS
                  obtain ⟨t', heq', I'', hrec'⟩ := ih I' hlt' (by rwa [root_released])
                    (by simp [hpn, hpS]) (hvisited.released hnode hroot hS hpS hkeeps)
                    (.inr ⟨node, Finset.mem_insert_self _ _, rfl⟩)
                    (by rw [next_released]; omega)
                  exact ⟨t', heq', I'', hrec'.trans hrec⟩

/-! ### `delete`

The two loops one after the other. If the descent has not left the root, which then has no child, the second
loop asks for the parent of the root: this is the one way in which `delete` fails to return. -/

/-- `delete` returns, except at a childless root, and keeps the tree intact. -/
theorem Intact.delete (I : Intact t) (key mask : BitVec 32) :
    (∃ deleted t', t.delete key mask = .ok (deleted, t') ∧ Intact t' ∧ t'.record = t.record ∧
      (deleted = false → t' = t)) ∨
    (deleteDescend t.store key mask 33 maxIpv4Bit (some t.root) = some t.root ∧
      (t.store t.root).right = none ∧ (t.store t.root).left = none ∧
      t.delete key mask = .error .nilDereference) := by
  unfold RadixTree.delete
  cases hd : deleteDescend t.store key mask 33 maxIpv4Bit (some t.root) with
  | none => exact .inl ⟨false, t, rfl, I, rfl, fun _ => rfl⟩
  | some node =>
      obtain ⟨hnode, -⟩ := IntactBut.deleteDescend I 33 (fun a ha => by cases ha; exact I.root_lt) hd
      simp only
      -- a node with children only loses its value
      by_cases hchild : (t.store node).right ≠ none ∨ (t.store node).left ≠ none
      · rw [if_pos hchild]
        by_cases hvalue : (t.store node).value = noValue
        · rw [if_neg (by simpa using hvalue)]
          exact .inl ⟨false, t, rfl, I, rfl, fun _ => rfl⟩
        · rw [if_pos hvalue]
          have hsome : ∃ b, (t.store node).child b ≠ none := by
            rcases hchild with h | h
            · exact ⟨true, h⟩
            · exact ⟨false, h⟩
          exact .inl ⟨true, _, rfl, I.setValue hnode (.inr (.inr hsome)) fun _ _ h => h, rfl,
            fun h => by cases h⟩
      · rw [if_neg hchild]
        simp only [ne_eq, not_or, not_not] at hchild
        by_cases hroot : node = t.root
        · refine .inr ⟨by rw [hroot], by rw [← hroot]; exact hchild.1,
            by rw [← hroot]; exact hchild.2, ?_⟩
          -- the first round of the loop asks for the parent of the root
          have hpos := I.root_lt
          obtain ⟨rounds, hrounds⟩ : ∃ r, t.next = r + 1 := ⟨t.next - 1, by omega⟩
          rw [hrounds, deletePrune, hroot, I.top]
          rfl
        -- a leaf other than the root is busy with a value
        · have hvalue : (t.store node).value ≠ noValue := by
            rcases I.busy hnode hroot fun h => h with h | ⟨b, h⟩
            · exact h
            · cases b
              · exact absurd hchild.2 h
              · exact absurd hchild.1 h
          obtain ⟨t', heq, I', hrec⟩ := deletePrune_intact t.next (S := ∅)
            (I.mono fun _ h => h.elim) hnode hroot (by simp) (fun s hs => by simp at hs)
            (.inl hvalue) (by simp)
          refine .inl ⟨true, t', by rw [heq]; rfl, I', hrec, fun h => by cases h⟩

end Delete

end RadixTree

end Cheryl.Acl
