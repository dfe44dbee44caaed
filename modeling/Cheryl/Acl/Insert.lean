import Cheryl.Acl.WellFormed

/-!
# Insertion into the radix tree

`insert_spec`: inserting adds one entry to the table. It has a side condition. `newNode` hands out
a free node with the `right` link by which it hung in the free list, and nothing clears that link;
`insertsCleanly` says, of the state before the insertion, that every such link is overwritten or
was `nil`.

The second loop of `insert` is proved with the invariant `Growing`: the links of the store lay out
the tree except for the one link the next round writes.
-/

namespace Cheryl.Acl

open Library

namespace RadixTree

/-! ## Clean reuse

The condition is on the state before the call: which nodes are missing on the path, and what is in the
`right` links of the nodes that the free list will hand out for them. -/

/-- Whether the free nodes that will be handed out for the directions `rest` lose the `right` link
by which they hang in the free list: it is `nil`, or the path goes on to the right and overwrites
it. The node at the end of the path has nothing that would overwrite it. -/
def reusesCleanly (store : Store String) : Option Nat → List Bool → Bool
  | none, _ => true
  | some _, [] => true
  | some a, [_] => (store a).right.isNone
  | some a, _ :: b :: rest =>
      ((store a).right.isNone || b) && reusesCleanly store (store a).right (b :: rest)

/-- The part of a path for which the tree has no nodes yet. -/
def missing (store : Store String) : Nat → List Bool → List Bool
  | _, [] => []
  | node, b :: path =>
      match (store node).child b with
      | none => b :: path
      | some c => missing store c path

/-- Inserting at `path` reuses free nodes cleanly, if it needs any. -/
def insertsCleanly (t : RadixTree) (path : List Bool) : Bool :=
  reusesCleanly t.store t.free (missing t.store t.root path)

section Insert

variable {t : RadixTree} {A : Layout} {fl : List Nat} {key : BitVec 32} {m : Nat}

/-! ## Descending

The first loop walks along the nodes that are there. Either the path ends first, and the node at its end
gets the value, or the nodes do. -/

/-- The next direction of a path. -/
theorem drop_take_bits {i : Nat} (hm : m ≤ 32) (hi : i < m) :
    ((bits key).take m).drop i = key.getMsbD i :: ((bits key).take m).drop (i + 1) := by
  have hlen : i < ((bits key).take m).length := by simp; omega
  rw [List.drop_eq_getElem_cons hlen]
  congr 1
  have := getElem?_bits (x := key) (i := i) (by omega)
  rw [List.getElem_take]
  exact Option.some.inj ((List.getElem?_eq_getElem _).symm.trans this)

/-- The first loop of `insert` ends at the last node on the path, with the rest of it missing. -/
theorem insertDescend_spec {X : List Bool → Prop} (W : WellFormedBut X t A fl) (hm : m ≤ 32)
    (rounds : Nat) : ∀ {i a : Nat} {x : Nat}, i ≤ m → m - i < rounds →
      A ((bits key).take i) = some a →
      ∃ j node, i ≤ j ∧ j ≤ m ∧ A ((bits key).take j) = some node ∧
        missing t.store a (((bits key).take m).drop i) = ((bits key).take m).drop j ∧
        ((j = m ∧ ∃ y, insertDescend t.store key (netMask 32 m) rounds (probe 32 i) a (some x) =
            (probe 32 j, node, some y)) ∨
          (j < m ∧ A ((bits key).take (j + 1)) = none ∧
            insertDescend t.store key (netMask 32 m) rounds (probe 32 i) a (some x) =
              (probe 32 j, node, none))) := by
  induction rounds with
  | zero => intro i a x hi hr; omega
  | succ rounds ih =>
      intro i a x hi hr ha
      by_cases him : i < m
      · have hnext : A ((bits key).take (i + 1)) = (t.store a).child (key.getMsbD i) := by
          rw [take_succ_bits (by omega), W.lays.down ha]
        rw [insertDescend, if_pos ((probe_and_netMask hm).mpr him), turn_eq _ (by omega), ← hnext,
          drop_take_bits hm him, missing, ← hnext, probe_shift]
        cases hc : A ((bits key).take (i + 1)) with
        | none =>
            refine ⟨i, a, Nat.le_refl _, hi, ha, ?_, .inr ⟨him, hc, rfl⟩⟩
            rw [drop_take_bits hm him]
        | some c =>
            obtain ⟨j, node, hij, hjm, hnode, hmiss, hres⟩ := ih (x := c) (by omega) (by omega) hc
            exact ⟨j, node, by omega, hjm, hnode, hmiss, hres⟩
      -- the path has ended
      · obtain rfl : i = m := by omega
        refine ⟨i, a, Nat.le_refl _, Nat.le_refl _, ha, ?_, .inl ⟨rfl, x, ?_⟩⟩
        · rw [List.drop_of_length_le (by simp), missing]
        · rw [insertDescend, if_neg (fun h => him ((probe_and_netMask hm).mp h))]

/-! ## The invariant of the second loop

Between two rounds the tree is not well-formed, for two reasons. The last node that was hung in is a leaf
without value. And its link in the direction that comes next may be stale. -/

/-- The store as it will be once the link in the next direction has been written. -/
def cleared (store : Store String) (node : Nat) : List Bool → Store String
  | [] => store
  | b :: _ => Function.update store node ((store node).setChild b none)

/-- What holds while `insert` hangs new nodes: below `node`, at the end of `q`, the directions
`rest` are still to come. The link of `node` in the next direction may be stale, so the links lay
out the tree only once that one is cleared. -/
structure Growing (t : RadixTree) (A : Layout) (fl : List Nat) (q : List Bool) (node : Nat)
    (rest : List Bool) : Prop where
  here : A q = some node
  bare : ∀ b ∈ rest.head?, A (q ++ [b]) = none
  lays : Lays (cleared t.store node rest) t.root A
  depth : ∀ {p a}, A p = some a → p.length ≤ 32
  room : q.length + rest.length ≤ 32
  used : ∀ {p a}, A p = some a → a < t.next
  chain : Chain t.store t.free fl
  nodup : fl.Nodup
  apart : ∀ {p a}, A p = some a → a ∉ fl
  spare : ∀ a ∈ fl, a < t.next
  noLeft : ∀ a ∈ fl, (t.store a).left = none
  busy : ∀ {p a}, p ≠ q → p ≠ [] → A p = some a → (∀ b, A (p ++ [b]) = none) →
    (t.store a).value ≠ noValue

/-- The loop starts from a well-formed tree. -/
theorem Growing.of_wellFormed {q rest : List Bool} {node : Nat} (W : WellFormed t A fl)
    (here : A q = some node) (bare : ∀ b ∈ rest.head?, A (q ++ [b]) = none)
    (room : q.length + rest.length ≤ 32) : Growing t A fl q node rest where
  here := here
  bare := bare
  lays := by
    cases rest with
    | nil => exact W.lays
    | cons b rest =>
        have hchild : (t.store node).child b = none := by
          rw [← W.lays.down here, bare b rfl]
        rw [cleared, Cell.setChild_child _ hchild, Function.update_eq_self]
        exact W.lays
  depth := W.depth
  room := room
  used := W.used
  chain := W.chain
  nodup := W.nodup
  apart := W.apart
  spare := W.spare
  noLeft := W.noLeft
  busy := fun _ => W.busy fun h => h

/-- When no direction is left, only the value is missing. -/
theorem Growing.done {q : List Bool} {node : Nat} (G : Growing t A fl q node []) :
    WellFormedBut (· = q) t A fl where
  lays := G.lays
  depth := G.depth
  used := G.used
  chain := G.chain
  nodup := G.nodup
  apart := G.apart
  spare := G.spare
  noLeft := G.noLeft
  busy := G.busy

/-! Small facts about `reusesCleanly`. -/

@[simp] theorem reusesCleanly_none (store : Store String) (rest : List Bool) :
    reusesCleanly store none rest = true := by
  cases rest <;> rfl

@[simp] theorem reusesCleanly_nil (store : Store String) (o : Option Nat) :
    reusesCleanly store o [] = true := by
  cases o <;> rfl

/-- The condition looks at the right links of the free nodes only. -/
theorem reusesCleanly_congr {store store' : Store String} (rest : List Bool) :
    ∀ {o : Option Nat} {fl : List Nat}, Chain store o fl →
      (∀ a ∈ fl, (store' a).right = (store a).right) →
      reusesCleanly store' o rest = reusesCleanly store o rest := by
  induction rest with
  | nil => intro o fl _ _; simp
  | cons b rest ih =>
      intro o fl hchain same
      cases fl with
      | nil => rw [show o = none from hchain]; simp
      | cons a fl =>
          obtain ⟨rfl, htail⟩ := hchain
          cases rest with
          | nil => simp [reusesCleanly, same a (by simp)]
          | cons b' rest =>
              rw [reusesCleanly, reusesCleanly, same a (by simp),
                ih htail fun x hx => same x (by simp [hx])]

/-- What `newNode` took and what the second loop of `insert` made of it, as seen by the tree. -/
structure Hung (t t' : RadixTree) (node c : Nat) (b : Bool) (rest : List Bool) : Prop where
  root : t'.root = t.root
  record : t'.record = t.record
  next : t.next ≤ t'.next
  bound : c < t'.next
  ne : c ≠ node
  fresh : t'.store c = ⟨(t'.store c).right, none, some node, noValue⟩
  stale : (t'.store c).right = none ∨ true ∈ rest.head?
  linked : t'.store node = (t.store node).setChild b (some c)
  frame : ∀ x, x ≠ c → x ≠ node → t'.store x = t.store x

/-! ### One round of the second loop

The round hangs the cell `c` below `node`, on the side `b`, and the leaf of the layout moves from `q` to
`q ++ [b]`. What the invariant says of the new leaf comes from `Hung`, and what it says of the other cells is
carried over, since `Hung` leaves all but `node` and `c` as they are. The link of `c` in the direction that
comes next is the one that may be stale, and `cleared` leaves it out. -/

section Extend

variable {t' : RadixTree} {fl' q rest : List _} {node c : Nat} {b : Bool}

/-- The cells of the layout with one more leaf. -/
theorem eq_or_of_update {p : List Bool} {x : Nat}
    (hx : Function.update A (q ++ [b]) (some c) p = some x) :
    p = q ++ [b] ∧ x = c ∨ p ≠ q ++ [b] ∧ A p = some x := by
  by_cases hp : p = q ++ [b]
  · subst hp
    rw [Function.update_self] at hx
    exact .inl ⟨rfl, (Option.some.inj hx).symm⟩
  · rw [Function.update_of_ne hp] at hx
    exact .inr ⟨hp, hx⟩

/-- The new leaf has no links but the one to its parent, once the stale one is left out. -/
theorem Hung.cleared_new (H : Hung t t' node c b rest) :
    (cleared t'.store c rest c).SameLinks ⟨none, none, some node, (cleared t'.store c rest c).value⟩ := by
  rcases H.stale with hnone | htrue
  · cases rest with
    | nil =>
        rw [cleared, H.fresh, hnone]
        exact ⟨rfl, rfl, rfl⟩
    | cons b' rest =>
        rw [cleared, Function.update_self, H.fresh, hnone]
        cases b' <;> exact ⟨rfl, rfl, rfl⟩
  · cases rest with
    | nil => cases htrue
    | cons b' rest =>
        -- the stale link is where the next round assigns
        obtain rfl : b' = true := by simpa using htrue
        rw [cleared, Function.update_self, H.fresh]
        exact ⟨rfl, rfl, rfl⟩

/-- The links: the leaf is new, its parent points to it, all else is as before. -/
theorem Growing.lays_extend (G : Growing t A fl q node (b :: rest)) (H : Hung t t' node c b rest)
    (hcA : ∀ p, A p ≠ some c) :
    Lays (cleared t'.store c rest) t'.root (Function.update A (q ++ [b]) (some c)) := by
  have hbefore : ∀ x, x ≠ node → cleared t.store node (b :: rest) x = t.store x := by
    intro x hx
    simp [cleared, hx]
  have hafter : ∀ x, x ≠ c → cleared t'.store c rest x = t'.store x := by
    intro x hx
    cases rest <;> simp [cleared, hx]
  rw [H.root]
  refine G.lays.graft G.here (G.bare b rfl) hcA H.cleared_new ?_ ?_
  · have hnode : cleared t.store node (b :: rest) node = (t.store node).setChild b none := by
      simp [cleared]
    rw [hafter node H.ne.symm, H.linked, hnode, Cell.setChild_setChild]
    exact ⟨rfl, rfl, rfl⟩
  · intro p x hx hxn
    have hxc : x ≠ c := fun heq => hcA p (heq ▸ hx)
    rw [hafter x hxc, hbefore x hxn, H.frame x hxc hxn]
    exact ⟨rfl, rfl, rfl⟩

/-- Leaves other than the new one were leaves before, and `node` is none any more. -/
theorem Growing.busy_extend (G : Growing t A fl q node (b :: rest)) (H : Hung t t' node c b rest)
    (hcA : ∀ p, A p ≠ some c) {p : List Bool} {a : Nat} (hpq : p ≠ q ++ [b]) (hp : p ≠ []) (ha : A p = some a)
    (hleaf : ∀ b', Function.update A (q ++ [b]) (some c) (p ++ [b']) = none) :
    (t'.store a).value ≠ noValue := by
  have hpn : p ≠ q := by
    rintro rfl
    have := hleaf b
    simp at this
  have han : a ≠ node := by
    rintro rfl
    exact hpn (G.lays.inj ha G.here)
  rw [H.frame a (fun heq => hcA p (heq ▸ ha)) han]
  refine G.busy hpn hp ha fun b' => ?_
  have := hleaf b'
  rwa [Function.update_of_ne (by simp [hpn])] at this

/-- The new leaf is empty, and the other cells keep what they hold. -/
theorem Growing.contents_extend (G : Growing t A fl q node (b :: rest)) (H : Hung t t' node c b rest)
    (hcA : ∀ p, A p ≠ some c) :
    contents t' (Function.update A (q ++ [b]) (some c)) = contents t A := by
  funext p
  by_cases hp : p = q ++ [b]
  · have hvalue : (t'.store c).value = noValue := by rw [H.fresh]
    simp [contents, hp, G.bare b rfl, hvalue]
  · simp only [contents, Function.update_of_ne hp]
    cases hx : A p with
    | none => rfl
    | some x =>
        by_cases hxn : x = node
        · subst hxn
          simp [H.linked]
        · simp [H.frame x (fun heq => hcA p (heq ▸ hx)) hxn]

/-- One round of the second loop: the tree has grown by one leaf. -/
theorem Growing.extend (G : Growing t A fl q node (b :: rest)) (H : Hung t t' node c b rest)
    (hcA : ∀ p, A p ≠ some c) (hcfl : c ∉ fl') (hsub : ∀ a ∈ fl', a ∈ fl)
    (hnodup : fl'.Nodup) (hchain : Chain t'.store t'.free fl') :
    Growing t' (Function.update A (q ++ [b]) (some c)) fl' (q ++ [b]) c rest := by
  have hroom : (q ++ [b]).length + rest.length ≤ 32 := by
    have := G.room
    simp only [List.length_append, List.length_cons, List.length_nil] at this ⊢
    omega
  exact
    { here := by simp
      -- nothing hung below the missing child before, so nothing hangs below the new one
      bare := by
        intro b' _
        rw [Function.update_of_ne (by simp), G.lays.none_append (G.bare b rfl)]
      lays := G.lays_extend H hcA
      depth := by
        intro p a ha
        rcases eq_or_of_update ha with ⟨rfl, -⟩ | ⟨-, hold⟩
        · exact Nat.le_of_add_right_le hroom
        · exact G.depth hold
      room := hroom
      used := by
        intro p a ha
        rcases eq_or_of_update ha with ⟨-, rfl⟩ | ⟨-, hold⟩
        · exact H.bound
        · exact Nat.lt_of_lt_of_le (G.used hold) H.next
      chain := hchain
      nodup := hnodup
      -- the new node has left the free list
      apart := by
        intro p a ha hafl
        rcases eq_or_of_update ha with ⟨-, rfl⟩ | ⟨-, hold⟩
        · exact hcfl hafl
        · exact G.apart hold (hsub a hafl)
      spare := fun a ha => Nat.lt_of_lt_of_le (G.spare a (hsub a ha)) H.next
      -- the free nodes are none of the two that were assigned to
      noLeft := by
        intro a ha
        have hac : a ≠ c := fun heq => hcfl (heq ▸ ha)
        have han : a ≠ node := fun heq => G.apart G.here (heq ▸ hsub a ha)
        rw [H.frame a hac han]
        exact G.noLeft a (hsub a ha)
      busy := by
        intro p a hpq hp ha hleaf
        rcases eq_or_of_update ha with ⟨heq, -⟩ | ⟨-, hold⟩
        · exact absurd heq hpq
        · exact G.busy_extend H hcA hpq hp hold hleaf }

end Extend

/-! ### The round in the source

`hang` is the body of the loop. What it leaves behind is a tree of the form `hungTree`, whether the node is
fresh or from the free list; in the first case it has no stale link, and in the second it has the link to
the rest of the list. -/

/-- The body of the second loop of `insert`, for the direction `b`. -/
def hang (t : RadixTree) (node : Nat) (b : Bool) : Nat × RadixTree :=
  let (next, t) := t.newNode
  let t := (t.setParent next (some node)).setValue next noValue
  (next, t.modify node fun n => n.setChild b (some next))

theorem insertExtend_succ {i rounds node : Nat} (hm : m ≤ 32) (hi : i < m) :
    insertExtend key (netMask 32 m) (rounds + 1) (probe 32 i) node t =
      insertExtend key (netMask 32 m) rounds (probe 32 (i + 1)) (hang t node (key.getMsbD i)).1
        (hang t node (key.getMsbD i)).2 := by
  have h := and_probe_ne_zero (x := key) (i := i) (by omega : i < 32)
  rw [insertExtend, if_pos ((probe_and_netMask hm).mpr hi), probe_shift, hang]
  by_cases hb : key.getMsbD i = true
  · simp only [if_pos (h.mpr hb), hb]
    rfl
  · simp only [if_neg (fun hne => hb (h.mp hne)), Bool.eq_false_iff.mpr hb]
    rfl

def hungTree (t : RadixTree) (node c : Nat) (b : Bool) (rgt : Option Nat) (next : Nat)
    (free : Option Nat) : RadixTree :=
  { t with
    store := Function.update (Function.update t.store c ⟨rgt, none, some node, noValue⟩) node
      ((t.store node).setChild b (some c))
    next := next
    free := free }

theorem hungTree_store {node c next x : Nat} {b : Bool} {rgt free : Option Nat} (hxc : x ≠ c)
    (hxn : x ≠ node) : (hungTree t node c b rgt next free).store x = t.store x := by
  simp only [hungTree, Function.update_of_ne hxn, Function.update_of_ne hxc]

/-- A tree with one more node is what the invariant expects. -/
theorem hung_hungTree {node c next : Nat} {b : Bool} {rgt free : Option Nat} {rest : List Bool}
    (hcn : c ≠ node) (hnext : t.next ≤ next) (hbound : c < next)
    (hstale : rgt = none ∨ true ∈ rest.head?) :
    Hung t (hungTree t node c b rgt next free) node c b rest := by
  have hc : (hungTree t node c b rgt next free).store c = ⟨rgt, none, some node, noValue⟩ := by
    simp only [hungTree, Function.update_of_ne hcn, Function.update_self]
  exact
    { root := rfl, record := rfl, next := hnext, bound := hbound, ne := hcn
      fresh := by rw [hc]
      stale := by rwa [hc]
      linked := by simp only [hungTree, Function.update_self]
      frame := fun x hxc hxn => hungTree_store hxc hxn }

theorem hang_of_free_none {node : Nat} {b : Bool} (hfree : t.free = none) (hlt : node < t.next) :
    hang t node b = (t.next, hungTree t node t.next b none (t.next + 1) none) := by
  have hne : node ≠ t.next := by omega
  simp [hang, newNode, hfree, setParent, RadixTree.setValue, modify, blank, hungTree,
    Function.update_of_ne hne]

theorem hang_of_free_some {node c : Nat} {b : Bool} (hfree : t.free = some c) (hcn : c ≠ node)
    (hleft : (t.store c).left = none) :
    hang t node b = (c, hungTree t node c b (t.store c).right t.next (t.store c).right) := by
  simp [hang, newNode, hfree, setParent, RadixTree.setValue, modify, hungTree, hleft,
    Function.update_of_ne hcn.symm]

/-- Hanging one node, taken from the free list or fresh, keeps the invariant of the loop. -/
theorem Growing.hang {q rest : List Bool} {node : Nat} {b : Bool}
    (G : Growing t A fl q node (b :: rest)) (hclean : reusesCleanly t.store t.free (b :: rest)) :
    ∃ next t' A' fl', RadixTree.hang t node b = (next, t') ∧
      Growing t' A' fl' (q ++ [b]) next rest ∧ reusesCleanly t'.store t'.free rest ∧
      contents t' A' = contents t A ∧ t'.record = t.record := by
  cases fl with
  | nil =>
      have hfree : t.free = none := G.chain
      have hlt := G.used G.here
      have H : Hung t (hungTree t node t.next b none (t.next + 1) none) node t.next b rest :=
        hung_hungTree (by omega) (Nat.le_succ _) (Nat.lt_succ_self _) (.inl rfl)
      have hcA : ∀ p, A p ≠ some t.next := fun p hp => Nat.lt_irrefl _ (G.used hp)
      exact ⟨_, _, _, [], hang_of_free_none hfree hlt,
        G.extend H hcA (by simp) (by simp) List.nodup_nil rfl, by simp [hungTree],
        G.contents_extend H hcA, rfl⟩
  | cons c fl' =>
      obtain ⟨hfree, htail⟩ := G.chain
      obtain ⟨hcfl, hnodup⟩ := List.nodup_cons.mp G.nodup
      have hcn : c ≠ node := by rintro rfl; exact G.apart G.here (by simp)
      rw [hfree] at hclean
      have hstale : (t.store c).right = none ∨ true ∈ rest.head? := by
        cases rest with
        | nil => exact .inl (by simpa [reusesCleanly] using hclean)
        | cons b' rest =>
            simp only [reusesCleanly, Bool.and_eq_true, Bool.or_eq_true] at hclean
            exact hclean.1.imp (by simp) fun h => by simp [h]
      have hsame : ∀ a ∈ fl', ((hungTree t node c b (t.store c).right t.next
          (t.store c).right).store a).right = (t.store a).right := by
        intro a ha
        have hac : a ≠ c := by rintro rfl; exact hcfl ha
        have han : a ≠ node := by rintro rfl; exact G.apart G.here (by simp [ha])
        rw [hungTree_store hac han]
      have H : Hung t (hungTree t node c b (t.store c).right t.next (t.store c).right) node c b
          rest := hung_hungTree hcn (Nat.le_refl _) (G.spare c (by simp)) hstale
      have hcA : ∀ p, A p ≠ some c := fun p hp => G.apart hp (by simp)
      have hgrow := G.extend H hcA hcfl (fun a ha => by simp [ha]) hnodup (htail.congr hsame)
      refine ⟨_, _, _, fl', hang_of_free_some hfree hcn (G.noLeft c (by simp)), hgrow, ?_,
        G.contents_extend H hcA, rfl⟩
      -- what comes next is clean again, since the other free nodes have kept their links
      rw [show (hungTree t node c b (t.store c).right t.next (t.store c).right).free =
        (t.store c).right from rfl, reusesCleanly_congr rest htail hsame]
      cases rest with
      | nil => simp
      | cons b' rest =>
          simp only [reusesCleanly, Bool.and_eq_true] at hclean
          exact hclean.2

/-! ## `insert` -/

/-- The second loop of `insert` builds the missing path. -/
theorem insertExtend_spec (hm : m ≤ 32) (rounds : Nat) : ∀ {t A fl j node}, j ≤ m →
    m - j < rounds →
    Growing t A fl ((bits key).take j) node (((bits key).take m).drop j) →
    reusesCleanly t.store t.free (((bits key).take m).drop j) →
    ∃ A' fl' node' t', insertExtend key (netMask 32 m) rounds (probe 32 j) node t = (node', t') ∧
      Growing t' A' fl' ((bits key).take m) node' [] ∧ contents t' A' = contents t A ∧
      t'.record = t.record := by
  induction rounds with
  | zero => intro t A fl j node hj hr; omega
  | succ rounds ih =>
      intro t A fl j node hj hr G hclean
      by_cases hjm : j < m
      · rw [drop_take_bits hm hjm] at G hclean
        obtain ⟨next, t₁, A₁, fl₁, hhang, G₁, hclean₁, hcont₁, hrec₁⟩ := G.hang hclean
        rw [← take_succ_bits (by omega)] at G₁
        obtain ⟨A', fl', node', t', heq, G', hcont, hrec⟩ := ih (by omega) (by omega) G₁ hclean₁
        refine ⟨A', fl', node', t', ?_, G', hcont.trans hcont₁, hrec.trans hrec₁⟩
        rw [insertExtend_succ hm hjm, hhang, heq]
      · obtain rfl : j = m := by omega
        rw [List.drop_of_length_le (by simp)] at G
        refine ⟨A, fl, node, t, ?_, G, rfl, rfl⟩
        rw [insertExtend, if_neg (fun h => hjm ((probe_and_netMask hm).mp h))]

/-- Inserting a value, with free nodes reused cleanly, adds the entry to the table. -/
theorem insert_spec (W : WellFormed t A fl) (hm : m ≤ 32) {v : String} (hv : v ≠ noValue)
    (hclean : t.insertsCleanly ((bits key).take m)) :
    ∃ A' fl', WellFormed (t.insert key (netMask 32 m) v) A' fl' ∧
      contents (t.insert key (netMask 32 m) v) A' =
        Function.update (contents t A) ((bits key).take m) (some v) ∧
      (t.insert key (netMask 32 m) v).record = t.record := by
  have htop : A ((bits key).take 0) = some t.root := by simpa using W.lays.top
  obtain ⟨j, node, -, hjm, hnode, hmiss, hres⟩ :=
    insertDescend_spec W hm 33 (x := t.root) (by omega) (by omega) htop
  rw [List.drop_zero] at hmiss
  rw [RadixTree.insert, maxIpv4Bit_eq]
  rcases hres with ⟨rfl, y, hres⟩ | ⟨hlt, hnone, hres⟩
  · -- the path is there already
    rw [hres]
    refine ⟨A, fl, W.setValue hnode v (.inl hv) fun _ _ h => h, ?_, rfl⟩
    simpa [hv] using W.contents_setValue hnode v
  -- it is not, and the second loop builds the rest
  · rw [hres]
    have hbare : ∀ b ∈ (((bits key).take m).drop j).head?, A ((bits key).take j ++ [b]) = none := by
      intro b hb
      rw [drop_take_bits hm hlt] at hb
      obtain rfl : key.getMsbD j = b := by simpa using hb
      rw [← take_succ_bits (by omega), hnone]
    have G := Growing.of_wellFormed W hnode hbare (by simp; omega)
    rw [insertsCleanly, hmiss] at hclean
    obtain ⟨A', fl', node', t', heq, G', hcont, hrec⟩ :=
      insertExtend_spec hm 33 hjm (by omega) G hclean
    simp only [heq]
    refine ⟨A', fl', G'.done.setValue G'.here v (.inl hv) fun p hp h => hp h, ?_, hrec⟩
    rw [G'.done.contents_setValue G'.here v, hcont]
    simp [hv]

end Insert

end RadixTree

end Cheryl.Acl
