import Mathlib.Logic.Function.Basic
import Mathlib.Data.List.Induction
import Mathlib.Data.List.Nodup

/-!
# Binary trees linked by addresses

The cells of a store point to each other: two child links, a link back to the parent, and a
value. A `Layout` says which cell sits at the end of which path from the root; `Lays h root A`
says that the links of the store `h` are those of the tree with layout `A`. Paths name the cells,
so sharing and cycles are excluded by one field, `Lays.inj`, and an update of the store is
answered by an update of the layout at one path: `Lays.graft` hangs a new leaf, `Lays.unlink`
takes one off, `Lays.congr` is for changes of the values alone.

`Chain h o l` is the other use of the same cells: a list threaded through the `right` links.
-/

namespace Cheryl.Library

variable {ν : Type}

/-! ## Cells

The two children are treated alike: `child` and `setChild` take the side as a `Bool`, so that a lemma about
a link is proved once and not for each side. -/

/-- A cell with two children, a parent and a value. -/
structure Cell (ν : Type) where
  right : Option Nat
  left : Option Nat
  parent : Option Nat
  value : ν
  deriving Repr, DecidableEq

abbrev Store (ν : Type) := Nat → Cell ν

namespace Cell

/-- The child on the side `b`: right for `true`, left for `false`. -/
def child (c : Cell ν) (b : Bool) : Option Nat := if b then c.right else c.left

def setChild (c : Cell ν) (b : Bool) (o : Option Nat) : Cell ν :=
  if b then { c with right := o } else { c with left := o }

@[simp] theorem child_true (c : Cell ν) : c.child true = c.right := rfl

@[simp] theorem child_false (c : Cell ν) : c.child false = c.left := rfl

@[simp] theorem child_setChild (c : Cell ν) (b : Bool) (o : Option Nat) :
    (c.setChild b o).child b = o := by
  cases b <;> rfl

theorem child_setChild_of_ne (c : Cell ν) {b b' : Bool} (h : b' ≠ b) (o : Option Nat) :
    (c.setChild b o).child b' = c.child b' := by
  cases b <;> cases b' <;> first | rfl | exact absurd rfl h

@[simp] theorem parent_setChild (c : Cell ν) (b : Bool) (o : Option Nat) :
    (c.setChild b o).parent = c.parent := by
  cases b <;> rfl

@[simp] theorem value_setChild (c : Cell ν) (b : Bool) (o : Option Nat) :
    (c.setChild b o).value = c.value := by
  cases b <;> rfl

@[simp] theorem setChild_setChild (c : Cell ν) (b : Bool) (o o' : Option Nat) :
    (c.setChild b o).setChild b o' = c.setChild b o' := by
  cases b <;> rfl

theorem setChild_child (c : Cell ν) {b : Bool} {o : Option Nat} (h : c.child b = o) :
    c.setChild b o = c := by
  subst h; cases b <;> rfl

/-! Cells may differ in their values and still be linked alike, which is all that a layout looks at. -/

def SameLinks (c c' : Cell ν) : Prop :=
  c.right = c'.right ∧ c.left = c'.left ∧ c.parent = c'.parent

theorem SameLinks.child {c c' : Cell ν} (h : c.SameLinks c') (b : Bool) : c.child b = c'.child b := by
  cases b
  · exact h.2.1
  · exact h.1

end Cell

/-! ## Layouts

A layout is the tree without the store: it names the cell at the end of each path. `down` and `up` tie the
links to it, `gap` says that below nothing there is nothing, and `inj` that no cell is at the end of two
paths. From `inj` follows all that one would otherwise say about sharing and cycles. -/

abbrev Layout := List Bool → Option Nat

/-- The links of the store `h` are those of the tree with root `root` and layout `A`. -/
structure Lays (h : Store ν) (root : Nat) (A : Layout) : Prop where
  top : A [] = some root
  down : ∀ {p a}, A p = some a → ∀ b, A (p ++ [b]) = (h a).child b
  gap : ∀ {p}, A p = none → ∀ b, A (p ++ [b]) = none
  up : ∀ {p b c}, A (p ++ [b]) = some c → (h c).parent = A p
  noUp : (h root).parent = none
  inj : ∀ {p q a}, A p = some a → A q = some a → p = q

/-- The cell at the end of a path. -/
def follow (h : Store ν) : Nat → List Bool → Option Nat
  | a, [] => some a
  | a, b :: p => ((h a).child b).bind fun c => follow h c p

namespace Lays

variable {h h' : Store ν} {root : Nat} {A : Layout} {p q : List Bool} {a c : Nat}

/-- Paths to cells are closed under prefixes. -/
theorem exists_of_append (L : Lays h root A) (hc : A (p ++ q) = some c) : ∃ a, A p = some a := by
  induction q using List.reverseRecOn generalizing c with
  | nil => exact ⟨c, by simpa using hc⟩
  | append_singleton q b ih =>
      rw [← List.append_assoc] at hc
      cases hq : A (p ++ q) with
      | some a => exact ih hq
      | none => rw [L.gap hq] at hc; cases hc

/-- Below nothing there is nothing, at any depth. -/
theorem none_append (L : Lays h root A) (hp : A p = none) : A (p ++ q) = none := by
  cases hc : A (p ++ q) with
  | none => rfl
  | some c =>
      obtain ⟨a, ha⟩ := L.exists_of_append hc
      rw [hp] at ha; cases ha

/-- Following the links is reading the layout. -/
theorem follow_eq (L : Lays h root A) (hp : A p = some a) : follow h a q = A (p ++ q) := by
  induction q generalizing p a with
  | nil => rw [follow, List.append_nil, hp]
  | cons b q ih =>
      rw [follow, ← L.down hp, List.append_cons p b q]
      cases hc : A (p ++ [b]) with
      | none => rw [L.none_append hc, Option.bind_none]
      | some c => rw [Option.bind_some, ih hc]

/-- Only the root has no parent. -/
theorem parent_eq_none_iff (L : Lays h root A) (ha : A p = some a) :
    (h a).parent = none ↔ p = [] := by
  constructor
  · intro hnone
    cases p using List.reverseRecOn with
    | nil => rfl
    | append_singleton p b =>
        obtain ⟨u, hu⟩ := L.exists_of_append ha
        rw [L.up ha, hu] at hnone; cases hnone
  · rintro rfl
    rw [L.top] at ha; cases ha
    exact L.noUp

/-! ### Changes of the store

Each change of the links is answered by a change of the layout at one path. The hypotheses say what the new
store must look like at the cells concerned, and that the others keep their links; they do not say how the
store got there. -/

/-- The layout of a store depends on its links alone. -/
theorem congr (L : Lays h root A) (same : ∀ {p a}, A p = some a → (h' a).SameLinks (h a)) :
    Lays h' root A where
  top := L.top
  down ha b := by rw [(same ha).child, L.down ha]
  gap := L.gap
  up hc := by rw [(same hc).2.2, L.up hc]
  noUp := by rw [(same L.top).2.2, L.noUp]
  inj := L.inj

/-- The layout with one more leaf, the cell `c` at the end of `q`. -/
theorem graft {b : Bool} (L : Lays h root A) (ha : A q = some a) (hb : A (q ++ [b]) = none)
    (hfresh : ∀ p, A p ≠ some c) (hlinks : (h' c).SameLinks ⟨none, none, some a, (h' c).value⟩)
    (hlinked : (h' a).SameLinks ((h a).setChild b (some c)))
    (frame : ∀ {p x}, A p = some x → x ≠ a → (h' x).SameLinks (h x)) :
    Lays h' root (Function.update A (q ++ [b]) (some c)) where
  top := by rw [Function.update_of_ne (by simp), L.top]
  down := by
    intro p x hx b'
    by_cases hp : p = q ++ [b]
    · -- below the new leaf there is nothing
      subst hp
      obtain rfl : c = x := by simpa using hx
      rw [Function.update_of_ne (by simp), L.none_append hb, hlinks.child]
      cases b' <;> rfl
    · rw [Function.update_of_ne hp] at hx
      by_cases hxa : x = a
      -- the cell that gets the new child
      · obtain rfl : p = q := L.inj hx (hxa ▸ ha)
        subst hxa
        rw [hlinked.child]
        by_cases hbb : b' = b
        · subst hbb; simp
        · rw [Function.update_of_ne (by simpa using hbb), Cell.child_setChild_of_ne _ hbb, L.down hx]
      · have hpq : p ≠ q := by rintro rfl; exact hxa (Option.some.inj (hx.symm.trans ha))
        rw [Function.update_of_ne (by simp [hpq]), (frame hx hxa).child, L.down hx]
  gap := by
    intro p hp b'
    have hpc : p ≠ q ++ [b] := by rintro rfl; simp at hp
    rw [Function.update_of_ne hpc] at hp
    have hpq : p ≠ q := by rintro rfl; rw [ha] at hp; cases hp
    rw [Function.update_of_ne (by simp [hpq]), L.gap hp]
  up := by
    intro p b' x hx
    by_cases hp : p ++ [b'] = q ++ [b]
    · obtain ⟨rfl, rfl⟩ : p = q ∧ b' = b := by simpa using hp
      obtain rfl : c = x := by simpa using hx
      rw [hlinks.2.2, Function.update_of_ne (by simp), ha]
    · rw [Function.update_of_ne hp] at hx
      have hpq : p ≠ q ++ [b] := by
        rintro rfl; rw [L.gap hb] at hx; cases hx
      rw [Function.update_of_ne hpq, ← L.up hx]
      by_cases hxa : x = a
      · subst hxa; rw [hlinked.2.2, Cell.parent_setChild]
      · exact (frame hx hxa).2.2
  noUp := by
    by_cases hra : root = a
    · subst hra; rw [hlinked.2.2, Cell.parent_setChild, L.noUp]
    · rw [(frame L.top hra).2.2, L.noUp]
  inj := by
    intro p p' x hx hx'
    by_cases hp : p = q ++ [b] <;> by_cases hp' : p' = q ++ [b]
    -- the new cell is nowhere else, and the old ones were at one place each
    · rw [hp, hp']
    · rw [hp, Function.update_self] at hx
      rw [Function.update_of_ne hp', ← hx] at hx'
      exact absurd hx' (hfresh p')
    · rw [hp', Function.update_self] at hx'
      rw [Function.update_of_ne hp, ← hx'] at hx
      exact absurd hx (hfresh p)
    · rw [Function.update_of_ne hp] at hx
      rw [Function.update_of_ne hp'] at hx'
      exact L.inj hx hx'

/-- The layout with the leaf `c` at the end of `q` taken off. -/
theorem unlink {b : Bool} (L : Lays h root A) (ha : A q = some a) (hc : A (q ++ [b]) = some c)
    (hleaf : ∀ b', A (q ++ [b] ++ [b']) = none)
    (hcut : (h' a).SameLinks ((h a).setChild b none))
    (frame : ∀ {p x}, A p = some x → x ≠ a → x ≠ c → (h' x).SameLinks (h x)) :
    Lays h' root (Function.update A (q ++ [b]) none) where
  top := by rw [Function.update_of_ne (by simp), L.top]
  down := by
    intro p x hx b'
    have hp : p ≠ q ++ [b] := by rintro rfl; simp at hx
    rw [Function.update_of_ne hp] at hx
    by_cases hxa : x = a
    -- the cell that loses its child
    · obtain rfl : p = q := L.inj hx (hxa ▸ ha)
      subst hxa
      rw [hcut.child]
      by_cases hbb : b' = b
      · subst hbb; simp
      · rw [Function.update_of_ne (by simpa using hbb), Cell.child_setChild_of_ne _ hbb, L.down hx]
    · have hpq : p ≠ q := by rintro rfl; exact hxa (Option.some.inj (hx.symm.trans ha))
      have hxc : x ≠ c := by rintro rfl; exact hp (L.inj hx hc)
      rw [Function.update_of_ne (by simp [hpq]), (frame hx hxa hxc).child, L.down hx]
  gap := by
    intro p hp b'
    by_cases hpc : p = q ++ [b]
    · subst hpc
      rw [Function.update_of_ne (by simp), hleaf]
    · rw [Function.update_of_ne hpc] at hp
      have hpq : p ≠ q := by rintro rfl; rw [ha] at hp; cases hp
      rw [Function.update_of_ne (by simp [hpq]), L.gap hp]
  up := by
    intro p b' x hx
    have hp : p ++ [b'] ≠ q ++ [b] := by intro heq; rw [heq] at hx; simp at hx
    rw [Function.update_of_ne hp] at hx
    have hpq : p ≠ q ++ [b] := by rintro rfl; rw [hleaf] at hx; cases hx
    rw [Function.update_of_ne hpq, ← L.up hx]
    have hxc : x ≠ c := by rintro rfl; exact hp (L.inj hx hc)
    by_cases hxa : x = a
    · subst hxa; rw [hcut.2.2, Cell.parent_setChild]
    · exact (frame hx hxa hxc).2.2
  noUp := by
    -- the root is no child
    have hrc : root ≠ c := by
      rintro rfl
      have := L.inj hc L.top
      simp at this
    by_cases hra : root = a
    · subst hra; rw [hcut.2.2, Cell.parent_setChild, L.noUp]
    · rw [(frame L.top hra hrc).2.2, L.noUp]
  inj := by
    intro p p' x hx hx'
    have hp : p ≠ q ++ [b] := by rintro rfl; simp at hx
    have hp' : p' ≠ q ++ [b] := by rintro rfl; simp at hx'
    rw [Function.update_of_ne hp] at hx
    rw [Function.update_of_ne hp'] at hx'
    exact L.inj hx hx'

end Lays

/-! ## Lists threaded through the right links

The free cells of a store can be kept in such a list, each holding the next one in a link that it does not
use. The list ends, since a `List` does, so a chain is never cyclic. -/

/-- Following `right` from `o` visits exactly the cells of `l`, in order, and ends. -/
def Chain (h : Store ν) : Option Nat → List Nat → Prop
  | o, [] => o = none
  | o, a :: l => o = some a ∧ Chain h (h a).right l

/-- Only the right links of the cells in the list matter. -/
theorem Chain.congr {h h' : Store ν} {o : Option Nat} {l : List Nat} (hc : Chain h o l)
    (same : ∀ a ∈ l, (h' a).right = (h a).right) : Chain h' o l := by
  induction l generalizing o with
  | nil => exact hc
  | cons a l ih =>
      refine ⟨hc.1, ?_⟩
      rw [same a (by simp)]
      exact ih hc.2 fun x hx => same x (by simp [hx])

end Cheryl.Library
