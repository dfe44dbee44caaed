import Cheryl.Library.Trace
import Cheryl.Acl.Insert
import Cheryl.Acl.Delete

/-!
# Runs of the tree

A run is a sequence of `Add` and `Delete` calls with CIDR texts, from `NewRadixTree`, all of which
return. Over the calls and their results stands the table that the calls are meant to maintain,
`lastAdded`; `run_contents` says that the tree stores this table, as long as every `Add` reuses
free nodes cleanly.
-/

namespace Cheryl.Acl

open Library

/-! ## Calls and what they are for

The table of a run is built from its calls alone: an `Add` that succeeded enters its text for its network,
and a `Delete` that succeeded takes the network out. -/

/-- A call on the tree. `Add` is called with the text as value. -/
inductive Op
  | add (n : Cidr)
  | delete (n : Cidr)

namespace Op

def net : Op → Cidr
  | add n => n
  | delete n => n

def exec (t : RadixTree) : Op → Except Fault (Option GoError × RadixTree)
  | add n => t.add n.text n.text
  | delete n => t.Delete n.text

/-- An `Add` that needs new nodes gets them without stale links. -/
def clean (t : RadixTree) : Op → Bool
  | add n => t.insertsCleanly n.network
  | delete _ => true

end Op

structure Event where
  op : Op
  err : Option GoError

def Call (t : RadixTree) (e : Event) (t' : RadixTree) : Prop := e.op.exec t = .ok (e.err, t')

/-- The call did so reusing free nodes cleanly. -/
def CleanCall (t : RadixTree) (e : Event) (t' : RadixTree) : Prop := Call t e t' ∧ e.op.clean t

/-- What a call that succeeded does to a table of networks. -/
def Event.apply (V : List Bool → Option String) (e : Event) : List Bool → Option String :=
  match e.err, e.op with
  | some _, _ => V
  | none, .add n => Function.update V n.network (some n.text)
  | none, .delete n => Function.update V n.network none

/-- The networks whose last successful call was an `Add`, with the value it added. -/
def lastAdded (es : List Event) : List Bool → Option String :=
  es.foldl Event.apply fun _ => none

@[simp] theorem lastAdded_snoc (es : List Event) (e : Event) :
    lastAdded (es ++ [e]) = e.apply (lastAdded es) := by
  simp [lastAdded]

/-! ## One call

Each call on a well-formed tree does to the stored table what `Event.apply` does to the table of the run, or
it panics and there is no tree after it. -/

section Step

variable {t t' : RadixTree} {A : Layout} {fl : List Nat} {n : Cidr} {err : Option GoError}

/-- The tree is well formed and stores the table `V`. -/
def Stores (t : RadixTree) (V : List Bool → Option String) : Prop :=
  ∃ A fl, RadixTree.WellFormed t A fl ∧ RadixTree.contents t A = V

theorem stores_new : Stores RadixTree.new fun _ => none :=
  ⟨_, _, RadixTree.wellFormed_new, RadixTree.contents_new _⟩

/-- `search` is longest match in the stored table. -/
theorem Stores.search {V : List Bool → Option String} (h : Stores t V) (k : BitVec 32) :
    t.search k = .ok ((longestMatch V (bits k)).getD noValue) := by
  obtain ⟨A, fl, W, rfl⟩ := h
  exact RadixTree.search_spec W k

/-- `Record` is no part of what the tree stores. -/
theorem Stores.record {V : List Bool → Option String} (h : Stores t V) (r : Finset String) :
    Stores { t with record := r } V := by
  obtain ⟨A, fl, W, rfl⟩ := h
  exact ⟨A, fl, { W with }, rfl⟩

theorem Cidr.text_ne_noValue (n : Cidr) : n.text ≠ noValue := by
  intro h
  have := congrArg String.toList (n.spelled.symm.trans h)
  simp [noValue, quad] at this

/-- `Add` stores its text for its network and enters the text in `Record`. -/
theorem add_spec {V : List Bool → Option String} (h : Stores t V)
    (hclean : t.insertsCleanly n.network) :
    ∃ t', t.add n.text n.text = .ok (none, t') ∧
      Stores t' (Function.update V n.network (some n.text)) ∧ t'.record = insert n.text t.record := by
  obtain ⟨A, fl, W, rfl⟩ := h
  obtain ⟨A', fl', W', hcont, hrec⟩ :=
    RadixTree.insert_spec W (show n.mask ≤ 32 from n.mask_le) n.text_ne_noValue hclean
  refine ⟨_, n.add_eq t n.text, Stores.record ⟨A', fl', W', hcont⟩ _, ?_⟩
  show insert n.text (t.insert n.address (netMask 32 n.mask) n.text).record = _
  rw [show (t.insert n.address (netMask 32 n.mask) n.text).record = t.record from hrec]

/-- `Delete` takes the network from the table and its text from `Record`, or finds no entry and
fails, or is asked for the empty network while the root is childless and panics. -/
theorem Delete_spec {V : List Bool → Option String} (h : Stores t V) :
    (n.network = [] ∧ t.Delete n.text = .error .nilDereference) ∨
    (V n.network = none ∧ t.Delete n.text = .ok (some cantFindIpNet, t)) ∨
    (V n.network ≠ none ∧ ∃ t', t.Delete n.text = .ok (none, t') ∧
      Stores t' (Function.update V n.network none) ∧ t'.record = t.record.erase n.text) := by
  obtain ⟨A, fl, W, rfl⟩ := h
  rw [n.Delete_eq]
  rcases RadixTree.delete_spec W n.address (show n.mask ≤ 32 from n.mask_le) with
    ⟨hroot, -, heq⟩ | ⟨hnone, heq⟩ | ⟨hsome, t', A', fl', heq, W', hcont, hrec⟩
  · exact .inl ⟨hroot, by rw [heq]⟩
  · exact .inr (.inl ⟨hnone, by rw [heq]⟩)
  · refine .inr (.inr ⟨hsome, _, by rw [heq], Stores.record ⟨A', fl', W', hcont⟩ _, ?_⟩)
    show t'.record.erase n.text = _
    rw [hrec]

/-- A clean call changes the table as its result says. -/
theorem Stores.call {V : List Bool → Option String} {e : Event} (h : Stores t V)
    (hcall : CleanCall t e t') : Stores t' (e.apply V) := by
  obtain ⟨hexec, hclean⟩ := hcall
  obtain ⟨op, err⟩ := e
  cases op with
  | add n =>
      obtain ⟨t₁, heq, hstores, -⟩ := add_spec h hclean
      obtain ⟨rfl, rfl⟩ : none = err ∧ t₁ = t' := by simpa [Call, Op.exec, heq] using hexec
      exact hstores
  | delete n =>
      rcases Delete_spec (n := n) h with ⟨-, heq⟩ | ⟨-, heq⟩ | ⟨-, t₁, heq, hstores, -⟩
      · simp [Call, Op.exec, heq] at hexec
      · obtain ⟨rfl, rfl⟩ : some cantFindIpNet = err ∧ t = t' := by simpa [Call, Op.exec, heq] using hexec
        exact h
      · obtain ⟨rfl, rfl⟩ : none = err ∧ t₁ = t' := by simpa [Call, Op.exec, heq] using hexec
        exact hstores

end Step

/-! ## Runs

By induction over the run the two tables are the same one. -/

/-- A run of clean calls stores exactly the networks added last. -/
theorem run_stores {es : List Event} {t : RadixTree} (h : Trace CleanCall RadixTree.new es t) :
    Stores t (lastAdded es) :=
  h.history (I := fun es t => Stores t (lastAdded es)) stores_new fun hI hstep => by
    rw [lastAdded_snoc]
    exact hI.call hstep

/-- After a run of clean calls `search` answers with the value added last for the longest stored
network that covers the address. -/
theorem search_eq_longestMatch_lastAdded {es : List Event} {t : RadixTree}
    (h : Trace CleanCall RadixTree.new es t) (k : BitVec 32) :
    t.search k = .ok ((longestMatch (lastAdded es) (bits k)).getD "") :=
  (run_stores h).search k

def Cidr.zeroes1 : Cidr := .ofParts "0" "0" "0" "0" "1" (by decide)

def Cidr.zeroes2 : Cidr := .ofParts "0" "0" "0" "0" "2" (by decide)

/-- A run with one node released and handed out again. -/
theorem search_eq_longestMatch_lastAdded_reuse :
    ∃ es t, Trace CleanCall RadixTree.new es t ∧ es.length = 3 ∧
      t.search 0x40000000 = .ok ((longestMatch (lastAdded es) (bits 0x40000000#32)).getD "") := by
  have hrun : Trace CleanCall RadixTree.new ([] ++ [⟨.add .zeroes1, none⟩] ++
      [⟨.delete .zeroes1, none⟩] ++ [⟨.add .zeroes1, none⟩]) _ :=
    .snoc (.snoc (.snoc .nil ⟨rfl, rfl⟩) ⟨rfl, rfl⟩) ⟨rfl, rfl⟩
  exact ⟨_, _, hrun, rfl, search_eq_longestMatch_lastAdded hrun _⟩

/-- `Delete` of `0.0.0.0/2` frees two nodes, the first linked to the second by `right`. The next
`Add`, of `0.0.0.0/1`, takes the first, and below it the second is still linked, with its old
value. -/
theorem search_ne_longestMatch_lastAdded :
    ¬ ∀ es t, Trace Call RadixTree.new es t → ∀ k : BitVec 32,
      t.search k = .ok ((longestMatch (lastAdded es) (bits k)).getD "") := by
  intro h
  have hrun : Trace Call RadixTree.new ([] ++ [⟨.add .zeroes2, none⟩] ++
      [⟨.delete .zeroes2, none⟩] ++ [⟨.add .zeroes1, none⟩]) _ :=
    .snoc (.snoc (.snoc .nil rfl) rfl) rfl
  have hsearch := h _ _ hrun 0x40000000
  revert hsearch
  decide

end Cheryl.Acl
