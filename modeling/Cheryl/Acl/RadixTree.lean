import Cheryl.Library.Links
import Cheryl.Utils.Net

/-!
# `acl/radix_tree.go`: the tree of denied networks

A pointer is the address of a node, `nil` is `none`. The free list of the source is threaded
through the `right` links of the nodes it holds, and `newNode` hands a node out as it is, so the
model keeps the nodes in one store and never clears a link the source does not clear.

The definitions have the names of the source's, with a small letter; only `Delete` and `Search` keep
the capital by which the source tells them from `delete` and `search`.
-/

namespace Cheryl.Acl

open Library Utils

/-! ## The data -/

def maxIpv4Bit : BitVec 32 := 0x80000000

def noValue : String := ""

def invaildIpAddress : GoError := ⟨"invaild ip address, maybe with out mask"⟩

def invaildNetMask : GoError := ⟨"invaild net mask, must in [0, 32]"⟩

def cantFindIpNet : GoError := ⟨"can't find ip"⟩

/-- `radixNode`: the links `right`, `left` and `parent`, and the `value`. -/
abbrev RadixNode := Cell String

/-- `RadixTree`. `store` holds the nodes allocated so far, below `next`; the keys of `Record` all
map to `true`. -/
structure RadixTree where
  store : Store String
  next : Nat
  root : Nat
  free : Option Nat
  record : Finset String

namespace RadixTree

/-- `&radixNode{nil, nil, nil, NO_VALUE}` -/
def blank : RadixNode := ⟨none, none, none, noValue⟩

def new : RadixTree where
  store := fun _ => blank
  next := 1
  root := 0
  free := none
  record := ∅

/-! ## Assignments to the fields of a node

The source writes through pointers, one field at a time, so each assignment is a new store that differs at
one address. -/

def modify (t : RadixTree) (a : Nat) (f : RadixNode → RadixNode) : RadixTree :=
  { t with store := Function.update t.store a (f (t.store a)) }

def setRight (t : RadixTree) (a : Nat) (o : Option Nat) : RadixTree :=
  t.modify a fun n => { n with right := o }

def setLeft (t : RadixTree) (a : Nat) (o : Option Nat) : RadixTree :=
  t.modify a fun n => { n with left := o }

def setParent (t : RadixTree) (a : Nat) (o : Option Nat) : RadixTree :=
  t.modify a fun n => { n with parent := o }

def setValue (t : RadixTree) (a : Nat) (v : String) : RadixTree :=
  t.modify a fun n => { n with value := v }

/-! ## Insertion

Both loops of `insert` test `bit & mask` and shift `bit` to the right. The model counts their rounds, as a
recursion must end, and 33 are enough: after 32 shifts `bit` is zero. -/

/-- `newNode`: the first node of the free list, links and value as they are, or a fresh one. -/
def newNode (t : RadixTree) : Nat × RadixTree :=
  match t.free with
  | some node => (node, { t with free := (t.store node).right })
  | none => (t.next, { t with store := Function.update t.store t.next blank, next := t.next + 1 })

/-- The first loop of `insert`: descend while the mask has bits and the tree has nodes. It ends
with `bit`, `node` and `next`; `bit` is zero after 32 shifts, so 33 rounds are always enough. -/
def insertDescend (store : Store String) (key mask : BitVec 32) :
    Nat → BitVec 32 → Nat → Option Nat → BitVec 32 × Nat × Option Nat
  | 0, bit, node, next => (bit, node, next)
  | rounds + 1, bit, node, next =>
      if bit &&& mask ≠ 0#32 then
        match if key &&& bit ≠ 0#32 then (store node).right else (store node).left with
        | none => (bit, node, none)
        | some next => insertDescend store key mask rounds (bit >>> 1) next (some next)
      else (bit, node, next)

/-- The second loop of `insert`: hang new nodes below `node` for the remaining bits. -/
def insertExtend (key mask : BitVec 32) : Nat → BitVec 32 → Nat → RadixTree → Nat × RadixTree
  | 0, _, node, t => (node, t)
  | rounds + 1, bit, node, t =>
      if bit &&& mask ≠ 0#32 then
        let (next, t) := t.newNode
        let t := (t.setParent next (some node)).setValue next noValue
        let t := if key &&& bit ≠ 0#32 then t.setRight node (some next) else t.setLeft node (some next)
        insertExtend key mask rounds (bit >>> 1) next t
      else (node, t)

def insert (t : RadixTree) (key mask : BitVec 32) (value : String) : RadixTree :=
  match insertDescend t.store key mask 33 maxIpv4Bit t.root (some t.root) with
  | (_, node, some _) => t.setValue node value
  | (bit, node, none) =>
      let (node, t) := insertExtend key mask 33 bit node t
      t.setValue node value

/-- `((1 << (32 - cidr)) - 1) ^ 0xffffffff`, for a shift count that is not negative. -/
def netMaskOf (shift : Int) : BitVec 32 := (1#32 <<< shift.toNat - 1#32) ^^^ 0xffffffff#32

/-- `Add`. The mask of the text is not checked, so a shift count below zero panics, and one above 32 is
possible. -/
def add (t : RadixTree) (ipNet value : String) : Except Fault (Option GoError × RadixTree) :=
  let strs := split ipNet '/'
  match inetToi (strs.headD "") with
  | .error fault => .error fault
  | .ok (.error _) => .ok (some invaildIpAddress, t)
  | .ok (.ok ip) =>
      match strs with
      | _ :: mask :: _ =>
          match atoi mask with
          | .error err => .ok (some err, t)
          | .ok cidr =>
              if wrap64 (32 - cidr) < 0 then .error .negativeShift
              else
                let t := t.insert ip (netMaskOf (wrap64 (32 - cidr))) value
                .ok (none, { t with record := Insert.insert ipNet t.record })
      | _ => .ok (some invaildIpAddress, t)

/-! ## Search

`search` does not look at a mask. It follows the key as long as there are nodes and remembers the last value
it has seen, also below depth 32, where `bit` is zero. -/

/-- The loop of `search`. When the rounds run out the walk goes on for ever: `bit` is zero from
the 33rd round on, so it follows `left` links only and has met a node twice. -/
def searchLoop (store : Store String) (key : BitVec 32) :
    Nat → BitVec 32 → Option Nat → String → Except Fault String
  | _, _, none, value => .ok value
  | 0, _, some _, _ => .error .hang
  | rounds + 1, bit, some node, value =>
      searchLoop store key rounds (bit >>> 1)
        (if key &&& bit ≠ 0#32 then (store node).right else (store node).left)
        (if (store node).value ≠ noValue then (store node).value else value)

def search (t : RadixTree) (key : BitVec 32) : Except Fault String :=
  searchLoop t.store key (33 + t.next) maxIpv4Bit (some t.root) noValue

/-- `Search`: an address that does not parse is searched as 0. -/
def Search (t : RadixTree) (ip : String) : Except Fault String :=
  match inetToi ip with
  | .error fault => .error fault
  | .ok (.error _) => t.search 0
  | .ok (.ok i) => t.search i

def accessControl (t : RadixTree) (ipAddress : String) : Except Fault Bool :=
  (t.Search ((split ipAddress ':').headD "")).map fun ret => decide (ret ≠ "")

/-! ## Deletion

`delete` answers whether it has changed the tree. It frees a leaf and the nodes above it that are of no more
use, but it does not look at the value of a leaf. -/

/-- The first loop of `delete`. -/
def deleteDescend (store : Store String) (key mask : BitVec 32) :
    Nat → BitVec 32 → Option Nat → Option Nat
  | 0, _, node => node
  | _ + 1, _, none => none
  | rounds + 1, bit, some node =>
      if bit &&& mask ≠ 0#32 then
        deleteDescend store key mask rounds (bit >>> 1)
          (if key &&& bit ≠ 0#32 then (store node).right else (store node).left)
      else some node

/-- The second loop of `delete`: unlink `node`, put it on the free list, and go on with its
parent while that one is left without children and value. -/
def deletePrune : Nat → RadixTree → Nat → Except Fault RadixTree
  | 0, _, _ => .error .hang
  | rounds + 1, t, node =>
      match (t.store node).parent with
      | none => .error .nilDereference
      | some parent =>
          let t := if (t.store parent).right = some node then t.setRight parent none
            else t.setLeft parent none
          let t := t.setRight node t.free
          let t := { t with free := some node }
          if (t.store parent).right ≠ none ∨ (t.store parent).left ≠ none then .ok t
          else if (t.store parent).value ≠ noValue then .ok t
          else if (t.store parent).parent = none then .ok t
          else deletePrune rounds t parent

def delete (t : RadixTree) (key mask : BitVec 32) : Except Fault (Bool × RadixTree) :=
  match deleteDescend t.store key mask 33 maxIpv4Bit (some t.root) with
  | none => .ok (false, t)
  | some node =>
      if (t.store node).right ≠ none ∨ (t.store node).left ≠ none then
        if (t.store node).value ≠ noValue then .ok (true, t.setValue node noValue)
        else .ok (false, t)
      else (deletePrune t.next t node).map fun t => (true, t)

def Delete (t : RadixTree) (ipNet : String) : Except Fault (Option GoError × RadixTree) :=
  let strs := split ipNet '/'
  match inetToi (strs.headD "") with
  | .error fault => .error fault
  | .ok (.error _) => .ok (some invaildIpAddress, t)
  | .ok (.ok ip) =>
      match strs with
      | _ :: mask :: _ =>
          match atoi mask with
          | .error _ => .ok (some invaildNetMask, t)
          | .ok cidr =>
              if cidr < 0 ∨ cidr > 32 then .ok (some invaildNetMask, t)
              else
                match t.delete ip (netMaskOf (32 - cidr)) with
                | .error fault => .error fault
                | .ok (true, t) => .ok (none, { t with record := t.record.erase ipNet })
                | .ok (false, t) => .ok (some cantFindIpNet, t)
      | _ => .ok (some invaildIpAddress, t)

/-- `GetBlackList` lists the keys of `Record`, in some order. -/
def getBlackList (t : RadixTree) : Finset String := t.record

end RadixTree

end Cheryl.Acl
