import KeyValueStore.Lib.OrderedSet
import KeyValueStore.Lib.Runs
import KeyValueStore.Submission.Directory
import KeyValueStore.TestDirector.Checker

/-! # `tsearch.h`, `tsearch.cpp`

The search tree for a platform that has none, on a `std::set` whose order asks whether the
comparison returned -1.  Comparisons may return any negative number for "less"; the tree
behaves as one for exactly those that return no other (`tree_iff_minus_one`). -/

namespace KeyValueStore.Tsearch

open Runs OrderedSet

variable {Item : Type}

/-- A node and its address. -/
structure TNode (Item : Type) where
  address : Nat
  data : Item
deriving DecidableEq

structure TRoot (Item : Type) where
  nodes : List (TNode Item)
  compareNode : Item → Item → Int

/-- `operator <` of the containers of nodes. -/
def less (compareNode : Item → Item → Int) (a b : TNode Item) : Bool :=
  compareNode a.data b.data == -1

/-- The new node is at `address`; `entriesRoot` is `none` if no pointer to a root is passed,
and points to `none` if there is no tree yet. -/
def tsearch (address : Nat) (newEntry : Item) (entriesRoot : Option (Option (TRoot Item)))
    (compareNode : Item → Item → Int) : Option (TNode Item) × Option (Option (TRoot Item)) :=
  match entriesRoot with
  | none => (none, none)
  | some root =>
    let base := root.getD ⟨[], compareNode⟩
    let container : TNode Item := ⟨address, newEntry⟩
    match find (less base.compareNode) base.nodes container with
    | some node => (some node, some (some base))
    | none =>
      (some container,
        some (some { base with nodes := insert (less base.compareNode) base.nodes container }))

/-- The comparison of the root counts, not the one passed.  The address of `dummy` plays no
part. -/
def tfind (newEntry : Item) (entriesRoot : Option (Option (TRoot Item)))
    (_compareNode : Item → Item → Int) : Option (TNode Item) :=
  match entriesRoot with
  | none | some none => none
  | some (some base) =>
    let dummy : TNode Item := ⟨0, newEntry⟩
    find (less base.compareNode) base.nodes dummy

/-- Of the node that is returned only the address is left. -/
def tdelete (entry : Item) (entriesRoot : Option (Option (TRoot Item)))
    (_compareNode : Item → Item → Int) : Option Nat × Option (Option (TRoot Item)) :=
  match entriesRoot with
  | none => (none, none)
  | some none => (none, some none)
  | some (some base) =>
    let dummy : TNode Item := ⟨0, entry⟩
    match find (less base.compareNode) base.nodes dummy with
    | none => (none, some (some base))
    | some node =>
      (some node.address,
        some (some { base with nodes := erase (less base.compareNode) base.nodes dummy }))

/-! ## Calls on one root -/

inductive Call (Item : Type) where
  | tsearch (address : Nat) (newEntry : Item)
  | tfind (newEntry : Item)
  | tdelete (entry : Item)

def Call.item : Call Item → Item
  | tsearch _ item | tfind item | tdelete item => item

inductive Response (Item : Type) where
  | node (node : Option (TNode Item))
  | deleted (address : Option Nat)

/-- No call faults. -/
def exec (compareNode : Item → Item → Int) (root : Option (TRoot Item)) :
    Call Item → EStateM.Result Empty (Option (TRoot Item)) (Response Item)
  | .tsearch address newEntry =>
    let (node, after) := Tsearch.tsearch address newEntry (some root) compareNode
    .ok (.node node) after.join
  | .tfind newEntry => .ok (.node (Tsearch.tfind newEntry (some root) compareNode)) root
  | .tdelete entry =>
    let (address, after) := Tsearch.tdelete entry (some root) compareNode
    .ok (.deleted address) after.join

/-- The nodes of the tree at a root. -/
def nodesOf (root : Option (TRoot Item)) : List (TNode Item) :=
  (root.map TRoot.nodes).getD []

/-! ## What a search tree is -/

/-- What `tsearch` asks of a comparison: its sign orders the items. -/
structure Legal (compareNode : Item → Item → Int) : Prop where
  swap : ∀ a b, compareNode a b < 0 ↔ 0 < compareNode b a
  trans : ∀ a b c, compareNode a b ≤ 0 → compareNode b c ≤ 0 → compareNode a c ≤ 0

/-- The node that an item finds, if one that compares equal was inserted. -/
abbrev Present (Item : Type) := Item → Option (TNode Item)

/-- The first item inserted stays until one that compares equal is deleted. -/
def record (compareNode : Item → Item → Int) (present : Present Item) (call : Call Item)
    (_ : Response Item) : Present Item :=
  match call with
  | .tsearch address x =>
    if present x = none then
      fun y => if compareNode y x = 0 then some ⟨address, x⟩ else present y
    else present
  | .tfind _ => present
  | .tdelete x => fun y => if compareNode y x = 0 then none else present y

def Answers (present : Present Item) : Call Item → Response Item → Prop
  | .tsearch address x, response => response = .node (some ((present x).getD ⟨address, x⟩))
  | .tfind x, response => response = .node (present x)
  | .tdelete x, response => response = .deleted ((present x).map TNode.address)

/-- Every response is that of a search tree, and the tree has the nodes it should. -/
def BehavesAsTree (compareNode : Item → Item → Int) (calls : List (Call Item)) : Prop :=
  ∃ responses last, run (exec compareNode) none calls = .ok responses last ∧
    Conforms (record compareNode) Answers (fun _ => none) calls responses ∧
    ∀ node, node ∈ nodesOf last ↔
      track (record compareNode) (fun _ => none) calls responses node.data = some node

/-! ## The comparison as an order -/

section Legal

variable {compareNode : Item → Item → Int} {a b c : Item}

theorem Legal.refl (legal : Legal compareNode) (a : Item) : compareNode a a = 0 := by
  have swapped := legal.swap a a
  omega

theorem Legal.eq_symm (legal : Legal compareNode) : compareNode a b = 0 ↔ compareNode b a = 0 := by
  have there := legal.swap a b
  have back := legal.swap b a
  omega

theorem Legal.eq_trans (legal : Legal compareNode) (first : compareNode a b = 0)
    (second : compareNode b c = 0) : compareNode a c = 0 := by
  have upper := legal.trans a b c (by omega) (by omega)
  have lower := legal.trans c b a (legal.eq_symm.mp second).le (legal.eq_symm.mp first).le
  have swapped := legal.swap a c
  omega

theorem Legal.lt_trans (legal : Legal compareNode) (first : compareNode a b < 0)
    (second : compareNode b c < 0) : compareNode a c < 0 := by
  have upper := legal.trans a b c first.le second.le
  have back := legal.trans b c a second.le
  have swapped := legal.swap c a
  have swapped' := legal.swap a b
  have symm := @Legal.eq_symm _ _ a c legal
  omega

/-- No comparison of these items returns a negative number other than -1. -/
def MinusOneWithin (compareNode : Item → Item → Int) (within : Set Item) : Prop :=
  ∀ a ∈ within, ∀ b ∈ within, compareNode a b < 0 → compareNode a b = -1

variable {within : Set Item}

theorem MinusOneWithin.less_iff (minusOne : MinusOneWithin compareNode within) {a b : TNode Item}
    (ha : a.data ∈ within) (hb : b.data ∈ within) :
    less compareNode a b = true ↔ compareNode a.data b.data < 0 := by
  rw [less, beq_iff_eq]
  have only := minusOne a.data ha b.data hb
  omega

theorem MinusOneWithin.equivalent_iff (minusOne : MinusOneWithin compareNode within)
    (legal : Legal compareNode) {a b : TNode Item} (ha : a.data ∈ within) (hb : b.data ∈ within) :
    Equivalent (less compareNode) a b ↔ compareNode a.data b.data = 0 := by
  rw [Equivalent, Bool.eq_false_iff, Bool.eq_false_iff, ne_eq, ne_eq, minusOne.less_iff ha hb,
    minusOne.less_iff hb ha, legal.swap b.data a.data]
  omega

/-- With -1 for every "less" the set gets the order that it needs. -/
theorem MinusOneWithin.strictWeakOn (minusOne : MinusOneWithin compareNode within)
    (legal : Legal compareNode) :
    StrictWeakOn (less compareNode) {node : TNode Item | node.data ∈ within} where
  isStrictWeakOrder :=
    { irrefl := by
        rintro ⟨a, ha⟩ below
        have same := legal.refl a.data
        rw [minusOne.less_iff ha ha] at below
        omega
      trans := by
        rintro ⟨a, ha⟩ ⟨b, hb⟩ ⟨c, hc⟩ first second
        rw [minusOne.less_iff ha hb] at first
        rw [minusOne.less_iff hb hc] at second
        exact (minusOne.less_iff ha hc).mpr (legal.lt_trans first second)
      incomp_trans := by
        rintro ⟨a, ha⟩ ⟨b, hb⟩ ⟨c, hc⟩
        simp only [Bool.not_eq_true]
        intro first second
        have first' := (minusOne.equivalent_iff legal ha hb).mp first
        have second' := (minusOne.equivalent_iff legal hb hc).mp second
        exact (minusOne.equivalent_iff legal ha hc).mpr (legal.eq_trans first' second') }

end Legal

/-! ## The tree of a run -/

/-- The tree at `root` has the nodes of `present`, in order. -/
structure Represents (compareNode : Item → Item → Int) (within : Set Item)
    (root : Option (TRoot Item)) (present : Present Item) : Prop where
  compare : ∀ base, root = some base → base.compareNode = compareNode
  inside : ∀ node ∈ nodesOf root, node.data ∈ within
  sorted : (nodesOf root).Pairwise fun a b => less compareNode a b = true
  named : ∀ x node, present x = some node ↔ node ∈ nodesOf root ∧ compareNode node.data x = 0

section Step

variable {compareNode : Item → Item → Int} {within : Set Item} {root : Option (TRoot Item)}
  {present : Present Item} {x : Item}

/-- What the set finds. -/
theorem Represents.find_eq (represents : Represents compareNode within root present)
    (legal : Legal compareNode) (minusOne : MinusOneWithin compareNode within) (inside : x ∈ within)
    (address : Nat) : find (less compareNode) (nodesOf root) ⟨address, x⟩ = present x := by
  ext node
  rw [find_eq_some (minusOne.strictWeakOn legal) represents.inside inside represents.sorted,
    represents.named]
  constructor
  · rintro ⟨member, same⟩
    exact ⟨member, (minusOne.equivalent_iff legal (represents.inside node member) inside).mp same⟩
  · rintro ⟨member, same⟩
    exact ⟨member, (minusOne.equivalent_iff legal (represents.inside node member) inside).mpr same⟩

theorem Represents.inserted (represents : Represents compareNode within root present)
    (legal : Legal compareNode) (minusOne : MinusOneWithin compareNode within) (inside : x ∈ within)
    {address : Nat} (absent : present x = none) :
    Represents compareNode within
      (some ⟨insert (less compareNode) (nodesOf root) ⟨address, x⟩, compareNode⟩)
      (fun y => if compareNode y x = 0 then some ⟨address, x⟩ else present y) := by
  have missing := represents.find_eq legal minusOne inside address
  rw [absent] at missing
  have members : ∀ node : TNode Item, node ∈ insert (less compareNode) (nodesOf root) ⟨address, x⟩ ↔
      node = ⟨address, x⟩ ∨ node ∈ nodesOf root := fun node => mem_insert missing
  refine ⟨by rintro _ ⟨⟩; rfl, ?_, ?_, ?_⟩
  · intro node member
    rcases (members node).mp member with rfl | old
    · exact inside
    · exact represents.inside node old
  · exact sorted_insert (minusOne.strictWeakOn legal) represents.inside inside represents.sorted missing
  · intro y node
    show _ ↔ node ∈ insert _ _ _ ∧ _
    rw [members]
    by_cases same : compareNode y x = 0
    · rw [if_pos same, Option.some.injEq]
      constructor
      · rintro rfl
        exact ⟨.inl rfl, legal.eq_symm.mp same⟩
      · rintro ⟨rfl | old, equal⟩
        · rfl
        · -- An old node that compares equal would have been found.
          have found := (represents.named x node).mpr ⟨old, legal.eq_trans equal same⟩
          rw [absent] at found
          cases found
    · rw [if_neg same, represents.named]
      constructor
      · rintro ⟨old, equal⟩
        exact ⟨.inr old, equal⟩
      · rintro ⟨rfl | old, equal⟩
        · exact absurd (legal.eq_symm.mp equal) same
        · exact ⟨old, equal⟩

theorem Represents.deleted (represents : Represents compareNode within root present)
    (legal : Legal compareNode) (minusOne : MinusOneWithin compareNode within) (inside : x ∈ within)
    {address : Nat} {found : TNode Item} (here : present x = some found) :
    Represents compareNode within
      (some ⟨erase (less compareNode) (nodesOf root) ⟨address, x⟩, compareNode⟩)
      (fun y => if compareNode y x = 0 then none else present y) := by
  have located := represents.find_eq legal minusOne inside address
  rw [here] at located
  have shorter := erase_sublist (less compareNode) (nodesOf root) ⟨address, x⟩
  refine ⟨by rintro _ ⟨⟩; rfl, ?_, represents.sorted.sublist shorter, ?_⟩
  · intro node member
    exact represents.inside node (shorter.subset member)
  · intro y node
    show _ ↔ node ∈ erase _ _ _ ∧ _
    rw [mem_erase (minusOne.strictWeakOn legal) represents.inside inside represents.sorted located]
    have equivalent : node ∈ nodesOf root →
        (Equivalent (less compareNode) node ⟨address, x⟩ ↔ compareNode node.data x = 0) :=
      fun member => minusOne.equivalent_iff legal (represents.inside node member) inside
    by_cases same : compareNode y x = 0
    · rw [if_pos same]
      refine iff_of_false nofun ?_
      rintro ⟨⟨member, different⟩, equal⟩
      exact different ((equivalent member).mpr (legal.eq_trans equal same))
    · rw [if_neg same, represents.named]
      constructor
      · rintro ⟨member, equal⟩
        refine ⟨⟨member, fun equal' => same ?_⟩, equal⟩
        exact legal.eq_trans (legal.eq_symm.mp equal) ((equivalent member).mp equal')
      · rintro ⟨⟨member, _⟩, equal⟩
        exact ⟨member, equal⟩

/-- A first `tsearch` makes the root. -/
theorem Represents.made (represents : Represents compareNode within root present) :
    Represents compareNode within (some (root.getD ⟨[], compareNode⟩)) present := by
  cases root with
  | none => exact ⟨by rintro _ ⟨⟩; rfl, represents.inside, represents.sorted, represents.named⟩
  | some base => exact represents

/-- The order that the root brings is the one of the comparison. -/
theorem Represents.searched {base : TRoot Item}
    (represents : Represents compareNode within (some base) present) (legal : Legal compareNode)
    (minusOne : MinusOneWithin compareNode within) (inside : x ∈ within) (address : Nat) :
    find (less base.compareNode) base.nodes ⟨address, x⟩ = present x := by
  rw [represents.compare base rfl]
  exact represents.find_eq legal minusOne inside address

theorem Represents.tsearch (represents : Represents compareNode within root present)
    (legal : Legal compareNode) (minusOne : MinusOneWithin compareNode within) (inside : x ∈ within)
    (address : Nat) (response : Response Item) :
    ∃ next, Tsearch.tsearch address x (some root) compareNode =
        (some ((present x).getD ⟨address, x⟩), some next) ∧
      Represents compareNode within next
        (record compareNode present (.tsearch address x) response) := by
  have represents' := represents.made
  generalize made : root.getD ⟨[], compareNode⟩ = base at represents'
  have searched := represents'.searched legal minusOne inside address
  have compare := represents'.compare base rfl
  cases here : present x with
  | none =>
    rw [here] at searched
    have added := @Represents.inserted _ _ _ _ _ _ represents' legal minusOne inside address here
    refine ⟨some { base with nodes := insert (less base.compareNode) base.nodes ⟨address, x⟩ },
      by simp only [Tsearch.tsearch, made, searched, Option.getD_none], ?_⟩
    simp only [record, here, if_true, compare]
    exact added
  | some node =>
    rw [here] at searched
    refine ⟨some base, by simp only [Tsearch.tsearch, made, searched, Option.getD_some], ?_⟩
    simp only [record, here, reduceCtorEq, if_false]
    exact represents'

theorem Represents.tfind (represents : Represents compareNode within root present)
    (legal : Legal compareNode) (minusOne : MinusOneWithin compareNode within) (inside : x ∈ within) :
    Tsearch.tfind x (some root) compareNode = present x := by
  cases root with
  | none => exact represents.find_eq legal minusOne inside 0
  | some base => exact represents.searched legal minusOne inside 0

/-- Nothing that is present compares equal to an item that finds nothing. -/
theorem Represents.record_absent (represents : Represents compareNode within root present)
    (legal : Legal compareNode) (absent : present x = none) (response : Response Item) :
    record compareNode present (.tdelete x) response = present := by
  funext y
  simp only [record]
  by_cases equal : compareNode y x = 0
  · rw [if_pos equal, eq_comm, Option.eq_none_iff_forall_ne_some]
    intro node held
    obtain ⟨member, same⟩ := (represents.named y node).mp held
    have found := (represents.named x node).mpr ⟨member, legal.eq_trans same equal⟩
    rw [absent] at found
    cases found
  · rw [if_neg equal]

theorem Represents.tdelete (represents : Represents compareNode within root present)
    (legal : Legal compareNode) (minusOne : MinusOneWithin compareNode within) (inside : x ∈ within)
    (response : Response Item) :
    ∃ next, Tsearch.tdelete x (some root) compareNode =
        ((present x).map TNode.address, some next) ∧
      Represents compareNode within next (record compareNode present (.tdelete x) response) := by
  cases root with
  | none =>
    have absent : none = present x := represents.find_eq legal minusOne inside 0
    refine ⟨none, by rw [← absent]; rfl, ?_⟩
    rw [represents.record_absent legal absent.symm]
    exact represents
  | some base =>
    have searched := represents.searched legal minusOne inside 0
    cases here : present x with
    | none =>
      rw [here] at searched
      refine ⟨some base, by simp only [Tsearch.tdelete, searched, Option.map_none], ?_⟩
      rw [represents.record_absent legal here]
      exact represents
    | some node =>
      rw [here] at searched
      have removed := @Represents.deleted _ _ _ _ _ _ represents legal minusOne inside 0 node here
      refine ⟨some { base with nodes := erase (less base.compareNode) base.nodes ⟨0, x⟩ },
        by simp only [Tsearch.tdelete, searched, Option.map_some], ?_⟩
      rw [represents.compare base rfl]
      exact removed

/-- One call. -/
theorem Represents.step (represents : Represents compareNode within root present)
    (legal : Legal compareNode) (minusOne : MinusOneWithin compareNode within) {call : Call Item}
    (inside : call.item ∈ within) :
    ∃ response next, exec compareNode root call = .ok response next ∧
      Answers present call response ∧
      Represents compareNode within next (record compareNode present call response) := by
  cases call with
  | tsearch address x =>
    have inside' : x ∈ within := inside
    obtain ⟨next, returned, represents'⟩ := represents.tsearch legal minusOne inside' address
      (.node (some ((present x).getD ⟨address, x⟩)))
    exact ⟨_, next, by rw [exec, returned]; rfl, rfl, represents'⟩
  | tfind x =>
    have inside' : x ∈ within := inside
    exact ⟨_, root, by rw [exec, represents.tfind legal minusOne inside'], rfl, represents⟩
  | tdelete x =>
    have inside' : x ∈ within := inside
    obtain ⟨next, returned, represents'⟩ := represents.tdelete legal minusOne inside'
      (.deleted ((present x).map TNode.address))
    exact ⟨_, next, by rw [exec, returned]; rfl, rfl, represents'⟩

end Step

/-! ## The nodes before and after -/

section Nodes

variable {compareNode : Item → Item → Int} {within : Set Item} {root next : Option (TRoot Item)}
  {present : Present Item} {x : Item}

theorem Represents.mem_iff (represents : Represents compareNode within root present)
    (legal : Legal compareNode) {node : TNode Item} :
    node ∈ nodesOf root ↔ present node.data = some node := by
  rw [represents.named]
  exact ⟨fun member => ⟨member, legal.refl node.data⟩, And.left⟩

theorem Represents.nodup (represents : Represents compareNode within root present)
    (legal : Legal compareNode) : (nodesOf root).Nodup := by
  refine represents.sorted.imp ?_
  rintro a _ below rfl
  rw [less, legal.refl] at below
  cases below

/-- A new node is all that is new. -/
theorem Represents.perm_inserted {address : Nat} {response : Response Item}
    (represents : Represents compareNode within root present)
    (represents' : Represents compareNode within next
      (record compareNode present (.tsearch address x) response))
    (legal : Legal compareNode) (absent : present x = none) :
    (nodesOf next).Perm (⟨address, x⟩ :: nodesOf root) := by
  have missing : ∀ {node}, node ∈ nodesOf root → compareNode node.data x ≠ 0 := by
    intro node member same
    rw [(represents.named x node).mpr ⟨member, same⟩] at absent
    cases absent
  have new : (⟨address, x⟩ : TNode Item) ∉ nodesOf root :=
    fun member => missing member (legal.refl x)
  refine (List.perm_ext_iff_of_nodup (represents'.nodup legal)
    (List.nodup_cons.mpr ⟨new, represents.nodup legal⟩)).mpr fun node => ?_
  rw [List.mem_cons, represents'.mem_iff legal]
  simp only [record, absent, if_true]
  by_cases same : compareNode node.data x = 0
  · rw [if_pos same, Option.some.injEq, eq_comm]
    exact ⟨.inl, fun either => either.resolve_right fun member => missing member same⟩
  · rw [if_neg same, ← represents.mem_iff legal]
    refine ⟨.inr, fun either => either.resolve_left ?_⟩
    rintro rfl
    exact same (legal.refl x)

/-- The node that is found is all that goes. -/
theorem Represents.perm_deleted {node : TNode Item} {response : Response Item}
    (represents : Represents compareNode within root present)
    (represents' : Represents compareNode within next
      (record compareNode present (.tdelete x) response))
    (legal : Legal compareNode) (here : present x = some node) :
    (nodesOf root).Perm (node :: nodesOf next) := by
  obtain ⟨member, equal⟩ := (represents.named x node).mp here
  have members : ∀ other, other ∈ nodesOf next ↔
      compareNode other.data x ≠ 0 ∧ other ∈ nodesOf root := by
    intro other
    rw [represents'.mem_iff legal, represents.mem_iff legal]
    simp only [record]
    by_cases same : compareNode other.data x = 0
    · simp only [same, if_true, reduceCtorEq, ne_eq, not_true_eq_false, false_and]
    · simp only [same, if_false, ne_eq, not_false_eq_true, true_and]
  have gone : node ∉ nodesOf next := fun stays => ((members node).mp stays).1 equal
  refine (List.perm_ext_iff_of_nodup (represents.nodup legal)
    (List.nodup_cons.mpr ⟨gone, represents'.nodup legal⟩)).mpr fun other => ?_
  rw [List.mem_cons, members]
  constructor
  · intro member'
    by_cases same : compareNode other.data x = 0
    · have found := (represents.named x other).mpr ⟨member', same⟩
      rw [here, Option.some.injEq] at found
      exact .inl found.symm
    · exact .inr ⟨same, member'⟩
  · rintro (rfl | ⟨_, member'⟩)
    · exact member
    · exact member'

/-- Items may be overwritten where they stand by what compares like them. -/
theorem Represents.overwritten (represents : Represents compareNode Set.univ root present)
    {write : TNode Item → TNode Item}
    (left : ∀ a ∈ nodesOf root, ∀ x, compareNode (write a).data x = compareNode a.data x)
    (right : ∀ a ∈ nodesOf root, ∀ x, compareNode x (write a).data = compareNode x a.data) :
    Represents compareNode Set.univ
      (root.map fun base => { base with nodes := base.nodes.map write })
      (fun x => (present x).map write) := by
  have nodes : nodesOf (root.map fun base => { base with nodes := base.nodes.map write }) =
      (nodesOf root).map write := by cases root <;> rfl
  refine ⟨?_, fun _ _ => Set.mem_univ _, ?_, ?_⟩
  · intro base made
    obtain ⟨base', old, rfl⟩ := Option.map_eq_some_iff.mp made
    exact represents.compare base' old
  · rw [nodes, List.pairwise_map]
    refine represents.sorted.imp_of_mem ?_
    intro a b member member' below
    rw [less, left a member, right b member']
    exact below
  · intro x node
    rw [nodes, List.mem_map, Option.map_eq_some_iff]
    constructor
    · rintro ⟨old, held, rfl⟩
      obtain ⟨member, same⟩ := (represents.named x old).mp held
      exact ⟨⟨old, member, rfl⟩, (left old member x).trans same⟩
    · rintro ⟨⟨old, member, rfl⟩, same⟩
      rw [left old member] at same
      exact ⟨old, (represents.named x old).mpr ⟨member, same⟩, rfl⟩

end Nodes

/-! ## Runs -/

section Runs

variable {compareNode : Item → Item → Int}

theorem represents_null (compareNode : Item → Item → Int) (within : Set Item) :
    Represents compareNode within none fun _ => none := by
  refine ⟨nofun, ?_, .nil, ?_⟩
  · intro node member
    cases member
  · intro x node
    refine iff_of_false nofun ?_
    rintro ⟨⟨⟩, _⟩

theorem behaves_of_minusOne (legal : Legal compareNode) {calls : List (Call Item)}
    (minusOne : MinusOneWithin compareNode {x | ∃ call ∈ calls, call.item = x}) :
    BehavesAsTree compareNode calls := by
  have permitted : Allowed (exec compareNode)
      (fun _ call => call.item ∈ {x | ∃ call ∈ calls, call.item = x}) none calls :=
    .of_mem calls _ fun _ call member => ⟨call, member, rfl⟩
  obtain ⟨responses, last, returned, conforms, represents⟩ := run_refines
    (fun represents inside => represents.step legal minusOne inside) (represents_null compareNode _)
    permitted
  refine ⟨responses, last, returned, conforms, fun node => ?_⟩
  rw [represents.named]
  have same := legal.refl node.data
  exact ⟨fun member => ⟨member, same⟩, And.left⟩

/-- A comparison that returns another negative number: the first item is found in place of
the second. -/
theorem not_behaves_of_less (legal : Legal compareNode) {a b : Item} (below : compareNode a b < 0)
    (other : compareNode a b ≠ -1) :
    ¬ BehavesAsTree compareNode [.tsearch 0 a, .tfind b] := by
  rintro ⟨responses, last, returned, conforms, _⟩
  have above := (legal.swap a b).mp below
  have different : compareNode b a ≠ 0 := by omega
  have notBelow : less compareNode (⟨0, a⟩ : TNode Item) ⟨0, b⟩ = false := by
    simp [less, other]
  have notAbove : less compareNode (⟨0, b⟩ : TNode Item) ⟨0, a⟩ = false := by
    rw [less, beq_eq_false_iff_ne]
    show compareNode b a ≠ -1
    omega
  have found : find (less compareNode) [(⟨0, a⟩ : TNode Item)] ⟨0, b⟩ = some ⟨0, a⟩ := by
    simp [find, lowerBound, notBelow, notAbove]
  have first : exec compareNode none (.tsearch 0 a) =
      .ok (.node (some ⟨0, a⟩)) (some ⟨[⟨0, a⟩], compareNode⟩) := rfl
  have second : exec compareNode (some ⟨[⟨0, a⟩], compareNode⟩) (.tfind b) =
      .ok (.node (some ⟨0, a⟩)) (some ⟨[⟨0, a⟩], compareNode⟩) := by
    simp only [exec, Tsearch.tfind, found]
  simp only [run, first, second] at returned
  cases returned
  have answer := conforms.2.1
  simp [Answers, record, different] at answer

/-- The tree behaves as a search tree in every run exactly if the comparison returns no
negative number but -1; and in a run where it does so for the items of the run. -/
theorem tree_iff_minus_one (legal : Legal compareNode) :
    ((∀ calls, BehavesAsTree compareNode calls) ↔
      ∀ a b, compareNode a b < 0 → compareNode a b = -1) ∧
    ∀ calls, MinusOneWithin compareNode {x | ∃ call ∈ calls, call.item = x} →
      BehavesAsTree compareNode calls := by
  refine ⟨⟨fun behaves a b below => ?_, fun minusOne calls => ?_⟩, fun calls minusOne => ?_⟩
  · by_contra other
    exact not_behaves_of_less legal below other (behaves _)
  · exact behaves_of_minusOne legal fun a _ b _ => minusOne a b
  · exact behaves_of_minusOne legal minusOne

end Runs

/-! ## The comparisons of the directory and of the checker -/

theorem dirEntryCompare_legal : Legal dirEntryCompare where
  swap a b := by
    simp only [dirEntryCompare, gt_iff_lt, UInt64.lt_iff_toNat_lt]
    split <;> split <;> omega
  trans a b c := by
    simp only [dirEntryCompare, gt_iff_lt, UInt64.lt_iff_toNat_lt]
    split <;> split <;> split <;> omega

theorem dirEntryCompare_minusOne (a b : DirectoryEntry) (below : dirEntryCompare a b < 0) :
    dirEntryCompare a b = -1 := by
  by_cases smaller : a.keyId < b.keyId
  · rw [dirEntryCompare, if_pos smaller]
  · rw [dirEntryCompare, if_neg smaller] at below
    split at below <;> omega

/-- The directory gets the search tree that it needs. -/
theorem directory_behaves (calls : List (Call DirectoryEntry)) :
    BehavesAsTree dirEntryCompare calls :=
  behaves_of_minusOne dirEntryCompare_legal fun a _ b _ => dirEntryCompare_minusOne a b

theorem kvNodeCompare_legal : Legal Stress.kvNodeCompare where
  swap a b := by
    rw [Stress.kvNodeCompare_eq, Stress.kvNodeCompare_eq]
    exact dirEntryCompare_legal.swap _ _
  trans a b c := by
    rw [Stress.kvNodeCompare_eq, Stress.kvNodeCompare_eq, Stress.kvNodeCompare_eq]
    exact dirEntryCompare_legal.trans _ _ _

theorem checker_behaves (calls : List (Call Stress.KvNode)) :
    BehavesAsTree Stress.kvNodeCompare calls := by
  refine behaves_of_minusOne kvNodeCompare_legal fun a _ b _ below => ?_
  rw [Stress.kvNodeCompare_eq] at below ⊢
  exact dirEntryCompare_minusOne _ _ below

theorem tree_iff_minus_one_directory :
    ((∀ calls, BehavesAsTree dirEntryCompare calls) ↔
      ∀ a b, dirEntryCompare a b < 0 → dirEntryCompare a b = -1) ∧
    ∀ calls, MinusOneWithin dirEntryCompare {x | ∃ call ∈ calls, call.item = x} →
      BehavesAsTree dirEntryCompare calls :=
  tree_iff_minus_one dirEntryCompare_legal

/-! ## A comparison that subtracts -/

theorem subtraction_legal : Legal fun a b : Int => a - b where
  swap a b := by omega
  trans a b c := by omega

/-- The tree holds 1, and finds it when asked for 3. -/
theorem subtraction_finds_other : Legal (fun a b : Int => a - b) ∧
    ¬ BehavesAsTree (fun a b : Int => a - b) [.tsearch 0 1, .tfind 3] :=
  ⟨subtraction_legal, not_behaves_of_less subtraction_legal (by decide) (by decide)⟩

end KeyValueStore.Tsearch
