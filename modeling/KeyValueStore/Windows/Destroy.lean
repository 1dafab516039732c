import Mathlib.Tactic.Abel
import KeyValueStore.Lib.Resources
import KeyValueStore.Windows.Tsearch

/-! # The end of a tree

`tdestroy`, and what `tsearch.cpp` has on the heap.  Whatever was called on a root,
`tdestroy` hands each item that is present to `free_node`, once, and leaves no node and no
root behind (`tdestroy_frees`). -/

namespace KeyValueStore.Tsearch

open Runs OrderedSet Resources

variable {Item : Type}

inductive Cell where
  | root
  | node (address : Nat)
deriving DecidableEq

def TNode.cell (node : TNode Item) : Cell := .node node.address

/-- What is on the heap for a tree. -/
def cells : Option (TRoot Item) → Multiset Cell
  | none => 0
  | some base => {.root} + Multiset.ofList (base.nodes.map TNode.cell)

/-- The loop of `tdestroy`: the items that `free_node` gets. -/
def destroyNodes : List (TNode Item) → List Item × Footprint Cell
  | [] => ([], .none)
  | node :: nodes =>
    let (freed, uses) := destroyNodes nodes
    (node.data :: freed, Footprint.append ⟨[.release {node.cell}], 0⟩ uses)

def tdestroy : Option (TRoot Item) → List Item × Footprint Cell
  | none => ([], .none)
  | some base =>
    let (freed, uses) := destroyNodes base.nodes
    (freed, uses.append ⟨[.release {.root}], 0⟩)

/-- A first `tsearch` makes the root. -/
def rootFootprint : Option (TRoot Item) → Footprint Cell
  | none => ⟨[.acquire {.root}], 0⟩
  | some _ => .none

/-- What a call uses of the heap. -/
def footprint (compareNode : Item → Item → Int) (root : Option (TRoot Item)) :
    Call Item → Footprint Cell
  | .tsearch address newEntry =>
    let base := root.getD ⟨[], compareNode⟩
    let container : TNode Item := ⟨address, newEntry⟩
    (rootFootprint root).append <|
      match find (less base.compareNode) base.nodes container with
      -- The new node is not needed.
      | some _ => ⟨[.acquire {container.cell}, .release {container.cell}], 0⟩
      | none => ⟨[.acquire {container.cell}], 0⟩
  | .tfind _ => .none
  | .tdelete entry =>
    match root with
    | none => .none
    | some base =>
      match find (less base.compareNode) base.nodes ⟨0, entry⟩ with
      | none => .none
      | some node => ⟨[.release {node.cell}], 0⟩

/-! ## One call -/

theorem destroyNodes_takes (nodes : List (TNode Item)) :
    (destroyNodes nodes).2.Takes (Multiset.ofList (nodes.map TNode.cell)) 0 ∧
      (destroyNodes nodes).1 = nodes.map TNode.data ∧ (destroyNodes nodes).2.loses = 0 := by
  induction nodes with
  | nil => exact ⟨rfl, rfl, rfl⟩
  | cons node nodes ih =>
    obtain ⟨takes, freed, kept⟩ := ih
    have first : (⟨[.release {node.cell}], 0⟩ : Footprint Cell).Takes
        (Multiset.ofList (nodes.map TNode.cell) + {node.cell})
        (Multiset.ofList (nodes.map TNode.cell)) := by
      simp only [Footprint.Takes, account_release, account_nil, add_zero]
    rw [add_comm, Multiset.singleton_add, Multiset.cons_coe] at first
    refine ⟨first.append takes, ?_, ?_⟩
    · simp only [destroyNodes, freed, List.map_cons]
    · simp only [destroyNodes, Footprint.append_loses, kept, add_zero]

theorem tdestroy_takes (root : Option (TRoot Item)) :
    (tdestroy root).2.Takes (cells root) 0 ∧ (tdestroy root).1 = (nodesOf root).map TNode.data ∧
      (tdestroy root).2.loses = 0 := by
  cases root with
  | none => exact ⟨rfl, rfl, rfl⟩
  | some base =>
    obtain ⟨takes, freed, kept⟩ := destroyNodes_takes base.nodes
    have last : (⟨[.release {.root}], 0⟩ : Footprint Cell).Takes (0 + {.root}) 0 := by
      simp only [Footprint.Takes, account_release, account_nil, add_zero]
    have framed := takes.frame {.root}
    rw [add_comm] at framed
    refine ⟨framed.append last, freed, ?_⟩
    simp only [tdestroy, Footprint.append_loses, kept, add_zero]

/-- A tree with one node more. -/
theorem cells_perm {base : TRoot Item} {nodes : List (TNode Item)} {node : TNode Item}
    (perm : nodes.Perm (node :: base.nodes)) (compareNode : Item → Item → Int) :
    cells (some ⟨nodes, compareNode⟩) = cells (some base) + {node.cell} := by
  have more : Multiset.ofList (nodes.map TNode.cell) =
      {node.cell} + Multiset.ofList (base.nodes.map TNode.cell) := by
    rw [Multiset.singleton_add, Multiset.cons_coe, ← List.map_cons]
    exact Multiset.coe_eq_coe.mpr (perm.map TNode.cell)
  simp only [cells, more]
  abel

theorem rootFootprint_takes (root : Option (TRoot Item)) (compareNode : Item → Item → Int) :
    (rootFootprint root).Takes (cells root) (cells (some (root.getD ⟨[], compareNode⟩))) ∧
      (rootFootprint root).loses = 0 := by
  cases root with
  | none => exact ⟨rfl, rfl⟩
  | some base => exact ⟨Footprint.takes_none, rfl⟩

/-- The tree takes and gives back what it should, even with a comparison for which it is none. -/
theorem footprint_takes {compareNode : Item → Item → Int} {root next : Option (TRoot Item)}
    {call : Call Item} {response : Response Item}
    (returned : exec compareNode root call = .ok response next) :
    (footprint compareNode root call).Takes (cells root) (cells next) ∧
      (footprint compareNode root call).loses = 0 := by
  cases call with
  | tsearch address x =>
    have makes := rootFootprint_takes root compareNode
    simp only [footprint]
    simp only [exec, Tsearch.tsearch] at returned
    generalize root.getD ⟨[], compareNode⟩ = base at makes returned ⊢
    cases searched : find (less base.compareNode) base.nodes ⟨address, x⟩ with
    | some node =>
      rw [searched] at returned
      cases returned
      refine ⟨makes.1.append ?_, ?_⟩
      · simp only [Footprint.Takes, account_acquire, account_release, account_nil, add_zero,
          Option.join_some]
      · rw [Footprint.append_loses, makes.2, zero_add]
    | none =>
      rw [searched] at returned
      cases returned
      refine ⟨makes.1.append ?_, ?_⟩
      · rw [Option.join_some, cells_perm (insert_perm searched)]
        exact congrArg some (add_zero _).symm
      · rw [Footprint.append_loses, makes.2, zero_add]
  | tfind x =>
    cases returned
    exact ⟨Footprint.takes_none, rfl⟩
  | tdelete x =>
    cases root with
    | none =>
      cases returned
      exact ⟨Footprint.takes_none, rfl⟩
    | some base =>
      simp only [footprint]
      simp only [exec, Tsearch.tdelete] at returned
      cases searched : find (less base.compareNode) base.nodes ⟨0, x⟩ with
      | none =>
        rw [searched] at returned
        cases returned
        exact ⟨Footprint.takes_none, rfl⟩
      | some node =>
        rw [searched] at returned
        cases returned
        refine ⟨?_, rfl⟩
        have whole : cells (some base) = cells (some { base with
            nodes := erase (less base.compareNode) base.nodes ⟨0, x⟩ }) + {node.cell} :=
          @cells_perm _ ⟨_, base.compareNode⟩ _ _ (perm_erase searched) base.compareNode
        rw [whole, Option.join_some]
        simp only [Footprint.Takes, account_release, account_nil, add_zero]

theorem footprint_loses (compareNode : Item → Item → Int) (root : Option (TRoot Item))
    (call : Call Item) : (footprint compareNode root call).loses = 0 := by
  cases ended : exec compareNode root call with
  | ok response next => exact (footprint_takes ended).2
  | error fault => cases fault

/-! ## The run, and its end -/

/-- `tdestroy` at the end of a run: every item that is present is freed once, and nothing that
the tree had is left. -/
theorem tdestroy_frees {compareNode : Item → Item → Int} (legal : Legal compareNode)
    {calls : List (Call Item)}
    (minusOne : MinusOneWithin compareNode {x | ∃ call ∈ calls, call.item = x}) :
    ∃ responses last, run (exec compareNode) none calls = .ok responses last ∧
      (tdestroy last).1.Nodup ∧
      (∀ x, x ∈ (tdestroy last).1 ↔ ∃ node,
        track (record compareNode) (fun _ => none) calls responses x = some node ∧ node.data = x) ∧
      account 0 ((runFootprint (exec compareNode) (footprint compareNode) none calls).append
        (tdestroy last).2).uses = some 0 := by
  have permitted : Allowed (exec compareNode)
      (fun _ call => call.item ∈ {x | ∃ call ∈ calls, call.item = x}) none calls :=
    .of_mem calls _ fun _ call member => ⟨call, member, rfl⟩
  obtain ⟨responses, last, returned, _, represents⟩ := run_refines
    (fun represents inside => represents.step legal minusOne inside) (represents_null compareNode _)
    permitted
  obtain ⟨ends, freed, kept⟩ := tdestroy_takes last
  refine ⟨responses, last, returned, ?_, ?_, ?_⟩
  · rw [freed, List.Nodup, List.pairwise_map]
    refine represents.sorted.imp ?_
    intro a b below same
    rw [less, same, legal.refl] at below
    cases below
  · intro x
    rw [freed, List.mem_map]
    constructor
    · rintro ⟨node, member, rfl⟩
      exact ⟨node, (represents.named _ node).mpr ⟨member, legal.refl node.data⟩, rfl⟩
    · rintro ⟨node, present, same⟩
      exact ⟨node, ((represents.named x node).mp present).1, same⟩
  · have runs : (runFootprint (exec compareNode) (footprint compareNode) none calls).Takes
        (cells none) (cells last) :=
      runFootprint_takes (fun _ first => (footprint_takes first).1) permitted returned
    have loses : (runFootprint (exec compareNode) (footprint compareNode) none calls).loses = 0 :=
      (runFootprint_loses_iff (fun _ _ => False)
        (fun first => iff_of_true (footprint_takes first).2 id) returned).mpr fun _ _ => id
    have all := runs.append ends
    rw [Footprint.Takes, Footprint.append_loses, loses, kept] at all
    exact all

/-- A directory that gets two entries, and loses the first. -/
def twoEntries : List (Call DirectoryEntry) :=
  [.tsearch 0 ⟨1, 1, 0, 5⟩, .tsearch 1 ⟨2, 2, 1, 5⟩, .tdelete ⟨1, 0, 0, 0⟩]

theorem tdestroy_frees_two_entries : ∃ last : Option (TRoot DirectoryEntry),
    (tdestroy last).1.Nodup ∧
      account 0 ((runFootprint (exec dirEntryCompare) (footprint dirEntryCompare) none
        twoEntries).append (tdestroy last).2).uses = some 0 := by
  obtain ⟨_, last, _, once, _, nothing⟩ :=
    @tdestroy_frees _ dirEntryCompare dirEntryCompare_legal twoEntries
      fun a _ b _ => dirEntryCompare_minusOne a b
  exact ⟨last, once, nothing⟩

end KeyValueStore.Tsearch
