import Mathlib.Data.List.TakeWhile
import Mathlib.Data.Set.Basic
import Mathlib.Order.RelClasses

/-! # `std::set`

A set as the sequence of its items, for any relation `less` on them: `find`, `insert` and
`erase` go by the lower bound of their key, the first item that is not below it.  Where `less`
is a strict weak order on the items and the keys, the sequence stays sorted and the three
functions are those of a set up to equivalence: `find_eq_some`, `mem_insert`, `mem_erase`. -/

namespace KeyValueStore.OrderedSet

variable {α : Type*}

/-- The items below the key. -/
def below (less : α → α → Bool) (items : List α) (key : α) : List α :=
  items.takeWhile fun item => less item key

/-- The items from `lower_bound(key)` on. -/
def lowerBound (less : α → α → Bool) (items : List α) (key : α) : List α :=
  items.dropWhile fun item => less item key

/-- The item at the iterator that `find(key)` returns, or `none` for `end()`. -/
def find (less : α → α → Bool) (items : List α) (key : α) : Option α :=
  match lowerBound less items key with
  | [] => none
  | item :: _ => if less key item then none else some item

/-- `insert(item)` -/
def insert (less : α → α → Bool) (items : List α) (item : α) : List α :=
  match find less items item with
  | some _ => items
  | none => below less items item ++ item :: lowerBound less items item

/-- `erase(i)` for the iterator `i` that `find(key)` returned. -/
def erase (less : α → α → Bool) (items : List α) (key : α) : List α :=
  below less items key ++ (lowerBound less items key).tail

/-- Neither is below the other. -/
def Equivalent (less : α → α → Bool) (a b : α) : Prop := less a b = false ∧ less b a = false

/-- `less` is a strict weak order on the items `within`. -/
structure StrictWeakOn (less : α → α → Bool) (within : Set α) : Prop where
  isStrictWeakOrder : IsStrictWeakOrder within fun a b => less a b = true

section Order

variable {less : α → α → Bool} {within : Set α} {a b c : α}

theorem Equivalent.symm (same : Equivalent less a b) : Equivalent less b a := ⟨same.2, same.1⟩

theorem StrictWeakOn.irrefl (order : StrictWeakOn less within) (ha : a ∈ within) :
    less a a = false :=
  Bool.eq_false_iff.mpr (order.isStrictWeakOrder.irrefl ⟨a, ha⟩)

theorem StrictWeakOn.trans (order : StrictWeakOn less within) (ha : a ∈ within) (hb : b ∈ within)
    (hc : c ∈ within) (first : less a b = true) (second : less b c = true) : less a c = true :=
  order.isStrictWeakOrder.trans ⟨a, ha⟩ ⟨b, hb⟩ ⟨c, hc⟩ first second

theorem StrictWeakOn.equivalent_trans (order : StrictWeakOn less within) (ha : a ∈ within)
    (hb : b ∈ within) (hc : c ∈ within) (first : Equivalent less a b)
    (second : Equivalent less b c) : Equivalent less a c := by
  have third := order.isStrictWeakOrder.incomp_trans ⟨a, ha⟩ ⟨b, hb⟩ ⟨c, hc⟩
  simp only [Bool.not_eq_true] at third
  exact third first second

/-- Below an item is below everything equivalent to it. -/
theorem StrictWeakOn.below_of_equivalent (order : StrictWeakOn less within) (ha : a ∈ within)
    (hb : b ∈ within) (hc : c ∈ within) (first : less a b = true) (same : Equivalent less b c) :
    less a c = true := by
  by_contra notBelow
  rw [Bool.not_eq_true] at notBelow
  cases above : less c a with
  | true =>
    have circle := order.trans hc ha hb above first
    rw [same.2] at circle
    cases circle
  | false =>
    have equal := order.equivalent_trans ha hc hb ⟨notBelow, above⟩ same.symm
    rw [equal.1] at first
    cases first

end Order

section Set

variable {less : α → α → Bool} {within : Set α} {items : List α} {key item : α}

theorem below_append_lowerBound (less : α → α → Bool) (items : List α) (key : α) :
    below less items key ++ lowerBound less items key = items :=
  List.takeWhile_append_dropWhile

theorem less_of_mem_below (member : item ∈ below less items key) : less item key = true :=
  @List.mem_takeWhile_imp α (fun item => less item key) items item member

theorem lowerBound_head {head : α} {tail : List α} (split : lowerBound less items key = head :: tail) :
    less head key = false := by
  have first := List.head?_dropWhile_not (fun item => less item key) items
  rw [show items.dropWhile (fun item => less item key) = head :: tail from split] at first
  exact first

/-- The items that are sorted from the lower bound on. -/
theorem sorted_lowerBound (sorted : items.Pairwise fun a b => less a b = true) (key : α) :
    (lowerBound less items key).Pairwise fun a b => less a b = true :=
  sorted.sublist (List.dropWhile_sublist _)

theorem mem_of_mem_lowerBound (member : item ∈ lowerBound less items key) : item ∈ items :=
  (List.dropWhile_sublist _).subset member

theorem find_of_lowerBound {head : α} {tail : List α}
    (split : lowerBound less items key = head :: tail) :
    find less items key = if less key head then none else some head := by
  rw [find, split]

/-- The item found is the one that is equivalent to the key. -/
theorem find_eq_some (order : StrictWeakOn less within) (inside : ∀ item ∈ items, item ∈ within)
    (keyInside : key ∈ within) (sorted : items.Pairwise fun a b => less a b = true) :
    find less items key = some item ↔ item ∈ items ∧ Equivalent less item key := by
  have ordered := sorted_lowerBound sorted key
  cases split : lowerBound less items key with
  | nil =>
    rw [find, split]
    refine iff_of_false nofun ?_
    rintro ⟨member, same⟩
    rw [← below_append_lowerBound less items key, split, List.append_nil] at member
    have lower := less_of_mem_below member
    rw [same.1] at lower
    cases lower
  | cons head tail =>
    have headMember : head ∈ items :=
      mem_of_mem_lowerBound (by rw [split]; exact List.mem_cons_self ..)
    have notBelow := lowerBound_head split
    rw [split, List.pairwise_cons] at ordered
    rw [find_of_lowerBound split]
    constructor
    · cases notAbove : less key head with
      | true => rintro ⟨⟩
      | false =>
        rintro ⟨⟩
        exact ⟨headMember, notBelow, notAbove⟩
    · rintro ⟨member, same⟩
      have place := member
      rw [← below_append_lowerBound less items key, split, List.mem_append, List.mem_cons] at place
      rcases place with lower | rfl | later
      · have lower := less_of_mem_below lower
        rw [same.1] at lower
        cases lower
      · rw [if_neg (by rw [same.2]; exact Bool.false_ne_true)]
      · -- The head would be below the item, so below the key.
        have lower := order.below_of_equivalent (inside head headMember) (inside item member)
          keyInside (ordered.1 item later) same
        rw [notBelow] at lower
        cases lower

theorem find_eq_none (order : StrictWeakOn less within) (inside : ∀ item ∈ items, item ∈ within)
    (keyInside : key ∈ within) (sorted : items.Pairwise fun a b => less a b = true) :
    find less items key = none ↔ ∀ item ∈ items, ¬ Equivalent less item key := by
  rw [Option.eq_none_iff_forall_ne_some]
  simp only [ne_eq, find_eq_some order inside keyInside sorted, not_and]

theorem mem_insert (absent : find less items item = none) {other : α} :
    other ∈ insert less items item ↔ other = item ∨ other ∈ items := by
  rw [insert, absent, List.mem_append, List.mem_cons]
  have place : other ∈ items ↔
      other ∈ below less items item ∨ other ∈ lowerBound less items item := by
    rw [← List.mem_append, below_append_lowerBound]
  rw [place]
  exact or_left_comm

/-- A new item goes where it keeps the order. -/
theorem sorted_insert (order : StrictWeakOn less within) (inside : ∀ item ∈ items, item ∈ within)
    (itemInside : item ∈ within) (sorted : items.Pairwise fun a b => less a b = true)
    (absent : find less items item = none) :
    (insert less items item).Pairwise fun a b => less a b = true := by
  have different := (find_eq_none order inside itemInside sorted).mp absent
  have whole := sorted
  rw [← below_append_lowerBound less items item, List.pairwise_append] at whole
  obtain ⟨lower, upper, across⟩ := whole
  have above : ∀ other ∈ lowerBound less items item, less item other = true := by
    intro other member
    cases split : lowerBound less items item with
    | nil => rw [split] at member; cases member
    | cons head tail =>
      have headMember : head ∈ items :=
        mem_of_mem_lowerBound (by rw [split]; exact List.mem_cons_self ..)
      have first : less item head = true := by
        by_contra notBelow
        rw [Bool.not_eq_true] at notBelow
        exact different head headMember ⟨lowerBound_head split, notBelow⟩
      have otherMember := mem_of_mem_lowerBound member
      rw [split, List.mem_cons] at member
      rw [split, List.pairwise_cons] at upper
      rcases member with rfl | later
      · exact first
      · exact order.trans itemInside (inside head headMember) (inside other otherMember) first
          (upper.1 other later)
  rw [insert, absent, List.pairwise_append, List.pairwise_cons]
  refine ⟨lower, ⟨above, upper⟩, ?_⟩
  intro a member b member'
  rcases List.mem_cons.mp member' with rfl | later
  · exact less_of_mem_below member
  · exact across a member b later

/-- A new item is all that is new. -/
theorem insert_perm (absent : find less items item = none) :
    (insert less items item).Perm (item :: items) := by
  have middle : (below less items item ++ item :: lowerBound less items item).Perm
      (item :: (below less items item ++ lowerBound less items item)) := List.perm_middle
  rw [below_append_lowerBound] at middle
  rw [insert, absent]
  exact middle

/-- The item found is all that goes. -/
theorem perm_erase (found : find less items key = some item) :
    items.Perm (item :: erase less items key) := by
  cases split : lowerBound less items key with
  | nil =>
    rw [find, split] at found
    cases found
  | cons head tail =>
    rw [find_of_lowerBound split] at found
    obtain rfl : head = item := by
      split at found
      · cases found
      · exact Option.some.inj found
    have middle : (below less items key ++ head :: tail).Perm
        (head :: (below less items key ++ tail)) := List.perm_middle
    rw [← split, below_append_lowerBound] at middle
    rw [erase, split]
    exact middle

theorem erase_sublist (less : α → α → Bool) (items : List α) (key : α) :
    (erase less items key).Sublist items := by
  have shorter := (List.Sublist.refl (below less items key)).append
    (List.tail_sublist (lowerBound less items key))
  rw [below_append_lowerBound] at shorter
  exact shorter

/-- The item found goes, and every other stays. -/
theorem mem_erase (order : StrictWeakOn less within) (inside : ∀ item ∈ items, item ∈ within)
    (keyInside : key ∈ within) (sorted : items.Pairwise fun a b => less a b = true)
    (found : find less items key = some item) {other : α} :
    other ∈ erase less items key ↔ other ∈ items ∧ ¬ Equivalent less other key := by
  obtain ⟨member, same⟩ := (find_eq_some order inside keyInside sorted).mp found
  have ordered := sorted_lowerBound sorted key
  rw [erase, List.mem_append]
  have place : other ∈ items ↔ other ∈ below less items key ∨ other ∈ lowerBound less items key := by
    rw [← List.mem_append, below_append_lowerBound]
  cases split : lowerBound less items key with
  | nil =>
    rw [find, split] at found
    cases found
  | cons head tail =>
    rw [find_of_lowerBound split] at found
    rw [split, List.pairwise_cons] at ordered
    rw [split] at place
    obtain rfl : head = item := by
      split at found
      · cases found
      · exact Option.some.inj found
    rw [List.tail_cons, place, List.mem_cons]
    constructor
    · rintro (lower | later)
      · refine ⟨.inl lower, fun equal => ?_⟩
        have strict := less_of_mem_below lower
        rw [equal.1] at strict
        cases strict
      · refine ⟨.inr (.inr later), fun equal => ?_⟩
        have otherMember := place.mpr (.inr (List.mem_cons_of_mem _ later))
        have equal' := order.equivalent_trans (inside _ member) keyInside (inside _ otherMember)
          same equal.symm
        have strict := ordered.1 other later
        rw [equal'.1] at strict
        cases strict
    · rintro ⟨lower | rfl | later, different⟩
      · exact .inl lower
      · exact absurd same different
      · exact .inr later

end Set

end KeyValueStore.OrderedSet
