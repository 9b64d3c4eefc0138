/-!
Strictly ascending lists, entered by key. An item with the key of an item already present takes
its place, so a list of pairs acts as a dictionary and a list of bare keys as an ordered set.
-/

namespace PrincipalForm

/-- Any two different keys are ordered one way, no key comes before itself, and the order is
transitive. -/
class KeyOrder (Key : Type) [LT Key] : Prop where
  irrefl : ∀ key : Key, ¬ key < key
  trans : ∀ {low middle high : Key}, low < middle → middle < high → low < high
  connected : ∀ left right : Key, left < right ∨ left = right ∨ right < left

namespace Ascending

section Lookup

variable {Key : Type} [DecidableEq Key]

theorem lookup_cons {Value : Type} (key : Key) (first : Key × Value)
    (rest : List (Key × Value)) :
    (first :: rest).lookup key = if key = first.1 then some first.2 else rest.lookup key := by
  change (match key == first.1 with
    | true => some first.2
    | false => rest.lookup key) = _
  by_cases same : key = first.1
  · rw [if_pos same, beq_iff_eq.mpr same]
  · rw [if_neg same, beq_eq_false_iff_ne.mpr same]

end Lookup

variable {Key Item : Type} [LT Key]

def Sorted (key : Item → Key) (items : List Item) : Prop :=
  items.Pairwise fun left right => key left < key right

instance [DecidableLT Key] (key : Item → Key) (items : List Item) : Decidable (Sorted key items) :=
  inferInstanceAs (Decidable (items.Pairwise fun left right => key left < key right))

theorem nodup [KeyOrder Key] {keys : List Key} (sorted : Sorted id keys) : keys.Nodup := by
  apply sorted.imp
  rintro key _ before rfl
  exact KeyOrder.irrefl key before

theorem eq_of_mem_iff [KeyOrder Key] {key : Item → Key} {left right : List Item}
    (leftSorted : Sorted key left) (rightSorted : Sorted key right)
    (same : ∀ item, item ∈ left ↔ item ∈ right) : left = right := by
  induction left generalizing right with
  | nil =>
      cases right with
      | nil => rfl
      | cons first rest => exact absurd ((same first).mpr List.mem_cons_self) List.not_mem_nil
  | cons first rest ih =>
      cases right with
      | nil => exact absurd ((same first).mp List.mem_cons_self) List.not_mem_nil
      | cons other later =>
          have here := List.pairwise_cons.mp leftSorted
          have there := List.pairwise_cons.mp rightSorted
          have heads : first = other := by
            rcases List.mem_cons.mp ((same first).mp List.mem_cons_self) with equal | below
            · exact equal
            · rcases List.mem_cons.mp ((same other).mpr List.mem_cons_self) with equal | above
              · exact equal.symm
              · exact absurd (KeyOrder.trans (there.1 first below) (here.1 other above))
                  (KeyOrder.irrefl (key other))
          subst heads
          have tails : ∀ item, item ∈ rest ↔ item ∈ later := by
            intro item
            constructor
            · intro member
              rcases List.mem_cons.mp ((same item).mp (List.mem_cons_of_mem first member)) with
                equal | kept
              · exact absurd (here.1 item member) (equal ▸ KeyOrder.irrefl (key first))
              · exact kept
            · intro member
              rcases List.mem_cons.mp ((same item).mpr (List.mem_cons_of_mem first member)) with
                equal | kept
              · exact absurd (there.1 item member) (equal ▸ KeyOrder.irrefl (key first))
              · exact kept
          rw [ih here.2 there.2 tails]

section Dictionary

variable [DecidableEq Key]

theorem lookup_eq_some_iff [KeyOrder Key] {Value : Type} (entries : List (Key × Value))
    (sorted : Sorted Prod.fst entries) (key : Key) (value : Value) :
    entries.lookup key = some value ↔ (key, value) ∈ entries := by
  induction entries with
  | nil => simp
  | cons first rest ih =>
      have parts := List.pairwise_cons.mp sorted
      rw [lookup_cons, List.mem_cons]
      by_cases head : key = first.1
      · have fresh : (key, value) ∉ rest := fun later =>
          KeyOrder.irrefl key (head ▸ parts.1 (key, value) later)
        simp [head, head ▸ fresh, Prod.ext_iff, eq_comm]
      · simp [head, ih parts.2, Prod.ext_iff]

theorem eq_of_lookup [KeyOrder Key] {Value : Type} {left right : List (Key × Value)}
    (leftSorted : Sorted Prod.fst left) (rightSorted : Sorted Prod.fst right)
    (same : ∀ key, left.lookup key = right.lookup key) : left = right := by
  refine eq_of_mem_iff leftSorted rightSorted ?_
  rintro ⟨key, value⟩
  rw [← lookup_eq_some_iff left leftSorted, same, lookup_eq_some_iff right rightSorted]

end Dictionary

section Entering

variable [DecidableLT Key] [DecidableEq Key]

def enter (key : Item → Key) (item : Item) : List Item → List Item
  | [] => [item]
  | first :: rest =>
      if key item < key first then item :: first :: rest
      else if key item = key first then item :: rest
      else first :: enter key item rest

theorem mem_enter (key : Item → Key) (item other : Item) (items : List Item)
    (member : other ∈ enter key item items) : other = item ∨ other ∈ items := by
  induction items with
  | nil => simpa [enter] using member
  | cons first rest ih =>
      simp only [enter] at member
      split at member
      · simpa using member
      · split at member
        · rcases List.mem_cons.mp member with same | later
          · exact Or.inl same
          · exact Or.inr (List.mem_cons_of_mem first later)
        · rcases List.mem_cons.mp member with same | later
          · exact Or.inr (by simp [same])
          · rcases ih later with same | old
            · exact Or.inl same
            · exact Or.inr (List.mem_cons_of_mem first old)

theorem enter_sorted [KeyOrder Key] (key : Item → Key) (item : Item) (items : List Item)
    (sorted : Sorted key items) : Sorted key (enter key item items) := by
  induction items with
  | nil => simp [enter, Sorted]
  | cons first rest ih =>
      have parts := List.pairwise_cons.mp sorted
      simp only [enter]
      split
      next before =>
        refine List.pairwise_cons.mpr ⟨fun other member => ?_, sorted⟩
        rcases List.mem_cons.mp member with same | later
        · exact same ▸ before
        · exact KeyOrder.trans before (parts.1 other later)
      next notBefore =>
        split
        next same =>
          exact List.pairwise_cons.mpr ⟨fun other member => same ▸ parts.1 other member, parts.2⟩
        next different =>
          refine List.pairwise_cons.mpr ⟨fun other member => ?_, ih parts.2⟩
          rcases mem_enter key item other rest member with same | old
          · subst same
            rcases KeyOrder.connected (key first) (key other) with after | equal | before
            · exact after
            · exact absurd equal.symm different
            · exact absurd before notBefore
          · exact parts.1 other old

theorem mem_enter_iff (item other : Key) (items : List Key) :
    other ∈ enter id item items ↔ other = item ∨ other ∈ items := by
  refine ⟨mem_enter id item other items, ?_⟩
  induction items with
  | nil =>
      rintro (same | absurdity)
      · simp [enter, same]
      · cases absurdity
  | cons first rest ih =>
      intro known
      simp only [enter, id_eq]
      split
      · simpa using known
      · split
        next same =>
          rcases known with new | old
          · simp [new]
          · rcases List.mem_cons.mp old with head | later
            · simp [head, same]
            · exact List.mem_cons_of_mem item later
        next =>
          rcases known with new | old
          · exact List.mem_cons_of_mem first (ih (Or.inl new))
          · rcases List.mem_cons.mp old with head | later
            · simp [head]
            · exact List.mem_cons_of_mem first (ih (Or.inr later))

theorem lookup_enter {Value : Type} (key other : Key) (value : Value)
    (entries : List (Key × Value)) :
    (enter Prod.fst (key, value) entries).lookup other =
      if other = key then some value else entries.lookup other := by
  induction entries with
  | nil => exact lookup_cons other (key, value) []
  | cons first rest ih =>
      simp only [enter]
      split
      · exact lookup_cons other (key, value) (first :: rest)
      · split
        next equal =>
          rw [lookup_cons, lookup_cons]
          by_cases same : other = key
          · simp [same]
          · have different : other ≠ first.1 := fun found => same (found.trans equal.symm)
            simp [same, different]
        next distinct =>
          rw [lookup_cons, lookup_cons, ih]
          by_cases head : other = first.1
          · have different : other ≠ key := fun found => distinct (found.symm.trans head)
            simp [head, Ne.symm distinct]
          · simp [head]

end Entering

end Ascending

end PrincipalForm
