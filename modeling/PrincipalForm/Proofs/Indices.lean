import Mathlib.Order.Interval.Finset.Nat
import PrincipalForm.Proofs.Multiplicity

/-!
Indices of valuations. An index is read bit by bit, the place of a letter saying which bit is the letter's,
and a valuation is written as an index from its first letter on. Either way nothing is lost: over ascending
letters the index comes back, up to bits that no letter has, and so does every valuation.
-/

namespace PrincipalForm

namespace Letter

theorem toNat_name (letter : Letter) : 97 ≤ letter.name.toNat ∧ letter.name.toNat ≤ 122 := by
  have between : ('a'.val ≤ letter.name.val && letter.name.val ≤ 'z'.val) = true := letter.lower
  simpa [UInt32.le_iff_toNat_le, ← Char.toNat_val] using between

theorem length_le_of_nodup {letters : List Letter} (distinct : letters.Nodup) : letters.length ≤ 26 := by
  have injective : Function.Injective fun letter : Letter => letter.name.toNat := fun _ _ same =>
    eq_of_name (Char.toNat_inj.mp same)
  have within : (letters.toFinset.image fun letter => letter.name.toNat) ⊆ Finset.Icc 97 122 := by
    intro code named
    obtain ⟨letter, _, rfl⟩ := Finset.mem_image.mp named
    exact Finset.mem_Icc.mpr letter.toNat_name
  have counted := Finset.card_le_card within
  rw [Finset.card_image_of_injective _ injective, List.toFinset_card_of_nodup distinct] at counted
  exact counted

end Letter

namespace Valuation

/-- The last place of a letter decides, and the letters behind it say which bit that place has. -/
theorem get?_ofIndex_append (before : List Letter) {letter : Letter} {after : List Letter}
    (last : letter ∉ after) (index : Nat) :
    (ofIndex (before ++ letter :: after) index).get? letter = some (index.testBit after.length) := by
  induction before with
  | nil =>
      have unset : (ofIndex after index).get? letter = none := by
        rw [← Option.not_isSome_iff_eq_none, ← mem_letters_iff, mem_letters_ofIndex]
        exact last
      rw [List.nil_append, ofIndex_cons, get?_supply, unset, if_pos rfl, Option.none_or]
  | cons first rest ih =>
      rw [List.cons_append, ofIndex_cons, get?_supply, ih, Option.some_or]

theorem get?_ofIndex {letters : List Letter} {place : Nat} {letter : Letter}
    (here : letters[place]? = some letter) (last : letter ∉ letters.drop (place + 1)) (index : Nat) :
    (ofIndex letters index).get? letter = some (index.testBit (letters.length - 1 - place)) := by
  obtain ⟨within, rfl⟩ := List.getElem?_eq_some_iff.mp here
  have parted : letters.take place ++ letters[place] :: letters.drop (place + 1) = letters := by
    rw [List.getElem_cons_drop, List.take_append_drop]
  have behind : (letters.drop (place + 1)).length = letters.length - 1 - place := by
    rw [List.length_drop]
    omega
  have decided := get?_ofIndex_append (letters.take place) last index
  rw [parted, behind] at decided
  exact decided

theorem length_letters (valuation : Valuation) : valuation.letters.length = valuation.size :=
  List.length_map _

theorem size_le (valuation : Valuation) : valuation.size ≤ 26 := by
  rw [← length_letters]
  exact Letter.length_le_of_nodup (Ascending.nodup valuation.letters_sorted)

theorem index_lt_two_pow (valuation : Valuation) : valuation.index < 2 ^ valuation.size := by
  rw [← length_letters]
  exact valuation.index_lt

end Valuation

/-- An index gives values to exactly the letters of a list, to each the bit that its last place has when the
last place of the list has the lowest. Over ascending letters the index comes back without the bits above
the letters', and of every valuation the index stands for the valuation. A valuation has too few letters for
its index to outgrow a machine word. -/
theorem indices_number_valuations :
    (∀ (letters : List Letter) (index : Nat),
        (∀ letter, letter ∈ (Valuation.ofIndex letters index).letters ↔ letter ∈ letters) ∧
        (∀ (place : Nat) (letter : Letter), letters[place]? = some letter →
          letter ∉ letters.drop (place + 1) →
          (Valuation.ofIndex letters index).get? letter =
            some (index.testBit (letters.length - 1 - place))) ∧
        (Ascending.Sorted id letters →
          (Valuation.ofIndex letters index).index = index % 2 ^ letters.length)) ∧
      ∀ valuation : Valuation,
        Valuation.ofIndex valuation.letters valuation.index = valuation ∧
          valuation.index < 2 ^ valuation.size ∧ valuation.size ≤ 26 := by
  constructor
  · intro letters index
    refine ⟨Valuation.mem_letters_ofIndex letters index, ?_, Valuation.index_ofIndex letters index⟩
    exact fun place letter here last => Valuation.get?_ofIndex here last index
  · exact fun valuation =>
      ⟨valuation.ofIndex_index, valuation.index_lt_two_pow, valuation.size_le⟩

/-- Of the four bits of fourteen the letters `c`, `a` and once more `c` have the lower three, the first of
them in vain; `a` and `c` alone have the lower two. -/
theorem indices_of_repeated_letter :
    (Valuation.ofIndex [.c, .a, .c] 14).get? .c = some false ∧
      (Valuation.ofIndex [.c, .a, .c] 14).get? .a = some true ∧
      (Valuation.ofIndex [.a, .c] 14).index = 2 ∧
      Valuation.ofIndex [.a, .c] (Valuation.ofPairs [(.c, false), (.a, true)]).index =
        .ofPairs [(.c, false), (.a, true)] := by
  have sorted : Ascending.Sorted id [Letter.a, .c] := by decide
  obtain ⟨_, bits, _⟩ := indices_number_valuations.1 [.c, .a, .c] 14
  obtain ⟨_, _, back⟩ := indices_number_valuations.1 [.a, .c] 14
  refine ⟨bits 2 .c rfl (by decide), bits 1 .a rfl (by decide), back sorted, ?_⟩
  exact (indices_number_valuations.2 (.ofPairs [(.c, false), (.a, true)])).1

end PrincipalForm
