import PrincipalForm.Proofs.Parity

/-!
Normal infix is its own normal form. Between two neighbours of a normal form no conjunction is missing,
and they are not both negations, so normalizing it again finds nothing to do. Only a text of negations
that all cancel has a normal form without tokens, which is refused as a text.
-/

namespace PrincipalForm

namespace Phases

def Joined (left right : Token) : Prop := seam left right = []

theorem joined_of_not_ends {left : Token} (ends : Normal.endsOperand left = false) (right : Token) :
    Joined left right := seam_of_not_ends left right ends

/-- What calls for nothing before a negation calls for nothing before any token. -/
theorem Joined.anywhere {left : Token} (joined : Joined left .neg) (right : Token) :
    Joined left right := by
  refine joined_of_not_ends ?_ right
  cases ends : Normal.endsOperand left with
  | false => rfl
  | true => cases (seam_of_ends left .neg ends rfl).symm.trans joined

theorem head?_conjoin (tokens : List Token) : (conjoin tokens).head? = tokens.head? := by
  cases tokens with
  | nil => rfl
  | cons token rest =>
      cases rest with
      | nil => rfl
      | cons next later => rw [conjoin_cons_cons]; rfl

theorem isChain_conjoin (tokens : List Token) : (conjoin tokens).IsChain Joined := by
  induction tokens with
  | nil => exact .nil
  | cons token rest ih =>
      cases rest with
      | nil => exact .singleton token
      | cons next later =>
          rw [conjoin_cons_cons]
          cases calls : Normal.endsOperand token && Normal.startsOperand next with
          | false =>
              have joined : Joined token next := by rw [Joined, seam, calls]; rfl
              rw [joined]
              refine List.isChain_cons.mpr ⟨fun second found => ?_, ih⟩
              cases (head?_conjoin (next :: later)).symm.trans found
              exact joined
          | true =>
              -- a conjunction neither ends an operand nor starts one
              have written : seam token next = [.conj] := by rw [seam, calls]; rfl
              rw [written]
              exact .cons_cons (seam_of_not_starts token .conj rfl)
                (List.isChain_cons.mpr ⟨fun second _ => joined_of_not_ends rfl second, ih⟩)

theorem conjoin_of_isChain {tokens : List Token} (joined : tokens.IsChain Joined) :
    conjoin tokens = tokens := by
  induction tokens with
  | nil => rfl
  | cons token rest ih =>
      cases rest with
      | nil => rfl
      | cons next later =>
          obtain ⟨here, joined⟩ := List.isChain_cons_cons.mp joined
          rw [conjoin_cons_cons, here, ih joined]
          rfl

theorem subset_conjoin (tokens : List Token) : tokens ⊆ conjoin tokens := by
  induction tokens with
  | nil => exact List.nil_subset _
  | cons token rest ih =>
      cases rest with
      | nil => exact List.Subset.refl _
      | cons next later =>
          rw [conjoin_cons_cons]
          exact List.cons_subset_cons token (List.Subset.trans ih (List.subset_append_right _ _))

end Phases

namespace Normal

open Phases

structure Settled (left right : Token) : Prop where
  joined : Joined left right
  single : left = .neg → right ≠ .neg

theorem push_of_single (written : List Token) (token : Token)
    (single : written.head? = some .neg → token ≠ .neg) : push written token = token :: written := by
  by_cases negation : token = .neg
  · rw [negation]
    exact push_neg written fun newest => single newest negation
  · exact push_of_ne_neg written token negation

/-- What is written, newest first, stays settled while tokens between which no conjunction is missing are
pushed. When two negations go, what stood before them ends no operand. -/
theorem isChain_foldl_push (written tokens : List Token)
    (settled : written.IsChain fun later earlier => Settled earlier later)
    (joined : tokens.IsChain Joined)
    (meets : ∀ newest ∈ written.head?, ∀ next ∈ tokens.head?, Joined newest next) :
    (tokens.foldl push written).IsChain fun later earlier => Settled earlier later := by
  induction tokens generalizing written with
  | nil => exact settled
  | cons token rest ih =>
      obtain ⟨after, others⟩ := List.isChain_cons.mp joined
      rw [List.foldl_cons]
      by_cases pair : written.head? = some .neg ∧ token = .neg
      · obtain ⟨newest, rfl⟩ := pair
        obtain ⟨below, rfl⟩ := List.head?_eq_some_iff.mp newest
        obtain ⟨before, settled⟩ := List.isChain_cons.mp settled
        exact ih below settled others fun earlier found next _ =>
          (before earlier found).joined.anywhere next
      · rw [not_and] at pair
        rw [push_of_single written token pair]
        refine ih (token :: written) (List.isChain_cons.mpr ⟨fun newest found => ?_, settled⟩) others
          fun newest found => ?_
        · exact ⟨meets newest found token rfl, fun negation => pair (negation ▸ found)⟩
        · cases found
          exact after

theorem isChain_spell (tokens : List Token) : (spell [] tokens).IsChain Settled := by
  rw [spell_eq_foldl, List.isChain_reverse]
  exact isChain_foldl_push [] _ .nil (isChain_conjoin tokens) fun _ newest => by cases newest

theorem foldl_push_of_isChain (written tokens : List Token) (settled : tokens.IsChain Settled)
    (single : written.head? = some .neg → tokens.head? ≠ some .neg) :
    tokens.foldl push written = tokens.reverse ++ written := by
  induction tokens generalizing written with
  | nil => rfl
  | cons token rest ih =>
      obtain ⟨after, settled⟩ := List.isChain_cons.mp settled
      have pushed : push written token = token :: written :=
        push_of_single written token fun newest negation => single newest (congrArg some negation)
      rw [List.foldl_cons, pushed, ih (token :: written) settled, List.reverse_cons,
        List.append_assoc, List.singleton_append]
      intro newest next
      exact (after .neg next).single (Option.some.inj newest) rfl

theorem spell_of_isChain {tokens : List Token} (settled : tokens.IsChain Settled) :
    spell [] tokens = tokens := by
  have joined := conjoin_of_isChain (settled.imp fun _ _ => Settled.joined)
  have pushed := foldl_push_of_isChain [] tokens settled fun newest => by cases newest
  rw [spell_eq_foldl, joined, pushed, List.append_nil, List.reverse_reverse]

theorem spell_spell (tokens : List Token) : spell [] (spell [] tokens) = spell [] tokens :=
  spell_of_isChain (isChain_spell tokens)

theorem spell_replicate (count : Nat) :
    spell [] (List.replicate count .neg) = List.replicate (count % 2) .neg := by
  have joined := conjoin_of_isChain
    (List.isChain_replicate_of_rel count (joined_of_not_ends rfl Token.neg))
  rw [spell_eq_foldl, joined, foldl_push_negations count [] (by simp), List.append_nil,
    List.reverse_replicate]

/-- Only negations cancel without rest. -/
theorem eq_replicate_of_spell {tokens : List Token} (cancelled : spell [] tokens = []) :
    tokens = List.replicate tokens.length .neg := by
  have kept := filter_spell (· ≠ .neg) rfl tokens
  rw [cancelled, List.filter_nil, eq_comm, List.filter_eq_nil_iff] at kept
  rw [List.eq_replicate_iff]
  exact ⟨rfl, fun token member => by simpa using kept token (subset_conjoin tokens member)⟩

theorem spell_eq_nil_iff (tokens : List Token) :
    spell [] tokens = [] ↔ ∃ count, tokens = List.replicate count .neg ∧ count % 2 = 0 := by
  constructor
  · intro cancelled
    have same := eq_replicate_of_spell cancelled
    refine ⟨tokens.length, same, ?_⟩
    rw [same, spell_replicate, List.replicate_eq_nil_iff] at cancelled
    exact cancelled
  · rintro ⟨count, rfl, even⟩
    rw [spell_replicate, even, List.replicate_zero]

end Normal

namespace Token

theorem read_eq_replicate_iff {text : Text} (legal : text.all Alphabet.legal = true) (count : Nat) :
    read text = List.replicate count .neg ↔
      (∀ c ∈ text, c = ' ' ∨ c = '!') ∧ text.count '!' = count := by
  have counted : (read text).count .neg = text.count '!' := count_read text .neg
  constructor
  · intro negations
    constructor
    · intro c member
      cases named : ofChar? c with
      | none => exact Or.inl ((ofChar?_eq_none_iff c (List.all_eq_true.mp legal c member)).mp named)
      | some token =>
          have listed : token ∈ read text := List.mem_filterMap.mpr ⟨c, member, named⟩
          rw [negations] at listed
          rw [List.eq_of_mem_replicate listed] at named
          exact Or.inr ((ofChar?_eq_some_iff c .neg).mp named)
    · rw [← counted, negations, List.count_replicate_self]
  · rintro ⟨marks, rfl⟩
    have negations : ∀ token ∈ read text, token = .neg := by
      intro token listed
      obtain ⟨c, member, named⟩ := List.mem_filterMap.mp listed
      rcases marks c member with rfl | rfl
      · cases named
      · exact Option.some.inj named.symm
    rw [← counted, List.count_eq_length.mpr fun token listed => (negations token listed).symm]
    exact List.eq_replicate_of_mem negations

end Token

/-- A normal form with tokens is the normal form of itself. The one without is that of texts with an even
number of negations and nothing else but spaces; as a text it is empty. -/
theorem normalize_write {text : Text} {normal : List Token} (given : normalize text = .ok normal) :
    (normal ≠ [] → normalize (Token.write normal) = .ok normal) ∧
      (normal = [] → normalize (Token.write normal) = .error .emptyFormula) ∧
      (normal = [] ↔ (∀ c ∈ text, c = ' ' ∨ c = '!') ∧ text.count '!' % 2 = 0) := by
  obtain ⟨admissible, rfl⟩ := (normalize_eq_ok_iff text normal).mp given
  refine ⟨fun filled => ?_, fun empty => ?_, ?_⟩
  · have legal := Token.legal_write (Normal.spell [] (Token.read text))
    have read := Token.read_write (Normal.spell [] (Token.read text))
    refine (normalize_eq_ok_iff _ _).mpr ⟨⟨legal, ?_⟩, ?_⟩
    · rw [← Bool.not_eq_true, ← Token.read_eq_nil_iff _ legal, read]
      exact filled
    · rw [read, Normal.spell_spell]
  · rw [empty]
    rfl
  · rw [Normal.spell_eq_nil_iff]
    constructor
    · rintro ⟨count, negations, even⟩
      obtain ⟨marks, rfl⟩ := (Token.read_eq_replicate_iff admissible.legal count).mp negations
      exact ⟨marks, even⟩
    · rintro ⟨marks, even⟩
      exact ⟨_, (Token.read_eq_replicate_iff admissible.legal _).mpr ⟨marks, rfl⟩, even⟩

/-- In `(!!) !!(!` two pairs cancel; what is left, `()*(!`, is malformed, but has nothing left to do. -/
theorem normalize_write_of_malformed :
    normalize ['(', '!', '!', ')', ' ', '!', '!', '(', '!'] =
        .ok [.opening, .closing, .conj, .opening, .neg] ∧
      normalize (Token.write [.opening, .closing, .conj, .opening, .neg]) =
        .ok [.opening, .closing, .conj, .opening, .neg] := by
  have given : normalize ['(', '!', '!', ')', ' ', '!', '!', '(', '!'] =
      .ok [.opening, .closing, .conj, .opening, .neg] := by decide
  exact ⟨given, (normalize_write given).1 (List.cons_ne_nil _ _)⟩

/-- Two negations cancel and leave no token, and no token is no formula. -/
theorem normalize_write_of_cancelled :
    ¬ ∀ (text : Text) (normal : List Token), normalize text = .ok normal →
      normalize (Token.write normal) = .ok normal := by
  intro again
  have cancelled : normalize ['!', '!'] = .ok [] := by decide
  have refused : normalize (Token.write []) = .error .emptyFormula := by decide
  rw [again ['!', '!'] [] cancelled] at refused
  cases refused

end PrincipalForm
