import PrincipalForm.Parentheses
import PrincipalForm.Proofs.Precedence

namespace PrincipalForm.Polish

/-- What may be held back: operators and opening parentheses. -/
def holdable : Token → Bool
  | .conj | .disj | .neg | .opening => true
  | _ => false

def Holdable (held : List Token) : Prop := ∀ token ∈ held, holdable token = true

theorem opening_of_stays (token : Token) (mayHold : holdable token = true)
    (stays : givesWay .closing token = false) : token = .opening := by
  cases token with
  | opening => rfl
  | atom letter | closing => cases mayHold
  | conj | disj | neg => cases stays

theorem opening_stays (arriving : Token) : givesWay arriving .opening = false := rfl

theorem release_split (arriving : Token) (held : List Token) :
    ∃ pending kept, held = pending ++ kept ∧ .opening ∉ pending ∧ Stops arriving kept ∧
      release arriving held = (pending, kept) := by
  refine ⟨held.takeWhile (givesWay arriving), held.dropWhile (givesWay arriving),
    List.takeWhile_append_dropWhile.symm, ?_, ?_, List.span_eq_takeWhile_dropWhile ..⟩
  · intro member
    have gives := List.all_eq_true.mp List.all_takeWhile _ member
    rw [opening_stays] at gives
    cases gives
  · intro token newest
    have stays := List.head?_dropWhile_not (givesWay arriving) held
    rw [newest] at stays
    exact stays

/-- The moves that arrangements are made of. A token is held back above some of what was held; a
closing parenthesis ends the nearest group that is still open, or has no partner. -/
inductive Arrangement : List Token → List Token → Polish → Prop where
  | finish (held : List Token) (holds : Holdable held) : Arrangement held [] held
  | letter {held rest : List Token} {output : Polish} (letter : Letter)
      (later : Arrangement held rest output) :
      Arrangement held (.atom letter :: rest) (.atom letter :: output)
  | hold {token : Token} {pending kept rest : List Token} {output : Polish}
      (mayHold : holdable token = true) (holds : Holdable pending) (within : .opening ∉ pending)
      (later : Arrangement (token :: kept) rest output) :
      Arrangement (pending ++ kept) (token :: rest) (pending ++ output)
  | group {pending below rest : List Token} {output : Polish} (holds : Holdable pending)
      (within : .opening ∉ pending) (later : Arrangement below rest output) :
      Arrangement (pending ++ .opening :: below) (.closing :: rest) (pending ++ output)
  | stray {held rest : List Token} {output : Polish} (holds : Holdable held)
      (within : .opening ∉ held) (later : Arrangement [] rest output) :
      Arrangement held (.closing :: rest) (held ++ .closing :: output)

theorem arrangement (held tokens : List Token) (holds : Holdable held) :
    Arrangement held tokens (arrangeHolding held tokens) := by
  induction tokens generalizing held with
  | nil => simpa only [arrangeHolding] using .finish held holds
  | cons token rest ih =>
      obtain ⟨pending, kept, rfl, within, stops, released⟩ := release_split token held
      have pendingHolds : Holdable pending := fun other member =>
        holds other (List.mem_append_left kept member)
      have keptHolds : Holdable kept := fun other member =>
        holds other (List.mem_append_right pending member)
      have holding : holdable token = true → Arrangement (pending ++ kept) (token :: rest)
          (pending ++ arrangeHolding (token :: kept) rest) := fun mayHold =>
        .hold mayHold pendingHolds within
          (ih (token :: kept) (List.forall_mem_cons.mpr ⟨mayHold, keptHolds⟩))
      cases token with
      | atom letter => exact .letter letter (ih _ holds)
      | closing =>
          -- what does not give way to the parenthesis is an opening one, or nothing is left
          cases kept with
          | nil =>
              simp only [List.append_nil] at released ⊢
              simpa only [arrangeHolding, released] using .stray pendingHolds within (ih [] keptHolds)
          | cons newest below =>
              have opens := opening_of_stays newest (keptHolds newest List.mem_cons_self)
                (stops newest rfl)
              subst opens
              simpa only [arrangeHolding, released] using .group pendingHolds within
                (ih below fun other member => keptHolds other (List.mem_cons_of_mem _ member))
      | conj | disj | neg | opening =>
          simpa only [arrangeHolding, released] using holding rfl

theorem arrangement_arrange (tokens : List Token) : Arrangement [] tokens (arrange tokens) :=
  arrangement [] tokens fun _ member => absurd member List.not_mem_nil

theorem letter?_eq_none (token : Token) (mayHold : holdable token = true) :
    token.letter? = none := by
  cases token with
  | atom letter => cases mayHold
  | _ => rfl

theorem letters_eq_nil (held : List Token) (holds : Holdable held) :
    held.filterMap Token.letter? = [] :=
  List.filterMap_eq_nil_iff.mpr fun token member => letter?_eq_none token (holds token member)

theorem count_opening_append {pending : List Token} (within : .opening ∉ pending)
    (others : List Token) : (pending ++ others).count .opening = others.count .opening := by
  rw [List.count_append, List.count_eq_zero.mpr within, Nat.zero_add]

theorem count_closing_append {pending : List Token} (holds : Holdable pending)
    (others : List Token) : (pending ++ others).count .closing = others.count .closing := by
  have absent : .closing ∉ pending := fun member => Bool.noConfusion (holds .closing member)
  rw [List.count_append, List.count_eq_zero.mpr absent, Nat.zero_add]

namespace Arrangement

variable {held tokens : List Token} {output : Polish}

theorem letters (arrangement : Arrangement held tokens output) :
    output.filterMap Token.letter? = tokens.filterMap Token.letter? := by
  induction arrangement with
  | finish held holds => exact letters_eq_nil held holds
  | letter letter later ih => simp [Token.letter?, ih]
  | hold mayHold holds within later ih =>
      simp [letters_eq_nil _ holds, letter?_eq_none _ mayHold, ih]
  | group holds within later ih => simp [letters_eq_nil _ holds, ih, List.filterMap_cons, Token.letter?]
  | stray holds within later ih => simp [letters_eq_nil _ holds, ih, List.filterMap_cons, Token.letter?]

theorem countP (arrangement : Arrangement held tokens output) (counted : Token → Bool)
    (notOpening : counted .opening = false) (notClosing : counted .closing = false) :
    output.countP counted = held.countP counted + tokens.countP counted := by
  induction arrangement with
  | finish held holds => simp
  | letter letter later ih => simp only [List.countP_cons, ih]; omega
  | hold mayHold holds within later ih =>
      simp only [List.countP_append, List.countP_cons, ih]; omega
  | group holds within later ih =>
      simp only [List.countP_append, List.countP_cons, ih, notOpening, notClosing,
        Bool.false_eq_true, ↓reduceIte]
      omega
  | stray holds within later ih =>
      simp only [List.countP_append, List.countP_cons, List.countP_nil, ih]; omega

theorem unmatched (arrangement : Arrangement held tokens output) :
    Parentheses.unmatchedAfter (held.count .opening) tokens =
      ⟨output.count .opening, output.count .closing⟩ := by
  induction arrangement with
  | finish held holds =>
      have closings := count_closing_append holds []
      rw [List.append_nil, List.count_nil] at closings
      rw [closings]
      rfl
  | letter letter later ih => simp [Parentheses.unmatchedAfter, ih]
  | @hold token pending kept rest output mayHold holds within later ih =>
      rw [count_opening_append within, count_opening_append within, count_closing_append holds, ← ih]
      cases token with
      | atom letter | closing => cases mayHold
      | opening => rw [List.count_cons_self, Parentheses.unmatchedAfter]
      | conj | disj | neg =>
          rw [List.count_cons_of_ne (by decide)]
          exact Parentheses.unmatchedAfter_other _ _ rest Token.noConfusion Token.noConfusion
  | group holds within later ih =>
      rw [count_opening_append within, count_opening_append within, count_closing_append holds,
        List.count_cons_self, Parentheses.unmatchedAfter, ih]
  | stray holds within later ih =>
      rw [List.count_nil] at ih
      rw [List.count_eq_zero.mpr within, count_opening_append within, count_closing_append holds,
        List.count_cons_self, List.count_cons_of_ne (by decide), Parentheses.unmatchedAfter, ih]

end Arrangement

theorem letters_arrange (tokens : List Token) :
    (arrange tokens).filterMap Token.letter? = tokens.filterMap Token.letter? :=
  (arrangement_arrange tokens).letters

theorem countP_arrange (tokens : List Token) (counted : Token → Bool)
    (notOpening : counted .opening = false) (notClosing : counted .closing = false) :
    (arrange tokens).countP counted = tokens.countP counted := by
  rw [(arrangement_arrange tokens).countP counted notOpening notClosing, List.countP_nil,
    Nat.zero_add]

theorem unmatched_eq_count (tokens : List Token) :
    Parentheses.unmatched tokens =
      ⟨(arrange tokens).count .opening, (arrange tokens).count .closing⟩ :=
  (arrangement_arrange tokens).unmatched

end PrincipalForm.Polish
