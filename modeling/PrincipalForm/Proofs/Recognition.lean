import PrincipalForm.Proofs.Conservation
import PrincipalForm.Proofs.Spelling
import PrincipalForm.Proofs.StackMachine

/-!
Which tokens are a formula. Read from left to right, tokens alternate between awaiting an operand and
having one; a token that comes too early leaves a gap. Tokens without a gap and with balanced
parentheses are a formula. After normalising, every gap is an operand too few for the operators, so
a sequence that can be evaluated has none.
-/

namespace PrincipalForm

namespace Token

/-- The operands missing from tokens, before the first of which one is awaited or present. -/
def gaps : Bool → List Token → Nat
  | awaiting, [] => awaiting.toNat
  | _, .atom _ :: rest => gaps false rest
  | _, .neg :: rest => gaps true rest
  | _, .opening :: rest => gaps true rest
  | awaiting, .closing :: rest => awaiting.toNat + gaps false rest
  | awaiting, .conj :: rest => awaiting.toNat + gaps true rest
  | awaiting, .disj :: rest => awaiting.toNat + gaps true rest

end Token

namespace Recognition

/-- Tokens that are a sum whose last product may still go on. -/
inductive Ready : List Token → Prop where
  | product {tokens : List Token} {expr : Expr} (only : Derives .written .product tokens expr) :
      Ready tokens
  | addend {before after : List Token} {left right : Expr} (first : Derives .written .sum before left)
      (last : Derives .written .product after right) : Ready (before ++ .disj :: after)

/-- Tokens that any factor makes ready. -/
def Awaits (before : List Token) : Prop :=
  ∀ tokens expr, Derives .written .factor tokens expr → Ready (before ++ tokens)

theorem Ready.sum {before : List Token} (ready : Ready before) :
    ∃ expr, Derives .written .sum before expr := by
  cases ready with
  | product only => exact ⟨_, .term only⟩
  | addend first last => exact ⟨_, .sum first last⟩

theorem Ready.adjacent {before : List Token} (ready : Ready before) : Awaits before := by
  intro tokens expr factor
  cases ready with
  | product only => exact .product (.adjacent rfl only factor)
  | addend first last =>
      rw [List.append_assoc, List.cons_append]
      exact .addend first (.adjacent rfl last factor)

theorem Ready.conj {before : List Token} (ready : Ready before) : Awaits (before ++ [.conj]) := by
  intro tokens expr factor
  rw [List.append_assoc, List.singleton_append]
  cases ready with
  | product only => exact .product (.product only factor)
  | addend first last =>
      rw [List.append_assoc, List.cons_append]
      exact .addend first (.product last factor)

theorem Ready.disj {before : List Token} (ready : Ready before) : Awaits (before ++ [.disj]) := by
  intro tokens expr factor
  obtain ⟨left, sum⟩ := ready.sum
  rw [List.append_assoc, List.singleton_append]
  exact .addend sum (.factor factor)

theorem awaits_nil : Awaits [] := fun _ _ factor => .product (.factor factor)

theorem Awaits.neg {before : List Token} (awaits : Awaits before) : Awaits (before ++ [.neg]) := by
  intro tokens expr factor
  rw [List.append_assoc, List.singleton_append]
  exact awaits _ _ (.negation factor)

/-- The tokens read so far, given those before each group that is still open, innermost first, and
those of the innermost group itself. -/
def assemble : List (List Token) → List Token → List Token
  | [], current => current
  | outer :: outers, current => assemble outers (outer ++ .opening :: current)

theorem assemble_append (outers : List (List Token)) (current more : List Token) :
    assemble outers (current ++ more) = assemble outers current ++ more := by
  induction outers generalizing current with
  | nil => rfl
  | cons outer outers ih =>
      rw [assemble, assemble, ← ih, List.append_assoc, List.cons_append]

/-- A group is awaiting an operand or ready, and so it may take a factor in either case. -/
def Stands (awaiting : Bool) (current : List Token) : Prop :=
  if awaiting then Awaits current else Ready current

theorem Stands.awaits {awaiting : Bool} {current : List Token} (stands : Stands awaiting current) :
    Awaits current := by
  cases awaiting with
  | true => exact stands
  | false => exact Ready.adjacent stands

theorem ready_of_full {awaiting : Bool} {current : List Token} {later : Nat}
    (stands : Stands awaiting current) (full : awaiting.toNat + later = 0) :
    Ready current ∧ later = 0 := by
  cases awaiting with
  | true => rw [Bool.toNat_true] at full; omega
  | false => exact ⟨stands, by rwa [Bool.toNat_false, Nat.zero_add] at full⟩

theorem exists_derives_after (awaiting : Bool) (outers : List (List Token)) (current tokens : List Token)
    (outersAwait : ∀ outer ∈ outers, Awaits outer) (stands : Stands awaiting current)
    (full : Token.gaps awaiting tokens = 0)
    (balanced : Parentheses.unmatchedAfter outers.length tokens = ⟨0, 0⟩) :
    ∃ expr, Derives .written .sum (assemble outers current ++ tokens) expr := by
  -- along the tokens to come: each open group awaits the group within it as its operand
  induction tokens generalizing awaiting outers current with
  | nil =>
      cases awaiting with
      | true => cases full
      | false =>
          have closed : outers = [] := List.length_eq_zero_iff.mp (congrArg Unmatched.openings balanced)
          rw [closed, List.append_nil]
          exact Ready.sum stands
  | cons token rest ih =>
      have step : assemble outers current ++ token :: rest =
          assemble outers (current ++ [token]) ++ rest := by
        rw [assemble_append, List.append_assoc, List.singleton_append]
      cases token with
      | atom letter =>
          rw [step]
          exact ih false outers _ outersAwait (stands.awaits _ _ (.letter letter)) full balanced
      | neg =>
          rw [step]
          exact ih true outers _ outersAwait stands.awaits.neg full balanced
      | opening =>
          have inside : assemble outers (current ++ [.opening]) = assemble (current :: outers) [] := rfl
          rw [step, inside]
          exact ih true (current :: outers) [] (List.forall_mem_cons.mpr ⟨stands.awaits, outersAwait⟩)
            awaits_nil full balanced
      | conj =>
          obtain ⟨ready, full⟩ := ready_of_full stands full
          rw [step]
          exact ih true outers _ outersAwait ready.conj full balanced
      | disj =>
          obtain ⟨ready, full⟩ := ready_of_full stands full
          rw [step]
          exact ih true outers _ outersAwait ready.disj full balanced
      | closing =>
          obtain ⟨ready, full⟩ := ready_of_full stands full
          cases outers with
          | nil => simp [Parentheses.unmatchedAfter] at balanced
          | cons outer outers =>
              -- the innermost group is complete, and is the operand that the one around it awaits
              obtain ⟨expr, sum⟩ := ready.sum
              obtain ⟨awaits, outersAwait⟩ := List.forall_mem_cons.mp outersAwait
              have whole : assemble outers (outer ++ (.opening :: current ++ [.closing])) ++ rest =
                  assemble (outer :: outers) current ++ .closing :: rest := by
                rw [step, assemble, List.cons_append]
              rw [← whole]
              exact ih false outers _ outersAwait (awaits _ _ (.group sum)) full balanced

theorem exists_derives (tokens : List Token) (full : Token.gaps true tokens = 0)
    (balanced : Parentheses.Balanced tokens) : ∃ expr, Derives .written .sum tokens expr :=
  exists_derives_after true [] [] tokens (fun _ member => absurd member List.not_mem_nil) awaits_nil
    full balanced

end Recognition

namespace Token

/-- The operand that a conjunction is written for, if the front of the tokens calls for one. -/
def due : Bool → List Token → Nat
  | true, _ => 1
  | false, [] => 0
  | false, token :: _ => (Normal.startsOperand token).toNat

theorem due_cons (awaiting : Bool) (token : Token) (rest : List Token) :
    due awaiting (token :: rest) = (awaiting || Normal.startsOperand token).toNat := by
  cases awaiting <;> rfl

theorem joints_append (before after : List Token) :
    joints (before ++ after) = joints before + joints after := List.countP_append

theorem joints_seam (last next : Token) (later : List Token) :
    joints (Phases.seam last next) =
      if Normal.endsOperand last then due false (next :: later) else 0 := by
  rw [Phases.seam, due_cons, Bool.false_or]
  cases Normal.endsOperand last <;> cases Normal.startsOperand next <;> rfl

theorem joints_conjoin_cons (token : Token) (rest : List Token) :
    joints (Phases.conjoin (token :: rest)) =
      token.isJoint.toNat + (if Normal.endsOperand token then due false rest else 0) +
        joints (Phases.conjoin rest) := by
  cases rest with
  | nil =>
      have single : Phases.conjoin [token] = [token] := by rw [Phases.conjoin]
      have empty : joints (Phases.conjoin []) = 0 := rfl
      rw [single, joints_cons, empty, due, ite_self]
      exact Nat.add_comm ..
  | cons next later =>
      rw [Phases.conjoin_cons_cons, List.cons_append, joints_cons, joints_append,
        joints_seam token next later]
      omega

/-- Once the conjunctions are written, each operator stands between two operands or leaves a gap. -/
theorem joints_conjoin (awaiting : Bool) (tokens : List Token) :
    joints (Phases.conjoin tokens) + due awaiting tokens = operands tokens + gaps awaiting tokens := by
  induction tokens generalizing awaiting with
  | nil => cases awaiting <;> rfl
  | cons token rest ih =>
      have present : joints (Phases.conjoin rest) + due false rest = operands rest + gaps false rest :=
        ih false
      have awaited : joints (Phases.conjoin rest) + 1 = operands rest + gaps true rest := ih true
      rw [joints_conjoin_cons, due_cons, operands_cons]
      cases token with
      | atom letter | neg | opening =>
          simp only [isJoint, isAtom, gaps, Normal.endsOperand, Normal.startsOperand, Bool.or_true,
            Bool.toNat_true, Bool.toNat_false, Bool.false_eq_true, ↓reduceIte]
          omega
      | closing | conj | disj =>
          simp only [isJoint, isAtom, gaps, Normal.endsOperand, Normal.startsOperand, Bool.or_false,
            Bool.toNat_true, Bool.toNat_false, Bool.false_eq_true, ↓reduceIte]
          omega

theorem operands_spell (tokens : List Token) :
    operands (Normal.spell [] tokens) = operands tokens := by
  rw [operands, operands, List.countP_eq_length_filter, Normal.filter_spell isAtom rfl,
    Phases.filter_conjoin isAtom rfl, ← List.countP_eq_length_filter]

theorem joints_spell (tokens : List Token) :
    joints (Normal.spell [] tokens) = joints (Phases.conjoin tokens) := by
  rw [joints, joints, List.countP_eq_length_filter, Normal.filter_spell isJoint rfl,
    ← List.countP_eq_length_filter]

theorem gaps_of_spell (tokens : List Token) :
    joints (Normal.spell [] tokens) + 1 = operands (Normal.spell [] tokens) + gaps true tokens := by
  rw [joints_spell, operands_spell, ← joints_conjoin true tokens]
  rfl

end Token

namespace Parentheses

theorem unmatchedAfter_filter (keep : Token → Bool) (opening : keep .opening = true)
    (closing : keep .closing = true) (depth : Nat) (tokens : List Token) :
    unmatchedAfter depth (tokens.filter keep) = unmatchedAfter depth tokens := by
  induction tokens generalizing depth with
  | nil => rfl
  | cons token rest ih =>
      cases token with
      | opening => rw [List.filter_cons_of_pos opening, unmatchedAfter, unmatchedAfter, ih]
      | closing =>
          rw [List.filter_cons_of_pos closing]
          cases depth with
          | zero => rw [unmatchedAfter, unmatchedAfter, ih]
          | succ depth => rw [unmatchedAfter, unmatchedAfter, ih]
      | atom letter | neg | conj | disj =>
          rw [unmatchedAfter_other depth _ rest Token.noConfusion Token.noConfusion, List.filter_cons]
          split
          · rw [unmatchedAfter_other depth _ _ Token.noConfusion Token.noConfusion, ih]
          · exact ih depth

theorem unmatched_spell (tokens : List Token) :
    unmatched (Normal.spell [] tokens) = unmatched tokens := by
  have kept := unmatchedAfter_filter (fun token => token = .opening ∨ token = .closing) rfl rfl 0
  rw [unmatched, unmatched, ← kept, Normal.filter_spell _ rfl, Phases.filter_conjoin _ rfl, kept]

end Parentheses

theorem Recognition.exists_derives_of_evaluate {tokens : List Token} {valuation : Valuation}
    {value : Bool}
    (valued : evaluate (Polish.arrange (Normal.spell [] tokens)) valuation = .ok value) :
    ∃ expr, Derives .written .sum tokens expr := by
  obtain ⟨height, noOpening, noClosing⟩ := Evaluation.evaluate_height valued
  refine exists_derives tokens ?_ ?_
  · rw [Token.operands, Token.joints, Polish.countP_arrange _ _ rfl rfl,
      Polish.countP_arrange _ _ rfl rfl] at height
    have missing := Token.gaps_of_spell tokens
    rw [Token.operands, Token.joints] at missing
    omega
  · have unmatched := Polish.unmatched_eq_count (Normal.spell [] tokens)
    rw [Parentheses.unmatched_spell, List.count_eq_zero.mpr noOpening,
      List.count_eq_zero.mpr noClosing] at unmatched
    exact unmatched

end PrincipalForm
