import Mathlib.Data.List.SplitBy
import PrincipalForm.Proofs.Admission

/-!
Normal infix from the characters of a text. The spaces are deleted; between two neighbours of which the
first ends an operand and the second starts one a `*` is written; then of every maximal run of `!` one
is left if there is an odd number of them. The single pass over the tokens of a text comes to the same.
-/

namespace PrincipalForm

namespace Text

/-- Whether two neighbours are operands side by side, as far as one character of each can tell. -/
def juxtaposed (left right : Char) : Bool :=
  (left.isLower || left = ')') && (right.isLower || right = '(' || right = '!')

def conjoined : Text → Text
  | [] => []
  | [last] => [last]
  | left :: right :: rest =>
      if juxtaposed left right then left :: '*' :: conjoined (right :: rest)
      else left :: conjoined (right :: rest)

def runs (text : Text) : List Text :=
  text.splitBy fun left right => decide (left = '!') == decide (right = '!')

def cancelled (text : Text) : Text :=
  (runs text).flatMap fun run =>
    if run.all (· = '!') then List.replicate (run.length % 2) '!' else run

end Text

namespace Phases

def Uniform (run : List Token) : Prop :=
  (∀ token ∈ run, token = .neg) ∨ .neg ∉ run

/-- Where one run ends and the next begins, negations end or begin. -/
def Turns (before after : List Token) : Prop :=
  ∃ (ends : before ≠ []) (starts : after ≠ []),
    (decide (before.getLast ends = .neg) == decide (after.head starts = .neg)) = false

theorem uniform_of_isChain {run : List Token}
    (alike : run.IsChain fun left right => (decide (left = .neg) == decide (right = .neg)) = true) :
    Uniform run := by
  induction run with
  | nil => exact Or.inr List.not_mem_nil
  | cons token rest ih =>
      cases rest with
      | nil =>
          by_cases negation : token = .neg
          · exact Or.inl fun other member => List.mem_singleton.mp member ▸ negation
          · exact Or.inr fun member => negation (List.mem_singleton.mp member).symm
      | cons next later =>
          obtain ⟨same, alike⟩ := List.isChain_cons_cons.mp alike
          rw [beq_iff_eq, decide_eq_decide] at same
          rcases ih alike with negations | others
          · have first := same.mpr (negations next List.mem_cons_self)
            exact Or.inl (List.forall_mem_cons.mpr ⟨first, negations⟩)
          · refine Or.inr fun member => ?_
            rcases List.mem_cons.mp member with first | tail
            · exact others (same.mp first.symm ▸ List.mem_cons_self)
            · exact others tail

theorem uniform_of_mem_runs {tokens run : List Token} (member : run ∈ runs tokens) : Uniform run :=
  uniform_of_isChain (List.isChain_of_mem_splitBy member)

theorem Turns.not_mem {before after : List Token} (turns : Turns before after)
    (negations : ∀ token ∈ before, token = .neg) (uniform : Uniform after) : .neg ∉ after := by
  obtain ⟨ends, starts, differ⟩ := turns
  rcases uniform with others | others
  · have last := negations _ (List.getLast_mem ends)
    have first := others _ (List.head_mem starts)
    rw [last, first] at differ
    cases differ
  · exact others

theorem foldl_push_others {run : List Token} (others : .neg ∉ run) (written : List Token) :
    run.foldl Normal.push written = run.reverse ++ written := by
  induction run generalizing written with
  | nil => rfl
  | cons token rest ih =>
      obtain ⟨first, later⟩ := List.ne_and_not_mem_of_not_mem_cons others
      rw [List.foldl_cons, Normal.push_of_ne_neg written token first.symm, ih later,
        List.reverse_cons, List.append_assoc, List.singleton_append]

theorem foldl_push_negations (count : Nat) (written : List Token)
    (alone : written.head? ≠ some .neg) :
    (List.replicate count .neg).foldl Normal.push written =
      List.replicate (count % 2) .neg ++ written := by
  induction count using Nat.twoStepInduction with
  | zero => rfl
  | one => exact Normal.push_neg written alone
  | more count ih _ =>
      -- the second negation takes the first back
      rw [List.replicate_succ, List.replicate_succ, List.foldl_cons, List.foldl_cons,
        Normal.push_neg written alone, Normal.push, ih, Nat.add_mod_right]

/-- Pushed run by run, tokens are cut to the parity of their negations. A run of negations finds none
before it that it could take back. -/
theorem foldl_push_runs (runs : List (List Token)) (written : List Token)
    (uniform : ∀ run ∈ runs, Uniform run) (turns : runs.IsChain Turns) (filled : [] ∉ runs)
    (alone : ∀ run ∈ runs.head?, .neg ∈ run → written.head? ≠ some .neg) :
    runs.flatten.foldl Normal.push written = (runs.flatMap parity).reverse ++ written := by
  induction runs generalizing written with
  | nil => rfl
  | cons run rest ih =>
      obtain ⟨next, turns⟩ := List.isChain_cons.mp turns
      obtain ⟨here, uniform⟩ := List.forall_mem_cons.mp uniform
      obtain ⟨nonempty, filled⟩ := List.ne_and_not_mem_of_not_mem_cons filled
      rw [List.flatten_cons, List.foldl_append, List.flatMap_cons, List.reverse_append,
        List.append_assoc]
      rcases here with negations | others
      · have same := List.eq_replicate_of_mem negations
        have all : run.all (· = .neg) = true := List.all_eq_true.mpr fun token member =>
          decide_eq_true (negations token member)
        have opens : Token.neg ∈ run := negations _ (List.head_mem nonempty.symm) ▸ List.head_mem _
        have pushed : run.foldl Normal.push written = (parity run).reverse ++ written := by
          rw [parity, if_pos all, List.reverse_replicate, ← foldl_push_negations run.length written
            (alone run rfl opens), ← same]
        rw [pushed]
        refine ih _ uniform turns filled fun after member negation => ?_
        exact absurd negation ((next after member).not_mem negations
          (uniform after (List.mem_of_mem_head? member)))
      · have kept : run.all (· = .neg) = false := by
          rw [List.all_eq_false]
          refine ⟨_, List.head_mem nonempty.symm, fun negation => others ?_⟩
          exact of_decide_eq_true negation ▸ List.head_mem nonempty.symm
        rw [foldl_push_others others, parity, kept, if_neg Bool.false_ne_true]
        refine ih _ uniform turns filled fun after _ _ newest => ?_
        rw [List.head?_append_of_ne_nil _ (List.reverse_ne_nil_iff.mpr nonempty.symm),
          List.head?_reverse] at newest
        exact others (List.mem_of_mem_getLast? newest)

theorem foldl_push_eq_cancel (tokens : List Token) :
    (tokens.foldl Normal.push []).reverse = cancel tokens := by
  have turns : (runs tokens).IsChain Turns := List.isChain_getLast_head_splitBy
    (fun left right : Token => decide (left = .neg) == decide (right = .neg)) tokens
  have pushed := foldl_push_runs (runs tokens) [] (fun _ => uniform_of_mem_runs) turns
    (List.nil_notMem_splitBy _ tokens) fun _ _ _ newest => by cases newest
  rw [runs, List.flatten_splitBy] at pushed
  rw [pushed, List.append_nil, List.reverse_reverse]
  rfl

end Phases

theorem Normal.spell_eq_normal (tokens : List Token) : spell [] tokens = Phases.normal tokens := by
  rw [spell_eq_foldl, Phases.foldl_push_eq_cancel]
  rfl

namespace Text

theorem juxtaposed_symbol (left right : Token) :
    juxtaposed left.symbol right.symbol = (Normal.endsOperand left && Normal.startsOperand right) := by
  have ends : (left.symbol.isLower || left.symbol = ')') = Normal.endsOperand left := by
    cases left with
    | atom letter => rw [Token.symbol, letter.lower]; rfl
    | _ => rfl
  have starts : (right.symbol.isLower || right.symbol = '(' || right.symbol = '!') =
      Normal.startsOperand right := by
    cases right with
    | atom letter => rw [Token.symbol, letter.lower]; rfl
    | _ => rfl
  rw [juxtaposed, ends, starts]

theorem conjoined_write (tokens : List Token) :
    conjoined (Token.write tokens) = Token.write (Phases.conjoin tokens) := by
  induction tokens with
  | nil => rfl
  | cons token rest ih =>
      cases rest with
      | nil => rfl
      | cons next later =>
          rw [Token.write, List.map_cons] at ih ⊢
          rw [List.map_cons, conjoined, ih, juxtaposed_symbol, Phases.conjoin]
          split <;> rfl

theorem splitBy_map {Item Image : Type} (image : Item → Image) (alike : Image → Image → Bool)
    (items : List Item) :
    (items.map image).splitBy alike =
      (items.splitBy fun left right => alike (image left) (image right)).map (List.map image) := by
  rw [List.splitBy_eq_iff]
  refine ⟨?_, ?_, ?_, ?_⟩
  · rw [← List.map_flatten, List.flatten_splitBy]
  · intro member
    obtain ⟨run, listed, empty⟩ := List.mem_map.mp member
    exact List.ne_nil_of_mem_splitBy listed (List.map_eq_nil_iff.mp empty)
  · intro run member
    obtain ⟨run, listed, rfl⟩ := List.mem_map.mp member
    exact (List.isChain_map image).mpr (List.isChain_of_mem_splitBy listed)
  · refine (List.isChain_map (List.map image)).mpr
      ((List.isChain_getLast_head_splitBy _ items).imp ?_)
    rintro before after ⟨ends, starts, differ⟩
    refine ⟨mt List.map_eq_nil_iff.mp ends, mt List.map_eq_nil_iff.mp starts, ?_⟩
    rw [List.getLast_map, List.head_map]
    exact differ

theorem symbol_eq_iff (token : Token) : token.symbol = '!' ↔ token = .neg :=
  ⟨fun same => Token.symbol_inj same, fun same => same ▸ rfl⟩

theorem runs_write (tokens : List Token) :
    runs (Token.write tokens) = (Phases.runs tokens).map Token.write := by
  rw [runs, Token.write, splitBy_map]
  simp only [symbol_eq_iff]
  rfl

theorem cancelled_write (tokens : List Token) :
    cancelled (Token.write tokens) = Token.write (Phases.cancel tokens) := by
  rw [cancelled, runs_write, List.flatMap_map, Phases.cancel, Token.write, List.map_flatMap]
  refine congrArg ((Phases.runs tokens).flatMap ·) (funext fun run => ?_)
  have all : (Token.write run).all (· = '!') = run.all (· = .neg) := by
    simp only [Token.write, List.all_map, Function.comp_def, symbol_eq_iff]
  rw [all, Phases.parity, Token.write, List.length_map]
  split
  · rw [List.map_replicate]
    rfl
  · rfl

end Text

/-- The normal form of a legal text with more than spaces is written as the text is after both phases. -/
theorem normalize_eq_phases {text : Text} (legal : text.all Alphabet.legal = true)
    (filled : ∃ c ∈ text, c ≠ ' ') :
    (normalize text).map Token.write =
      .ok (Text.cancelled (Text.conjoined (text.filter (· ≠ ' ')))) := by
  have admissible := Text.Admissible.of_exists legal filled
  rw [admissible.normalize_eq, Normal.spell_eq_normal, Phases.normal,
    ← Token.write_read text legal, Text.conjoined_write, Text.cancelled_write]
  rfl

/-- In `a ! !!(!! ) b` the first negation calls for a conjunction, and so does the letter at the end. -/
theorem normalize_of_negated_group :
    ['a', ' ', '!', ' ', '!', '!', '(', '!', '!', ' ', ')', ' ', 'b'].all Alphabet.legal = true ∧
      (∃ c ∈ ['a', ' ', '!', ' ', '!', '!', '(', '!', '!', ' ', ')', ' ', 'b'], c ≠ ' ') ∧
      (normalize ['a', ' ', '!', ' ', '!', '!', '(', '!', '!', ' ', ')', ' ', 'b']).map Token.write =
        .ok ['a', '*', '!', '(', ')', '*', 'b'] := by
  have legal : ['a', ' ', '!', ' ', '!', '!', '(', '!', '!', ' ', ')', ' ', 'b'].all Alphabet.legal =
      true := by decide
  have filled : ∃ c ∈ ['a', ' ', '!', ' ', '!', '!', '(', '!', '!', ' ', ')', ' ', 'b'], c ≠ ' ' :=
    ⟨'a', by decide, by decide⟩
  exact ⟨legal, filled, (normalize_eq_phases legal filled).trans (by decide)⟩

end PrincipalForm
