import PrincipalForm.Grammar
import PrincipalForm.Phases

/-!
Normal infix keeps the reading of a text. One pass of `Normal.spell` writes every missing
conjunction, which keeps the tree, and takes back negations in pairs, which keeps the tree's value
and the order of its letters.
-/

namespace PrincipalForm

namespace Normal

theorem push_of_ne_neg (written : List Token) (token : Token) (other : token ≠ .neg) :
    push written token = token :: written := by
  unfold push
  split
  next => exact absurd rfl other
  next => rfl

theorem push_neg (written : List Token) (alone : written.head? ≠ some .neg) :
    push written .neg = .neg :: written := by
  unfold push
  split
  next => exact absurd rfl alone
  next => rfl

end Normal

namespace Phases

def seam (last next : Token) : List Token :=
  if Normal.endsOperand last && Normal.startsOperand next then [.conj] else []

theorem seam_of_ends (last next : Token) (ends : Normal.endsOperand last = true)
    (starts : Normal.startsOperand next = true) : seam last next = [.conj] := by
  simp [seam, ends, starts]

theorem seam_of_not_ends (last next : Token) (ends : Normal.endsOperand last = false) :
    seam last next = [] := by
  simp [seam, ends]

theorem seam_of_not_starts (last next : Token) (starts : Normal.startsOperand next = false) :
    seam last next = [] := by
  simp [seam, starts]

theorem conjoin_cons_cons (last next : Token) (rest : List Token) :
    conjoin (last :: next :: rest) = last :: seam last next ++ conjoin (next :: rest) := by
  simp only [conjoin, seam]
  split <;> rfl

theorem conjoin_append (before after : List Token) (last next : Token)
    (ends : before.getLast? = some last) (starts : after.head? = some next) :
    conjoin (before ++ after) = conjoin before ++ seam last next ++ conjoin after := by
  obtain ⟨rest, rfl⟩ := List.head?_eq_some_iff.mp starts
  induction before with
  | nil => cases ends
  | cons first others ih =>
      cases others with
      | nil =>
          have same : first = last := Option.some.inj ends
          rw [same]
          exact conjoin_cons_cons last next rest
      | cons second others =>
          have tail := ih ends
          simp only [List.cons_append, conjoin_cons_cons, List.append_assoc] at tail ⊢
          rw [tail]

theorem conjoin_cons (token : Token) (rest : List Token)
    (ends : Normal.endsOperand token = false) : conjoin (token :: rest) = token :: conjoin rest := by
  cases rest with
  | nil => rfl
  | cons next later => rw [conjoin_cons_cons, seam_of_not_ends token next ends]; rfl

theorem conjoin_append_cons (before after : List Token) (token : Token)
    (starts : Normal.startsOperand token = false) :
    conjoin (before ++ token :: after) = conjoin before ++ conjoin (token :: after) := by
  cases tail : before.getLast? with
  | none => rw [List.getLast?_eq_none_iff.mp tail]; rfl
  | some last =>
      rw [conjoin_append before (token :: after) last token tail rfl,
        seam_of_not_starts last token starts, List.append_nil]

end Phases

/-- One pass writes the missing conjunctions and takes back paired negations as it goes. -/
theorem Normal.spell_eq_foldl (written tokens : List Token) :
    spell written tokens = ((Phases.conjoin tokens).foldl push written).reverse := by
  induction tokens generalizing written with
  | nil => rfl
  | cons token rest ih =>
      cases rest with
      | nil => rfl
      | cons next later =>
          rw [Phases.conjoin_cons_cons, List.cons_append, List.foldl_cons, List.foldl_append]
          cases joins : endsOperand token && startsOperand next with
          | true =>
              -- a conjunction is not a negation, so pushing it takes nothing back
              simp only [spell, joins, ↓reduceIte, Phases.seam, List.foldl_cons, List.foldl_nil]
              rw [ih, push_of_ne_neg (push written token) .conj Token.noConfusion]
          | false =>
              simp only [spell, joins, Bool.false_eq_true, ↓reduceIte, Phases.seam, List.foldl_nil]
              rw [ih]

theorem Phases.filter_conjoin (keep : Token → Bool) (drops : keep .conj = false)
    (tokens : List Token) : (conjoin tokens).filter keep = tokens.filter keep := by
  induction tokens with
  | nil => rfl
  | cons token rest ih =>
      cases rest with
      | nil => rfl
      | cons next later =>
          have between : (seam token next).filter keep = [] := by
            unfold seam
            split <;> simp [drops]
          rw [conjoin_cons_cons, List.cons_append, List.filter_cons, List.filter_append, between,
            List.nil_append, ih, ← List.filter_cons]

theorem Normal.filter_push (keep : Token → Bool) (drops : keep .neg = false)
    (written : List Token) (token : Token) :
    (push written token).filter keep = (token :: written).filter keep := by
  unfold push
  split
  next => simp [drops]
  next => rfl

theorem Normal.filter_foldl_push (keep : Token → Bool) (drops : keep .neg = false)
    (written tokens : List Token) :
    (tokens.foldl push written).filter keep = (tokens.reverse ++ written).filter keep := by
  induction tokens generalizing written with
  | nil => rfl
  | cons token rest ih =>
      rw [List.foldl_cons, ih, List.filter_append, filter_push keep drops, ← List.filter_append,
        List.reverse_cons, List.append_assoc, List.singleton_append]

theorem Normal.filter_spell (keep : Token → Bool) (drops : keep .neg = false)
    (tokens : List Token) :
    (spell [] tokens).filter keep = (Phases.conjoin tokens).filter keep := by
  rw [spell_eq_foldl, List.filter_reverse, filter_foldl_push keep drops, List.append_nil,
    List.filter_reverse, List.reverse_reverse]

namespace Derives

variable {style : Style} {phrase : Phrase} {tokens : List Token} {expr : Expr}

theorem starts (derives : Derives style phrase tokens expr) :
    ∃ first, tokens.head? = some first ∧ Normal.startsOperand first = true := by
  induction derives with
  | letter letter => exact ⟨.atom letter, rfl, rfl⟩
  | negation operand ih => exact ⟨.neg, rfl, rfl⟩
  | group inner ih => exact ⟨.opening, rfl, rfl⟩
  | factor only ih => exact ih
  | term only ih => exact ih
  | product first last ih _ | adjacent allowed first last ih _ | sum first last ih _ =>
      obtain ⟨token, head, opens⟩ := ih
      exact ⟨token, by simp [head], opens⟩

theorem ends (derives : Derives style phrase tokens expr) :
    ∃ last, tokens.getLast? = some last ∧ Normal.endsOperand last = true := by
  induction derives with
  | letter letter => exact ⟨.atom letter, rfl, rfl⟩
  | group inner ih => exact ⟨.closing, by simp [List.getLast?_cons], rfl⟩
  | factor only ih => exact ih
  | term only ih => exact ih
  | negation operand ih =>
      obtain ⟨token, tail, closes⟩ := ih
      exact ⟨token, by simp [List.getLast?_cons, tail], closes⟩
  | product first last _ ih | adjacent allowed first last _ ih | sum first last _ ih =>
      obtain ⟨token, tail, closes⟩ := ih
      exact ⟨token, by simp [List.getLast?_cons, tail], closes⟩

theorem conjoin (derives : Derives .written phrase tokens expr) :
    Derives .explicit phrase (Phases.conjoin tokens) expr := by
  induction derives with
  | letter letter => exact .letter letter
  | factor only ih => exact .factor ih
  | term only ih => exact .term ih
  | negation operand ih =>
      rw [Phases.conjoin_cons .neg _ rfl]
      exact .negation ih
  | group inner ih =>
      rw [List.cons_append, Phases.conjoin_cons .opening _ rfl,
        Phases.conjoin_append_cons _ [] .closing rfl]
      exact .group ih
  | product first last ihFirst ihLast =>
      rw [Phases.conjoin_append_cons _ _ .conj rfl, Phases.conjoin_cons .conj _ rfl]
      exact .product ihFirst ihLast
  | adjacent allowed first last ihFirst ihLast =>
      obtain ⟨left, tail, closes⟩ := first.ends
      obtain ⟨right, head, opens⟩ := last.starts
      rw [Phases.conjoin_append _ _ left right tail head, Phases.seam_of_ends left right closes opens,
        List.append_assoc]
      exact .product ihFirst ihLast
  | sum first last ihFirst ihLast =>
      rw [Phases.conjoin_append_cons _ _ .disj rfl, Phases.conjoin_cons .disj _ rfl]
      exact .sum ihFirst ihLast

end Derives

/-- Trees that have the same value everywhere and name the same letters in the same order. -/
structure Expr.Alike (left right : Expr) : Prop where
  eval : ∀ value, left.eval value = right.eval value
  occurrences : left.occurrences = right.occurrences

namespace Expr.Alike

variable {left right before after : Expr}

theorem refl (expr : Expr) : Alike expr expr := ⟨fun _ => rfl, rfl⟩

theorem neg (operand : Alike left right) : Alike (.neg left) (.neg right) :=
  ⟨fun value => by simp [Expr.eval, operand.eval value], operand.occurrences⟩

theorem neg_neg (operand : Alike left right) : Alike left (.neg (.neg right)) :=
  ⟨fun value => by simp [Expr.eval, operand.eval value], operand.occurrences⟩

theorem conj (first : Alike left right) (last : Alike before after) :
    Alike (.conj left before) (.conj right after) :=
  ⟨fun value => by simp [Expr.eval, first.eval value, last.eval value],
    by simp [Expr.occurrences, first.occurrences, last.occurrences]⟩

theorem disj (first : Alike left right) (last : Alike before after) :
    Alike (.disj left before) (.disj right after) :=
  ⟨fun value => by simp [Expr.eval, first.eval value, last.eval value],
    by simp [Expr.occurrences, first.occurrences, last.occurrences]⟩

end Expr.Alike

namespace Derives

/-- Pushed onto some of what is written, tokens leave a phrase above the rest that reads alike. -/
def Leaves (phrase : Phrase) (tokens above rest : List Token) (expr : Expr) : Prop :=
  ∃ kept tree, Derives .explicit phrase kept tree ∧ tree.Alike expr ∧
    tokens.foldl Normal.push (above ++ rest) = kept.reverse ++ rest

theorem foldl_push_operator {first last kept later written : List Token} {operator : Token}
    (other : operator ≠ .neg) (before : first.foldl Normal.push written = kept.reverse ++ written)
    (after : last.foldl Normal.push (operator :: (kept.reverse ++ written)) =
      later.reverse ++ operator :: (kept.reverse ++ written)) :
    (first ++ operator :: last).foldl Normal.push written =
      (kept ++ operator :: later).reverse ++ written := by
  rw [List.foldl_append, before, List.foldl_cons, Normal.push_of_ne_neg _ operator other, after]
  simp

theorem foldl_push_group {tokens kept written : List Token}
    (inner : tokens.foldl Normal.push (.opening :: written) = kept.reverse ++ .opening :: written) :
    (Token.opening :: tokens ++ [Token.closing]).foldl Normal.push written =
      (Token.opening :: kept ++ [Token.closing]).reverse ++ written := by
  rw [List.cons_append, List.foldl_cons, Normal.push_of_ne_neg _ .opening Token.noConfusion,
    List.foldl_append, inner, List.foldl_cons, List.foldl_nil,
    Normal.push_of_ne_neg _ .closing Token.noConfusion]
  simp

theorem leaves (derives : Derives .explicit phrase tokens expr) (rest : List Token)
    (alone : rest.head? ≠ some .neg) :
    Leaves phrase tokens [] rest expr ∧
      (phrase = .factor → Leaves .factor tokens [.neg] rest (.neg expr)) := by
  -- a negation that a factor begins with takes back one written just before it, so a factor is
  -- followed both with and without a negation before it
  induction derives generalizing rest with
  | letter letter =>
      have pushed : ∀ written, Normal.push written (.atom letter) = .atom letter :: written :=
        fun written => Normal.push_of_ne_neg written _ Token.noConfusion
      exact ⟨⟨[.atom letter], .atom letter, .letter letter, .refl _, pushed rest⟩, fun _ =>
        ⟨[.neg, .atom letter], .neg (.atom letter), .negation (.letter letter), .refl _,
          pushed (.neg :: rest)⟩⟩
  | negation operand ih =>
      obtain ⟨⟨kept, tree, derives, alike, pushed⟩, negated⟩ := ih rest alone
      constructor
      · -- this negation is written, and the operand follows it
        obtain ⟨kept, tree, derives, alike, pushed⟩ := negated rfl
        refine ⟨kept, tree, derives, alike, ?_⟩
        rw [List.foldl_cons, List.nil_append, Normal.push_neg rest alone]
        exact pushed
      · exact fun _ => ⟨kept, tree, derives, alike.neg_neg, pushed⟩
  | group inner ih =>
      -- within the group nothing reaches what is written before the parenthesis
      constructor
      · obtain ⟨⟨kept, tree, derives, alike, pushed⟩, _⟩ := ih (.opening :: rest) (by simp)
        exact ⟨_, tree, .group derives, alike, foldl_push_group pushed⟩
      · intro _
        obtain ⟨⟨kept, tree, derives, alike, pushed⟩, _⟩ := ih (.opening :: .neg :: rest) (by simp)
        exact ⟨_, .neg tree, .negation (.group derives), alike.neg,
          (foldl_push_group pushed).trans (by simp)⟩
  | factor only ih =>
      obtain ⟨⟨kept, tree, derives, alike, pushed⟩, _⟩ := ih rest alone
      exact ⟨⟨kept, tree, .factor derives, alike, pushed⟩, Phrase.noConfusion⟩
  | term only ih =>
      obtain ⟨⟨kept, tree, derives, alike, pushed⟩, _⟩ := ih rest alone
      exact ⟨⟨kept, tree, .term derives, alike, pushed⟩, Phrase.noConfusion⟩
  | product first last ihFirst ihLast =>
      obtain ⟨⟨kept, left, before, leftAlike, pushed⟩, _⟩ := ihFirst rest alone
      obtain ⟨⟨later, right, after, rightAlike, finished⟩, _⟩ :=
        ihLast (.conj :: (kept.reverse ++ rest)) (by simp)
      exact ⟨⟨kept ++ .conj :: later, .conj left right, .product before after,
        leftAlike.conj rightAlike, foldl_push_operator Token.noConfusion pushed finished⟩,
        Phrase.noConfusion⟩
  | adjacent allowed first last ihFirst ihLast => cases allowed
  | sum first last ihFirst ihLast =>
      obtain ⟨⟨kept, left, before, leftAlike, pushed⟩, _⟩ := ihFirst rest alone
      obtain ⟨⟨later, right, after, rightAlike, finished⟩, _⟩ :=
        ihLast (.disj :: (kept.reverse ++ rest)) (by simp)
      exact ⟨⟨kept ++ .disj :: later, .disj left right, .sum before after,
        leftAlike.disj rightAlike, foldl_push_operator Token.noConfusion pushed finished⟩,
        Phrase.noConfusion⟩

theorem spell (derives : Derives .written .sum tokens expr) :
    ∃ tree, Derives .explicit .sum (Normal.spell [] tokens) tree ∧ tree.Alike expr := by
  obtain ⟨kept, tree, normal, alike, pushed⟩ := (derives.conjoin.leaves [] (by simp)).1
  refine ⟨tree, ?_, alike⟩
  rw [Normal.spell_eq_foldl, show List.foldl Normal.push [] _ = _ from pushed]
  simpa using normal

end Derives

end PrincipalForm
