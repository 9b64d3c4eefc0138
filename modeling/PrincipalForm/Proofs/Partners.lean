import Mathlib.Data.Set.Card
import PrincipalForm.Proofs.Admission

/-!
Partners among the parentheses of a text. An opening parenthesis and a later closing one are partners
when the text between them is nested. Counting depth along the text finds how many parentheses have no
partner, and these are the ones that stand in the output when the text is arranged, whatever else the
text has.
-/

namespace PrincipalForm

namespace Parentheses

/-- Text in which parentheses come in pairs, one inside the other or one after the other. -/
inductive Nested : Text → Prop where
  | empty : Nested []
  | other {c : Char} {rest : Text} (notOpening : c ≠ '(') (notClosing : c ≠ ')')
      (later : Nested rest) : Nested (c :: rest)
  | group {inner rest : Text} (inside : Nested inner) (later : Nested rest) :
      Nested ('(' :: inner ++ ')' :: rest)

/-- The places of two parentheses with nested text between them. -/
def Partners (text : Text) (opening closing : Nat) : Prop :=
  text[opening]? = some '(' ∧ text[closing]? = some ')' ∧ opening < closing ∧
    Nested ((text.take closing).drop (opening + 1))

def Unclosed (text : Text) (place : Nat) : Prop :=
  text[place]? = some '(' ∧ ∀ closing, ¬ Partners text place closing

def Unopened (text : Text) (place : Nat) : Prop :=
  text[place]? = some ')' ∧ ∀ opening, ¬ Partners text opening place

section Depth

theorem unmatchedAfter_append (depth : Nat) (before after : List Token) :
    unmatchedAfter depth (before ++ after) =
      ⟨(unmatchedAfter (unmatchedAfter depth before).openings after).openings,
        (unmatchedAfter depth before).closings +
          (unmatchedAfter (unmatchedAfter depth before).openings after).closings⟩ := by
  induction before generalizing depth with
  | nil => simp [unmatchedAfter]
  | cons token rest ih =>
      cases token with
      | opening => simp only [List.cons_append, unmatchedAfter, ih]
      | closing =>
          cases depth with
          | zero =>
              simp only [List.cons_append, unmatchedAfter, ih]
              congr 1
              omega
          | succ depth => simp only [List.cons_append, unmatchedAfter, ih]
      | atom letter | conj | disj | neg => simp only [List.cons_append, unmatchedAfter, ih]

/-- Open parentheses are closed by closings without a partner, as long as there are some. -/
theorem unmatchedAfter_eq (depth : Nat) (tokens : List Token) :
    unmatchedAfter depth tokens =
      ⟨(unmatched tokens).openings + (depth - (unmatched tokens).closings),
        (unmatched tokens).closings - depth⟩ := by
  induction tokens generalizing depth with
  | nil => simp [unmatched, unmatchedAfter]
  | cons token rest ih =>
      cases token with
      | opening =>
          simp only [unmatched, unmatchedAfter]
          rw [ih (depth + 1), ih (0 + 1)]
          congr 1 <;> dsimp only <;> omega
      | closing =>
          cases depth with
          | zero => simp [unmatched]
          | succ depth =>
              simp only [unmatched, unmatchedAfter]
              rw [ih depth, unmatched]
              congr 1 <;> omega
      | atom letter | conj | disj | neg =>
          simp only [unmatched, unmatchedAfter]
          exact ih depth

end Depth

theorem unmatchedAfter_read_other (depth : Nat) {c : Char} (rest : Text) (notOpening : c ≠ '(')
    (notClosing : c ≠ ')') :
    unmatchedAfter depth (Token.read (c :: rest)) = unmatchedAfter depth (Token.read rest) := by
  rw [Token.read, List.filterMap_cons]
  cases named : Token.ofChar? c with
  | none => rfl
  | some token =>
      have symbol := Token.symbol_of_ofChar? named
      refine unmatchedAfter_other depth token _ ?_ ?_
      · rintro rfl
        exact notOpening symbol.symm
      · rintro rfl
        exact notClosing symbol.symm

theorem Nested.unmatchedAfter {text : Text} (nested : Nested text) (depth : Nat) :
    unmatchedAfter depth (Token.read text) = ⟨depth, 0⟩ := by
  induction nested generalizing depth with
  | empty => rfl
  | other notOpening notClosing later ih =>
      rw [unmatchedAfter_read_other depth _ notOpening notClosing, ih]
  | @group inner rest inside later ihInside ihLater =>
      have tokens : Token.read ('(' :: inner ++ ')' :: rest) =
          .opening :: Token.read inner ++ .closing :: Token.read rest := List.filterMap_append
      rw [tokens, List.cons_append, Parentheses.unmatchedAfter, unmatchedAfter_append, ihInside,
        Parentheses.unmatchedAfter, ihLater]
      rfl

/-- The text goes on nested up to a closing parenthesis that nothing in it opens. -/
def Closes (text : Text) : Prop :=
  ∃ inner after, text = inner ++ ')' :: after ∧ Nested inner

/-- The text ends nested from an opening parenthesis on that nothing in it closes. -/
def Opens (text : Text) : Prop :=
  ∃ before inner, text = before ++ '(' :: inner ∧ Nested inner

theorem unmatched_of_closes {inner : Text} (nested : Nested inner) (after : Text) :
    unmatched (Token.read (inner ++ ')' :: after)) =
      ⟨(unmatched (Token.read after)).openings, (unmatched (Token.read after)).closings + 1⟩ := by
  have tokens : Token.read (inner ++ ')' :: after) = Token.read inner ++ .closing :: Token.read after :=
    List.filterMap_append
  rw [tokens, unmatched, unmatchedAfter_append, nested.unmatchedAfter, unmatchedAfter, Nat.zero_add]
  rfl

theorem unmatched_opening (rest : Text) :
    unmatched (Token.read ('(' :: rest)) =
      ⟨(unmatched (Token.read rest)).openings + (1 - (unmatched (Token.read rest)).closings),
        (unmatched (Token.read rest)).closings - 1⟩ :=
  unmatchedAfter_eq 1 (Token.read rest)

theorem closes_of_unmatched {text : Text} (stray : 0 < (unmatched (Token.read text)).closings) :
    Closes text := by
  -- on the length: what follows a group is no tail of the text that the group stands in
  induction size : text.length using Nat.strong_induction_on generalizing text with
  | _ size ih =>
      subst size
      cases text with
      | nil => cases stray
      | cons c rest =>
          by_cases opening : c = '('
          · subst opening
            rw [unmatched_opening] at stray
            obtain ⟨inner, after, rfl, nested⟩ :=
              ih rest.length (Nat.lt_succ_self _) (Nat.lt_of_lt_of_le stray (Nat.sub_le _ 1)) rfl
            rw [unmatched_of_closes nested] at stray
            have shorter : after.length < ('(' :: (inner ++ ')' :: after)).length := by
              simp only [List.length_cons, List.length_append]
              omega
            obtain ⟨second, later, rfl, others⟩ := ih after.length shorter stray rfl
            exact ⟨'(' :: inner ++ ')' :: second, later, by simp, .group nested others⟩
          · by_cases closing : c = ')'
            · subst closing
              exact ⟨[], rest, rfl, .empty⟩
            · rw [unmatched, unmatchedAfter_read_other 0 rest opening closing] at stray
              obtain ⟨inner, after, rfl, nested⟩ := ih rest.length (Nat.lt_succ_self _) stray rfl
              exact ⟨c :: inner, after, rfl, .other opening closing nested⟩

theorem closes_iff (text : Text) : Closes text ↔ 0 < (unmatched (Token.read text)).closings := by
  constructor
  · rintro ⟨inner, after, rfl, nested⟩
    rw [unmatched_of_closes nested]
    exact Nat.succ_pos _
  · exact closes_of_unmatched

theorem unmatched_concat_closing (text : Text) :
    unmatched (Token.read (text ++ [')'])) =
      ⟨(unmatched (Token.read text)).openings - 1,
        (unmatched (Token.read text)).closings + (1 - (unmatched (Token.read text)).openings)⟩ := by
  have tokens : Token.read (text ++ [')']) = Token.read text ++ [.closing] := List.filterMap_append
  rw [tokens, unmatched, unmatchedAfter_append, unmatchedAfter_eq _ [.closing]]
  simp [unmatched, unmatchedAfter]

theorem balanced_iff (text : Text) : Balanced (Token.read text) ↔ Nested text := by
  constructor
  · intro balanced
    -- one closing parenthesis more is closed by nothing, and what is before it is nested
    have stray : Closes (text ++ [')']) := by
      rw [closes_iff, unmatched_concat_closing, balanced]
      exact Nat.one_pos
    obtain ⟨inner, after, split, nested⟩ := stray
    rcases List.eq_nil_or_concat after with rfl | ⟨earlier, last, rfl⟩
    · rwa [(List.append_inj' split rfl).1]
    · rw [List.concat_eq_append, ← List.cons_append, ← List.append_assoc] at split
      have closes : Closes text := ⟨inner, earlier, (List.append_inj' split rfl).1, nested⟩
      rw [closes_iff, balanced] at closes
      cases closes
  · exact fun nested => nested.unmatchedAfter 0

theorem opens_iff (text : Text) : Opens text ↔ 0 < (unmatched (Token.read text)).openings := by
  constructor
  · rintro ⟨before, inner, rfl, nested⟩
    have tokens : Token.read (before ++ '(' :: inner) =
        Token.read before ++ .opening :: Token.read inner := List.filterMap_append
    rw [tokens, unmatched, unmatchedAfter_append, unmatchedAfter, nested.unmatchedAfter]
    exact Nat.succ_pos _
  · intro opened
    induction text with
    | nil => cases opened
    | cons c rest ih =>
        by_cases later : 0 < (unmatched (Token.read rest)).openings
        · obtain ⟨before, inner, rfl, nested⟩ := ih later
          exact ⟨c :: before, inner, rfl, nested⟩
        · by_cases opening : c = '('
          · subst opening
            rw [unmatched_opening] at opened
            rcases counted : unmatched (Token.read rest) with ⟨openings, closings⟩
            rw [counted] at opened later
            dsimp only at opened later
            have none : openings = 0 := by omega
            have all : closings = 0 := by omega
            subst none all
            exact ⟨[], rest, rfl, (balanced_iff rest).mp counted⟩
          · by_cases closing : c = ')'
            · subst closing
              exact absurd opened later
            · rw [unmatched, unmatchedAfter_read_other 0 rest opening closing] at opened
              exact absurd opened later

section Places

variable {c : Char} {text : Text} {place : Nat}

theorem closes_iff_exists :
    Closes text ↔ ∃ place, text[place]? = some ')' ∧ Nested (text.take place) := by
  constructor
  · rintro ⟨inner, after, rfl, nested⟩
    exact ⟨inner.length, by simp, by simpa using nested⟩
  · rintro ⟨place, found, nested⟩
    refine ⟨text.take place, text.drop (place + 1), ?_, nested⟩
    obtain ⟨within, same⟩ := List.getElem?_eq_some_iff.mp found
    rw [← same, List.getElem_cons_drop, List.take_append_drop]

theorem opens_iff_exists :
    Opens text ↔ ∃ place, text[place]? = some '(' ∧ Nested (text.drop (place + 1)) := by
  constructor
  · rintro ⟨before, inner, rfl, nested⟩
    exact ⟨before.length, by simp, by simpa using nested⟩
  · rintro ⟨place, found, nested⟩
    refine ⟨text.take place, text.drop (place + 1), ?_, nested⟩
    obtain ⟨within, same⟩ := List.getElem?_eq_some_iff.mp found
    rw [← same, List.getElem_cons_drop, List.take_append_drop]

theorem unclosed_cons_zero (rest : Text) :
    Unclosed (c :: rest) 0 ↔ c = '(' ∧ ¬ Closes rest := by
  rw [Unclosed, closes_iff_exists]
  constructor
  · rintro ⟨opening, alone⟩
    refine ⟨Option.some.inj opening, ?_⟩
    rintro ⟨closing, found, nested⟩
    exact alone (closing + 1) ⟨opening, found, Nat.succ_pos closing, nested⟩
  · rintro ⟨rfl, alone⟩
    refine ⟨rfl, ?_⟩
    rintro (_ | closing) ⟨_, found, later, nested⟩
    · exact Nat.lt_irrefl 0 later
    · exact alone ⟨closing, found, nested⟩

theorem partners_cons_succ (rest : Text) (opening closing : Nat) :
    Partners (c :: rest) (opening + 1) (closing + 1) ↔ Partners rest opening closing := by
  rw [Partners, Partners, Nat.add_lt_add_iff_right]
  rfl

theorem unclosed_cons_succ (rest : Text) :
    Unclosed (c :: rest) (place + 1) ↔ Unclosed rest place := by
  rw [Unclosed, Unclosed]
  refine and_congr_right fun _ => ⟨fun alone closing => ?_, fun alone closing => ?_⟩
  · rw [← partners_cons_succ]
    exact alone (closing + 1)
  · cases closing with
    | zero => exact fun partners => Nat.not_lt_zero _ partners.2.2.1
    | succ closing =>
        rw [partners_cons_succ]
        exact alone closing

theorem unopened_concat_length :
    Unopened (text ++ [c]) text.length ↔ c = ')' ∧ ¬ Opens text := by
  have last : (text ++ [c])[text.length]? = some c := List.getElem?_concat_length
  have front : (text ++ [c]).take text.length = text := List.take_left
  rw [Unopened, opens_iff_exists, last, Option.some.injEq]
  refine and_congr_right ?_
  rintro rfl
  rw [not_exists]
  refine forall_congr' fun opening => not_congr ?_
  rw [Partners, last, front]
  constructor
  · rintro ⟨found, _, before, nested⟩
    rw [List.getElem?_append_left before] at found
    exact ⟨found, nested⟩
  · rintro ⟨found, nested⟩
    have before := (List.getElem?_eq_some_iff.mp found).1
    rw [List.getElem?_append_left before]
    exact ⟨found, rfl, before, nested⟩

theorem unopened_concat (within : place < text.length) :
    Unopened (text ++ [c]) place ↔ Unopened text place := by
  have front : (text ++ [c]).take place = text.take place :=
    List.take_append_of_le_length (Nat.le_of_lt within)
  rw [Unopened, Unopened, List.getElem?_append_left within]
  refine and_congr_right fun _ => forall_congr' fun opening => not_congr ?_
  rw [Partners, Partners, List.getElem?_append_left within, front]
  refine and_congr_left ?_
  rintro ⟨_, before, _⟩
  rw [List.getElem?_append_left (Nat.lt_trans before within)]

theorem place_lt_of_unclosed (unclosed : Unclosed text place) : place < text.length :=
  (List.getElem?_eq_some_iff.mp unclosed.1).1

theorem place_lt_of_unopened (unopened : Unopened text place) : place < text.length :=
  (List.getElem?_eq_some_iff.mp unopened.1).1

theorem unopened_concat_iff :
    Unopened (text ++ [c]) place ↔
      place = text.length ∧ c = ')' ∧ ¬ Opens text ∨ Unopened text place := by
  rcases Nat.lt_trichotomy place text.length with within | rfl | beyond
  · rw [unopened_concat within]
    simp [Nat.ne_of_lt within]
  · have fresh : ¬ Unopened text text.length := fun found =>
      Nat.lt_irrefl _ (place_lt_of_unopened found)
    rw [unopened_concat_length]
    simp [fresh]
  · have outside : ¬ Unopened (text ++ [c]) place := fun found => by
      have bound := place_lt_of_unopened found
      rw [List.length_append, List.length_singleton] at bound
      omega
    have absent : ¬ Unopened text place := fun found =>
      Nat.lt_asymm beyond (place_lt_of_unopened found)
    simp [outside, absent, Nat.ne_of_gt beyond]

end Places

theorem openings_cons_other {c : Char} (rest : Text) (other : c ≠ '(') :
    (unmatched (Token.read (c :: rest))).openings = (unmatched (Token.read rest)).openings := by
  by_cases closing : c = ')'
  · subst closing
    exact (congrArg Unmatched.openings (unmatched_of_closes .empty rest)).trans rfl
  · rw [unmatched, unmatchedAfter_read_other 0 rest other closing, unmatched]

theorem closings_concat_other {c : Char} (text : Text) (other : c ≠ ')') :
    (unmatched (Token.read (text ++ [c]))).closings = (unmatched (Token.read text)).closings := by
  have tokens : Token.read (text ++ [c]) = Token.read text ++ Token.read [c] := List.filterMap_append
  rw [tokens, unmatched, unmatchedAfter_append]
  by_cases opening : c = '('
  · subst opening
    rfl
  · rw [(Nested.other opening other .empty).unmatchedAfter]
    rfl

theorem ncard_unclosed (text : Text) :
    {place | Unclosed text place}.ncard = (unmatched (Token.read text)).openings := by
  induction text with
  | nil =>
      have none : {place | Unclosed [] place} = ∅ :=
        Set.eq_empty_of_forall_notMem fun place found => Nat.not_lt_zero _ (place_lt_of_unclosed found)
      rw [none, Set.ncard_empty]
      rfl
  | cons c rest ih =>
      have finite : {place | Unclosed rest place}.Finite :=
        (Set.finite_lt_nat rest.length).subset fun _ found => place_lt_of_unclosed found
      have moved : (Nat.succ '' {place | Unclosed rest place}).ncard =
          (unmatched (Token.read rest)).openings := by
        rw [Set.ncard_image_of_injective _ Nat.succ_injective, ih]
      by_cases first : c = '(' ∧ ¬ Closes rest
      · have places : {place | Unclosed (c :: rest) place} =
            insert 0 (Nat.succ '' {place | Unclosed rest place}) := by
          ext place
          cases place <;> simp [unclosed_cons_zero, unclosed_cons_succ, first]
        obtain ⟨rfl, alone⟩ := first
        rw [closes_iff] at alone
        rw [places, Set.ncard_insert_of_notMem (by simp) (finite.image _), moved, unmatched_opening]
        dsimp only
        omega
      · have places : {place | Unclosed (c :: rest) place} =
            Nat.succ '' {place | Unclosed rest place} := by
          ext place
          cases place <;> simp [unclosed_cons_zero, unclosed_cons_succ, first]
        rw [places, moved]
        by_cases opening : c = '('
        · subst opening
          have closes : Closes rest := by simpa using first
          rw [closes_iff] at closes
          rw [unmatched_opening]
          dsimp only
          omega
        · exact (openings_cons_other rest opening).symm

theorem ncard_unopened (text : Text) :
    {place | Unopened text place}.ncard = (unmatched (Token.read text)).closings := by
  -- from the end of the text: a closing parenthesis has its partner before it
  induction text using List.reverseRecOn with
  | nil =>
      have none : {place | Unopened [] place} = ∅ :=
        Set.eq_empty_of_forall_notMem fun place found => Nat.not_lt_zero _ (place_lt_of_unopened found)
      rw [none, Set.ncard_empty]
      rfl
  | append_singleton text c ih =>
      have finite : {place | Unopened text place}.Finite :=
        (Set.finite_lt_nat text.length).subset fun _ found => place_lt_of_unopened found
      have fresh : text.length ∉ {place | Unopened text place} := fun found =>
        Nat.lt_irrefl _ (place_lt_of_unopened found)
      by_cases last : c = ')' ∧ ¬ Opens text
      · have places : {place | Unopened (text ++ [c]) place} =
            insert text.length {place | Unopened text place} := by
          ext place
          simp [unopened_concat_iff, last]
        obtain ⟨rfl, alone⟩ := last
        rw [opens_iff] at alone
        rw [places, Set.ncard_insert_of_notMem fresh finite, ih, unmatched_concat_closing]
        dsimp only
        omega
      · have places : {place | Unopened (text ++ [c]) place} = {place | Unopened text place} := by
          ext place
          simp [unopened_concat_iff, last]
        rw [places, ih]
        by_cases closing : c = ')'
        · subst closing
          have opens : Opens text := by simpa using last
          rw [opens_iff] at opens
          rw [unmatched_concat_closing]
          dsimp only
          omega
        · exact (closings_concat_other text closing).symm

end Parentheses

namespace Polish

theorem count_arrange_read (text : Text) (token : Token) (notOpening : token ≠ .opening)
    (notClosing : token ≠ .closing) :
    (arrange (Token.read text)).count token = text.count token.symbol := by
  rw [List.count_eq_countP, countP_arrange _ _ (by simpa using notOpening.symm)
    (by simpa using notClosing.symm), ← List.count_eq_countP, Token.count_read]

/-- Any text is arranged without loss: the letters in their order, each operator as often as it stands in
the text, and those parentheses that have no partner in it. -/
theorem arrange_conserves (text : Text) :
    (arrange (Token.read text)).filterMap Token.letter? = text.filterMap Letter.ofChar? ∧
      (∀ letter, (arrange (Token.read text)).count (.atom letter) = text.count letter.name) ∧
      (arrange (Token.read text)).count .disj = text.count '+' ∧
      (arrange (Token.read text)).count .conj = text.count '*' ∧
      (arrange (Token.read text)).count .neg = text.count '!' ∧
      (arrange (Token.read text)).count .opening =
        {place | Parentheses.Unclosed text place}.ncard ∧
      (arrange (Token.read text)).count .closing =
        {place | Parentheses.Unopened text place}.ncard ∧
      (.opening ∉ arrange (Token.read text) ∧ .closing ∉ arrange (Token.read text) ↔
        Parentheses.Nested text) := by
  have unmatched := unmatched_eq_count (Token.read text)
  refine ⟨?_, ?_, ?_, ?_, ?_, ?_, ?_, ?_⟩
  · rw [letters_arrange, Token.letters_read]
  · exact fun letter => count_arrange_read text _ Token.noConfusion Token.noConfusion
  · exact count_arrange_read text _ Token.noConfusion Token.noConfusion
  · exact count_arrange_read text _ Token.noConfusion Token.noConfusion
  · exact count_arrange_read text _ Token.noConfusion Token.noConfusion
  · rw [Parentheses.ncard_unclosed, unmatched]
  · rw [Parentheses.ncard_unopened, unmatched]
  · rw [← Parentheses.balanced_iff, Parentheses.Balanced, unmatched, Unmatched.mk.injEq,
      List.count_eq_zero, List.count_eq_zero]

/-- The second opening parenthesis has a partner, past the operator between them. -/
example : Polish.arrange (Token.read [')', 'a', '?', '(', 'b', '(', '+', ')']) =
    [.closing, .atom .a, .atom .b, .disj, .opening] := by decide

end Polish

end PrincipalForm
