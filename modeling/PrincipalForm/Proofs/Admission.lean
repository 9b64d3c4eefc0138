import PrincipalForm.Formula
import PrincipalForm.Text.Blank
import PrincipalForm.Proofs.Recognition

namespace PrincipalForm

theorem Alphabet.check_eq_ok_iff (text : Text) : check text = .ok () ↔ text.all legal = true := by
  rw [← offender?_eq_none_iff 0 text, check]
  cases found : offender? 0 text with
  | none => simp
  | some offender => simp

namespace Token

theorem letter?_ofChar? (c : Char) : (ofChar? c).bind letter? = Letter.ofChar? c := by
  unfold ofChar?
  split
  iterate 5 next => rfl
  next => cases Letter.ofChar? c <;> rfl

theorem letters_read (text : Text) :
    (read text).filterMap letter? = text.filterMap Letter.ofChar? := by
  rw [read, List.filterMap_filterMap, funext letter?_ofChar?]

theorem ofChar?_eq_some_iff (c : Char) (token : Token) :
    ofChar? c = some token ↔ c = token.symbol :=
  ⟨fun named => (symbol_of_ofChar? named).symm, fun same => same ▸ ofChar?_symbol token⟩

theorem count_read (text : Text) (token : Token) :
    (read text).count token = text.count token.symbol := by
  rw [read, List.count_filterMap, List.count_eq_countP]
  refine List.countP_congr fun c _ => ?_
  rw [beq_iff_eq, beq_iff_eq, ofChar?_eq_some_iff]

theorem ofChar?_eq_none_iff (c : Char) (legal : Alphabet.legal c = true) :
    ofChar? c = none ↔ c = ' ' := by
  constructor
  · intro absent
    rw [Alphabet.legal, Bool.or_eq_true, decide_eq_true_eq] at legal
    rcases legal with lower | operator
    · have named := ofChar?_symbol (.atom ⟨c, lower⟩)
      rw [symbol, absent] at named
      cases named
    · simp only [List.mem_cons, List.not_mem_nil, or_false] at operator
      rcases operator with rfl | rfl | rfl | rfl | rfl | rfl
      iterate 5 cases absent
      rfl
  · rintro rfl
    rfl

theorem read_eq_nil_iff (text : Text) (legal : text.all Alphabet.legal = true) :
    read text = [] ↔ text.all (· = ' ') = true := by
  rw [List.all_eq_true] at legal
  rw [read, List.filterMap_eq_nil_iff, List.all_eq_true]
  refine forall_congr' fun c => imp_congr_right fun member => ?_
  rw [ofChar?_eq_none_iff c (legal c member), decide_eq_true_eq]

theorem legal_write (tokens : List Token) : (write tokens).all Alphabet.legal = true := by
  rw [write, List.all_map, List.all_eq_true]
  intro token _
  cases token with
  | atom letter => exact Alphabet.legal_name letter
  | _ => rfl

/-- Written again, the tokens of a legal text are the text without its spaces. -/
theorem write_read (text : Text) (legal : text.all Alphabet.legal = true) :
    write (read text) = text.filter (· ≠ ' ') := by
  induction text with
  | nil => rfl
  | cons c rest ih =>
      rw [List.all_cons, Bool.and_eq_true] at legal
      have known := ofChar?_eq_none_iff c legal.1
      rw [read, List.filterMap_cons, List.filter_cons, ← ih legal.2]
      cases named : ofChar? c with
      | none =>
          have blank := known.mp named
          simp [blank, read]
      | some token =>
          have other : c ≠ ' ' := fun blank => by cases named.symm.trans (known.mpr blank)
          simp [other, read, write, symbol_of_ofChar? named]

end Token

namespace Text

theorem white_of_legal {c : Char} (legal : Alphabet.legal c = true) (spaced : white c = true) :
    c = ' ' := by
  rw [Alphabet.legal, Bool.or_eq_true, decide_eq_true_eq] at legal
  rcases legal with lower | operator
  · have bounds : 97 ≤ c.toNat ∧ c.toNat ≤ 122 := by
      have values : (c.val ≥ 'a'.val && c.val ≤ 'z'.val) = true := lower
      simpa [UInt32.le_iff_toNat_le, ← Char.toNat_val] using values
    have absent : ∀ code < 123, 97 ≤ code → within whiteIntervals code = false := by decide
    rw [white, absent c.toNat (by omega) bounds.1] at spaced
    cases spaced
  · simp only [List.mem_cons, List.not_mem_nil, or_false] at operator
    rcases operator with rfl | rfl | rfl | rfl | rfl | rfl
    iterate 5 cases spaced
    rfl

end Text

structure Text.Admissible (text : Text) : Prop where
  legal : text.all Alphabet.legal = true
  filled : text.all (· = ' ') = false

theorem Text.Admissible.of_exists {text : Text} (legal : text.all Alphabet.legal = true)
    (filled : ∃ c ∈ text, c ≠ ' ') : text.Admissible :=
  ⟨legal, by simpa using filled⟩

theorem Formula.ofText_eq_ok_iff (text : Text) (formula : Formula) :
    Formula.ofText text = .ok formula ↔
      text.Admissible ∧ formula = { origin := text, letters := Letter.roster text } := by
  rw [Formula.ofText]
  constructor
  · intro admitted
    cases checked : Alphabet.check text with
    | error fault => rw [checked] at admitted; cases admitted
    | ok _ =>
        cases filled : text.all (· = ' ') with
        | true => rw [checked, filled] at admitted; cases admitted
        | false =>
            rw [checked, filled] at admitted
            cases admitted
            exact ⟨⟨(Alphabet.check_eq_ok_iff text).mp checked, filled⟩, rfl⟩
  · rintro ⟨⟨legal, filled⟩, rfl⟩
    rw [(Alphabet.check_eq_ok_iff text).mpr legal, filled]
    rfl

theorem Text.Admissible.ofText_eq {text : Text} (admissible : text.Admissible) :
    Formula.ofText text = .ok { origin := text, letters := Letter.roster text } :=
  (Formula.ofText_eq_ok_iff text _).mpr ⟨admissible, rfl⟩

theorem normalize_eq_ok_iff (text : Text) (normal : List Token) :
    normalize text = .ok normal ↔
      text.Admissible ∧ normal = Normal.spell [] (Token.read text) := by
  rw [normalize]
  constructor
  · intro given
    cases checked : Alphabet.check text with
    | error fault => rw [checked] at given; cases given
    | ok _ =>
        have legal := (Alphabet.check_eq_ok_iff text).mp checked
        have blank := Token.read_eq_nil_iff text legal
        rw [checked] at given
        cases tokens : Token.read text with
        | nil => rw [tokens] at given; cases given
        | cons token rest =>
            rw [tokens] at given blank
            cases given
            have filled := Bool.eq_false_iff.mpr (mt blank.mpr (List.cons_ne_nil token rest))
            exact ⟨⟨legal, filled⟩, rfl⟩
  · rintro ⟨⟨legal, filled⟩, rfl⟩
    rw [(Alphabet.check_eq_ok_iff text).mpr legal]
    cases tokens : Token.read text with
    | nil => rw [(Token.read_eq_nil_iff text legal).mp tokens] at filled; cases filled
    | cons token rest => rfl

theorem Text.Admissible.normalize_eq {text : Text} (admissible : text.Admissible) :
    normalize text = .ok (Normal.spell [] (Token.read text)) :=
  (normalize_eq_ok_iff text _).mpr ⟨admissible, rfl⟩

end PrincipalForm
