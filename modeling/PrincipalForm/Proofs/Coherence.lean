import PrincipalForm.Direct
import PrincipalForm.Proofs.Admission

/-!
What a formula holds never shows. From a coherent formula each request gives the answer that is
computed directly from the text, and leaves the formula coherent with the same text. Requests are
followed one after another, each from what the one before it left held.
-/

namespace PrincipalForm

namespace Formula.Coherent

variable {formula : Formula}

theorem letters (coherent : formula.Coherent) :
    formula.letters = Letter.roster formula.origin :=
  congrArg Formula.letters ((Formula.ofText_eq_ok_iff _ _).mp coherent.admitted).2

theorem admissible (coherent : formula.Coherent) : formula.origin.Admissible :=
  ((Formula.ofText_eq_ok_iff _ _).mp coherent.admitted).1

theorem ofText {text : Text} (admitted : Formula.ofText text = .ok formula) : formula.Coherent := by
  obtain ⟨_, rfl⟩ := (Formula.ofText_eq_ok_iff text formula).mp admitted
  constructor
  case admitted => exact admitted
  all_goals simp

theorem fillNormal (coherent : formula.Coherent) {value : List Token}
    (right : Direct.normal formula.origin = .ok value) :
    { formula with normal? := some value : Formula }.Coherent :=
  { coherent with
    normal := fun _ same => Option.some.inj same ▸ right
    normalFirst := fun _ => rfl }

theorem fillPolish (coherent : formula.Coherent) {value : Polish}
    (right : Direct.polish formula.origin = .ok value)
    (earlier : formula.normal?.isSome = true) :
    { formula with polish? := some value : Formula }.Coherent :=
  { coherent with
    polish := fun _ same => Option.some.inj same ▸ right
    normalFirst := fun _ => earlier
    polishFirst := fun _ => rfl }

theorem fillTable (coherent : formula.Coherent) {value : Table}
    (right : Direct.table formula.origin = .ok value)
    (earlier : formula.polish?.isSome = true) :
    { formula with table? := some value : Formula }.Coherent :=
  { coherent with
    table := fun _ same => Option.some.inj same ▸ right
    polishFirst := fun _ => earlier
    tableFirst := fun _ => rfl }

theorem fillExpansion (coherent : formula.Coherent) {value : Expansion}
    (right : Direct.expansion formula.origin = .ok value)
    (earlier : formula.table?.isSome = true) :
    { formula with expansion? := some value : Formula }.Coherent :=
  { coherent with
    expansion := fun _ same => Option.some.inj same ▸ right
    tableFirst := fun _ => earlier }

end Formula.Coherent

namespace Request

variable {Value Next : Type} {before middle after : Formula → Prop}

/-- From every coherent formula that is as it should be before, the request answers as computed
directly from the text and leaves the formula coherent, with the same text and, if it succeeds, as
it should be after. -/
def Meets (before : Formula → Prop) (request : Request Value) (direct : Text → Except Fault Value)
    (after : Formula → Prop) : Prop :=
  ∀ formula, formula.Coherent → before formula →
    (request formula).answer = direct formula.origin ∧ (request formula).formula.Coherent ∧
      (request formula).formula.origin = formula.origin ∧
        ∀ value, direct formula.origin = .ok value → after (request formula).formula

theorem meets_pure (value : Value) :
    Meets before (pure value : Request Value) (fun _ => .ok value) before :=
  fun _ coherent ready => ⟨rfl, coherent, rfl, fun _ _ => ready⟩

theorem meets_ofRecorded (recorded : Recorded Value) :
    Meets before (ofRecorded recorded) (fun _ => recorded.answer) before :=
  fun _ coherent ready => ⟨rfl, coherent, rfl, fun _ _ => ready⟩

theorem meets_origin : Meets before (read Formula.origin) .ok before :=
  fun _ coherent ready => ⟨rfl, coherent, rfl, fun _ _ => ready⟩

theorem meets_letters :
    Meets before (read Formula.letters) (fun text => .ok (Letter.roster text)) before :=
  fun _ coherent ready => ⟨congrArg Except.ok coherent.letters, coherent, rfl, fun _ _ => ready⟩

theorem meets_bind {first : Request Value} {next : Value → Request Next}
    {direct : Text → Except Fault Value} {later : Value → Text → Except Fault Next}
    (meets : Meets before first direct middle)
    (meetsNext : ∀ value, Meets middle (next value) (later value) after) :
    Meets before (first >>= next) (fun text => direct text >>= fun value => later value text)
      after := by
  intro formula coherent ready
  obtain ⟨answer, kept, origin, reached⟩ := meets formula coherent ready
  have opened : (first >>= next) formula = Request.bind first next formula := rfl
  rw [opened]
  beta_reduce
  cases given : direct formula.origin with
  | error fault =>
      rw [given] at answer
      simp only [Request.bind, answer]
      refine ⟨rfl, kept, origin, fun _ done => ?_⟩
      cases done
  | ok value =>
      -- the second request starts from what the first left held
      rw [given] at answer
      have later := meetsNext value (first formula).formula kept (reached value given)
      rw [origin] at later
      simp only [Request.bind, answer]
      exact later

theorem meets_held {cell : Formula → Option Value} {fill : Formula → Value → Formula}
    {compute : Request Value} {direct : Text → Except Fault Value}
    (right : ∀ formula : Formula, formula.Coherent → ∀ value, cell formula = some value →
      direct formula.origin = .ok value)
    (meets : Meets before compute direct middle)
    (filled : ∀ (formula : Formula) (value : Value), formula.Coherent → middle formula →
      direct formula.origin = .ok value → (fill formula value).Coherent ∧
        (fill formula value).origin = formula.origin ∧ cell (fill formula value) = some value) :
    Meets before (held cell fill compute) direct (fun formula => (cell formula).isSome = true) := by
  intro formula coherent ready
  cases found : cell formula with
  | some value =>
      have known := right formula coherent value found
      rw [held, found, known]
      exact ⟨rfl, coherent, rfl, fun _ _ => Option.isSome_iff_exists.mpr ⟨value, found⟩⟩
  | none =>
      -- a fault leaves the cell empty, but cells of earlier stages may have been filled
      obtain ⟨answer, kept, origin, reached⟩ := meets formula coherent ready
      rw [← answer] at reached ⊢
      simp only [held, found]
      cases given : (compute formula).answer with
      | error fault => exact ⟨rfl, kept, origin, fun _ done => by cases done⟩
      | ok value =>
          rw [given] at answer
          rw [← origin] at answer
          obtain ⟨coherent, same, full⟩ := filled _ value kept (reached value given) answer.symm
          exact ⟨rfl, coherent, same.trans origin, fun _ _ => Option.isSome_iff_exists.mpr ⟨value, full⟩⟩

theorem meets_congr {request : Request Value} {direct other : Text → Except Fault Value}
    (meets : Meets before request direct after) (same : ∀ text, direct text = other text) :
    Meets before request other after := funext same ▸ meets

/-! Each stage is met by its computation before it is met by what is held of it. -/

theorem computes_normal :
    Meets (fun _ => True) (read Formula.origin >>= fun origin => ofRecorded (Recorded.normal origin))
      Direct.normal (fun _ => True) :=
  meets_congr (meets_bind meets_origin fun _ => meets_ofRecorded _) fun _ => Recorded.noting_answer _ _

theorem meets_normal :
    Meets (fun _ => True) normal Direct.normal (fun formula => formula.normal?.isSome = true) := by
  refine meets_held (fun _ coherent => coherent.normal) computes_normal ?_
  exact fun formula value coherent _ right => ⟨coherent.fillNormal right, rfl, rfl⟩

theorem computes_polish :
    Meets (fun _ => True) (normal >>= fun tokens => ofRecorded (Recorded.polish tokens))
      Direct.polish (fun formula => formula.normal?.isSome = true) :=
  meets_bind meets_normal fun _ => meets_ofRecorded _

theorem meets_polish :
    Meets (fun _ => True) polish Direct.polish (fun formula => formula.polish?.isSome = true) := by
  refine meets_held (fun _ coherent => coherent.polish) computes_polish ?_
  exact fun formula value coherent earlier right => ⟨coherent.fillPolish right earlier, rfl, rfl⟩

theorem computes_table :
    Meets (fun _ => True) (polish >>= fun sequence => read Formula.letters >>= fun letters =>
        ofRecorded (Recorded.table letters sequence))
      Direct.table (fun formula => formula.polish?.isSome = true) := by
  refine meets_congr (meets_bind meets_polish fun sequence =>
    meets_bind meets_letters fun letters => meets_ofRecorded _) fun text => ?_
  simp only [Recorded.table_answer]
  rfl

theorem meets_table :
    Meets (fun _ => True) table Direct.table (fun formula => formula.table?.isSome = true) := by
  refine meets_held (fun _ coherent => coherent.table) computes_table ?_
  exact fun formula value coherent earlier right => ⟨coherent.fillTable right earlier, rfl, rfl⟩

theorem computes_expansion :
    Meets (fun _ => True) (table >>= fun rows => ofRecorded (Recorded.expansion rows))
      Direct.expansion (fun formula => formula.table?.isSome = true) :=
  meets_bind meets_table fun _ => meets_ofRecorded _

theorem meets_expansion :
    Meets (fun _ => True) expansion Direct.expansion
      (fun formula => formula.expansion?.isSome = true) := by
  refine meets_held (fun _ coherent => coherent.expansion) computes_expansion ?_
  exact fun formula value coherent earlier right => ⟨coherent.fillExpansion right earlier, rfl, rfl⟩

theorem meets_evaluate (valuation : Valuation) :
    Meets (fun _ => True) (evaluate valuation)
      (fun text => Direct.polish text >>= fun sequence => PrincipalForm.evaluate sequence valuation)
      (fun formula => formula.polish?.isSome = true) := by
  refine meets_congr (meets_bind meets_polish fun sequence => meets_ofRecorded _) fun text => ?_
  simp only [Recorded.value, Recorded.noting_answer]

theorem Meets.onText_eq {request : Request Value} {direct : Text → Except Fault Value}
    (meets : Meets (fun _ => True) request direct after) {text : Text}
    (admissible : text.Admissible) : request.onText text = direct text := by
  have admitted := admissible.ofText_eq
  rw [onText, admitted]
  exact (meets _ (Formula.Coherent.ofText admitted) trivial).1

theorem meets_map {request : Request Value} {direct : Text → Except Fault Value}
    (meets : Meets before request direct after) (wrap : Value → Next) :
    Meets before (request >>= fun value => pure (wrap value))
      (fun text => direct text >>= fun value => .ok (wrap value)) after :=
  meets_bind meets fun value => meets_pure (wrap value)

theorem meets_weaken {request : Request Value} {direct : Text → Except Fault Value}
    (meets : Meets before request direct after) : Meets before request direct (fun _ => True) :=
  fun formula coherent ready =>
    have ⟨answer, kept, origin, _⟩ := meets formula coherent ready
    ⟨answer, kept, origin, fun _ _ => trivial⟩

theorem all_true (table : Table) :
    decide (table.trueRows.length = table.size) = table.rows.all Row.value := by
  rw [Table.trueRows, Table.size, Bool.eq_iff_iff, decide_eq_true_eq, List.all_eq_true]
  exact List.length_filter_eq_length_iff

theorem meets_question (question : Question) :
    Meets (fun _ => True) question.request (Direct.answer · question) (fun _ => True) := by
  cases question with
  | origin => exact meets_map meets_origin Answer.text
  | letters => exact meets_map meets_letters Answer.letters
  | normal => exact meets_weaken (meets_map meets_normal Answer.tokens)
  | polish => exact meets_weaken (meets_map meets_polish Answer.tokens)
  | table => exact meets_weaken (meets_map meets_table Answer.table)
  | expansion => exact meets_weaken (meets_map meets_expansion Answer.expansion)
  | render layout =>
      refine meets_weaken (meets_congr (meets_map (meets_map meets_table _) Answer.text) ?_)
      intro text
      rw [Direct.answer]
      cases Direct.table text <;> rfl
  | tautology =>
      refine meets_weaken (meets_congr (meets_map (meets_map meets_table _) Answer.verdict) ?_)
      intro text
      rw [Direct.answer]
      cases Direct.table text with
      | error fault => rfl
      | ok table => exact congrArg (fun verdict => Except.ok (Answer.verdict verdict)) (all_true table)
  | contradiction =>
      refine meets_weaken (meets_congr (meets_map (meets_map meets_expansion _) Answer.verdict) ?_)
      intro text
      rw [Direct.answer]
      cases Direct.expansion text <;> rfl
  | satisfiable =>
      refine meets_weaken (meets_congr
        (meets_map (meets_map (meets_map meets_expansion _) _) Answer.verdict) ?_)
      intro text
      rw [Direct.answer]
      cases Direct.expansion text <;> rfl
  | contains valuation =>
      refine meets_weaken (meets_congr (meets_map (meets_map meets_expansion _) Answer.verdict) ?_)
      intro text
      rw [Direct.answer]
      cases Direct.expansion text <;> rfl
  | evaluate valuation =>
      refine meets_weaken (meets_congr (meets_map (meets_evaluate valuation) Answer.verdict) ?_)
      intro text
      rw [Direct.answer]
      cases Direct.polish text <;> rfl

end Request

theorem Formula.Coherent.answer_expansion {formula : Formula} (coherent : formula.Coherent) :
    (Request.expansion formula).answer = Direct.expansion formula.origin :=
  (Request.meets_expansion formula coherent trivial).1

end PrincipalForm
