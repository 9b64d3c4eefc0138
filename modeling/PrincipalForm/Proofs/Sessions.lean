import PrincipalForm.Proofs.Coherence

namespace PrincipalForm

namespace Session

def Coherent (session : Session) : Prop :=
  ∀ slot formula, session.get? slot = some formula → formula.Coherent

def texts (session : Session) : Slot → Option Text :=
  fun slot => (session.get? slot).map Formula.origin

/-- Sessions that instructions reach from the empty one. -/
inductive Reached : Session → Prop where
  | empty : Reached Session.empty
  | run {session : Session} (reached : Reached session) (instruction : Instruction) :
      Reached (session.run instruction).session

theorem texts_of_some {session : Session} {slot : Slot} {formula : Formula}
    (present : session.get? slot = some formula) : session.texts slot = some formula.origin := by
  rw [texts, present, Option.map_some]

theorem texts_of_none {session : Session} {slot : Slot} (absent : session.get? slot = none) :
    session.texts slot = none := by
  rw [texts, absent, Option.map_none]

theorem lookup_filter (formulas : List (Slot × Formula)) (slot other : Slot)
    (different : other ≠ slot) :
    (formulas.filter fun entry => entry.1 ≠ slot).lookup other = formulas.lookup other := by
  induction formulas with
  | nil => rfl
  | cons entry rest ih =>
      rw [List.filter_cons, Ascending.lookup_cons]
      by_cases same : entry.1 = slot
      · have passed : other ≠ entry.1 := fun found => different (found.trans same)
        rw [if_neg (by simp [same]), ih, if_neg passed]
      · rw [if_pos (by simp [same]), Ascending.lookup_cons, ih]

theorem get?_put (session : Session) (slot other : Slot) (formula : Formula) :
    (session.put slot formula).get? other =
      if other = slot then some formula else session.get? other := by
  rw [put, get?, Ascending.lookup_cons]
  by_cases same : other = slot
  · rw [if_pos same, if_pos same]
  · rw [if_neg same, if_neg same, lookup_filter _ _ _ same]
    rfl

theorem Coherent.put {session : Session} (coherent : session.Coherent) (slot : Slot)
    {formula : Formula} (kept : formula.Coherent) : (session.put slot formula).Coherent := by
  intro other found present
  rw [get?_put] at present
  split at present
  · exact Option.some.inj present ▸ kept
  · exact coherent other found present

theorem texts_put (session : Session) (slot : Slot) (formula : Formula) :
    (session.put slot formula).texts =
      fun other => if other = slot then some formula.origin else session.texts other := by
  funext other
  rw [texts, get?_put]
  split <;> rfl

theorem texts_put_same {session : Session} {slot : Slot} {formula : Formula}
    (same : session.texts slot = some formula.origin) :
    (session.put slot formula).texts = session.texts := by
  rw [texts_put]
  funext other
  by_cases here : other = slot
  · rw [if_pos here, here, same]
  · rw [if_neg here]

namespace Step

variable {Value Next : Type}

/-- From every coherent session the step answers as computed directly from its texts, and leaves the
session coherent with the same texts. -/
def Meets (step : Step Value) (direct : (Slot → Option Text) → Except Refusal Value) : Prop :=
  ∀ session : Session, session.Coherent →
    (step session).1 = direct session.texts ∧ (step session).2.1.Coherent ∧
      (step session).2.1.texts = session.texts

theorem meets_pure (value : Value) : Meets (pure value) (fun _ => .ok value) :=
  fun _ coherent => ⟨rfl, coherent, rfl⟩

theorem meets_bind {first : Step Value} {next : Value → Step Next}
    {direct : (Slot → Option Text) → Except Refusal Value}
    {later : Value → (Slot → Option Text) → Except Refusal Next}
    (meets : Meets first direct) (meetsNext : ∀ value, Meets (next value) (later value)) :
    Meets (first >>= next) (fun texts => direct texts >>= fun value => later value texts) := by
  intro session coherent
  have opened : (first >>= next) session = Step.bind first next session := rfl
  have given := meets session coherent
  rw [opened, Step.bind]
  revert given
  rcases first session with ⟨refusal | value, middle, entries⟩
  · rintro ⟨answer, kept, texts⟩
    beta_reduce
    rw [← answer]
    exact ⟨rfl, kept, texts⟩
  · rintro ⟨answer, kept, texts⟩
    obtain ⟨answerNext, keptNext, textsNext⟩ := meetsNext value middle kept
    beta_reduce
    rw [← answer, ← texts]
    exact ⟨answerNext, keptNext, textsNext⟩

theorem meets_find (slot : Slot) {next : Formula → Step Next}
    {later : Text → (Slot → Option Text) → Except Refusal Next}
    (meetsNext : ∀ formula, Meets (next formula) (later formula.origin)) :
    Meets (find slot >>= next)
      (fun texts => Direct.find texts slot >>= fun text => later text texts) := by
  intro session coherent
  have opened : (find slot >>= next) session = Step.bind (find slot) next session := rfl
  rw [opened, Step.bind, find]
  beta_reduce
  rw [Direct.find, texts]
  cases session.get? slot with
  | none => exact ⟨rfl, coherent, rfl⟩
  | some formula => exact meetsNext formula session coherent

theorem meets_ask (slot : Slot) {request : Request Value} {direct : Text → Except Fault Value}
    {after : Formula → Prop} (meets : Request.Meets (fun _ => True) request direct after) :
    Meets (ask slot request)
      (fun texts => Direct.find texts slot >>= fun text => Direct.stage (direct text)) := by
  intro session coherent
  cases found : session.get? slot with
  | none =>
      have asked : ask slot request session = (.error (.noSlot slot), session, []) := by
        rw [ask, found]
      rw [asked]
      simp only [Direct.find, texts_of_none found]
      exact ⟨rfl, coherent, trivial⟩
  | some formula =>
      have asked : ask slot request session = ((request formula).answer.mapError .fault,
          session.put slot (request formula).formula, (request formula).entries) := by
        rw [ask, found]
      obtain ⟨answer, kept, origin, _⟩ := meets formula (coherent slot formula found) trivial
      have named : session.texts slot = some (request formula).formula.origin :=
        origin ▸ texts_of_some found
      rw [← origin] at answer
      simp only [asked, Direct.find, named, answer]
      exact ⟨rfl, coherent.put slot kept, texts_put_same named⟩

theorem meets_congr {step : Step Value} {direct other : (Slot → Option Text) → Except Refusal Value}
    (meets : Meets step direct) (same : ∀ texts, direct texts = other texts) : Meets step other :=
  funext same ▸ meets

theorem meets_same [DecidableEq Value] (left right : Slot) {request : Request Value}
    {direct : Text → Except Fault Value} {after : Formula → Prop}
    (meets : Request.Meets (fun _ => True) request direct after) :
    Meets (do
        let first ← ask left request
        let second ← ask right request
        pure (decide (first = second)))
      (fun texts => do
        let first ← Direct.stage (direct (← Direct.find texts left))
        let second ← Direct.stage (direct (← Direct.find texts right))
        pure (decide (first = second))) := by
  have asked := meets_bind (meets_ask left meets) fun first =>
    meets_bind (meets_ask right meets) fun second => meets_pure (decide (first = second))
  apply meets_congr asked
  intro texts
  simp only [bind_assoc]
  rfl

end Step

theorem meets_comparison (left right : Slot) (comparison : Comparison) :
    Step.Meets (Session.comparison left right comparison)
      (Direct.comparison · left right comparison) := by
  cases comparison with
  | equivalent =>
      -- both names are looked up, and looked up again when their formulas are asked
      have found : Step.Meets (Session.comparison left right .equivalent) (fun texts => do
          let _ ← Direct.find texts left
          let _ ← Direct.find texts right
          let first ← Direct.stage (Direct.expansion (← Direct.find texts left))
          let second ← Direct.stage (Direct.expansion (← Direct.find texts right))
          return decide (first = second)) :=
        Step.meets_find left fun _ => Step.meets_find right fun _ =>
          Step.meets_same left right Request.meets_expansion
      apply Step.meets_congr found
      intro texts
      rw [Direct.comparison]
      cases Direct.find texts left with
      | error refusal => rfl
      | ok first => cases Direct.find texts right <;> rfl
  | sameOrigin =>
      exact Step.meets_find left fun first => Step.meets_find right fun second =>
        Step.meets_pure (decide (first.origin = second.origin))
  | sameTable => exact Step.meets_same left right Request.meets_table
  | samePolish => exact Step.meets_same left right Request.meets_polish

theorem run_build (session : Session) (slot : Slot) (text : Text) :
    (session.run (.build slot text)).answer =
        (Direct.stage (Formula.ofText text)).map (fun formula => .built formula.origin formula.letters) ∧
      (session.run (.build slot text)).session =
        match Formula.ofText text with
        | .ok formula => session.put slot formula
        | .error _ => session := by
  have given : Recorded.formula text = Recorded.noting (Formula.ofText text)
      fun formula => .admitted formula.origin formula.letters := rfl
  have stepped : Session.step (.build slot text) session =
      Step.bind (Step.ofRecorded (Recorded.formula text)) (fun formula => do
        Step.store slot formula
        pure (.built formula.origin formula.letters)) session := rfl
  rw [run, stepped, Step.bind, Step.ofRecorded, given]
  cases Formula.ofText text with
  | error fault => exact ⟨rfl, rfl⟩
  | ok formula => exact ⟨rfl, rfl⟩

theorem run_copy (session : Session) (slot target : Slot) :
    (session.run (.copy slot target)).answer =
        (Direct.find session.texts slot).map (fun _ => .copied) ∧
      (session.run (.copy slot target)).session =
        match session.get? slot with
        | some formula => session.put target formula
        | none => session := by
  have stepped : Session.step (.copy slot target) session =
      Step.bind (Step.find slot) (fun formula => do
        Step.store target formula
        pure .copied) session := rfl
  rw [run, stepped, Step.bind, Step.find, Direct.find, texts]
  cases session.get? slot with
  | none => exact ⟨rfl, rfl⟩
  | some formula => exact ⟨rfl, rfl⟩

/-- Every instruction is answered as it is directly from the texts, changes the texts as directly, and
leaves every formula coherent. -/
theorem Coherent.run {session : Session} (coherent : session.Coherent) (instruction : Instruction) :
    (session.run instruction).answer = Direct.respond session.texts instruction ∧
      (session.run instruction).session.Coherent ∧
      (session.run instruction).session.texts = Direct.next session.texts instruction := by
  cases instruction with
  | build slot text =>
      obtain ⟨answer, after⟩ := run_build session slot text
      rw [answer, after, Direct.respond, Direct.next]
      cases admitted : Formula.ofText text with
      | error fault => exact ⟨rfl, coherent, rfl⟩
      | ok formula =>
          have kept := Formula.Coherent.ofText admitted
          obtain ⟨_, rfl⟩ := (Formula.ofText_eq_ok_iff text formula).mp admitted
          exact ⟨rfl, coherent.put slot kept, texts_put session slot _⟩
  | copy slot target =>
      obtain ⟨answer, after⟩ := run_copy session slot target
      rw [answer, after, Direct.respond, Direct.next]
      cases found : session.get? slot with
      | none =>
          rw [Direct.find, texts_of_none found]
          exact ⟨rfl, coherent, rfl⟩
      | some formula =>
          rw [Direct.find, texts_of_some found]
          exact ⟨rfl, coherent.put target (coherent slot formula found), texts_put session target _⟩
  | ask slot question => exact Step.meets_ask slot (Request.meets_question question) session coherent
  | compare left right comparison =>
      have compared := Step.meets_bind (meets_comparison left right comparison) fun same =>
        Step.meets_pure (Answer.verdict same)
      exact compared session coherent

theorem Coherent.answer_ask {session : Session} (coherent : session.Coherent) {slot : Slot}
    {text : Text} (named : session.texts slot = some text) (question : Question) :
    (session.run (.ask slot question)).answer = Direct.stage (Direct.answer text question) := by
  rw [(coherent.run _).1, Direct.respond, Direct.find, named]
  rfl

theorem Coherent.answer_equivalent {session : Session} (coherent : session.Coherent)
    {left right : Slot} {first second : Text} {given other : Expansion}
    (leftNamed : session.texts left = some first) (rightNamed : session.texts right = some second)
    (compiled : Direct.expansion first = .ok given)
    (otherCompiled : Direct.expansion second = .ok other) :
    (session.run (.compare left right .equivalent)).answer =
      .ok (.verdict (decide (given = other))) := by
  rw [(coherent.run _).1, Direct.respond, Direct.comparison, Direct.find, Direct.find, leftNamed,
    rightNamed]
  simp only [Direct.stage, Bind.bind, Except.bind, compiled, otherCompiled]
  rfl

theorem Reached.coherent {session : Session} (reached : Reached session) : session.Coherent := by
  induction reached with
  | empty => intro slot formula present; cases present
  | run reached instruction ih => exact (ih.run instruction).2.1

end Session

end PrincipalForm
