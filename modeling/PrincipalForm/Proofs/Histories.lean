import PrincipalForm.Proofs.Sessions

namespace PrincipalForm

namespace Session

def answers (session : Session) : List Instruction → List (Except Refusal Answer)
  | [] => []
  | instruction :: rest =>
      let response := session.run instruction
      response.answer :: response.session.answers rest

def after (session : Session) : List Instruction → Session
  | [] => session
  | instruction :: rest => (session.run instruction).session.after rest

end Session

namespace Direct

def answers (texts : Slot → Option Text) : List Instruction → List (Except Refusal Answer)
  | [] => []
  | instruction :: rest => respond texts instruction :: answers (next texts instruction) rest

def textsAfter (texts : Slot → Option Text) : List Instruction → Slot → Option Text
  | [] => texts
  | instruction :: rest => textsAfter (next texts instruction) rest

end Direct

namespace Session

variable {session : Session}

theorem Coherent.answers (coherent : session.Coherent) (instructions : List Instruction) :
    session.answers instructions = Direct.answers session.texts instructions := by
  induction instructions generalizing session with
  | nil => rfl
  | cons instruction rest ih =>
      obtain ⟨answer, kept, texts⟩ := coherent.run instruction
      rw [Session.answers, Direct.answers, answer, ih kept, texts]

theorem Coherent.after (coherent : session.Coherent) (instructions : List Instruction) :
    (session.after instructions).Coherent ∧
      (session.after instructions).texts = Direct.textsAfter session.texts instructions := by
  induction instructions generalizing session with
  | nil => exact ⟨coherent, rfl⟩
  | cons instruction rest ih =>
      obtain ⟨_, kept, texts⟩ := coherent.run instruction
      rw [Session.after, Direct.textsAfter, ← texts]
      exact ih kept

theorem coherent_empty : Session.empty.Coherent := Reached.empty.coherent

/-- A history from the start is answered as it is directly from the texts. After it every formula has
the text last put under its name, each filled cell holds what its stage gives for that text, and no cell
is filled before those of the stages it needs. -/
theorem answers_history (instructions : List Instruction) :
    Session.empty.answers instructions = Direct.answers (fun _ => none) instructions ∧
      ∀ slot formula, (Session.empty.after instructions).get? slot = some formula →
        Direct.textsAfter (fun _ => none) instructions slot = some formula.origin ∧
          formula.Coherent := by
  have blank : Session.empty.texts = fun _ => none := rfl
  obtain ⟨kept, texts⟩ := coherent_empty.after instructions
  rw [← blank]
  refine ⟨coherent_empty.answers instructions, ?_⟩
  intro slot formula present
  rw [← texts]
  exact ⟨texts_of_some present, kept slot formula present⟩

/-- A request that is refused leaves the stages before the fault held, and a copy has them too. -/
example :
    (Session.empty.after [.build "open" ['a', '+'], .ask "open" .expansion, .copy "open" "copy"]).get?
      "copy" = some
        { origin := ['a', '+'], letters := [⟨'a', rfl⟩]
          normal? := some [.atom ⟨'a', rfl⟩, .disj]
          polish? := some [.atom ⟨'a', rfl⟩, .disj] } := by
  decide

end Session

end PrincipalForm
