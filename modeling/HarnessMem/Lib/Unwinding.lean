import Mathlib.Data.List.Basic

/-! Machines that answer each input, and the rule for leaving some inputs out: a relation between
the whole run and the thinned one that every kept input answers alike in and no left-out input
breaks. The relation may speak of the inputs still to come. -/
namespace HarnessMem.Unwinding

section
variable {State Input Output : Type*} (step : State → Input → State × Output)

def answers (state : State) : List Input → List (Input × Output)
  | [] => []
  | input :: rest => (input, (step state input).2) :: answers (step state input).1 rest

theorem unwinding {keep : Input → Bool} {R : State → State → List Input → Prop}
    (kept : ∀ whole thin input rest, keep input = true → R whole thin (input :: rest) →
      (step whole input).2 = (step thin input).2 ∧ R (step whole input).1 (step thin input).1 rest)
    (dropped : ∀ whole thin input rest, keep input = false → R whole thin (input :: rest) → R (step whole input).1 thin rest)
    (inputs : List Input) {whole thin : State} (start : R whole thin inputs) :
    (answers step whole inputs).filter (fun answer => keep answer.1) = answers step thin (inputs.filter keep) := by
  induction inputs generalizing whole thin with
  | nil => rfl
  | cons input rest ih =>
    cases wanted : keep input with
    | true =>
      obtain ⟨same, next⟩ := kept whole thin input rest wanted start
      rw [answers, List.filter_cons_of_pos (by simpa using wanted), List.filter_cons_of_pos (by simpa using wanted), answers,
        same, ih next]
    | false =>
      have next := dropped whole thin input rest wanted start
      rw [answers, List.filter_cons_of_neg (by simpa using wanted), List.filter_cons_of_neg (by simpa using wanted), ih next]

end
end HarnessMem.Unwinding
