namespace YoutubeRecords.Transducers

variable {S T I O : Type}

def outputs (step : S → I → O × S) : S → List I → List O
  | _, [] => []
  | s, i :: inputs => (step s i).1 :: outputs step (step s i).2 inputs

/-- Two machines put out the same if some relation of their states is kept by
equal steps. The relation may mention the inputs to come, so that what is
assumed of all inputs can be used up one at a time. -/
theorem outputs_eq {f : S → I → O × S} {g : T → I → O × T} (R : S → T → List I → Prop)
    (hstep : ∀ s t i inputs, R s t (i :: inputs) → (f s i).1 = (g t i).1 ∧ R (f s i).2 (g t i).2 inputs)
    {s : S} {t : T} {inputs : List I} (h : R s t inputs) : outputs f s inputs = outputs g t inputs := by
  induction inputs generalizing s t with
  | nil => rfl
  | cons i inputs ih =>
    obtain ⟨hout, hnext⟩ := hstep s t i inputs h
    rw [outputs, outputs, hout, ih hnext]

end YoutubeRecords.Transducers
