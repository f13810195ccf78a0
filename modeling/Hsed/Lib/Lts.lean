import Mathlib.Tactic

/-!
# `Lib.Lts` — labelled transition systems, runs and invariants

A system is a relation `step : σ → ε → σ → Prop`. `Run step s₀ es s` is a finite run: the labels taken,
in order, and the state reached. Four rules cover every use:

* `Run.invariant` — what the initial state has and each step keeps, every reached state has;
* `Run.of_exec` — a system whose steps are computed is run by computing;
* `Run.observe` — a run can be watched by a ghost that keeps a record of it;
* `Guarded` — a run whose steps all meet a condition is just a run of the guarded system, so the two
  rules above apply to it unchanged.
-/

namespace Lts

universe u v w

variable {σ : Type u} {ε : Type v}

/-- Finite runs, built back to front: the labels in order and the state reached. -/
inductive Run (step : σ → ε → σ → Prop) (s₀ : σ) : List ε → σ → Prop where
  | nil : Run step s₀ [] s₀
  | snoc {es : List ε} {s s' : σ} {e : ε} :
      Run step s₀ es s → step s e s' → Run step s₀ (es ++ [e]) s'

/-- The system restricted to the steps whose source state and label meet `C`. -/
def Guarded (C : σ → ε → Prop) (step : σ → ε → σ → Prop) : σ → ε → σ → Prop :=
  fun s e s' => C s e ∧ step s e s'

variable {step : σ → ε → σ → Prop} {s₀ s : σ} {es : List ε}

/-- **Invariant rule.** -/
theorem Run.invariant {I : σ → Prop} (hrun : Run step s₀ es s) (hinit : I s₀)
    (hstep : ∀ s e s', I s → step s e s' → I s') : I s := by
  induction hrun with
  | nil => exact hinit
  | snoc _ hst ih => exact hstep _ _ _ ih hst

/-- A run passes through the source of each of its steps. -/
theorem Run.split {pre post : List ε} {e : ε} (hrun : Run step s₀ (pre ++ e :: post) s) :
    ∃ s₁ s₂, Run step s₀ pre s₁ ∧ step s₁ e s₂ := by
  generalize hes : pre ++ e :: post = es at hrun
  induction hrun generalizing post with
  | nil => simp at hes
  | @snoc es₁ s₁ s₂ e₁ hr hst ih =>
      rcases List.eq_nil_or_concat post with rfl | ⟨post', last, rfl⟩
      · -- the step asked for is the last one
        obtain ⟨rfl, he⟩ := List.append_inj' hes rfl
        obtain rfl : e = e₁ := by simpa using he
        exact ⟨s₁, s₂, hr, hst⟩
      · have hes' : (pre ++ e :: post') ++ [last] = es₁ ++ [e₁] := by simpa using hes
        exact ih (List.append_inj' hes' rfl).1

/-- Where a label leads to one state, so do the labels of a run. -/
theorem Run.unique {s' : σ} (hdet : ∀ s e s₁ s₂, step s e s₁ → step s e s₂ → s₁ = s₂) (hrun : Run step s₀ es s)
    (hrun' : Run step s₀ es s') : s = s' := by
  induction hrun generalizing s' with
  | nil =>
      generalize hes : ([] : List ε) = es at hrun'
      cases hrun' with
      | nil => rfl
      | snoc => simp at hes
  | @snoc es s₁ s₂ e _ hst ih =>
      generalize hes : es ++ [e] = es' at hrun'
      cases hrun' with
      | nil => simp at hes
      | @snoc es' s₁' _ e' hr' hst' =>
          obtain ⟨rfl, he⟩ := List.append_inj' hes rfl
          obtain rfl : e = e' := by simpa using he
          obtain rfl := ih hr'
          exact hdet s₁ e s₂ s' hst hst'

/-- Runs compose. -/
theorem Run.append {s₁ : σ} {es₁ : List ε} (hrun : Run step s₀ es s) (hrun₁ : Run step s es₁ s₁) :
    Run step s₀ (es ++ es₁) s₁ := by
  induction hrun₁ with
  | nil => rw [List.append_nil]; exact hrun
  | snoc _ hst ih => rw [← List.append_assoc]; exact .snoc ih hst

/-- A run from its first step on. -/
theorem Run.cons {s₁ : σ} {e : ε} (hstep : step s₀ e s₁) (hrun : Run step s₁ es s) : Run step s₀ (e :: es) s :=
  (Run.snoc .nil hstep).append hrun

/-- A state reached after a first step. -/
theorem Run.exists_cons {P : σ → Prop} {s₁ : σ} {e : ε} (hstep : step s₀ e s₁) (h : ∃ s, Run step s₁ es s ∧ P s) :
    ∃ s, Run step s₀ (e :: es) s ∧ P s := by
  obtain ⟨s, hrun, hP⟩ := h
  exact ⟨s, .cons hstep hrun, hP⟩

/-- **Execution rule.** Where `next` computes the steps that the labels ask for, executing the labels is
    a run. -/
theorem Run.of_exec {next : σ → ε → Option σ} (hnext : ∀ e ∈ es, ∀ s s', next s e = some s' → step s e s')
    (hexec : es.foldlM next s₀ = some s) : Run step s₀ es s := by
  induction es generalizing s₀ with
  | nil =>
      obtain rfl : s₀ = s := by simpa using hexec
      exact .nil
  | cons e es ih =>
      rw [List.foldlM_cons] at hexec
      obtain ⟨s₁, hs₁, hrest⟩ := Option.bind_eq_some_iff.mp hexec
      exact .cons (hnext e List.mem_cons_self s₀ s₁ hs₁) (ih (fun e he => hnext e (List.mem_cons_of_mem _ he)) hrest)

/-- The same for a guarded system whose condition is computed too. -/
theorem Run.of_exec_guarded {C : σ → ε → Bool} {next : σ → ε → Option σ}
    (hexec : es.foldlM (fun s e => if C s e then next s e else none) s₀ = some s) :
    Run (Guarded (fun s e => C s e) fun s e s' => next s e = some s') s₀ es s := by
  apply Run.of_exec _ hexec
  intro e _ s s' h
  split at h
  · exact ⟨‹_›, h⟩
  · cases h

/-! ## Runs with a record -/

/-- A state with a record of what happened on the way to it. -/
structure Observed (σ : Type u) (γ : Type w) where
  state : σ
  seen : γ

/-- The system whose steps also keep the record: `note` is what each step adds to it. -/
def Observe {γ : Type w} (step : σ → ε → σ → Prop) (note : σ → ε → γ → γ) : Observed σ γ → ε → Observed σ γ → Prop :=
  fun x e y => step x.state e y.state ∧ y.seen = note x.state e x.seen

/-- A record does not get in the way: every run can be observed. -/
theorem Run.observe {γ : Type w} (hrun : Run step s₀ es s) (note : σ → ε → γ → γ) (g : γ) :
    ∃ g', Run (Observe step note) ⟨s₀, g⟩ es ⟨s, g'⟩ := by
  induction hrun with
  | nil => exact ⟨g, .nil⟩
  | @snoc es₁ s₁ s₂ e₁ _ hst ih =>
      obtain ⟨g₁, hrun₁⟩ := ih
      exact ⟨note s₁ e₁ g₁, .snoc hrun₁ ⟨hst, rfl⟩⟩

/-- A record that is computed along with the steps. -/
theorem Run.of_exec_observed {γ : Type w} {next : σ → ε → Option σ} {note : σ → ε → γ → γ} {x₀ x : Observed σ γ}
    (hexec : es.foldlM (fun x e => (next x.state e).map fun s => ⟨s, note x.state e x.seen⟩) x₀ = some x) :
    Run (Observe (fun s e s' => next s e = some s') note) x₀ es x := by
  apply Run.of_exec _ hexec
  intro e _ y z h
  obtain ⟨s, hs, rfl⟩ := Option.map_eq_some_iff.mp h
  exact ⟨hs, rfl⟩

/-- A guarded run is a run. -/
theorem Run.of_guarded {C : σ → ε → Prop} (hrun : Run (Guarded C step) s₀ es s) :
    Run step s₀ es s := by
  induction hrun with
  | nil => exact .nil
  | snoc _ hst ih => exact .snoc ih hst.2

/-- A run whose labels meet the condition in every state is a guarded run. -/
theorem Run.guarded {C : σ → ε → Prop} (hrun : Run step s₀ es s) (h : ∀ e ∈ es, ∀ s, C s e) :
    Run (Guarded C step) s₀ es s := by
  induction hrun with
  | nil => exact .nil
  | snoc _ hst ih =>
      rw [List.forall_mem_append, List.forall_mem_singleton] at h
      exact .snoc (ih h.1) ⟨h.2 _, hst⟩

/-- A weaker condition lets more runs through. -/
theorem Run.guarded_mono {C D : σ → ε → Prop} (h : ∀ s e, C s e → D s e) (hrun : Run (Guarded C step) s₀ es s) :
    Run (Guarded D step) s₀ es s := by
  induction hrun with
  | nil => exact .nil
  | snoc _ hst ih => exact .snoc ih ⟨h _ _ hst.1, hst.2⟩

end Lts
