import Mathlib.Data.List.Basic
/-!
# Machines with output

A machine takes one input at a time, answers with a list of outputs and
moves to its next state. Everything said about whole runs is reduced here
to one step: `after_induct`, `after_induct_valid` and `run_induct_valid`
are the invariant rules, `filterMap_outs_eq` is the rule for two runs, and
`exists_run` the one for two machines.
-/

/-- **A deterministic machine**: for every state and input, the outputs of
the step and the state it leads to. -/
structure Machine (σ α ω : Type*) where
  /-- One step. -/
  step : σ → α → List ω × σ

namespace Machine

variable {σ α β ω : Type*} (M : Machine σ α ω)

/-- The state after a list of inputs. -/
def after (s : σ) : List α → σ
  | [] => s
  | a :: as => after (M.step s a).2 as

/-- The outputs of a list of inputs, in order. -/
def outs (s : σ) : List α → List ω
  | [] => []
  | a :: as => (M.step s a).1 ++ outs (M.step s a).2 as

/-- Every input of the list meets a side condition in the state it
arrives at. -/
def Valid (V : σ → α → Prop) (s : σ) : List α → Prop
  | [] => True
  | a :: as => V s a ∧ Valid V (M.step s a).2 as

instance decidableValid (V : σ → α → Prop) [∀ s a, Decidable (V s a)] :
    ∀ (s : σ) (as : List α), Decidable (M.Valid V s as)
  | _, [] => inferInstanceAs (Decidable True)
  | s, a :: as =>
    have := decidableValid V (M.step s a).2 as
    inferInstanceAs (Decidable (V s a ∧ M.Valid V (M.step s a).2 as))

@[simp] theorem after_nil (s : σ) : M.after s [] = s := rfl

@[simp] theorem outs_nil (s : σ) : M.outs s [] = [] := rfl

@[simp] theorem valid_nil (V : σ → α → Prop) (s : σ) : M.Valid V s [] := trivial

theorem after_cons (s : σ) (a : α) (as : List α) :
    M.after s (a :: as) = M.after (M.step s a).2 as := rfl

theorem outs_cons (s : σ) (a : α) (as : List α) :
    M.outs s (a :: as) = (M.step s a).1 ++ M.outs (M.step s a).2 as := rfl

theorem valid_cons {V : σ → α → Prop} {s : σ} {a : α} {as : List α} :
    M.Valid V s (a :: as) ↔ V s a ∧ M.Valid V (M.step s a).2 as := Iff.rfl

theorem after_append (s : σ) (as bs : List α) :
    M.after s (as ++ bs) = M.after (M.after s as) bs := by
  induction as generalizing s with
  | nil => rfl
  | cons a as ih => exact ih _

theorem outs_append (s : σ) (as bs : List α) :
    M.outs s (as ++ bs) = M.outs s as ++ M.outs (M.after s as) bs := by
  induction as generalizing s with
  | nil => rfl
  | cons a as ih => rw [List.cons_append, outs_cons, ih, outs_cons, after_cons, List.append_assoc]

theorem valid_append {V : σ → α → Prop} {s : σ} {as bs : List α} :
    M.Valid V s (as ++ bs) ↔ M.Valid V s as ∧ M.Valid V (M.after s as) bs := by
  induction as generalizing s with
  | nil => simp
  | cons a as ih => rw [List.cons_append, valid_cons, ih, valid_cons, after_cons, and_assoc]

/-- A run is valid if each of its inputs is. -/
theorem valid_iff_forall {V : σ → α → Prop} {s : σ} {as : List α} :
    M.Valid V s as ↔ ∀ pre a post, as = pre ++ a :: post → V (M.after s pre) a := by
  constructor
  · rintro hv pre a post rfl
    exact (M.valid_append.mp hv).2.1
  · intro h
    induction as generalizing s with
    | nil => trivial
    | cons a as ih =>
      exact ⟨h [] a as rfl, ih fun pre b post has => h (a :: pre) b post (by rw [has]; rfl)⟩

/-- The state after one more input. -/
@[simp] theorem after_concat (s : σ) (as : List α) (a : α) :
    M.after s (as ++ [a]) = (M.step (M.after s as) a).2 := by
  rw [after_append, after_cons, after_nil]

/-- The outputs after one more input. -/
@[simp] theorem outs_concat (s : σ) (as : List α) (a : α) :
    M.outs s (as ++ [a]) = M.outs s as ++ (M.step (M.after s as) a).1 := by
  rw [outs_append, outs_cons, outs_nil, List.append_nil]

/-! ## Invariants -/

/-- **An invariant of every step holds after every run.** -/
theorem after_induct {I : σ → Prop} {s : σ} (h : I s)
    (hstep : ∀ s a, I s → I (M.step s a).2) (as : List α) : I (M.after s as) := by
  induction as generalizing s with
  | nil => exact h
  | cons a as ih => exact ih (hstep s a h)

/-- **An invariant of every valid step holds after every valid run.** -/
theorem after_induct_valid {V : σ → α → Prop} {I : σ → Prop} {s : σ} {as : List α} (h : I s)
    (hv : M.Valid V s as) (hstep : ∀ s a, I s → V s a → I (M.step s a).2) : I (M.after s as) := by
  induction as generalizing s with
  | nil => exact h
  | cons a as ih => exact ih (hstep s a h hv.1) hv.2

/-- **An invariant of the state and the outputs so far**, kept by every
valid step, holds after every valid run. -/
theorem run_induct_valid {V : σ → α → Prop} {I : List ω → σ → Prop} {t : List ω} {s : σ}
    {as : List α} (h : I t s) (hv : M.Valid V s as)
    (hstep : ∀ t s a, I t s → V s a → I (t ++ (M.step s a).1) (M.step s a).2) :
    I (t ++ M.outs s as) (M.after s as) := by
  induction as generalizing t s with
  | nil => rwa [outs_nil, List.append_nil]
  | cons a as ih =>
    rw [outs_cons, after_cons, ← List.append_assoc]
    exact ih (hstep t s a h hv.1) hv.2

/-- What holds of every input may be added to the side condition. -/
theorem valid_and_inputs {V : σ → α → Prop} {P : α → Prop} {s : σ} {as : List α}
    (hv : M.Valid V s as) (hp : ∀ a ∈ as, P a) : M.Valid (fun s a => V s a ∧ P a) s as := by
  induction as generalizing s with
  | nil => trivial
  | cons a as ih =>
    exact ⟨⟨hv.1, hp a List.mem_cons_self⟩, ih hv.2 fun b hb => hp b (List.mem_cons_of_mem _ hb)⟩

/-- A side condition on the inputs alone. -/
theorem valid_of_inputs {P : α → Prop} {s : σ} {as : List α} (hp : ∀ a ∈ as, P a) :
    M.Valid (fun _ a => P a) s as := by
  induction as generalizing s with
  | nil => trivial
  | cons a as ih =>
    exact ⟨hp a List.mem_cons_self, ih fun b hb => hp b (List.mem_cons_of_mem _ hb)⟩

/-- Two side conditions that agree along an invariant of the run hold of
the same runs. -/
theorem Valid.iff {V P Q : σ → α → Prop} {I : σ → Prop} {s : σ} {as : List α} (h : I s)
    (hv : M.Valid V s as) (hstep : ∀ s a, I s → V s a → I (M.step s a).2)
    (hpq : ∀ s a, I s → V s a → (P s a ↔ Q s a)) : M.Valid P s as ↔ M.Valid Q s as := by
  induction as generalizing s with
  | nil => exact Iff.rfl
  | cons a as ih => exact and_congr (hpq s a h hv.1) (ih (hstep s a h hv.1) hv.2)

/-- **A machine that carries more along does the same**, if each of its
steps does. -/
theorem project_run {τ : Type*} {N : Machine τ α ω} {p : τ → σ}
    (hstep : ∀ t a, (N.step t a).1 = (M.step (p t) a).1 ∧ p (N.step t a).2 = (M.step (p t) a).2)
    (t : τ) (as : List α) :
    N.outs t as = M.outs (p t) as ∧ p (N.after t as) = M.after (p t) as := by
  induction as generalizing t with
  | nil => exact ⟨rfl, rfl⟩
  | cons a as ih =>
    obtain ⟨hout, hnext⟩ := hstep t a
    rw [outs_cons, outs_cons, after_cons, after_cons, hout, ← hnext]
    exact ⟨by rw [(ih _).1], (ih _).2⟩

/-- **Forward simulation**: if each valid step is matched by some steps of the
other machine with the same outputs, each valid run is matched by a run. `f`
and `g` are what is seen of the inputs. -/
theorem exists_run {τ ι : Type*} {N : Machine τ β ω} {V : σ → α → Prop} {R : σ → τ → Prop}
    {f : β → List ι} {g : α → List ι} {s : σ} {t : τ} {as : List α} (h : R s t)
    (hv : M.Valid V s as)
    (hstep : ∀ s t a, R s t → V s a → ∃ bs, N.outs t bs = (M.step s a).1 ∧ bs.flatMap f = g a ∧
      R (M.step s a).2 (N.after t bs)) :
    ∃ bs, N.outs t bs = M.outs s as ∧ bs.flatMap f = as.flatMap g ∧
      R (M.after s as) (N.after t bs) := by
  induction as generalizing s t with
  | nil => exact ⟨[], rfl, rfl, h⟩
  | cons a as ih =>
    obtain ⟨bs, houts, hseen, hnext⟩ := hstep s t a h hv.1
    obtain ⟨cs, houts', hseen', hrun⟩ := ih hnext hv.2
    refine ⟨bs ++ cs, ?_, ?_, ?_⟩
    · rw [outs_append, houts, houts', outs_cons]
    · rw [List.flatMap_append, hseen, hseen', List.flatMap_cons]
    · rw [after_append, after_cons]
      exact hrun

/-- The machine that takes its inputs in batches. -/
def batched : Machine σ (List α) ω where
  step s as := (M.outs s as, M.after s as)

/-! ## Two runs on the same inputs -/

/-- **Runs related step by step look the same**, through any filter `p`
that cannot tell the related steps apart. -/
theorem filterMap_outs_eq {R : σ → σ → Prop} {p : ω → Option β} {s t : σ} (h : R s t)
    (hstep : ∀ s t a, R s t → R (M.step s a).2 (M.step t a).2 ∧
      (M.step s a).1.filterMap p = (M.step t a).1.filterMap p) (as : List α) :
    (M.outs s as).filterMap p = (M.outs t as).filterMap p := by
  induction as generalizing s t with
  | nil => rfl
  | cons a as ih =>
    rw [outs_cons, outs_cons, List.filterMap_append, List.filterMap_append, (hstep s t a h).2,
      ih (hstep s t a h).1]

end Machine
