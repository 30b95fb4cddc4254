import Mathlib.Data.List.Basic
/-!
# Effects

What a piece of code does, read as a function from the state it starts in
to its outputs and the state it ends in. Pieces run one after another
until one of them halts the thread. `Meets.inTurn` is the rule for one run
of a sequence and `Alike.inTurn` the rule for two runs side by side; both
reduce to the pieces. What a `Quiet` piece puts out is not seen through a
filter.
-/

/-- The outputs and the final state, for every initial state. -/
abbrev Effect (σ ω : Type*) := σ → List ω × σ

namespace Effect

variable {σ ω β : Type*} (halted : σ → Bool)

/-- The first effect and, unless it halts, the second. -/
def andThen (f g : Effect σ ω) : Effect σ ω := fun s =>
  if halted (f s).2 then f s else ((f s).1 ++ (g (f s).2).1, (g (f s).2).2)

/-- Several effects, one after another. -/
def inTurn : List (Effect σ ω) → Effect σ ω
  | [] => fun s => ([], s)
  | f :: fs => andThen halted f (inTurn fs)

variable {halted}

@[simp] theorem inTurn_nil (s : σ) : inTurn halted ([] : List (Effect σ ω)) s = ([], s) := rfl

theorem inTurn_cons (f : Effect σ ω) (fs : List (Effect σ ω)) :
    inTurn halted (f :: fs) = andThen halted f (inTurn halted fs) := rfl

theorem andThen_of_running {f g : Effect σ ω} {s : σ} (h : halted (f s).2 = false) :
    andThen halted f g s = ((f s).1 ++ (g (f s).2).1, (g (f s).2).2) := by
  simp [andThen, h]

@[simp] theorem inTurn_singleton (f : Effect σ ω) (s : σ) : inTurn halted [f] s = f s := by
  rw [inTurn_cons, andThen]
  split
  · rfl
  · rw [inTurn_nil, List.append_nil]

/-- Effects that leave the state alone only put out. -/
theorem inTurn_of_still {fs : List (Effect σ ω)} {s : σ} (hs : halted s = false)
    (h : ∀ f ∈ fs, (f s).2 = s) : inTurn halted fs s = (fs.flatMap fun f => (f s).1, s) := by
  induction fs with
  | nil => rfl
  | cons f fs ih =>
    have hf := h f (by simp)
    rw [inTurn_cons, andThen_of_running (by rw [hf, hs]), hf, ih fun g hg => h g (by simp [hg]),
      List.flatMap_cons]

/-! ## One run -/

/-- `R` relates the state an effect starts in to what it puts out and the
state it ends in. -/
def Meets (R : σ → List ω → σ → Prop) (f : Effect σ ω) : Prop := ∀ s, R s (f s).1 (f s).2

/-- **The sequence rule.** The second effect starts in a state that does
not halt. -/
theorem Meets.andThen {R : σ → List ω → σ → Prop} {f g : Effect σ ω}
    (htrans : ∀ s o t o' u, halted t = false → R s o t → R t o' u → R s (o ++ o') u)
    (hf : Meets R f) (hg : Meets R g) : Meets R (andThen halted f g) := by
  intro s
  rw [Effect.andThen]
  split_ifs with hhalted
  · exact hf s
  · exact htrans _ _ _ _ _ (Bool.eq_false_iff.mpr hhalted) (hf s) (hg _)

/-- The rule for any number of effects. -/
theorem Meets.inTurn {R : σ → List ω → σ → Prop} {fs : List (Effect σ ω)}
    (hnil : ∀ s, R s [] s)
    (htrans : ∀ s o t o' u, halted t = false → R s o t → R t o' u → R s (o ++ o') u)
    (h : ∀ f ∈ fs, Meets R f) : Meets R (inTurn halted fs) := by
  induction fs with
  | nil => exact hnil
  | cons f fs ih =>
    exact Meets.andThen htrans (h f (by simp)) (ih fun g hg => h g (by simp [hg]))

/-! ## Outputs that are not seen -/

/-- Nothing the effect puts out passes the filter. -/
def Quiet (p : ω → Option β) (f : Effect σ ω) : Prop :=
  Meets (fun _ o _ => o.filterMap p = []) f

theorem Quiet.andThen {p : ω → Option β} {f g : Effect σ ω} (hf : Quiet p f) (hg : Quiet p g) :
    Quiet p (andThen halted f g) :=
  Meets.andThen (fun _ _ _ _ _ _ h₁ h₂ => by rw [List.filterMap_append, h₁, h₂]; rfl) hf hg

theorem Quiet.singleton {p : ω → Option β} {f : Effect σ ω} (hf : Quiet p f) :
    Quiet p (inTurn halted [f]) := by
  intro s
  rw [inTurn_singleton]
  exact hf s

theorem Quiet.inTurn {p : ω → Option β} {fs : List (Effect σ ω)} (h : ∀ f ∈ fs, Quiet p f) :
    Quiet p (inTurn halted fs) :=
  Meets.inTurn (fun _ => rfl)
    (fun _ _ _ _ _ _ h₁ h₂ => by rw [List.filterMap_append, h₁, h₂]; rfl) h

/-- What is quiet may follow. -/
theorem filterMap_andThen_quiet {p : ω → Option β} {f g : Effect σ ω} (hg : Quiet p g) (s : σ) :
    (andThen halted f g s).1.filterMap p = (f s).1.filterMap p := by
  rw [Effect.andThen]
  split_ifs
  · rfl
  · rw [List.filterMap_append, hg, List.append_nil]

/-- What only puts out may come before. -/
theorem filterMap_andThen_still {p : ω → Option β} {f g : Effect σ ω} {s : σ} {o : List ω}
    (hs : halted s = false) (hf : f s = (o, s)) :
    (andThen halted f g s).1.filterMap p = o.filterMap p ++ (g s).1.filterMap p := by
  rw [andThen_of_running (by rw [hf]; exact hs), hf, List.filterMap_append]

/-! ## Two runs -/

/-- From states related by `R` the effect leads to related states and,
through the filter `p`, to the same outputs. -/
def Alike (R : σ → σ → Prop) (p : ω → Option β) (f : Effect σ ω) : Prop :=
  ∀ s t, R s t → R (f s).2 (f t).2 ∧ (f s).1.filterMap p = (f t).1.filterMap p

/-- **The sequence rule for two runs**: related states halt together. -/
theorem Alike.andThen {R : σ → σ → Prop} {p : ω → Option β} {f g : Effect σ ω}
    (hhalt : ∀ s t, R s t → halted s = halted t) (hf : Alike R p f) (hg : Alike R p g) :
    Alike R p (andThen halted f g) := by
  intro s t hst
  obtain ⟨hr, ho⟩ := hf s t hst
  rw [Effect.andThen, Effect.andThen, hhalt _ _ hr]
  split
  · exact ⟨hr, ho⟩
  · obtain ⟨hr', ho'⟩ := hg _ _ hr
    exact ⟨hr', by rw [List.filterMap_append, List.filterMap_append, ho, ho']⟩

theorem Alike.inTurn {R : σ → σ → Prop} {p : ω → Option β} {fs : List (Effect σ ω)}
    (hhalt : ∀ s t, R s t → halted s = halted t) (h : ∀ f ∈ fs, Alike R p f) :
    Alike R p (inTurn halted fs) := by
  induction fs with
  | nil => exact fun s t hst => ⟨hst, rfl⟩
  | cons f fs ih =>
    exact Alike.andThen hhalt (h f (by simp)) (ih fun g hg => h g (by simp [hg]))

end Effect
