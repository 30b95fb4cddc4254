import Mathlib.Data.List.Basic
import Mathlib.Data.List.Infix
/-!
# Directories and their parents

A file system as far as `access` and `mkdir` go: what they answer is open,
apart from what POSIX promises of them. `slashPaths` are the parents of a
directory, from the outermost in, and `makeAll` creates those that are
missing, one after the other, until an answer is a failure.
-/

namespace FileSystem

abbrev slash : UInt8 := 47

/-- A path, without its NUL. -/
abbrev Path := List UInt8

/-- What `errno` says behind a failed `mkdir`. -/
inductive Errno where
  | emlink
  | other
  deriving DecidableEq

/-- **A file system**, with the disks `σ` as its states. -/
structure FileSys (σ : Type*) where
  /-- `access(path, F_OK) >= 0`. -/
  access : σ → Path → Bool
  /-- `none` where the directory has been created. -/
  mkdir : σ → Path → Option Errno × σ
  access_created : ∀ s p, (mkdir s p).1 = none → access (mkdir s p).2 p
  /-- Nothing is lost with a new directory. -/
  access_mono : ∀ s p q, access s q → access (mkdir s p).2 q
  mkdir_failed : ∀ s p, (mkdir s p).1 ≠ none → (mkdir s p).2 = s
  /-- A path is looked up from the outermost directory in. -/
  access_parent : ∀ s p q, p <+: q → p.getLast? = some slash → access s q → access s p

/-! ## The parents of a directory -/

/-- The beginnings of a path that end in a slash, the shortest first. -/
def slashPaths : Path → List Path
  | [] => []
  | c :: p => (if c = slash then [[c]] else []) ++ (slashPaths p).map (c :: ·)

/-- The path up to its first slash. -/
def firstPart (p : Path) : Path := p.takeWhile (· ≠ slash) ++ [slash]

variable {p q : Path}

theorem mem_slashPaths : q ∈ slashPaths p ↔ q <+: p ∧ q.getLast? = some slash := by
  induction p generalizing q with
  | nil =>
    rw [slashPaths, List.prefix_nil]
    constructor
    · intro h
      exact absurd h List.not_mem_nil
    · rintro ⟨rfl, h⟩
      cases h
  | cons c p ih =>
    rw [slashPaths, List.mem_append, List.mem_map]
    constructor
    · rintro (h | ⟨r, hr, rfl⟩)
      · split_ifs at h with hc
        · rw [List.mem_singleton.mp h, hc]
          exact ⟨⟨p, rfl⟩, rfl⟩
        · exact absurd h List.not_mem_nil
      · obtain ⟨hpre, hlast⟩ := ih.mp hr
        refine ⟨(List.prefix_cons_inj c).mpr hpre, ?_⟩
        rw [List.getLast?_cons, hlast]
        rfl
    · rintro ⟨hpre, hlast⟩
      cases q with
      | nil => cases hlast
      | cons d r =>
        obtain ⟨rfl, hr⟩ := List.cons_prefix_cons.mp hpre
        cases hrnil : r with
        | nil =>
          left
          rw [hrnil, List.getLast?_singleton] at hlast
          rw [if_pos (Option.some_inj.mp hlast)]
          exact List.mem_singleton_self _
        | cons e r' =>
          right
          rw [hrnil] at hr hlast
          exact ⟨e :: r', ih.mpr ⟨hr, by rwa [List.getLast?_cons_cons] at hlast⟩, rfl⟩

/-- **Outermost first.** -/
theorem pairwise_slashPaths (p : Path) :
    (slashPaths p).Pairwise fun q r => q.length < r.length := by
  induction p with
  | nil => exact List.Pairwise.nil
  | cons c p ih =>
    have hmap : ((slashPaths p).map (c :: ·)).Pairwise fun q r => q.length < r.length := by
      rw [List.pairwise_map]
      exact ih.imp fun h => Nat.succ_lt_succ h
    rw [slashPaths]
    split_ifs
    · refine List.pairwise_cons.mpr ⟨fun r hr => ?_, hmap⟩
      obtain ⟨q, hq, rfl⟩ := List.mem_map.mp hr
      cases q with
      | nil => cases (mem_slashPaths.mp hq).2
      | cons d q => simp
    · exact hmap

/-- A path with a slash in it begins with its first part. -/
theorem slashPaths_eq_cons (h : slash ∈ p) : ∃ rest, slashPaths p = firstPart p :: rest := by
  induction p with
  | nil => exact absurd h List.not_mem_nil
  | cons c p ih =>
    by_cases hc : c = slash
    · exact ⟨(slashPaths p).map (c :: ·), by rw [slashPaths, if_pos hc, firstPart]; simp [hc]⟩
    · obtain ⟨rest, hrest⟩ := ih ((List.mem_cons.mp h).resolve_left (Ne.symm hc))
      refine ⟨rest.map (c :: ·), ?_⟩
      rw [slashPaths, if_neg hc, hrest, firstPart, firstPart, List.nil_append, List.map_cons,
        List.takeWhile_cons_of_pos (by simpa using hc), List.cons_append]

/-! ## Creating what is missing -/

variable {σ : Type*} (fs : FileSys σ)

/-- **The missing directories of a list are created in turn**, up to the
first failure: the calls of `mkdir` with their answers, and the disk they
leave. -/
def makeAll : List Path → σ → List (Path × Option Errno) × σ
  | [], s => ([], s)
  | p :: ps, s =>
    if fs.access s p then makeAll ps s
    else
      match fs.mkdir s p with
      | (none, s') => ((p, none) :: (makeAll ps s').1, (makeAll ps s').2)
      | (some e, s') => ([(p, some e)], s')

/-- A call that failed, and one that did not. -/
def Failed (calls : List (Path × Option Errno)) : Prop := ∃ p e, (p, some e) ∈ calls

def Succeeded (calls : List (Path × Option Errno)) : Prop := ∃ p, (p, none) ∈ calls

variable {fs} {ps : List Path} {s : σ}

theorem makeAll_of_access (h : fs.access s p) : makeAll fs (p :: ps) s = makeAll fs ps s := by
  rw [makeAll, if_pos h]

theorem makeAll_of_created (h : fs.access s p = false) (hmk : (fs.mkdir s p).1 = none) :
    makeAll fs (p :: ps) s = ((p, none) :: (makeAll fs ps (fs.mkdir s p).2).1,
      (makeAll fs ps (fs.mkdir s p).2).2) := by
  rw [makeAll, if_neg (by rw [h]; exact Bool.false_ne_true)]
  generalize fs.mkdir s p = r at hmk ⊢
  obtain ⟨_, s'⟩ := r
  cases hmk
  rfl

theorem makeAll_of_failed {e : Errno} (h : fs.access s p = false)
    (hmk : (fs.mkdir s p).1 = some e) : makeAll fs (p :: ps) s = ([(p, some e)], s) := by
  have hs : (fs.mkdir s p).2 = s := fs.mkdir_failed s p (by rw [hmk]; simp)
  rw [makeAll, if_neg (by rw [h]; exact Bool.false_ne_true)]
  generalize fs.mkdir s p = r at hmk hs ⊢
  obtain ⟨_, s'⟩ := r
  cases hmk
  cases hs
  rfl

/-- **The cases of a run**: the directory is there, it is created, or it
cannot be. -/
theorem makeAll_induct (fs : FileSys σ) {motive : List Path → σ → Prop} (nil : ∀ s, motive [] s)
    (there : ∀ p ps s, fs.access s p → motive ps s → motive (p :: ps) s)
    (created : ∀ p ps s, fs.access s p = false → (fs.mkdir s p).1 = none →
      motive ps (fs.mkdir s p).2 → motive (p :: ps) s)
    (failed : ∀ p ps s e, fs.access s p = false → (fs.mkdir s p).1 = some e → motive (p :: ps) s)
    (ps : List Path) (s : σ) : motive ps s := by
  induction ps generalizing s with
  | nil => exact nil s
  | cons p ps ih =>
    cases hp : fs.access s p with
    | true => exact there p ps s hp (ih s)
    | false =>
      cases hmk : (fs.mkdir s p).1 with
      | none => exact created p ps s hp hmk (ih _)
      | some e => exact failed p ps s e hp hmk

/-- What was there stays. -/
theorem access_makeAll (h : fs.access s q) : fs.access (makeAll fs ps s).2 q := by
  induction ps, s using makeAll_induct fs with
  | nil s => exact h
  | there p ps s hp ih => rw [makeAll_of_access hp]; exact ih h
  | created p ps s hp hmk ih => rw [makeAll_of_created hp hmk]; exact ih (fs.access_mono s p q h)
  | failed p ps s e hp hmk => rw [makeAll_of_failed hp hmk]; exact h

/-- **Without a failure all of them are there.** -/
theorem access_of_not_failed (h : ¬ Failed (makeAll fs ps s).1) :
    ∀ p ∈ ps, fs.access (makeAll fs ps s).2 p := by
  induction ps, s using makeAll_induct fs with
  | nil s => exact fun p hp => absurd hp List.not_mem_nil
  | there p ps s hp ih =>
    rw [makeAll_of_access hp] at h ⊢
    exact List.forall_mem_cons.mpr ⟨access_makeAll hp, ih h⟩
  | created p ps s hp hmk ih =>
    rw [makeAll_of_created hp hmk] at h ⊢
    refine List.forall_mem_cons.mpr ⟨access_makeAll (fs.access_created s p hmk), ih ?_⟩
    rintro ⟨q, e, hq⟩
    exact h ⟨q, e, List.mem_cons_of_mem _ hq⟩
  | failed p ps s e hp hmk =>
    rw [makeAll_of_failed hp hmk] at h
    exact absurd ⟨p, e, List.mem_singleton_self _⟩ h

/-- **A directory whose creation failed is missing.** -/
theorem missing_of_failed {e : Errno} (h : (q, some e) ∈ (makeAll fs ps s).1) :
    fs.access (makeAll fs ps s).2 q = false := by
  induction ps, s using makeAll_induct fs with
  | nil s => exact absurd h List.not_mem_nil
  | there p ps s hp ih =>
    rw [makeAll_of_access hp] at h ⊢
    exact ih h
  | created p ps s hp hmk ih =>
    rw [makeAll_of_created hp hmk] at h ⊢
    exact ih ((List.mem_cons.mp h).resolve_left (by simp))
  | failed p ps s e' hp hmk =>
    rw [makeAll_of_failed hp hmk] at h ⊢
    rw [(Prod.mk.inj (List.mem_singleton.mp h)).1]
    exact hp

/-- Only what is in the list is created. -/
theorem mem_of_mem_makeAll {r : Option Errno} (h : (q, r) ∈ (makeAll fs ps s).1) : q ∈ ps := by
  induction ps, s using makeAll_induct fs with
  | nil s => exact absurd h List.not_mem_nil
  | there p ps s hp ih =>
    rw [makeAll_of_access hp] at h
    exact List.mem_cons_of_mem _ (ih h)
  | created p ps s hp hmk ih =>
    rw [makeAll_of_created hp hmk] at h
    rcases List.mem_cons.mp h with h | h
    · rw [(Prod.mk.inj h).1]
      exact List.mem_cons_self
    · exact List.mem_cons_of_mem _ (ih h)
  | failed p ps s e hp hmk =>
    rw [makeAll_of_failed hp hmk] at h
    rw [(Prod.mk.inj (List.mem_singleton.mp h)).1]
    exact List.mem_cons_self

/-! ## Trees of directories -/

/-- A directory all of whose parents are in the list. -/
def InTree (dirs : List Path) (p : Path) : Prop :=
  p.getLast? = some slash ∧ ∀ q ∈ slashPaths p, q ∈ dirs

instance (dirs : List Path) (p : Path) : Decidable (InTree dirs p) := by
  unfold InTree; infer_instance

theorem InTree.mono {dirs : List Path} (h : InTree dirs p) : InTree (q :: dirs) p :=
  ⟨h.1, fun r hr => List.mem_cons_of_mem _ (h.2 r hr)⟩

/-- **The file system of a list of directories**, which refuses to create
those of `refuse` and those without a parent. -/
def dirTree (refuse : Path → Option Errno) : FileSys (List Path) where
  access dirs p := InTree dirs p
  mkdir dirs p :=
    match refuse p with
    | some e => (some e, dirs)
    | none => if InTree (p :: dirs) p then (none, p :: dirs) else (some .other, dirs)
  access_created dirs p h := by
    split at h
    · cases h
    · split_ifs at h with htree
      rw [if_pos htree]
      exact decide_eq_true htree
  access_mono dirs p q h := by
    split
    · exact h
    · split_ifs
      · exact decide_eq_true (of_decide_eq_true h).mono
      · exact h
  mkdir_failed dirs p h := by
    split at h
    · rfl
    · split_ifs at h with htree
      · exact absurd rfl h
      · rw [if_neg htree]
  access_parent dirs p q hpre hlast h := by
    refine decide_eq_true ⟨hlast, fun r hr => (of_decide_eq_true h).2 r ?_⟩
    obtain ⟨hr, hrlast⟩ := mem_slashPaths.mp hr
    exact mem_slashPaths.mpr ⟨hr.trans hpre, hrlast⟩

end FileSystem
