import TelnetServ.LogFile.Model
/-!
# The log file — its directory

`createDir` does what `makeAll` does to the parents of the directory, but
for the first of them, which it takes for the root (`makeDirs_spec`). Its
result is set by any call of `mkdir` that succeeds and not reset by one
that fails behind it. `tellsTheTruth_iff` says that nothing else goes wrong.
-/

namespace TelnetServ

open FileSystem

variable {σ : Type*} {fs : FileSys σ}

/-! ## What is promised -/

/-- A path `createDir` has room for, from the root or the working
directory. -/
structure DirPath where
  path : Path
  zero_notMem : 0 ∉ path
  length_le : path.length ≤ 254
  head_eq : path.head? = some slash ∨ path.head? = some 46

/-- **The calls of `mkdir` that are due**: each missing directory of the
path, from the outermost in, up to the first failure. -/
def due (fs : FileSys σ) (path : Path) (disk : σ) : List (Path × Option Errno) :=
  (makeAll fs (slashPaths (achDir path)) disk).1

/-- **`createDir` tells the truth** about the disk it leaves. -/
structure TellsTheTruth (fs : FileSys σ) (path : Path) (disk : σ) (d : DirState σ) : Prop where
  /-- The complete directory exists. -/
  exists_iff : d.bRet = true ↔ fs.access d.disk (achDir path) = true
  failed : Failed d.calls → d.bRet = false ∧ d.wErrorCode ≠ errNo
  attempted : d.calls = due fs path disk

/-! ## The loop -/

variable {p : Path} {ps : List Path} {d : DirState σ}

theorem makeDir_of_access (h : fs.access d.disk p) : makeDir fs p d = d := if_pos h

theorem makeDir_of_created (h : fs.access d.disk p = false)
    (hmk : (fs.mkdir d.disk p).1 = none) : makeDir fs p d =
      { disk := (fs.mkdir d.disk p).2
        wErrorCode := errNo
        bRet := true
        calls := d.calls ++ [(p, none)] } := by
  rw [makeDir, if_neg (by rw [h]; exact Bool.false_ne_true)]
  generalize fs.mkdir d.disk p = r at hmk ⊢
  obtain ⟨_, disk⟩ := r
  cases hmk
  rfl

theorem makeDir_of_failed {e : Errno} (h : fs.access d.disk p = false)
    (hmk : (fs.mkdir d.disk p).1 = some e) : ∃ code ≠ errNo, makeDir fs p d =
      { d with wErrorCode := code, calls := d.calls ++ [(p, some e)] } := by
  have hdisk : (fs.mkdir d.disk p).2 = d.disk := fs.mkdir_failed _ _ (by rw [hmk]; simp)
  rw [makeDir, if_neg (by rw [h]; exact Bool.false_ne_true)]
  generalize fs.mkdir d.disk p = r at hmk hdisk ⊢
  obtain ⟨_, disk⟩ := r
  cases hdisk
  cases e with
  | emlink => cases hmk; exact ⟨errTooManyLinks, by decide, rfl⟩
  | other => cases hmk; exact ⟨errCreatedirFail, by decide, rfl⟩

/-- What the loop makes of a list of directories. -/
structure LoopDone (fs : FileSys σ) (ps : List Path) (d d' : DirState σ) : Prop where
  disk : d'.disk = (makeAll fs ps d.disk).2
  calls : d'.calls = d.calls ++ (makeAll fs ps d.disk).1
  succeeded : ¬ Failed (makeAll fs ps d.disk).1 → d'.bRet = true
  failed : Failed (makeAll fs ps d.disk).1 → d'.wErrorCode ≠ errNo ∧
    (d'.bRet = true ↔ d.bRet = true ∨ Succeeded (makeAll fs ps d.disk).1)

/-- **The loop is `makeAll`**, with a result that any success sets. -/
theorem makeDirs_spec (fs : FileSys σ) (ps : List Path) (d : DirState σ)
    (hcode : d.wErrorCode = errNo) : LoopDone fs ps d (makeDirs fs ps d) := by
  obtain ⟨s, hs⟩ : ∃ s, d.disk = s := ⟨_, rfl⟩
  induction ps, s using makeAll_induct fs generalizing d with
  | nil s =>
    refine ⟨rfl, (List.append_nil _).symm, fun _ => rfl, ?_⟩
    rintro ⟨p, e, h⟩
    exact absurd h List.not_mem_nil
  | there p ps s hp ih =>
    subst hs
    rw [makeDirs, makeDir_of_access hp, if_neg (not_not_intro hcode)]
    obtain ⟨hdisk, hcalls, hsucceeded, hfailed⟩ := ih d hcode rfl
    rw [← makeAll_of_access hp] at hdisk hcalls hsucceeded hfailed
    exact ⟨hdisk, hcalls, hsucceeded, hfailed⟩
  | created p ps s hp hmk ih =>
    subst hs
    obtain ⟨hdisk, hcalls, hsucceeded, hfailed⟩ := ih
      { disk := (fs.mkdir d.disk p).2
        wErrorCode := errNo
        bRet := true
        calls := d.calls ++ [(p, none)] } rfl rfl
    rw [makeDirs, makeDir_of_created hp hmk, if_neg (not_not_intro rfl)]
    have hall : makeAll fs (p :: ps) d.disk = _ := makeAll_of_created hp hmk
    have hstill : Failed (makeAll fs (p :: ps) d.disk).1 ↔
        Failed (makeAll fs ps (fs.mkdir d.disk p).2).1 := by
      rw [hall]
      constructor
      · rintro ⟨q, e, hq⟩
        exact ⟨q, e, (List.mem_cons.mp hq).resolve_left (by simp)⟩
      · rintro ⟨q, e, hq⟩
        exact ⟨q, e, List.mem_cons_of_mem _ hq⟩
    refine ⟨by rw [hdisk, hall], by rw [hcalls, hall, List.append_assoc, List.singleton_append],
      fun h => hsucceeded (mt hstill.mpr h), fun h => ?_⟩
    obtain ⟨herr, hret⟩ := hfailed (hstill.mp h)
    refine ⟨herr, fun _ => Or.inr ?_, fun _ => hret.mpr (Or.inl rfl)⟩
    rw [hall]
    exact ⟨p, List.mem_cons_self⟩
  | failed p ps s e hp hmk =>
    subst hs
    obtain ⟨code, hne, hmake⟩ := makeDir_of_failed hp hmk
    rw [makeDirs, hmake, if_pos hne]
    have hall : makeAll fs (p :: ps) d.disk = _ := makeAll_of_failed hp hmk
    refine ⟨by rw [hall], by rw [hall], fun h => ?_, fun _ => ⟨hne, Or.inl, ?_⟩⟩
    · rw [hall] at h
      exact absurd ⟨p, e, List.mem_singleton_self _⟩ h
    · rw [hall]
      rintro (h | ⟨q, hq⟩)
      · exact h
      · cases List.mem_singleton.mp hq

/-! ## The result -/

theorem getLast?_achDir (path : Path) : (achDir path).getLast? = some slash := by
  unfold achDir
  dsimp only
  split_ifs with h
  · exact h
  · exact List.getLast?_concat

theorem length_achDir_le (path : Path) : (achDir path).length ≤ path.length + 1 := by
  unfold achDir
  dsimp only
  split_ifs <;> simp

/-- **For such a path `createDir` comes to its loop.** -/
theorem createDir_spec (fs : FileSys σ) (path : DirPath) (disk : σ) :
    ∃ d, createDir fs (some path.path) errNo disk = some d ∧
      LoopDone fs (slashPaths (achDir path.path)).tail { disk := disk, wErrorCode := errNo } d := by
  have hlen := path.length_le
  have hdir := length_achDir_le path.path
  have hmax : maxIdsPathLen = 256 := rfl
  have hhead : ¬ (path.path.head? ≠ some slash ∧ path.path.head? ≠ some 46) := fun h =>
    path.head_eq.elim h.1 h.2
  refine ⟨_, ?_, makeDirs_spec fs _ _ rfl⟩
  rw [createDir, if_neg (by omega), if_neg hhead, if_neg (by omega)]

/-- The parents of a path: the first, and those of the loop. -/
theorem slashPaths_achDir (path : Path) : slashPaths (achDir path) =
    firstPart (achDir path) :: (slashPaths (achDir path)).tail := by
  obtain ⟨rest, hrest⟩ := slashPaths_eq_cons (List.mem_of_getLast? (getLast?_achDir path))
  rw [hrest, List.tail_cons]

/-- The first is none of those. -/
theorem firstPart_notMem_tail (path : Path) :
    firstPart (achDir path) ∉ (slashPaths (achDir path)).tail := by
  have hpairs := pairwise_slashPaths (achDir path)
  rw [slashPaths_achDir, List.pairwise_cons] at hpairs
  exact fun h => lt_irrefl _ (hpairs.1 _ h)

/-- Where it is missing its creation is due. -/
theorem mem_due_firstPart {path : Path} {disk : σ}
    (h : fs.access disk (firstPart (achDir path)) = false) :
    ∃ r, (firstPart (achDir path), r) ∈ due fs path disk := by
  rw [due, slashPaths_achDir]
  cases hmk : (fs.mkdir disk (firstPart (achDir path))).1 with
  | none => exact ⟨none, by rw [makeAll_of_created h hmk]; exact List.mem_cons_self⟩
  | some e => exact ⟨some e, by rw [makeAll_of_failed h hmk]; exact List.mem_cons_self⟩

/-- Where it is there, what is due is what the loop does. -/
theorem due_of_access {path : Path} {disk : σ} (h : fs.access disk (firstPart (achDir path))) :
    due fs path disk = (makeAll fs (slashPaths (achDir path)).tail disk).1 := by
  rw [due, slashPaths_achDir, makeAll_of_access h, List.tail_cons]

section Result

variable {path : Path} {disk : σ}

/-- The calls of a loop that begins with none. -/
theorem LoopDone.calls_eq (hloop : LoopDone fs ps { disk := disk, wErrorCode := errNo } d) :
    d.calls = (makeAll fs ps disk).1 := by
  rw [hloop.calls, List.nil_append]

/-- **A missing directory in front of the first slash is overlooked.** -/
theorem access_firstPart_of_attempted
    (hloop : LoopDone fs (slashPaths (achDir path)).tail { disk := disk, wErrorCode := errNo } d)
    (hattempted : d.calls = due fs path disk) : fs.access disk (firstPart (achDir path)) := by
  by_contra hmissing
  obtain ⟨r, hr⟩ := mem_due_firstPart (Bool.eq_false_iff.mpr hmissing)
  rw [← hattempted, hloop.calls_eq] at hr
  exact firstPart_notMem_tail path (mem_of_mem_makeAll hr)

/-- A failure of the loop with nothing made before it is reported. -/
theorem LoopDone.reports (hloop : LoopDone fs ps { disk := disk, wErrorCode := errNo } d)
    (hlate : ¬ (Succeeded d.calls ∧ Failed d.calls)) (hfailed : Failed d.calls) :
    d.bRet = false ∧ d.wErrorCode ≠ errNo := by
  have hnone : ¬ Succeeded d.calls := fun h => hlate ⟨h, hfailed⟩
  rw [hloop.calls_eq] at hnone hfailed
  obtain ⟨hcode, hiff⟩ := hloop.failed hfailed
  refine ⟨Bool.eq_false_iff.mpr fun h => ?_, hcode⟩
  exact (hiff.mp h).elim Bool.false_ne_true hnone

/-- Behind a failure the complete directory is missing, as a parent of it
is. -/
theorem access_of_failed
    (hloop : LoopDone fs (slashPaths (achDir path)).tail { disk := disk, wErrorCode := errNo } d)
    (hfailed : Failed d.calls) : fs.access d.disk (achDir path) = false := by
  obtain ⟨p, e, hp⟩ := hfailed
  rw [hloop.calls_eq] at hp
  obtain ⟨hpre, hlast⟩ := mem_slashPaths.mp (List.mem_of_mem_tail (mem_of_mem_makeAll hp))
  refine Bool.eq_false_iff.mpr fun h => ?_
  have haccess := fs.access_parent _ _ _ hpre hlast h
  rw [hloop.disk, missing_of_failed hp] at haccess
  cases haccess

/-- Without one it is there. -/
theorem access_of_succeeded
    (hloop : LoopDone fs (slashPaths (achDir path)).tail { disk := disk, wErrorCode := errNo } d)
    (hfirst : fs.access disk (firstPart (achDir path))) (hfailed : ¬ Failed d.calls) :
    fs.access d.disk (achDir path) := by
  have hmem : achDir path ∈ slashPaths (achDir path) :=
    mem_slashPaths.mpr ⟨List.prefix_rfl, getLast?_achDir _⟩
  rw [hloop.calls_eq] at hfailed
  rw [slashPaths_achDir] at hmem
  rw [hloop.disk]
  rcases List.mem_cons.mp hmem with h | h
  · rw [h]
    exact access_makeAll hfirst
  · exact access_of_not_failed hfailed _ h

/-- **The truth is told** where the first directory is there and no failure
comes behind a success. -/
theorem tellsTheTruth_of_loopDone
    (hloop : LoopDone fs (slashPaths (achDir path)).tail { disk := disk, wErrorCode := errNo } d)
    (hfirst : fs.access disk (firstPart (achDir path)))
    (hlate : ¬ (Succeeded (due fs path disk) ∧ Failed (due fs path disk))) :
    TellsTheTruth fs path disk d := by
  have hdue : due fs path disk = d.calls := by
    rw [due_of_access hfirst, hloop.calls_eq]
  rw [hdue] at hlate
  refine ⟨?_, hloop.reports hlate, hdue.symm⟩
  by_cases hfailed : Failed d.calls
  · rw [(hloop.reports hlate hfailed).1, access_of_failed hloop hfailed]
  · refine iff_of_true ?_ (access_of_succeeded hloop hfirst hfailed)
    rw [hloop.calls_eq] at hfailed
    exact hloop.succeeded hfailed

end Result

/-- **`createDir` tells the truth if and only if** the directory up to the
first slash is there, and no `mkdir` that is due fails behind one that
succeeds. -/
theorem tellsTheTruth_iff (fs : FileSys σ) (path : DirPath) (disk : σ) :
    (∃ d, createDir fs (some path.path) errNo disk = some d ∧
        TellsTheTruth fs path.path disk d) ↔
      fs.access disk (firstPart (achDir path.path)) ∧
        ¬ (Succeeded (due fs path.path disk) ∧ Failed (due fs path.path disk)) := by
  obtain ⟨d, hcreate, hloop⟩ := createDir_spec fs path disk
  rw [hcreate]
  constructor
  · rintro ⟨d', hd', htruth⟩
    obtain rfl := Option.some_inj.mp hd'
    refine ⟨access_firstPart_of_attempted hloop htruth.attempted, fun ⟨hsucceeded, hfailed⟩ => ?_⟩
    rw [← htruth.attempted] at hsucceeded hfailed
    have hret := (htruth.failed hfailed).1
    rw [hloop.calls_eq] at hsucceeded hfailed
    rw [((hloop.failed hfailed).2).mpr (Or.inr hsucceeded)] at hret
    cases hret
  · rintro ⟨hfirst, hlate⟩
    exact ⟨d, rfl, tellsTheTruth_of_loopDone hloop hfirst hlate⟩

/-- Without a backslash the directory made is the one `rollFile` goes on
with. -/
theorem path_rollDir {path : Path} (h : 92 ∉ path) : (rollDir path true).path = achDir path := by
  have hmap : path.map (fun c => if c = 92 then slash else c) = path := by
    conv_rhs => rw [← List.map_id path]
    refine List.map_congr_left fun c hc => if_neg ?_
    rintro rfl
    exact h hc
  unfold achDir rollDir
  dsimp only
  rw [hmap, if_pos rfl]
  split_ifs <;> rfl

/-- **`rollFile` writes to a directory that is there**, or to its working
directory, where `createDir` has told the truth. -/
theorem rollFileDir_exists {path : Path} {disk : σ} (hslash : 92 ∉ path)
    (hmissing : fs.access disk path = false)
    (hcreate : createDir fs (some path) errNo disk = some d)
    (htruth : TellsTheTruth fs path disk d) : ∃ dir, rollFileDir fs path disk = some (dir, d.disk) ∧
      (fs.access d.disk dir.path ∨ dir.path = ascii "./") := by
  refine ⟨rollDir path d.bRet, ?_, ?_⟩
  · rw [rollFileDir, hmissing, if_neg Bool.false_ne_true, hcreate, Option.map_some]
  · cases hret : d.bRet with
    | true =>
      left
      rw [path_rollDir hslash]
      exact htruth.exists_iff.mp hret
    | false => exact Or.inr rfl

/-- **Two lies.** A directory in the working directory is never made, and
`true` is returned; and so it is where `/a` has been made and `/a/b` could
not be. -/
theorem not_tellsTheTruth :
    (¬ ∃ d, createDir (dirTree fun _ => none) (some (ascii ".logs")) errNo [] = some d ∧
        TellsTheTruth (dirTree fun _ => none) (ascii ".logs") [] d) ∧
      ¬ ∃ d, createDir (dirTree fun p => if p = ascii "/a/b/" then some .other else none)
          (some (ascii "/a/b")) errNo [ascii "/"] = some d ∧
        TellsTheTruth (dirTree fun p => if p = ascii "/a/b/" then some .other else none)
          (ascii "/a/b") [ascii "/"] d := by
  constructor
  · rintro ⟨d, hd, htruth⟩
    obtain rfl := Option.some_inj.mp hd
    exact absurd (htruth.exists_iff.mp rfl) (by decide)
  · rintro ⟨d, hd, htruth⟩
    obtain rfl := Option.some_inj.mp hd
    exact absurd (htruth.failed ⟨ascii "/a/b/", .other, by decide⟩).1 (by decide)

end TelnetServ
