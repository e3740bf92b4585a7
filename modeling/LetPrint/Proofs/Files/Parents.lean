import LetPrint.Proofs.Files.Saving

/-!
# The directory that a path is opened in

The directory of a path is made under its cleaned name, in which `a/..` is nothing.  The path is then
opened as it is written, and a search for `a/..` goes through `a`.

* `LeadsToDir`: elements lead to a directory.  `makeAlong_cons_ok` is one step of making directories,
  and `makeAlong_leadsToDir` the whole way: the cleaned elements lead to a directory.
* `follow_iff_returns`: in a tree with a directory where the elements end as text, they can be followed
  if and only if every place that they leave by `..` is a directory.
* `Passable` says the same of the files before anything is made, as a condition on the path.
* `makeParent_exact`: after the directory of a path was made, the path leads to it as it is written if
  and only if the path was passable.
-/

namespace LetPrint

open Text

/-! ## Places and their prefixes -/

namespace Path

/-- The directory part of a path as it is written; the current directory if there is none. -/
def writtenDirectory (path : Bytes) : Bytes :=
  if directoryPart path = [] then here else directoryPart path

section

variable {start : Place} {rooted : Bool} {es es' : List Bytes}

/-- Without names, elements lead up. -/
theorem placeFrom_isPrefix (h : ∀ e ∈ es, e = here ∨ e = parent) : placeFrom start es <+: start := by
  induction es generalizing start with
  | nil => exact List.prefix_rfl
  | cons e es ih =>
    obtain ⟨he, hes⟩ := List.forall_mem_cons.1 h
    rcases he with rfl | rfl
    · exact ih hes
    · exact (ih hes).trans (List.dropLast_prefix start)

/-- What clean elements pass is above the start or above their end. -/
theorem Clean.placeFrom_isPrefix (h : Clean rooted es) (hes : es' <+: es) :
    placeFrom start es' <+: placeFrom start es ∨ placeFrom start es' <+: start := by
  obtain ⟨more, rfl⟩ := hes
  by_cases hparent : parent ∈ more
  · -- Before `..` there is nothing but `..`.
    refine .inr (Path.placeFrom_isPrefix fun e he => .inr ?_)
    exact (List.pairwise_append.1 h.parents_first).2.2 e he parent hparent rfl
  · have hmore := h.of_sublist (List.sublist_append_right es' more)
    have hnames : ∀ e ∈ more, e ≠ parent := fun e he heq => hparent (heq ▸ he)
    rw [placeFrom_append, placeFrom_names hmore.ne_nil hmore.ne_here hnames]
    exact .inl (List.prefix_append _ _)

end

/-- The written directory has the elements of the path but the last, and `.`. -/
theorem elements_writtenDirectory (path : Bytes) :
    FileSystem.elements (writtenDirectory path) = (FileSystem.elements path).dropLast ++ [here] := by
  rw [dropLast_elements, writtenDirectory]
  by_cases hnil : directoryPart path = []
  · rw [if_pos hnil, hnil]
    rfl
  · rcases directoryPart_cases path with hempty | ⟨front, hfront⟩
    · exact absurd hempty hnil
    · have hlast : ((directoryPart path).getLast? == some slash) = true := by
        rw [hfront, List.getLast?_concat]
        simp
      rw [if_neg hnil, FileSystem.elements, if_pos hlast]

theorem isRooted_writtenDirectory (path : Bytes) :
    isRooted (writtenDirectory path) = isRooted path := by
  rw [← isRooted_directoryPart path, writtenDirectory]
  by_cases hnil : directoryPart path = []
  · rw [if_pos hnil, hnil]
    rfl
  · rw [if_neg hnil]

end Path

namespace FileSystem

section

variable {fs : FileSystem} {p q : Place}

/-- Above a directory there are directories. -/
theorem IsTree.isDir_of_isPrefix (htree : fs.IsTree) (hdir : fs.node? q = some .dir)
    (h : p <+: q) : fs.node? p = some .dir := by
  obtain ⟨more, rfl⟩ := h
  cases more with
  | nil => rwa [List.append_nil] at hdir
  | cons name more =>
    rw [← List.singleton_append, ← List.append_assoc] at hdir
    exact htree p name (htree.isSome_of_append (by rw [hdir]; rfl))

end

/-! ## Following elements in a tree -/

/-- Elements lead to a directory. -/
def LeadsToDir (fs : FileSystem) (start : Place) (es : List Bytes) : Prop :=
  ∃ place, fs.follow start es = .ok place ∧ fs.node? place = some .dir

/-- Every place that elements leave by `..` is a directory. -/
def Returns (fs : FileSystem) (start : Place) (es : List Bytes) : Prop :=
  ∀ front, front ++ [Path.parent] <+: es → fs.node? (Path.placeFrom start front) = some .dir

section

variable {fs : FileSystem} {start place : Place} {es : List Bytes} {e : Bytes}

theorem Returns.tail (h : fs.Returns start (e :: es)) : fs.Returns (Path.next start e) es := by
  intro front hfront
  exact h (e :: front) (List.cons_prefix_cons.2 ⟨rfl, hfront⟩)

/-- If the end is a directory, so is the start: the elements go down to the end, or to a place that
they leave by `..`. -/
theorem Returns.isDir_start (h : fs.Returns start es) (htree : fs.IsTree) (hes : ∀ e ∈ es, e ≠ [])
    (hend : fs.node? (Path.placeFrom start es) = some .dir) : fs.node? start = some .dir := by
  induction es generalizing start with
  | nil => exact hend
  | cons e es ih =>
    obtain ⟨he, hes⟩ := List.forall_mem_cons.1 hes
    have hnext := ih h.tail hes hend
    by_cases hhere : e = Path.here
    · subst hhere
      exact hnext
    by_cases hparent : e = Path.parent
    · subst hparent
      exact h [] (by simp)
    · rw [Path.next_of_name he hhere hparent] at hnext
      exact htree.isDir_of_isPrefix hnext (List.prefix_append start [e])

theorem length_le_of_follow (h : fs.follow start es = .ok place) :
    ∀ e ∈ es, e.length ≤ elementLimit := by
  induction es generalizing start with
  | nil => simp
  | cons e es ih =>
    obtain ⟨-, p, hp, hrest⟩ := follow_cons_iff.1 h
    refine List.forall_mem_cons.2 ⟨?_, ih hrest⟩
    cases hp with
    | here => decide
    | parent => decide
    | child _ _ hlength _ => exact hlength

/-- Elements whose end is a directory can be followed exactly if they are not too long and come back
from directories only. -/
theorem follow_iff_returns (htree : fs.IsTree) (hes : ∀ e ∈ es, e ≠ [])
    (hend : fs.node? (Path.placeFrom start es) = some .dir) :
    fs.LeadsToDir start es ↔ (∀ e ∈ es, e.length ≤ elementLimit) ∧ fs.Returns start es := by
  constructor
  · rintro ⟨place, hfollow, -⟩
    refine ⟨length_le_of_follow hfollow, ?_⟩
    rintro front ⟨back, hback⟩
    rw [← hback, List.append_assoc] at hfollow hes
    obtain ⟨q, hfront, hrest⟩ := follow_append_iff.1 hfollow
    have hq := follow_eq_placeFrom (fun e he => hes e (List.mem_append_left _ he)) hfront
    rw [← hq]
    exact (follow_cons_iff.1 hrest).1
  · rintro ⟨hlength, hreturns⟩
    refine ⟨Path.placeFrom start es, ?_, hend⟩
    induction es generalizing start with
    | nil => rfl
    | cons e es ih =>
      have hstart := hreturns.isDir_start htree hes hend
      have hnext := hreturns.tail.isDir_start htree (List.forall_mem_cons.1 hes).2 hend
      have hrest := ih (List.forall_mem_cons.1 hes).2 hend (List.forall_mem_cons.1 hlength).2
        hreturns.tail
      refine follow_cons_iff.2 ⟨hstart, Path.next start e, ?_, hrest⟩
      by_cases hhere : e = Path.here
      · subst hhere
        exact .here
      by_cases hparent : e = Path.parent
      · subst hparent
        exact .parent
      · rw [Path.next_of_name (hes e List.mem_cons_self) hhere hparent] at hnext ⊢
        refine .child hhere hparent (hlength e List.mem_cons_self) ?_
        rw [hnext]
        rfl

end

/-! ## Making directories -/

section

variable {fs : FileSystem} {rooted : Bool} {done rest : List Bytes} {e : Bytes}

theorem leadsToDir_of_stat (h : Path.Clean rooted (done ++ [e]))
    (hstat : fs.stat (Path.ofElements rooted (done ++ [e])) = .ok .dir) :
    fs.LeadsToDir (fs.startOf rooted) (done ++ [e]) := by
  obtain ⟨place, hresolve, hnode⟩ := stat_eq_ok_iff.1 hstat
  obtain ⟨-, hfollow⟩ := resolve_eq_ok_iff.1 hresolve
  rw [Path.elements_ofElements h (by simp), origin_eq_startOf, Path.isRooted_ofElements h] at hfollow
  exact ⟨place, hfollow, hnode⟩

/-- One directory made, or found: the elements up to it lead to it. -/
theorem makeAlong_cons_ok (h : Path.Clean rooted (done ++ [e]))
    (hok : (fs.makeAlong rooted done (e :: rest)).2 = none) :
    ∃ fs₁ : FileSystem,
      fs.makeAlong rooted done (e :: rest) = fs₁.makeAlong rooted (done ++ [e]) rest ∧
      fs₁.startOf rooted = fs.startOf rooted ∧
      fs₁.LeadsToDir (fs.startOf rooted) (done ++ [e]) := by
  rcases makeAlong_cons_cases rest h with
    ⟨fault, heq⟩ | ⟨hstat, heq⟩ | ⟨directory, hopens, -, hnone, heq⟩
  · rw [heq] at hok
    cases hok
  · exact ⟨fs, heq, rfl, leadsToDir_of_stat h hstat⟩
  · have hne : directory ++ [e] ≠ [] := by simp
    have hnode := node?_put_self fs hne .dir
    have hgrown : Grown (fun _ => True) none fs (fs.put (directory ++ [e]) .dir) :=
      .put_dir hne hnone trivial
    have hresolve := hopens.resolve hgrown.retains (by rw [hnode]; rfl)
    have hleads := leadsToDir_of_stat h (stat_eq_ok_iff.2 ⟨_, hresolve, hnode⟩)
    rw [startOf_put] at hleads
    exact ⟨_, heq, startOf_put fs _ _ rooted, hleads⟩

/-- Directories made along elements: all the elements lead to a directory. -/
theorem makeAlong_leadsToDir (h : Path.Clean rooted (done ++ rest))
    (hdone : fs.LeadsToDir (fs.startOf rooted) done)
    (hok : (fs.makeAlong rooted done rest).2 = none) :
    (fs.makeAlong rooted done rest).1.LeadsToDir (fs.startOf rooted) (done ++ rest) := by
  induction rest generalizing fs done with
  | nil =>
    rw [List.append_nil]
    exact hdone
  | cons e rest ih =>
    rw [List.append_cons] at h ⊢
    obtain ⟨fs₁, heq, hstart, hleads⟩ :=
      makeAlong_cons_ok (h.of_sublist (List.sublist_append_left _ rest)) hok
    rw [← hstart] at hleads ⊢
    rw [heq] at hok ⊢
    exact ih h hleads hok

end

section

variable {fs : FileSystem} {path : Bytes} {q : Place}

theorem isDir_origin (hcwd : fs.node? fs.cwd = some .dir) (path : Bytes) :
    fs.node? (fs.origin path) = some .dir := by
  unfold origin
  split
  · rfl
  · exact hcwd

/-- The directory that is made stands where all elements of the path but the last lead. -/
theorem placeFrom_made (fs : FileSystem) (path : Bytes) :
    Path.placeFrom (fs.startOf (Path.isRooted (Path.directory path)))
        ([] ++ Path.cleanElements (Path.directory path)) =
      Path.placeFrom (fs.origin path) (elements path).dropLast := by
  have hrooted : Path.isRooted path = true → fs.origin path = [] := startOf_eq_nil fs
  rw [List.nil_append, Path.isRooted_directory, ← origin_eq_startOf,
    Path.placeFrom_directory hrooted]

/-- The place where the directory of a path was made, as text, is a directory. -/
theorem isDir_makeDirectories (hcwd : fs.node? fs.cwd = some .dir)
    (hok : (fs.makeDirectories (Path.directory path)).2 = none) :
    (fs.makeDirectories (Path.directory path)).1.node?
      (Path.placeFrom (fs.origin path) (elements path).dropLast) = some .dir := by
  have hclean : Path.Clean (Path.isRooted (Path.directory path))
      ([] ++ Path.cleanElements (Path.directory path)) := Path.cleanElements_clean _
  have hstart : fs.LeadsToDir (fs.startOf (Path.isRooted (Path.directory path))) [] :=
    ⟨_, rfl, isDir_origin hcwd (Path.directory path)⟩
  obtain ⟨place, hfollow, hnode⟩ := makeAlong_leadsToDir hclean hstart hok
  rw [← placeFrom_made, ← follow_eq_placeFrom hclean.ne_nil hfollow]
  exact hnode

/-- A place is a directory afterwards if it was one before, or if it is on the way to the one that was
made. -/
theorem isDir_makeDirectories_iff (htree : fs.IsTree) (hcwd : fs.node? fs.cwd = some .dir)
    (hok : (fs.makeDirectories (Path.directory path)).2 = none) :
    (fs.makeDirectories (Path.directory path)).1.node? q = some .dir ↔
      fs.node? q = some .dir ∨
        q <+: Path.placeFrom (fs.origin path) (elements path).dropLast := by
  have hclean : Path.Clean (Path.isRooted (Path.directory path))
      ([] ++ Path.cleanElements (Path.directory path)) := Path.cleanElements_clean _
  have hgrown : Grown _ none fs (fs.makeDirectories (Path.directory path)).1 :=
    makeAlong_grown hclean
  constructor
  · intro hdir
    cases hbefore : fs.node? q with
    | some node =>
      have hkept := hgrown.kept q node (by simp) hbefore
      rw [hdir] at hkept
      exact .inl hkept.symm
    | none =>
      obtain ⟨-, es, hes, hplace⟩ := hgrown.added q .dir (by simp) hbefore hdir
      have hq : q = Path.placeFrom (fs.startOf (Path.isRooted (Path.directory path))) es := hplace
      rcases hclean.placeFrom_isPrefix hes with hend | hstart
      · rw [placeFrom_made, ← hq] at hend
        exact .inr hend
      · -- Above the start everything was there already.
        rw [← hq] at hstart
        have hthere := htree.isDir_of_isPrefix (isDir_origin hcwd (Path.directory path)) hstart
        rw [hbefore] at hthere
        cases hthere
  · rintro (hdir | habove)
    · exact hgrown.kept q .dir (by simp) hdir
    · exact (makeDirectories_isTree htree path).isDir_of_isPrefix
        (isDir_makeDirectories hcwd hok) habove

end

/-! ## Paths as they are written -/

/-- The directory part of a path can be searched as it is written, once its directory is made: its text
is one that is accepted, no element is too long, and every place that it leaves by `..` is a directory
or above the one that is made. -/
structure Passable (fs : FileSystem) (path : Bytes) : Prop where
  sound : pathFault? (Path.writtenDirectory path) = none
  length_le : ∀ e ∈ (elements path).dropLast, e.length ≤ elementLimit
  returns : ∀ front, front ++ [Path.parent] <+: (elements path).dropLast →
    fs.node? (Path.placeFrom (fs.origin path) front) = some .dir ∨
      Path.placeFrom (fs.origin path) front <+:
        Path.placeFrom (fs.origin path) (elements path).dropLast

section

variable {fs : FileSystem} {path : Bytes}

theorem ne_nil_of_mem_dropLast {e : Bytes} (h : e ∈ (elements path).dropLast) : e ≠ [] :=
  ne_nil_of_mem_elements (List.dropLast_subset _ h)

/-- A path in which `..` stands behind no name leaves only places above the start. -/
theorem Passable.of_parents_first (htree : fs.IsTree) (hcwd : fs.node? fs.cwd = some .dir)
    (hsound : pathFault? (Path.writtenDirectory path) = none)
    (hlength : ∀ e ∈ (elements path).dropLast, e.length ≤ elementLimit)
    (hfirst : (elements path).dropLast.Pairwise fun e e' =>
      e' = Path.parent → e = Path.here ∨ e = Path.parent) : fs.Passable path where
  sound := hsound
  length_le := hlength
  returns := by
    rintro front ⟨back, hback⟩
    rw [← hback, List.append_assoc] at hfirst
    have hfront : ∀ e ∈ front, e = Path.here ∨ e = Path.parent := by
      intro e he
      exact (List.pairwise_append.1 hfirst).2.2 e he Path.parent (by simp) rfl
    exact .inl (htree.isDir_of_isPrefix (isDir_origin hcwd path) (Path.placeFrom_isPrefix hfront))

theorem pathFault?_eq_none_iff :
    pathFault? path = none ↔ path ≠ [] ∧ 0 ∉ path ∧ path.length ≤ pathLimit := by
  unfold pathFault?
  by_cases hnil : path = []
  · simp [hnil]
  by_cases hzero : 0 ∈ path
  · simp [hnil, hzero]
  · by_cases hlong : pathLimit < path.length
    · simp [hnil, hzero, hlong]
    · simp [hnil, hzero, Nat.not_lt.1 hlong]

theorem pathFault?_ne_missing (hne : path ≠ []) : pathFault? path ≠ some .missing := by
  unfold pathFault?
  by_cases hzero : 0 ∈ path
  · simp [hne, hzero]
  · by_cases hlong : pathLimit < path.length
    · simp [hne, hzero, hlong]
    · simp [hne, hzero, hlong]

/-- The directory part of a path that is accepted is accepted too. -/
theorem pathFault?_writtenDirectory (h : pathFault? path = none) :
    pathFault? (Path.writtenDirectory path) = none := by
  obtain ⟨-, hzero, hlength⟩ := pathFault?_eq_none_iff.1 h
  unfold Path.writtenDirectory
  by_cases hnil : Path.directoryPart path = []
  · rw [if_pos hnil]
    decide
  · rw [if_neg hnil, pathFault?_eq_none_iff]
    rw [← Path.directoryPart_append_fileName path] at hzero hlength
    rw [List.mem_append, not_or] at hzero
    rw [List.length_append] at hlength
    exact ⟨hnil, hzero.1, by omega⟩

/-- The directory part leads where all elements of the path but the last lead. -/
theorem stat_writtenDirectory :
    fs.stat (Path.writtenDirectory path) = .ok .dir ↔
      pathFault? (Path.writtenDirectory path) = none ∧
        fs.LeadsToDir (fs.origin path) (elements path).dropLast := by
  have horigin : fs.origin (Path.writtenDirectory path) = fs.origin path := by
    rw [origin_eq_startOf, origin_eq_startOf, Path.isRooted_writtenDirectory]
  constructor
  · intro hstat
    obtain ⟨place, hresolve, hnode⟩ := stat_eq_ok_iff.1 hstat
    obtain ⟨hsound, hfollow⟩ := resolve_eq_ok_iff.1 hresolve
    rw [horigin, Path.elements_writtenDirectory] at hfollow
    obtain ⟨q, hfollow, hhere⟩ := follow_append_iff.1 hfollow
    exact ⟨hsound, q, hfollow, (follow_cons_iff.1 hhere).1⟩
  · rintro ⟨hsound, place, hfollow, hnode⟩
    refine stat_eq_ok_iff.2 ⟨place, resolve_eq_ok_iff.2 ⟨hsound, ?_⟩, hnode⟩
    rw [horigin, Path.elements_writtenDirectory]
    refine follow_append_iff.2 ⟨place, hfollow, ?_⟩
    exact follow_cons_iff.2 ⟨hnode, place, .here, rfl⟩

/-- In a directory that is there, nothing that is opened for writing is missing. -/
theorem resolveForWriting_ne_missing (hne : path ≠ [])
    (hleads : fs.LeadsToDir (fs.origin path) (elements path).dropLast) :
    fs.resolveForWriting path ≠ .error .missing := by
  obtain ⟨place, hfollow, hnode⟩ := hleads
  intro hmissing
  unfold resolveForWriting at hmissing
  split at hmissing
  next fault hfault =>
    cases hmissing
    exact pathFault?_ne_missing hne hfault
  next =>
    split at hmissing
    next => cases hmissing
    next last hlast =>
      -- The directory is found, and what is behind it fails in other ways only.
      simp only [hfollow, bind, Except.bind, hnode] at hmissing
      split at hmissing
      · cases hmissing
      · split at hmissing
        · cases hmissing
        · split at hmissing <;> cases hmissing

/-- What can be opened for writing stands in a directory that the path leads to as it is written. -/
theorem stat_writtenDirectory_of_resolveForWriting {place : Place}
    (h : fs.resolveForWriting path = .ok place) :
    fs.stat (Path.writtenDirectory path) = .ok .dir := by
  obtain ⟨directory, last, -, hopens⟩ := resolveForWriting_eq_ok h
  exact stat_writtenDirectory.2
    ⟨pathFault?_writtenDirectory hopens.sound, directory, hopens.follows, hopens.isDir⟩

/-- A write fails where the path cannot be opened, and nowhere else. -/
theorem writeFile_eq_error_iff {content : Bytes} {mode : Nat} {e : PathError} :
    fs.writeFile path content mode = .error e ↔
      ∃ fault, fs.resolveForWriting path = .error fault ∧ e = ⟨utf8 "open", path, fault⟩ := by
  unfold writeFile
  cases hplace : fs.resolveForWriting path with
  | error fault =>
    constructor
    · intro h
      cases h
      exact ⟨fault, rfl, rfl⟩
    · rintro ⟨fault', hfault, rfl⟩
      cases hfault
      rfl
  | ok place =>
    constructor
    · intro h
      simp only at h
      split at h <;> cases h
    · rintro ⟨fault, hfault, -⟩
      cases hfault

/-- After the directory of a path was made, the path leads to it as it is written if and only if the
path was passable. -/
theorem stat_writtenDirectory_makeDirectories (htree : fs.IsTree)
    (hcwd : fs.node? fs.cwd = some .dir)
    (hok : (fs.makeDirectories (Path.directory path)).2 = none) :
    (fs.makeDirectories (Path.directory path)).1.stat (Path.writtenDirectory path) = .ok .dir ↔
      fs.Passable path := by
  have horigin := (makeDirectories_grown fs path).retains.origin path
  have hend := isDir_makeDirectories hcwd hok
  have hfollow := follow_iff_returns (makeDirectories_isTree htree path)
    (fun _ => ne_nil_of_mem_dropLast) hend
  rw [stat_writtenDirectory, horigin, hfollow]
  constructor
  · rintro ⟨hsound, hlength, hreturns⟩
    refine ⟨hsound, hlength, fun front hfront => ?_⟩
    exact (isDir_makeDirectories_iff htree hcwd hok).1 (hreturns front hfront)
  · intro hpassable
    refine ⟨hpassable.sound, hpassable.length_le, fun front hfront => ?_⟩
    exact (isDir_makeDirectories_iff htree hcwd hok).2 (hpassable.returns front hfront)

end

end FileSystem

/-! ## The directory of an artifact -/

namespace Session

open FileSystem

theorem makeParent_eq_ok {w w' : World} {path : Bytes}
    (h : (makeParent path).runIn w = (.ok (), w')) :
    (w.files.makeDirectories (Path.directory path)).2 = none ∧
      w'.files = (w.files.makeDirectories (Path.directory path)).1 := by
  rw [runIn_makeParent] at h
  cases hmade : (w.files.makeDirectories (Path.directory path)).2 with
  | none =>
    rw [hmade] at h
    cases h
    exact ⟨rfl, rfl⟩
  | some e =>
    rw [hmade] at h
    cases h

/-- The directory of a path was made.  There is a directory at the place that the directory part of the
path names as text.  The directory part leads to a directory as it is written if and only if the path
was passable before.  If it was, opening the path for writing never fails because something is missing,
and if it was not, the path cannot be opened for writing at all.  A path in which `..` stands behind no
name is passable, unless its text is not accepted. -/
theorem makeParent_exact {w w' : World} {path : Bytes} (htree : w.files.IsTree)
    (hcwd : w.files.node? w.files.cwd = some .dir) (hne : path ≠ [])
    (hmade : (makeParent path).runIn w = (.ok (), w')) :
    w'.files.node? (Path.placeFrom (w.files.origin path) (elements path).dropLast) = some .dir ∧
      (w'.files.stat (Path.writtenDirectory path) = .ok .dir ↔ w.files.Passable path) ∧
      (w.files.Passable path → ∀ content mode e,
        w'.files.writeFile path content mode = .error e → e.fault ≠ .missing) ∧
      (¬w.files.Passable path → ∀ content mode,
        ∃ e, w'.files.writeFile path content mode = .error e) ∧
      (pathFault? (Path.writtenDirectory path) = none →
        (∀ e ∈ (elements path).dropLast, e.length ≤ elementLimit) →
        (elements path).dropLast.Pairwise
          (fun e e' => e' = Path.parent → e = Path.here ∨ e = Path.parent) →
        w.files.Passable path) := by
  obtain ⟨hok, hfiles⟩ := makeParent_eq_ok hmade
  have hpassable := stat_writtenDirectory_makeDirectories htree hcwd hok
  have hdir := isDir_makeDirectories hcwd hok
  rw [← hfiles] at hpassable hdir
  refine ⟨hdir, hpassable, ?_, ?_, .of_parents_first htree hcwd⟩
  · intro hpath content mode e herror hmissing
    obtain ⟨fault, hplace, rfl⟩ := writeFile_eq_error_iff.1 herror
    have hfault : fault = .missing := hmissing
    rw [hfault] at hplace
    have hleads := (stat_writtenDirectory.1 (hpassable.2 hpath)).2
    exact resolveForWriting_ne_missing hne hleads hplace
  · intro hpath content mode
    cases hplace : w'.files.resolveForWriting path with
    | error fault => exact ⟨_, writeFile_eq_error_iff.2 ⟨fault, hplace, rfl⟩⟩
    | ok place =>
      exact absurd (hpassable.1 (stat_writtenDirectory_of_resolveForWriting hplace)) hpath

/-- The directory `sub` is there, so the path may go through it to one that is made. -/
theorem makeParent_exact_workshop :
    workshop.files.IsTree ∧ workshop.files.node? workshop.files.cwd = some .dir ∧
      ∃ w', (makeParent (utf8 "sub/../out//new/./b.ll")).runIn workshop = (.ok (), w') ∧
        workshop.files.Passable (utf8 "sub/../out//new/./b.ll") ∧
        w'.files.stat (utf8 "sub/../out//new/./") = .ok .dir ∧
        ∀ content mode e, w'.files.writeFile (utf8 "sub/../out//new/./b.ll") content mode =
          .error e → e.fault ≠ .missing := by
  have htree : workshop.files.IsTree := by decide
  have hcwd : workshop.files.node? workshop.files.cwd = some .dir := by decide
  have hwritten : Path.writtenDirectory (utf8 "sub/../out//new/./b.ll") =
      utf8 "sub/../out//new/./" := by decide
  obtain ⟨w', hmade, hstat⟩ : ∃ w',
      (makeParent (utf8 "sub/../out//new/./b.ll")).runIn workshop = (.ok (), w') ∧
        w'.files.stat (utf8 "sub/../out//new/./") = .ok .dir := ⟨_, rfl, rfl⟩
  obtain ⟨-, hiff, hopen, -, -⟩ := makeParent_exact htree hcwd (by decide) hmade
  rw [hwritten] at hiff
  exact ⟨htree, hcwd, w', hmade, hiff.1 hstat, hstat, hopen (hiff.1 hstat)⟩

/-- In an empty directory, the directory of `a/../b` is made under its cleaned name, which is `.`, and
nothing is made.  The path as it is written goes through `a`, and cannot be opened. -/
theorem makeParent_leaves_parent_missing :
    ({} : World).files.IsTree ∧
      ({} : World).files.node? ({} : World).files.cwd = some .dir ∧
      (makeParent (utf8 "a/../b")).runIn {} = (.ok (), {}) ∧
      Path.writtenDirectory (utf8 "a/../b") = utf8 "a/../" ∧
      ({} : World).files.stat (utf8 "a/../") = .error .missing ∧
      ∀ content mode, ({} : World).files.writeFile (utf8 "a/../b") content mode =
        .error ⟨utf8 "open", utf8 "a/../b", .missing⟩ := by
  have hplace : ({} : World).files.resolveForWriting (utf8 "a/../b") = .error .missing := rfl
  refine ⟨by decide, by decide, rfl, by decide, rfl, fun content mode => ?_⟩
  exact writeFile_eq_error_iff.2 ⟨.missing, hplace, rfl⟩

end Session

end LetPrint
