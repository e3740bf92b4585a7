import LetPrint.Proofs.Files.Tree
import LetPrint.Proofs.Session

/-!
# What saving a file changes

A file is saved in two steps: the directory of its path is made under its cleaned name, then the path
is opened as it is written.

* `Grown` says what may have changed: what was there is still there, and what is new is a directory at
  one of the given places, one place apart.
* `makeAlong_cons_cases` says what making one directory can do.  From it come what making all of them
  adds (`makeAlong_grown`), that it keeps a tree (`makeAlong_isTree`), and that it adds nothing if the
  last of them is there (`makeAlong_eq_self`).
* `writeFile_eq_ok`: what a write does.
* `save_frame` puts the two steps together, for every path, and for failures at either step.
-/

namespace LetPrint

open Text

/-- The permission bits of a file. -/
def Node.mode? : Node → Option Nat
  | .dir => none
  | .file mode _ => some mode

namespace FileSystem

/-- The permission bits of the file that a path leads to, if there is one. -/
def modeOf? (fs : FileSystem) (path : Bytes) : Option Nat :=
  (fs.stat path).toOption.bind Node.mode?

/-- The places on the way to a path. -/
def OnTheWay (fs : FileSystem) (path : Bytes) (q : Place) : Prop :=
  ∃ es, es <+: elements path ∧ q = Path.placeFrom (fs.origin path) es

/-! ## Growth -/

/-- Everything in `fs` is in `fs'` too, and what is new in `fs'` is a directory at one of the places
`fresh`.  Nothing is said of the place `apart`. -/
structure Grown (fresh : Place → Prop) (apart : Option Place) (fs fs' : FileSystem) : Prop where
  cwd : fs'.cwd = fs.cwd
  kept : ∀ q node, apart ≠ some q → fs.node? q = some node → fs'.node? q = some node
  added : ∀ q node, apart ≠ some q → fs.node? q = none → fs'.node? q = some node →
    node = .dir ∧ fresh q

namespace Grown

variable {fresh : Place → Prop} {apart : Option Place} {fs fs₁ fs₂ : FileSystem} {place : Place}
  {node : Node}

theorem refl (fresh : Place → Prop) (fs : FileSystem) : Grown fresh apart fs fs where
  cwd := rfl
  kept := fun _ _ _ h => h
  added := by
    intro q node _ hnone hsome
    rw [hnone] at hsome
    cases hsome

theorem trans (h : Grown fresh none fs fs₁) (h' : Grown fresh apart fs₁ fs₂) :
    Grown fresh apart fs fs₂ where
  cwd := h'.cwd.trans h.cwd
  kept := fun q node hq hnode => h'.kept q node hq (h.kept q node (by simp) hnode)
  added := by
    intro q node hq hnone hsome
    cases hmid : fs₁.node? q with
    | none => exact h'.added q node hq hmid hsome
    | some node' =>
      have hkept := h'.kept q node' hq hmid
      rw [hsome] at hkept
      cases hkept
      exact h.added q node (by simp) hnone hmid

theorem put_dir (hne : place ≠ []) (hnone : fs.node? place = none) (hfresh : fresh place) :
    Grown fresh apart fs (fs.put place .dir) where
  cwd := cwd_put fs place .dir
  kept := by
    intro q node _ hnode
    have hq : q ≠ place := by
      rintro rfl
      rw [hnone] at hnode
      cases hnode
    rw [node?_put_of_ne fs hq, hnode]
  added := by
    intro q node _ hq hnode
    by_cases heq : q = place
    · subst heq
      rw [node?_put_self fs hne] at hnode
      cases hnode
      exact ⟨rfl, hfresh⟩
    · rw [node?_put_of_ne fs heq, hq] at hnode
      cases hnode

theorem put_apart (fresh : Place → Prop) (fs : FileSystem) (place : Place) (node : Node) :
    Grown fresh (some place) fs (fs.put place node) where
  cwd := cwd_put fs place node
  kept := by
    intro q node' hq hnode
    have hne : q ≠ place := fun heq => hq (congrArg some heq.symm)
    rw [node?_put_of_ne fs hne, hnode]
  added := by
    intro q node' hq hnone hsome
    have hne : q ≠ place := fun heq => hq (congrArg some heq.symm)
    rw [node?_put_of_ne fs hne, hnone] at hsome
    cases hsome

theorem retains (h : Grown fresh none fs fs₁) : Retains fs fs₁ where
  cwd := h.cwd
  dir := fun q hq => h.kept q .dir (by simp) hq
  isSome := by
    intro q hq
    obtain ⟨node, hnode⟩ := Option.isSome_iff_exists.1 hq
    rw [h.kept q node (by simp) hnode]
    rfl

/-- A file that is there was there before. -/
theorem file_of_file {mode : Nat} {content : Bytes} (h : Grown fresh none fs fs₁)
    (hfile : fs₁.node? place = some (.file mode content)) :
    fs.node? place = some (.file mode content) := by
  cases hbefore : fs.node? place with
  | none =>
    have hdir := (h.added place _ (by simp) hbefore hfile).1
    cases hdir
  | some node =>
    have hkept := h.kept place node (by simp) hbefore
    rw [hfile] at hkept
    exact hkept.symm

end Grown

/-! ## Making directories -/

/-- Where the elements of a path start. -/
def startOf (fs : FileSystem) (rooted : Bool) : Place :=
  if rooted then [] else fs.cwd

theorem origin_eq_startOf (fs : FileSystem) (path : Bytes) :
    fs.origin path = fs.startOf (Path.isRooted path) := rfl

theorem startOf_eq_nil (fs : FileSystem) {rooted : Bool} (h : rooted = true) :
    fs.startOf rooted = [] := by
  rw [h]
  rfl

theorem startOf_put (fs : FileSystem) (place : Place) (node : Node) (rooted : Bool) :
    (fs.put place node).startOf rooted = fs.startOf rooted := by
  rw [startOf, startOf, cwd_put]

section

variable {fs : FileSystem} {rooted : Bool} {done rest : List Bytes} {e : Bytes}

/-- What making one directory can do: fail and change nothing, find the directory, or put it into the
one before it, where nothing is. -/
theorem makeAlong_cons_cases (rest : List Bytes) (h : Path.Clean rooted (done ++ [e])) :
    (∃ fault, fs.makeAlong rooted done (e :: rest) = (fs, some fault)) ∨
      (fs.stat (Path.ofElements rooted (done ++ [e])) = .ok .dir ∧
        fs.makeAlong rooted done (e :: rest) = fs.makeAlong rooted (done ++ [e]) rest) ∨
      ∃ directory, fs.OpensAt (Path.ofElements rooted (done ++ [e])) directory e ∧
        Path.placeFrom (fs.startOf rooted) (done ++ [e]) = directory ++ [e] ∧
        fs.node? (directory ++ [e]) = none ∧
        fs.makeAlong rooted done (e :: rest) =
          (fs.put (directory ++ [e]) .dir).makeAlong rooted (done ++ [e]) rest := by
  have helements := Path.elements_ofElements h (by simp)
  rw [makeAlong]
  split
  next hstat => exact .inr (.inl ⟨hstat, rfl⟩)
  next => exact .inl ⟨_, rfl⟩
  next fault hstat =>
    split
    next => exact .inl ⟨_, rfl⟩
    next place hplace =>
      obtain ⟨directory, last, rfl, hopens⟩ := resolveForWriting_eq_ok hplace
      have hlast : e = last := by
        have heq := hopens.elements_eq
        rw [helements] at heq
        have hsingle := (List.append_inj' heq rfl).2
        exact (List.cons.inj hsingle).1
      subst hlast
      have hdirectory : directory = Path.placeFrom (fs.startOf rooted) done := by
        rw [hopens.directory_eq, helements, List.dropLast_concat, origin_eq_startOf,
          Path.isRooted_ofElements h]
      refine .inr (.inr ⟨directory, hopens, ?_, ?_, rfl⟩)
      · rw [Path.placeFrom_concat, ← hdirectory]
        exact Path.next_of_name hopens.ne_nil hopens.ne_here hopens.ne_parent
      · -- Something there would have been found.
        cases hnode : fs.node? (directory ++ [e]) with
        | none => rfl
        | some node =>
          have hresolve := hopens.resolve (.refl fs) (by rw [hnode]; rfl)
          rw [stat_eq_ok_iff.2 ⟨_, hresolve, hnode⟩] at hstat
          cases hstat

/-- Making directories adds directories at places that the elements pass. -/
theorem makeAlong_grown (h : Path.Clean rooted (done ++ rest)) :
    Grown (fun q => ∃ es, es <+: done ++ rest ∧ q = Path.placeFrom (fs.startOf rooted) es) none fs
      (fs.makeAlong rooted done rest).1 := by
  induction rest generalizing fs done with
  | nil => exact .refl _ fs
  | cons e rest ih =>
    rw [List.append_cons] at h ⊢
    rcases makeAlong_cons_cases rest (h.of_sublist (List.sublist_append_left _ rest)) with
      ⟨fault, heq⟩ | ⟨-, heq⟩ | ⟨directory, -, hplace, hnone, heq⟩
    · rw [heq]
      exact .refl _ fs
    · rw [heq]
      exact ih h
    · rw [heq]
      have hrest := @ih (fs.put (directory ++ [e]) .dir) _ h
      rw [startOf_put] at hrest
      refine .trans (.put_dir (by simp) hnone ?_) hrest
      exact ⟨done ++ [e], List.prefix_append _ rest, hplace.symm⟩

theorem makeAlong_isTree (htree : fs.IsTree) (h : Path.Clean rooted (done ++ rest)) :
    (fs.makeAlong rooted done rest).1.IsTree := by
  induction rest generalizing fs done with
  | nil => exact htree
  | cons e rest ih =>
    rw [List.append_cons] at h
    rcases makeAlong_cons_cases rest (h.of_sublist (List.sublist_append_left _ rest)) with
      ⟨fault, heq⟩ | ⟨-, heq⟩ | ⟨directory, hopens, -, hnone, heq⟩
    · rw [heq]
      exact htree
    · rw [heq]
      exact ih htree h
    · rw [heq]
      refine ih (htree.put hopens.isDir ?_) h
      rw [hnone]
      simp

/-- If the place that the elements lead to is there, there is nothing to make. -/
theorem makeAlong_eq_self (htree : fs.IsTree) (h : Path.Clean rooted (done ++ rest))
    (hthere : (fs.node? (Path.placeFrom (fs.startOf rooted) (done ++ rest))).isSome) :
    (fs.makeAlong rooted done rest).1 = fs := by
  induction rest generalizing done with
  | nil => rfl
  | cons e rest ih =>
    rw [List.append_cons] at h hthere
    rcases makeAlong_cons_cases rest (h.of_sublist (List.sublist_append_left _ rest)) with
      ⟨fault, heq⟩ | ⟨-, heq⟩ | ⟨directory, hopens, hplace, hnone, -⟩
    · rw [heq]
    · rw [heq]
      exact ih h hthere
    · -- Behind a name there are names only, so the place is below the one where nothing is.
      have hnames : ∀ a ∈ rest, a ≠ Path.parent := by
        intro a ha heq
        have hpairs := (List.pairwise_append.1 h.parents_first).2.2
        exact hopens.ne_parent (hpairs e (by simp) a ha heq)
      have hclean := h.of_sublist (List.sublist_append_right (done ++ [e]) rest)
      rw [Path.placeFrom_append, hplace,
        Path.placeFrom_names hclean.ne_nil hclean.ne_here hnames] at hthere
      have hsome := htree.isSome_of_append hthere
      rw [hnone] at hsome
      cases hsome

end

/-! ## Writing -/

section

variable {fs fs' : FileSystem} {path content : Bytes} {mode : Nat}

/-- A write puts a file at the place that is opened; a file that was there keeps its mode. -/
theorem writeFile_eq_ok (h : fs.writeFile path content mode = .ok fs') :
    ∃ directory last, fs.OpensAt path directory last ∧
      fs' = fs.put (directory ++ [last])
        (.file (((fs.node? (directory ++ [last])).bind Node.mode?).getD mode) content) := by
  unfold writeFile at h
  split at h
  next => cases h
  next place hplace =>
    obtain ⟨directory, last, rfl, hopens⟩ := resolveForWriting_eq_ok hplace
    refine ⟨directory, last, hopens, ?_⟩
    split at h
    next old _ hnode =>
      cases h
      rw [hnode]
      rfl
    next hnode =>
      cases h
      cases hnow : fs.node? (directory ++ [last]) with
      | none => rfl
      | some node =>
        cases node with
        | dir => rfl
        | file old content' => exact absurd hnow (hnode old content')

theorem Retains.put_file {place : Place} (hne : place ≠ []) (hnot : fs.node? place ≠ some .dir)
    (mode : Nat) (content : Bytes) : Retains fs (fs.put place (.file mode content)) where
  cwd := cwd_put fs place _
  dir := by
    intro q hq
    have hplace : q ≠ place := by
      rintro rfl
      exact hnot hq
    rw [node?_put_of_ne fs hplace, hq]
  isSome := by
    intro q hq
    by_cases heq : q = place
    · rw [heq, node?_put_self fs hne]
      rfl
    · rwa [node?_put_of_ne fs heq]

end

/-! ## The directory of a path -/

section

variable {fs : FileSystem} {path : Bytes} {directory : Place} {last : Bytes}

/-- The cleaned elements are passed on the way to the directory; if there are none, the directory is `.`
or the root. -/
theorem cleanElements_directory_isPrefix (path : Bytes) :
    Path.cleanElements (Path.directory path) <+: elements (Path.directory path) := by
  have hclean := Path.cleanElements_clean (Path.directoryPart path)
  rw [Path.cleanElements_directory]
  by_cases hnil : Path.cleanElements (Path.directoryPart path) = []
  · rw [hnil]
    exact List.nil_prefix
  · have helements : elements (Path.directory path) =
        Path.cleanElements (Path.directoryPart path) := Path.elements_ofElements hclean hnil
    exact ⟨[], by rw [List.append_nil, helements]⟩

theorem makeDirectories_grown (fs : FileSystem) (path : Bytes) :
    Grown (fs.OnTheWay (Path.directory path)) none fs
      (fs.makeDirectories (Path.directory path)).1 := by
  have hclean : Path.Clean _ ([] ++ _) := Path.cleanElements_clean (Path.directory path)
  have hgrown : Grown _ none fs (fs.makeDirectories (Path.directory path)).1 :=
    makeAlong_grown hclean
  refine ⟨hgrown.cwd, hgrown.kept, fun q node hq hnone hsome => ?_⟩
  obtain ⟨hdir, es, hes, hplace⟩ := hgrown.added q node hq hnone hsome
  exact ⟨hdir, es, hes.trans (cleanElements_directory_isPrefix path), hplace⟩

theorem makeDirectories_isTree (htree : fs.IsTree) (path : Bytes) :
    (fs.makeDirectories (Path.directory path)).1.IsTree := by
  have hclean : Path.Clean _ ([] ++ _) := Path.cleanElements_clean (Path.directory path)
  exact makeAlong_isTree htree hclean

/-- If the place of the directory is there, there is nothing to make. -/
theorem makeDirectories_eq_self (htree : fs.IsTree)
    (hthere : (fs.node? (Path.placeFrom (fs.origin path) (elements path).dropLast)).isSome) :
    (fs.makeDirectories (Path.directory path)).1 = fs := by
  have hclean : Path.Clean _ ([] ++ _) := Path.cleanElements_clean (Path.directory path)
  have hstart : Path.isRooted path = true → fs.origin path = [] := startOf_eq_nil fs
  rw [← Path.placeFrom_directory hstart, origin_eq_startOf, ← Path.isRooted_directory] at hthere
  exact makeAlong_eq_self htree hclean hthere

/-- The file that is opened after the directory of its path was made has the mode of the file that the
path led to before. -/
theorem mode_eq_modeOf? (htree : fs.IsTree)
    (hopens : (fs.makeDirectories (Path.directory path)).1.OpensAt path directory last) :
    ((fs.makeDirectories (Path.directory path)).1.node? (directory ++ [last])).bind Node.mode? =
      fs.modeOf? path := by
  have hgrown := makeDirectories_grown fs path
  have horigin := hgrown.retains.origin path
  unfold modeOf?
  cases hnow : (fs.makeDirectories (Path.directory path)).1.node? (directory ++ [last]) with
  | some node =>
    cases node with
    | dir => exact absurd hnow hopens.notDir
    | file mode content =>
      -- The file was there, so its directory was, and none was made.
      have hbefore := hgrown.file_of_file hnow
      have hdir := htree directory last (by rw [hbefore]; rfl)
      have hself : (fs.makeDirectories (Path.directory path)).1 = fs := by
        refine makeDirectories_eq_self htree ?_
        rw [← horigin, ← hopens.directory_eq, hdir]
        rfl
      rw [hself] at hopens
      have hresolve := hopens.resolve (.refl fs) (by rw [hbefore]; rfl)
      rw [stat_eq_ok_iff.2 ⟨_, hresolve, hbefore⟩]
      rfl
  | none =>
    -- A file that the path led to would still be there.
    cases hstat : fs.stat path with
    | error fault => rfl
    | ok node =>
      obtain ⟨q, hresolve, hnode⟩ := stat_eq_ok_iff.1 hstat
      have hkept := hgrown.kept q node (by simp) hnode
      rw [hopens.eq_of_resolve horigin.symm hresolve, hnow] at hkept
      cases hkept

end

end FileSystem

/-! ## Saving -/

namespace Session

open FileSystem

/-- Saving fails and leaves the directories that were made, or writes the file. -/
theorem save_cases (path content : Bytes) (w : World) :
    (∃ d, (save path content).runIn w =
        (.error d, { w with files := (w.files.makeDirectories (Path.directory path)).1 })) ∨
      ∃ files, (w.files.makeDirectories (Path.directory path)).1.writeFile path content 0o644 =
          .ok files ∧
        (save path content).runIn w = (.ok (), { w with files }) := by
  have hparent := runIn_makeParent w path
  cases hmade : (w.files.makeDirectories (Path.directory path)).2 with
  | some e =>
    rw [hmade] at hparent
    exact .inl ⟨_, runIn_bind_error hparent⟩
  | none =>
    rw [hmade] at hparent
    have hsave : (save path content).runIn w = _ := runIn_bind_ok hparent
    rw [runIn_changeFiles] at hsave
    cases hwrite : (w.files.makeDirectories (Path.directory path)).1.writeFile path content 0o644 with
    | error e =>
      simp only [hwrite] at hsave
      exact .inl ⟨_, hsave⟩
    | ok files =>
      simp only [hwrite] at hsave
      exact .inr ⟨files, rfl, hsave⟩

theorem runIn_readSource {w : World} {path content : Bytes} {place : Place} {mode : Nat}
    (hresolve : w.files.resolve path = .ok place)
    (hnode : w.files.node? place = some (.file mode content)) :
    (readSource path).runIn w = (.ok content, w) := by
  rw [readSource, runIn_bind_ok runIn_get, runIn_ofExcept, readFile,
    stat_eq_ok_iff.2 ⟨place, hresolve, hnode⟩]
  rfl

/-- Saving changes the files and nothing else in the world, and keeps them a tree.

If it succeeds, the path leads to a file with the content, which reading the path returns.  The file has
the mode of the file that the path led to before, or 644 if it led to none.  Everything else is as it
was, except for new directories on the way to the directory of the path.  If it fails, there may be such
directories, and everything is as it was. -/
theorem save_frame (path content : Bytes) {w : World} (htree : w.files.IsTree) :
    ∃ result files, (save path content).runIn w = (result, { w with files }) ∧ files.IsTree ∧
      (result = .ok () → ∃ place, files.resolve path = .ok place ∧
        (readSource path).runIn { w with files } = (.ok content, { w with files }) ∧
        files.node? place = some (.file ((w.files.modeOf? path).getD 0o644) content) ∧
        Grown (w.files.OnTheWay (Path.directory path)) (some place) w.files files) ∧
      ∀ d, result = .error d →
        Grown (w.files.OnTheWay (Path.directory path)) none w.files files := by
  have hgrown := makeDirectories_grown w.files path
  have hmade := makeDirectories_isTree htree path
  rcases save_cases path content w with ⟨d, hrun⟩ | ⟨files, hwrite, hrun⟩
  · refine ⟨.error d, _, hrun, hmade, ?_, fun _ _ => hgrown⟩
    intro hok
    cases hok
  · obtain ⟨directory, last, hopens, rfl⟩ := writeFile_eq_ok hwrite
    have hne : directory ++ [last] ≠ [] := by simp
    rw [mode_eq_modeOf? htree hopens] at hrun
    refine ⟨.ok (), _, hrun, hmade.put hopens.isDir hopens.notDir, fun _ => ?_, ?_⟩
    · have hnode := node?_put_self (w.files.makeDirectories (Path.directory path)).1 hne
        (.file ((w.files.modeOf? path).getD 0o644) content)
      have hresolve := hopens.resolve (Retains.put_file hne hopens.notDir _ _) (by rw [hnode]; rfl)
      exact ⟨directory ++ [last], hresolve, runIn_readSource hresolve hnode, hnode,
        hgrown.trans (.put_apart _ _ _ _)⟩
    · intro d herror
      cases herror

/-- A world with a directory and a file that is not for everyone, below the current directory. -/
def workshop : World where
  files := {
    entries := [
      ([utf8 "w"], .dir),
      ([utf8 "w", utf8 "sub"], .dir),
      ([utf8 "w", utf8 "sub", utf8 "a.ll"], .file 0o600 (utf8 "old"))]
    cwd := [utf8 "w"] }

/-- Two directories are made, under the cleaned name, for a file that is opened through a third. -/
theorem save_frame_workshop :
    workshop.files.IsTree ∧ ∃ files place,
      (save (utf8 "sub/../out//new/./b.ll") (utf8 "text")).runIn workshop =
        (.ok (), { workshop with files }) ∧
      files.resolve (utf8 "sub/../out//new/./b.ll") = .ok place ∧
      (readSource (utf8 "sub/../out//new/./b.ll")).runIn { workshop with files } =
        (.ok (utf8 "text"), { workshop with files }) ∧
      files.node? place = some (.file 0o644 (utf8 "text")) ∧
      Grown (workshop.files.OnTheWay (utf8 "out/new")) (some place) workshop.files files := by
  have htree : workshop.files.IsTree := by decide
  have hdirectory : Path.directory (utf8 "sub/../out//new/./b.ll") = utf8 "out/new" := by decide
  have hmode : workshop.files.modeOf? (utf8 "sub/../out//new/./b.ll") = none := by decide
  have hok : ((save (utf8 "sub/../out//new/./b.ll") (utf8 "text")).runIn workshop).1 = .ok () :=
    rfl
  obtain ⟨result, files, hrun, -, hframe, -⟩ :=
    save_frame (utf8 "sub/../out//new/./b.ll") (utf8 "text") htree
  rw [hrun] at hok
  obtain ⟨place, hresolve, hread, hnode, hgrown⟩ := hframe hok
  rw [hmode] at hnode
  rw [hdirectory] at hgrown
  subst hok
  exact ⟨htree, files, place, hrun, hresolve, hread, hnode, hgrown⟩

end Session

end LetPrint
