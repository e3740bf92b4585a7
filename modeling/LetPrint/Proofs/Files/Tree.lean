import LetPrint.Proofs.Files.Paths

/-!
# The tree of files

What a place holds after a change (`node?_put_self`, `node?_put_of_ne`), and where paths lead.

* `follow_cons_iff` says once what following an element takes.  From it come the place that is reached
  (`follow_eq_placeFrom`: the one that the text says) and that a path still leads there when
  directories have been added and files have been written (`Retains.follow`).
* `OpensAt`: what it means that a path can be opened for writing.
* `IsTree`: everything stands in a directory.  Nothing stands below a place that holds none
  (`IsTree.isSome_of_append`), and putting something into a directory keeps the tree (`IsTree.put`).
-/

namespace LetPrint.FileSystem

open Text

/-! ## What a place holds -/

section

variable {entries : List (Place × Node)} {place q : Place} {node : Node}

theorem lookup_map_self (h : entries.any (·.1 == place) = true) :
    (entries.map fun e => if e.1 == place then (place, node) else e).lookup place = some node := by
  induction entries with
  | nil => cases h
  | cons e entries ih =>
    obtain ⟨key, value⟩ := e
    by_cases hkey : key = place
    · simp [hkey]
    · have hrest : entries.any (·.1 == place) = true := by
        simpa [hkey] using h
      have hbeq : (place == key) = false := by simpa using Ne.symm hkey
      simpa [hkey, List.lookup_cons, hbeq] using ih hrest

theorem lookup_map_of_ne (h : q ≠ place) :
    (entries.map fun e => if e.1 == place then (place, node) else e).lookup q =
      entries.lookup q := by
  induction entries with
  | nil => rfl
  | cons e entries ih =>
    obtain ⟨key, value⟩ := e
    by_cases hkey : key = place
    · subst hkey
      have hbeq : (q == key) = false := by simpa using h
      simpa [List.lookup_cons, hbeq] using ih
    · simp only [List.map_cons, List.lookup_cons, beq_iff_eq, hkey, if_false]
      rw [← ih]
      simp only [beq_iff_eq]

variable (fs : FileSystem)

theorem isSome_node?_iff {fs : FileSystem} (h : place ≠ []) :
    (fs.node? place).isSome ↔ ∃ node, (place, node) ∈ fs.entries := by
  have hempty : place.isEmpty = false := by simpa using h
  simp only [node?, hempty, Bool.false_eq_true, if_false]
  constructor
  · intro hsome
    obtain ⟨node, hnode⟩ := Option.isSome_iff_exists.1 hsome
    obtain ⟨before, after, hentries, -⟩ := List.lookup_eq_some_iff.1 hnode
    exact ⟨node, by simp [hentries]⟩
  · rintro ⟨node, hmem⟩
    cases hlookup : fs.entries.lookup place with
    | some _ => rfl
    | none =>
      have hne := List.lookup_eq_none_iff.1 hlookup _ hmem
      simp at hne

theorem node?_put_self (h : place ≠ []) (node : Node) :
    (fs.put place node).node? place = some node := by
  have hempty : place.isEmpty = false := by simpa using h
  simp only [node?, hempty, Bool.false_eq_true, if_false]
  unfold put
  split
  next hany => exact lookup_map_self hany
  next hany =>
    have hnone : fs.entries.lookup place = none := by
      rw [List.lookup_eq_none_iff]
      intro e he
      rw [Bool.not_eq_true, List.any_eq_false] at hany
      have hne := hany e he
      simp only [beq_iff_eq] at hne
      simpa using Ne.symm hne
    simp [List.lookup_append, hnone]

theorem node?_put_of_ne (h : q ≠ place) : (fs.put place node).node? q = fs.node? q := by
  unfold node?
  split
  · rfl
  · unfold put
    split
    next => exact lookup_map_of_ne h
    next =>
      have hbeq : (q == place) = false := by simpa using h
      simp [List.lookup_append, List.lookup_cons, hbeq]

@[simp] theorem cwd_put (place : Place) (node : Node) : (fs.put place node).cwd = fs.cwd := by
  unfold put
  split <;> rfl

end

/-! ## Following a path -/

/-- An element leads from a directory to a place that is there. -/
inductive Enters (fs : FileSystem) (place : Place) : Bytes → Place → Prop where
  | here : Enters fs place Path.here place
  | parent : Enters fs place Path.parent place.dropLast
  | child {e : Bytes} (hhere : e ≠ Path.here) (hparent : e ≠ Path.parent)
      (hlength : e.length ≤ elementLimit) (hnode : (fs.node? (place ++ [e])).isSome) :
      Enters fs place e (place ++ [e])

section

variable {fs : FileSystem} {place q : Place} {e : Bytes} {es rest : List Bytes}

theorem follow_cons_iff :
    fs.follow place (e :: rest) = .ok q ↔
      fs.node? place = some .dir ∧ ∃ p, Enters fs place e p ∧ fs.follow p rest = .ok q := by
  rw [follow]
  cases hplace : fs.node? place with
  | none => simp
  | some node =>
    cases node with
    | file mode content => simp
    | dir =>
      simp only [true_and]
      by_cases hhere : e = Path.here
      · subst hhere
        simp only [beq_self_eq_true, if_true]
        constructor
        · intro h
          exact ⟨place, .here, h⟩
        · rintro ⟨p, hp, h⟩
          cases hp with
          | here => exact h
          | child hne => exact absurd rfl hne
      have hhere' : (e == Path.here) = false := by simpa using hhere
      by_cases hparent : e = Path.parent
      · subst hparent
        simp only [hhere', Bool.false_eq_true, if_false, beq_self_eq_true, if_true]
        constructor
        · intro h
          exact ⟨place.dropLast, .parent, h⟩
        · rintro ⟨p, hp, h⟩
          cases hp with
          | parent => exact h
          | child _ hne => exact absurd rfl hne
      have hparent' : (e == Path.parent) = false := by simpa using hparent
      simp only [hhere', hparent', Bool.false_eq_true, if_false]
      constructor
      · intro h
        split at h
        next => cases h
        next hlength =>
          split at h
          next node hnode =>
            exact ⟨place ++ [e], .child hhere hparent (by omega) (by simp [hnode]), h⟩
          next => cases h
      · rintro ⟨p, hp, h⟩
        cases hp with
        | here => exact absurd rfl hhere
        | parent => exact absurd rfl hparent
        | child _ _ hlength hnode =>
          obtain ⟨node, hnode⟩ := Option.isSome_iff_exists.1 hnode
          rw [if_neg (by omega), hnode]
          exact h

theorem follow_append_iff :
    fs.follow place (es ++ rest) = .ok q ↔
      ∃ m, fs.follow place es = .ok m ∧ fs.follow m rest = .ok q := by
  induction es generalizing place with
  | nil => simp [follow]
  | cons e es ih =>
    simp only [List.cons_append, follow_cons_iff, ih]
    constructor
    · rintro ⟨hplace, p, hp, m, hes, hrest⟩
      exact ⟨m, ⟨hplace, p, hp, hes⟩, hrest⟩
    · rintro ⟨m, ⟨hplace, p, hp, hes⟩, hrest⟩
      exact ⟨hplace, p, hp, m, hes, hrest⟩

/-- The place that is reached is the one that the text says. -/
theorem follow_eq_placeFrom (hes : ∀ e ∈ es, e ≠ []) (h : fs.follow place es = .ok q) :
    q = Path.placeFrom place es := by
  induction es generalizing place with
  | nil =>
    cases h
    rfl
  | cons e es ih =>
    obtain ⟨he, hes⟩ := List.forall_mem_cons.1 hes
    obtain ⟨-, p, hp, h⟩ := follow_cons_iff.1 h
    have hnext : Path.next place e = p := by
      cases hp with
      | here => rfl
      | parent => rfl
      | child hhere hparent _ _ => exact Path.next_of_name he hhere hparent
    rw [ih hes h, ← hnext]
    rfl

end

/-- `fs'` has the directories of `fs`, and something wherever `fs` has something. -/
structure Retains (fs fs' : FileSystem) : Prop where
  cwd : fs'.cwd = fs.cwd
  dir : ∀ q, fs.node? q = some .dir → fs'.node? q = some .dir
  isSome : ∀ q, (fs.node? q).isSome → (fs'.node? q).isSome

namespace Retains

variable {fs fs' : FileSystem} {place q : Place} {es : List Bytes} {path : Bytes}

theorem refl (fs : FileSystem) : Retains fs fs :=
  ⟨rfl, fun _ h => h, fun _ h => h⟩

theorem follow (h : Retains fs fs') (hfollow : fs.follow place es = .ok q) :
    fs'.follow place es = .ok q := by
  induction es generalizing place with
  | nil => exact hfollow
  | cons e es ih =>
    obtain ⟨hplace, p, hp, hfollow⟩ := follow_cons_iff.1 hfollow
    refine follow_cons_iff.2 ⟨h.dir place hplace, p, ?_, ih hfollow⟩
    cases hp with
    | here => exact .here
    | parent => exact .parent
    | child hhere hparent hlength hnode => exact .child hhere hparent hlength (h.isSome _ hnode)

theorem origin (h : Retains fs fs') (path : Bytes) : fs'.origin path = fs.origin path := by
  unfold FileSystem.origin
  rw [h.cwd]

end Retains

theorem ne_nil_of_mem_elements {path e : Bytes} (h : e ∈ elements path) : e ≠ [] := by
  unfold elements at h
  rcases List.mem_append.1 h with h | h
  · simpa using (List.mem_filter.1 h).2
  · split at h
    · rw [List.mem_singleton.1 h]
      decide
    · cases h

section

variable {fs fs' : FileSystem} {path : Bytes} {place : Place} {node : Node}

theorem resolve_eq_ok_iff :
    fs.resolve path = .ok place ↔
      pathFault? path = none ∧ fs.follow (fs.origin path) (elements path) = .ok place := by
  unfold resolve
  cases pathFault? path <;> simp

theorem stat_eq_ok_iff :
    fs.stat path = .ok node ↔
      ∃ place, fs.resolve path = .ok place ∧ fs.node? place = some node := by
  unfold stat
  cases hresolve : fs.resolve path with
  | error fault => simp [bind, Except.bind]
  | ok place =>
    cases hnode : fs.node? place with
    | none => simp [bind, Except.bind, hnode]
    | some node' => simp [bind, Except.bind, hnode, pure, Except.pure]

end

/-! ## Opening a path for writing -/

/-- The path can be opened for writing: it names `last` in a directory, which is a file or not there
yet. -/
structure OpensAt (fs : FileSystem) (path : Bytes) (directory : Place) (last : Bytes) : Prop where
  sound : pathFault? path = none
  elements_eq : elements path = (elements path).dropLast ++ [last]
  follows : fs.follow (fs.origin path) (elements path).dropLast = .ok directory
  isDir : fs.node? directory = some .dir
  ne_here : last ≠ Path.here
  ne_parent : last ≠ Path.parent
  length_le : last.length ≤ elementLimit
  notDir : fs.node? (directory ++ [last]) ≠ some .dir

section

variable {fs : FileSystem} {path : Bytes} {place directory : Place} {last : Bytes}

theorem resolveForWriting_eq_ok (h : fs.resolveForWriting path = .ok place) :
    ∃ directory last, place = directory ++ [last] ∧ fs.OpensAt path directory last := by
  unfold resolveForWriting at h
  split at h
  next => cases h
  next hsound =>
    split at h
    next => cases h
    next last hlast =>
      obtain ⟨front, hfront⟩ := List.getLast?_eq_some_iff.1 hlast
      have helements : elements path = (elements path).dropLast ++ [last] := by
        rw [hfront, List.dropLast_concat]
      cases hfollow : fs.follow (fs.origin path) (elements path).dropLast with
      | error fault =>
        rw [hfollow] at h
        cases h
      | ok directory =>
        simp only [hfollow, bind, Except.bind] at h
        split at h
        next hdir =>
          split at h
          next => cases h
          next hspecial =>
            have hnames : last ≠ Path.here ∧ last ≠ Path.parent := by simpa using hspecial
            split at h
            next => cases h
            next hlength =>
              split at h
              next => cases h
              next hnot =>
                cases h
                exact ⟨directory, last, rfl, hsound, helements, hfollow, hdir, hnames.1, hnames.2,
                  by omega, hnot⟩
        next => cases h

namespace OpensAt

theorem ne_nil (h : fs.OpensAt path directory last) : last ≠ [] := by
  have hmem : last ∈ elements path := by
    rw [h.elements_eq]
    simp
  exact ne_nil_of_mem_elements hmem

theorem directory_eq (h : fs.OpensAt path directory last) :
    directory = Path.placeFrom (fs.origin path) (elements path).dropLast :=
  follow_eq_placeFrom (fun _ he => ne_nil_of_mem_elements (List.dropLast_subset _ he)) h.follows

/-- Whatever is there is what the path leads to. -/
theorem resolve {fs' : FileSystem} (h : fs.OpensAt path directory last) (hretains : Retains fs fs')
    (hnode : (fs'.node? (directory ++ [last])).isSome) :
    fs'.resolve path = .ok (directory ++ [last]) := by
  refine resolve_eq_ok_iff.2 ⟨h.sound, ?_⟩
  rw [h.elements_eq, hretains.origin]
  refine follow_append_iff.2 ⟨directory, hretains.follow h.follows, ?_⟩
  refine follow_cons_iff.2 ⟨hretains.dir directory h.isDir, directory ++ [last], ?_, rfl⟩
  exact .child h.ne_here h.ne_parent h.length_le hnode

/-- A path that leads somewhere leads to the place that is opened. -/
theorem eq_of_resolve {fs' : FileSystem} {q : Place} (h : fs.OpensAt path directory last)
    (horigin : fs'.origin path = fs.origin path) (hresolve : fs'.resolve path = .ok q) :
    q = directory ++ [last] := by
  obtain ⟨-, hfollow⟩ := resolve_eq_ok_iff.1 hresolve
  have hplace := follow_eq_placeFrom (fun _ => ne_nil_of_mem_elements) hfollow
  rw [hplace, horigin, h.elements_eq, Path.placeFrom_concat, ← h.directory_eq]
  exact Path.next_of_name h.ne_nil h.ne_here h.ne_parent

end OpensAt

end

/-! ## Trees -/

/-- Everything stands in a directory. -/
def IsTree (fs : FileSystem) : Prop :=
  ∀ place name, (fs.node? (place ++ [name])).isSome → fs.node? place = some .dir

/-- It is enough to look at the entries. -/
theorem isTree_iff {fs : FileSystem} :
    fs.IsTree ↔ ∀ e ∈ fs.entries, fs.node? e.1.dropLast = some .dir := by
  constructor
  · rintro h ⟨place, node⟩ he
    rcases List.eq_nil_or_concat place with rfl | ⟨front, name, rfl⟩
    · rfl
    · rw [List.concat_eq_append] at he ⊢
      rw [List.dropLast_concat]
      exact h front name ((isSome_node?_iff (by simp)).2 ⟨node, he⟩)
  · intro h place name hsome
    obtain ⟨node, he⟩ := (isSome_node?_iff (by simp)).1 hsome
    have hdir := h _ he
    rwa [List.dropLast_concat] at hdir

instance : DecidablePred IsTree := fun _ => decidable_of_iff _ isTree_iff.symm

namespace IsTree

variable {fs : FileSystem} {place directory : Place} {name : Bytes} {node : Node}

/-- Nothing stands below a place that holds nothing. -/
theorem isSome_of_append (h : fs.IsTree) {more : List Bytes}
    (hsome : (fs.node? (place ++ more)).isSome) : (fs.node? place).isSome := by
  induction more generalizing place with
  | nil => rwa [List.append_nil] at hsome
  | cons name more ih =>
    rw [← List.singleton_append, ← List.append_assoc] at hsome
    rw [h place name (ih hsome)]
    rfl

/-- A directory takes what it has not as a directory. -/
theorem put (h : fs.IsTree) (hdir : fs.node? directory = some .dir)
    (hnot : fs.node? (directory ++ [name]) ≠ some .dir) :
    (fs.put (directory ++ [name]) node).IsTree := by
  intro place last hsome
  by_cases heq : place ++ [last] = directory ++ [name]
  · obtain ⟨rfl, -⟩ := List.append_inj' heq rfl
    have hne : place ≠ place ++ [name] := by simp
    rw [node?_put_of_ne fs hne, hdir]
  · rw [node?_put_of_ne fs heq] at hsome
    have hplace := h place last hsome
    have hne : place ≠ directory ++ [name] := by
      rintro rfl
      exact hnot hplace
    rw [node?_put_of_ne fs hne, hplace]

end IsTree

end LetPrint.FileSystem
