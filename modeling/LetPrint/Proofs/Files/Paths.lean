import LetPrint.FileSystem
import LetPrint.Proofs.Text.Splitting

/-!
# Paths as text

A path is cleaned as text, and a tree is searched element by element.  Both go to one place.

* `placeFrom` is the place that elements lead to, whatever is there: `..` takes the last name back.
* `Clean` says what is true of the elements after cleaning: `..` stands at the front only, and
  nowhere behind the root.  `pushElement_cases` says what one more element can do, and the fold over
  the elements of a path keeps `Clean` and the place (`foldl_pushElement_clean`).
* `elements_ofElements`, `cleanElements_ofElements`: the path of clean elements has these elements
  again.
* `placeFrom_directory`: the cleaned directory of a path leads where all elements of the path but the
  last lead, although the two are searched along different directories.
-/

namespace LetPrint.Path

open Text

/-! ## Where elements lead -/

/-- The place that one element leads to: `.` and the empty element stay, `..` goes up. -/
def next (place : Place) (element : Bytes) : Place :=
  if element.isEmpty || element == here then place
  else if element == parent then place.dropLast
  else place ++ [element]

/-- The place that elements lead to, one after the other, whatever is there. -/
def placeFrom (start : Place) (elements : List Bytes) : Place :=
  elements.foldl next start

section

variable {start place : Place} {e : Bytes} {es : List Bytes}

@[simp] theorem placeFrom_nil (start : Place) : placeFrom start [] = start := rfl

theorem placeFrom_append (start : Place) (es es' : List Bytes) :
    placeFrom start (es ++ es') = placeFrom (placeFrom start es) es' :=
  List.foldl_append

theorem placeFrom_concat (start : Place) (es : List Bytes) (e : Bytes) :
    placeFrom start (es ++ [e]) = next (placeFrom start es) e :=
  placeFrom_append start es [e]

@[simp] theorem next_nil (place : Place) : next place [] = place := rfl

@[simp] theorem next_here (place : Place) : next place here = place := rfl

@[simp] theorem next_parent (place : Place) : next place parent = place.dropLast := rfl

theorem next_of_name (hne : e ≠ []) (hhere : e ≠ here) (hparent : e ≠ parent) :
    next place e = place ++ [e] := by
  simp [next, hne, hhere, hparent]

/-- Names go down, one by one. -/
theorem placeFrom_names (hne : ∀ e ∈ es, e ≠ []) (hhere : ∀ e ∈ es, e ≠ here)
    (hparent : ∀ e ∈ es, e ≠ parent) : placeFrom start es = start ++ es := by
  induction es generalizing start with
  | nil => simp
  | cons e es ih =>
    rw [List.forall_mem_cons] at hne hhere hparent
    have hnext : next start e = start ++ [e] := next_of_name hne.1 hhere.1 hparent.1
    show placeFrom (next start e) es = start ++ e :: es
    rw [hnext, ih hne.2 hhere.2 hparent.2]
    simp

/-- Empty elements do not matter. -/
theorem placeFrom_filter (start : Place) (es : List Bytes) :
    placeFrom start (es.filter (!·.isEmpty)) = placeFrom start es := by
  induction es generalizing start with
  | nil => rfl
  | cons e es ih =>
    cases e with
    | nil => exact ih start
    | cons b e => exact ih (next start (b :: e))

end

/-! ## Clean elements -/

/-- Elements after `.` and `..` are worked out: `..` stands at the front only, and not at all behind the
root. -/
structure Clean (rooted : Bool) (elements : List Bytes) : Prop where
  ne_nil : ∀ e ∈ elements, e ≠ []
  ne_here : ∀ e ∈ elements, e ≠ here
  no_slash : ∀ e ∈ elements, slash ∉ e
  parents_first : elements.Pairwise fun e e' => e' = parent → e = parent
  no_parent : rooted = true → parent ∉ elements

namespace Clean

variable {rooted : Bool} {e : Bytes} {es es' : List Bytes}

theorem nil (rooted : Bool) : Clean rooted [] where
  ne_nil := by simp
  ne_here := by simp
  no_slash := by simp
  parents_first := .nil
  no_parent := by simp

theorem of_sublist (h : Clean rooted es') (hsub : es.Sublist es') : Clean rooted es where
  ne_nil := fun e he => h.ne_nil e (hsub.subset he)
  ne_here := fun e he => h.ne_here e (hsub.subset he)
  no_slash := fun e he => h.no_slash e (hsub.subset he)
  parents_first := h.parents_first.sublist hsub
  no_parent := fun hrooted hmem => h.no_parent hrooted (hsub.subset hmem)

theorem concat (h : Clean rooted es) (hne : e ≠ []) (hhere : e ≠ here) (hslash : slash ∉ e)
    (hparent : e = parent → rooted = false ∧ ∀ a ∈ es, a = parent) : Clean rooted (es ++ [e]) where
  ne_nil := by
    intro a ha
    rcases List.mem_append.1 ha with ha | ha
    · exact h.ne_nil a ha
    · rwa [List.mem_singleton.1 ha]
  ne_here := by
    intro a ha
    rcases List.mem_append.1 ha with ha | ha
    · exact h.ne_here a ha
    · rwa [List.mem_singleton.1 ha]
  no_slash := by
    intro a ha
    rcases List.mem_append.1 ha with ha | ha
    · exact h.no_slash a ha
    · rwa [List.mem_singleton.1 ha]
  parents_first := by
    refine List.pairwise_append.2 ⟨h.parents_first, List.pairwise_singleton _ _, ?_⟩
    intro a ha b hb hbparent
    rw [List.mem_singleton.1 hb] at hbparent
    exact (hparent hbparent).2 a ha
  no_parent := by
    intro hrooted hmem
    rcases List.mem_append.1 hmem with hmem | hmem
    · exact h.no_parent hrooted hmem
    · have hfalse := (hparent (List.mem_singleton.1 hmem).symm).1
      rw [hrooted] at hfalse
      cases hfalse

end Clean

section

variable {rooted : Bool} {stack : List Bytes} {e : Bytes}

/-- What one more element does to clean elements: it leaves them, takes the last one back, or is put
behind them. -/
theorem pushElement_cases (rooted : Bool) (stack : List Bytes) (e : Bytes) :
    (e = [] ∨ e = here) ∧ pushElement rooted stack e = stack ∨
      (e = parent ∧ rooted = true ∧ stack = []) ∧ pushElement rooted stack e = stack ∨
      (∃ last rest, e = parent ∧ last ≠ parent ∧ stack = last :: rest ∧
        pushElement rooted stack e = rest) ∨
      (e ≠ [] ∧ e ≠ here ∧
        (e = parent → (rooted = false ∧ stack = []) ∨ stack.head? = some parent)) ∧
        pushElement rooted stack e = e :: stack := by
  unfold pushElement
  by_cases hstay : (e.isEmpty || e == here) = true
  · rw [if_pos hstay]
    refine .inl ⟨?_, rfl⟩
    simpa using hstay
  have hstay' : e ≠ [] ∧ e ≠ here := by simpa using hstay
  rw [if_neg hstay]
  by_cases hparent : (e == parent) = true
  · have hparent' : e = parent := by simpa using hparent
    rw [if_pos hparent]
    cases stack with
    | nil =>
      cases rooted with
      | true => exact .inr (.inl ⟨⟨hparent', rfl, rfl⟩, rfl⟩)
      | false => exact .inr (.inr (.inr ⟨⟨hstay'.1, hstay'.2, fun _ => .inl ⟨rfl, rfl⟩⟩, rfl⟩))
    | cons last rest =>
      by_cases hlast : last = parent
      · subst hlast
        refine .inr (.inr (.inr ⟨⟨hstay'.1, hstay'.2, fun _ => .inr rfl⟩, ?_⟩))
        simp
      · refine .inr (.inr (.inl ⟨last, rest, hparent', hlast, rfl, ?_⟩))
        simp [hlast]
  · have hparent' : e ≠ parent := by simpa using hparent
    rw [if_neg hparent]
    exact .inr (.inr (.inr ⟨⟨hstay'.1, hstay'.2, fun h => absurd h hparent'⟩, rfl⟩))

/-- Behind `..` in clean elements, the last first, there is `..` only. -/
theorem Clean.parents_of_head {stack : List Bytes} (h : Clean rooted stack.reverse)
    (hhead : stack.head? = some parent) : rooted = false ∧ ∀ a ∈ stack.reverse, a = parent := by
  obtain ⟨rest, rfl⟩ := List.head?_eq_some_iff.1 hhead
  have hmem : parent ∈ (parent :: rest).reverse := by simp
  refine ⟨?_, ?_⟩
  · cases rooted with
    | false => rfl
    | true => exact absurd hmem (h.no_parent rfl)
  · intro a ha
    have hpairs := h.parents_first
    rw [List.pairwise_reverse, List.pairwise_cons] at hpairs
    rcases List.mem_cons.1 (List.mem_reverse.1 ha) with rfl | ha
    · rfl
    · exact hpairs.1 a ha rfl

theorem pushElement_clean (h : Clean rooted stack.reverse) (he : slash ∉ e) :
    Clean rooted (pushElement rooted stack e).reverse := by
  rcases pushElement_cases rooted stack e with ⟨-, heq⟩ | ⟨-, heq⟩ |
    ⟨last, rest, -, -, rfl, heq⟩ | ⟨⟨hne, hhere, hparent⟩, heq⟩
  · rwa [heq]
  · rwa [heq]
  · rw [heq]
    refine h.of_sublist ?_
    rw [List.reverse_sublist]
    exact List.sublist_cons_self last rest
  · rw [heq, List.reverse_cons]
    refine h.concat hne hhere he fun hp => ?_
    rcases hparent hp with ⟨hrooted, rfl⟩ | hhead
    · exact ⟨hrooted, by simp⟩
    · exact h.parents_of_head hhead

/-- Working out an element as text leads where the element leads. -/
theorem placeFrom_pushElement {start : Place} (h : Clean rooted stack.reverse)
    (hstart : rooted = true → start = []) :
    placeFrom start (pushElement rooted stack e).reverse =
      next (placeFrom start stack.reverse) e := by
  rcases pushElement_cases rooted stack e with ⟨rfl | rfl, heq⟩ | ⟨⟨rfl, hrooted, rfl⟩, heq⟩ |
    ⟨last, rest, rfl, hlast, rfl, heq⟩ | ⟨-, heq⟩
  · rw [heq, next_nil]
  · rw [heq, next_here]
  · rw [heq, hstart hrooted]
    rfl
  · have hmem : last ∈ (last :: rest).reverse := by simp
    rw [heq, List.reverse_cons, placeFrom_concat, next_of_name (h.ne_nil last hmem)
      (h.ne_here last hmem) hlast, next_parent, List.dropLast_concat]
  · rw [heq, List.reverse_cons, placeFrom_concat]

/-- Clean elements are left as they are. -/
theorem foldl_pushElement {es : List Bytes} (h : Clean rooted (stack.reverse ++ es)) :
    es.foldl (pushElement rooted) stack = es.reverse ++ stack := by
  induction es generalizing stack with
  | nil => rfl
  | cons e es ih =>
    have hmem : e ∈ stack.reverse ++ e :: es := by simp
    have hpush : pushElement rooted stack e = e :: stack := by
      rcases pushElement_cases rooted stack e with ⟨rfl | rfl, -⟩ | ⟨⟨rfl, hrooted, -⟩, -⟩ |
        ⟨last, rest, rfl, hlast, rfl, -⟩ | ⟨-, heq⟩
      · exact absurd rfl (h.ne_nil _ hmem)
      · exact absurd rfl (h.ne_here _ hmem)
      · exact absurd hmem (h.no_parent hrooted)
      · have hpairs := (List.pairwise_append.1 h.parents_first).2.2
        exact absurd (hpairs last (by simp) parent (by simp) rfl) hlast
      · exact heq
    have hnext : Clean rooted ((e :: stack).reverse ++ es) := by
      rwa [List.reverse_cons, List.append_assoc, List.singleton_append]
    rw [List.foldl_cons, hpush, ih hnext]
    simp

end

/-! ## Paths and their elements -/

/-- Cleaned elements are clean, and lead where the elements of the path lead. -/
theorem foldl_pushElement_clean {rooted : Bool} {start : Place} {es stack : List Bytes}
    (h : Clean rooted stack.reverse) (hes : ∀ e ∈ es, slash ∉ e)
    (hstart : rooted = true → start = []) :
    Clean rooted (es.foldl (pushElement rooted) stack).reverse ∧
      placeFrom start (es.foldl (pushElement rooted) stack).reverse =
        placeFrom (placeFrom start stack.reverse) es := by
  induction es generalizing stack with
  | nil => exact ⟨h, rfl⟩
  | cons e es ih =>
    obtain ⟨he, hes⟩ := List.forall_mem_cons.1 hes
    obtain ⟨hclean, hplace⟩ := ih (pushElement_clean h he) hes
    rw [placeFrom_pushElement h hstart] at hplace
    exact ⟨hclean, hplace⟩

/-- A path from the root starts with a slash. -/
def isRooted (path : Bytes) : Bool :=
  path.head? == some slash

theorem cleanElements_clean (path : Bytes) : Clean (isRooted path) (cleanElements path) :=
  (foldl_pushElement_clean (.nil _) (fun _ => not_mem_of_mem_splitOn)
    fun _ => (rfl : ([] : Place) = [])).1

theorem placeFrom_cleanElements {path : Bytes} {start : Place}
    (hstart : isRooted path = true → start = []) :
    placeFrom start (cleanElements path) = placeFrom start (splitOn slash path) :=
  (foldl_pushElement_clean (.nil _) (fun _ => not_mem_of_mem_splitOn) hstart).2

section

variable {rooted : Bool} {es : List Bytes}

theorem getLast?_append_ne {front name : Bytes} (hne : name ≠ []) (hname : slash ∉ name) :
    (front ++ name).getLast? ≠ some slash := by
  intro h
  rw [List.getLast?_append, List.getLast?_eq_some_getLast hne] at h
  refine hname ?_
  rw [← Option.some.inj h]
  exact List.getLast_mem hne

/-- The text of clean elements neither starts nor ends with a slash of its own. -/
theorem Clean.joinWith_ends (h : Clean rooted es) (hne : es ≠ []) :
    (joinWith [slash] es).head? ≠ some slash ∧ (joinWith [slash] es).getLast? ≠ some slash := by
  constructor
  · cases es with
    | nil => exact absurd rfl hne
    | cons e es =>
      obtain ⟨b, rest, rfl⟩ := List.exists_cons_of_ne_nil (h.ne_nil e List.mem_cons_self)
      have hhead : (joinWith [slash] ((b :: rest) :: es)).head? = some b := by
        cases es <;> rfl
      rw [hhead]
      intro heq
      refine h.no_slash _ List.mem_cons_self ?_
      rw [← Option.some.inj heq]
      exact List.mem_cons_self
  · rcases List.eq_nil_or_concat es with rfl | ⟨front, last, rfl⟩
    · exact absurd rfl hne
    · rw [List.concat_eq_append] at h ⊢
      obtain ⟨before, hbefore⟩ := joinWith_concat [slash] last front
      have hmem : last ∈ front ++ [last] := by simp
      rw [hbefore]
      exact getLast?_append_ne (h.ne_nil last hmem) (h.no_slash last hmem)

theorem isRooted_ofElements (h : Clean rooted es) : isRooted (ofElements rooted es) = rooted := by
  cases rooted with
  | true => rfl
  | false =>
    cases es with
    | nil => rfl
    | cons e es =>
      have hhead := (h.joinWith_ends (List.cons_ne_nil e es)).1
      simpa [isRooted, ofElements] using hhead

theorem splitOn_ofElements (h : Clean rooted es) (hne : es ≠ []) :
    splitOn slash (ofElements rooted es) = (if rooted then [[]] else []) ++ es := by
  have hsplit := splitOn_joinWith hne h.no_slash
  have hempty : es.isEmpty = false := by simpa using hne
  cases rooted with
  | true =>
    show splitOn slash (slash :: joinWith [slash] es) = _
    rw [splitOn_cons_self, hsplit]
    rfl
  | false => simp [ofElements, hempty, hsplit]

/-- Clean elements are the elements of their path. -/
theorem elements_ofElements (h : Clean rooted es) (hne : es ≠ []) :
    FileSystem.elements (ofElements rooted es) = es := by
  have hfilter : es.filter (!·.isEmpty) = es := by
    refine List.filter_eq_self.2 fun e he => ?_
    simpa using h.ne_nil e he
  have hlast : ¬((ofElements rooted es).getLast? == some slash) = true := by
    have hends := (h.joinWith_ends hne).2
    have hempty : es.isEmpty = false := by simpa using hne
    cases rooted with
    | true =>
      have hbody : joinWith [slash] es ≠ [] := by
        intro hnil
        have hsplit := splitOn_joinWith hne h.no_slash
        rw [hnil] at hsplit
        exact h.ne_nil [] (by rw [← hsplit]; exact List.mem_cons_self) rfl
      obtain ⟨b, rest, hrest⟩ := List.exists_cons_of_ne_nil hbody
      rw [hrest] at hends
      simpa [ofElements, hrest, List.getLast?_cons_cons] using hends
    | false => simpa [ofElements, hempty] using hends
  rw [FileSystem.elements, splitOn_ofElements h hne, if_neg hlast, List.filter_append, hfilter]
  cases rooted <;> simp

/-- Cleaning leaves the path of clean elements as it is. -/
theorem cleanElements_ofElements (h : Clean rooted es) :
    cleanElements (ofElements rooted es) = es := by
  have hrooted : ((ofElements rooted es).head? == some slash) = rooted := isRooted_ofElements h
  rw [cleanElements, hrooted]
  by_cases hne : es = []
  · subst hne
    cases rooted <;> rfl
  · have hfold : es.foldl (pushElement rooted) [] = es.reverse ++ [] := foldl_pushElement h
    rw [splitOn_ofElements h hne, List.foldl_append]
    cases rooted with
    | true =>
      show (es.foldl (pushElement true) []).reverse = es
      rw [hfold]
      simp
    | false =>
      show (es.foldl (pushElement false) []).reverse = es
      rw [hfold]
      simp

end

/-! ## The directory of a path -/

theorem directoryPart_append_fileName (path : Bytes) : directoryPart path ++ fileName path = path := by
  rw [directoryPart, fileName, ← List.reverse_append, List.takeWhile_append_dropWhile,
    List.reverse_reverse]

theorem slash_not_mem_fileName (path : Bytes) : slash ∉ fileName path := by
  intro hmem
  have hnot := List.all_eq_true.1 List.all_takeWhile slash (List.mem_reverse.1 hmem)
  simp at hnot

/-- The directory part is empty or ends with a slash. -/
theorem directoryPart_cases (path : Bytes) :
    directoryPart path = [] ∨ ∃ front, directoryPart path = front ++ [slash] := by
  unfold directoryPart
  cases hdrop : path.reverse.dropWhile (· != slash) with
  | nil => exact .inl rfl
  | cons b rest =>
    have hhead := List.head?_dropWhile_not (· != slash) path.reverse
    rw [hdrop] at hhead
    have hb : b = slash := by simpa using hhead
    exact .inr ⟨rest.reverse, by rw [List.reverse_cons, hb]⟩

theorem isRooted_directoryPart (path : Bytes) : isRooted (directoryPart path) = isRooted path := by
  have hpath := directoryPart_append_fileName path
  rcases directoryPart_cases path with hnil | ⟨front, hfront⟩
  · -- Without a slash, neither is rooted.
    rw [hnil, List.nil_append] at hpath
    have hnot := slash_not_mem_fileName path
    rw [hpath] at hnot
    rw [hnil]
    cases path with
    | nil => rfl
    | cons b path =>
      have hb : b ≠ slash := fun heq => hnot (by rw [heq]; exact List.mem_cons_self)
      simp [isRooted, hb]
  · have hsame : isRooted (directoryPart path ++ fileName path) = isRooted (directoryPart path) := by
      rw [hfront]
      cases front <;> rfl
    rw [hpath] at hsame
    exact hsame.symm

/-- All elements but the last are those of the directory part. -/
theorem dropLast_elements (path : Bytes) :
    (FileSystem.elements path).dropLast =
      (splitOn slash (directoryPart path)).filter (!·.isEmpty) := by
  have hpath := directoryPart_append_fileName path
  have hname := slash_not_mem_fileName path
  have hsplit := splitOn_of_not_mem hname
  rcases directoryPart_cases path with hnil | ⟨front, hfront⟩
  · rw [hnil, List.nil_append] at hpath
    rw [hpath] at hname hsplit
    have hlast : ¬(path.getLast? == some slash) = true := by
      intro heq
      exact hname (List.mem_of_getLast? (eq_of_beq heq))
    rw [FileSystem.elements, hsplit, if_neg hlast, hnil]
    cases path <;> rfl
  · rw [hfront, List.append_assoc, List.singleton_append] at hpath
    have hparts : splitOn slash path = splitOn slash front ++ [fileName path] := by
      rw [← hsplit, ← splitOn_append_sep, hpath]
    rw [hfront, FileSystem.elements, hparts, splitOn_append_sep, List.filter_append,
      List.filter_append]
    cases hfile : fileName path with
    | nil =>
      rw [hfile] at hpath
      have hlast : (path.getLast? == some slash) = true := by
        rw [← hpath, List.getLast?_concat]
        simp
      rw [if_pos hlast]
      simp [splitOn]
    | cons b name =>
      rw [hfile] at hpath hname
      have hlast : ¬(path.getLast? == some slash) = true := by
        rw [← hpath, ← List.singleton_append, ← List.append_assoc, beq_iff_eq]
        exact getLast?_append_ne (List.cons_ne_nil b name) hname
      rw [if_neg hlast]
      simp [splitOn]

/-- Cleaning once is enough. -/
theorem cleanElements_directory (path : Bytes) :
    cleanElements (directory path) = cleanElements (directoryPart path) :=
  cleanElements_ofElements (cleanElements_clean (directoryPart path))

/-- The cleaned directory of a path and all elements of the path but the last lead to one place. -/
theorem placeFrom_directory {path : Bytes} {start : Place}
    (hstart : isRooted path = true → start = []) :
    placeFrom start (cleanElements (directory path)) =
      placeFrom start (FileSystem.elements path).dropLast := by
  rw [← isRooted_directoryPart] at hstart
  rw [cleanElements_directory, placeFrom_cleanElements hstart, dropLast_elements,
    placeFrom_filter]

theorem isRooted_directory (path : Bytes) : isRooted (directory path) = isRooted path := by
  rw [← isRooted_directoryPart path]
  exact isRooted_ofElements (cleanElements_clean (directoryPart path))

end LetPrint.Path
