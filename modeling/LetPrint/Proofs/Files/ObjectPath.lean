import LetPrint.Proofs.Files.Tree
import LetPrint.Proofs.Session

/-!
# The path of an object file

The object file of an executable has a name of its own in the executable's directory.

* `extension_isSuffix`: an extension is the end of a file name, so taking it off leaves the directory
  part alone (`stem_eq`);
* `objectBeside_eq_append`: the object's path is the same directory part and a file name that ends in
  `.o`;
* `directoryPart_append`: such a path has that directory part, whatever the file name is.
-/

namespace LetPrint.Path

open Text

section

variable {path front name : Bytes}

/-- A part that is empty or ends with a slash is the directory part before any file name. -/
theorem directoryPart_append (hfront : front = [] ∨ ∃ before, front = before ++ [slash])
    (hname : slash ∉ name) : directoryPart (front ++ name) = front := by
  have hall : ∀ b ∈ name.reverse, (b != slash) = true := by
    intro b hb
    rw [List.mem_reverse] at hb
    simp only [bne_iff_ne]
    intro heq
    exact hname (heq ▸ hb)
  unfold directoryPart
  rw [List.reverse_append, List.dropWhile_append_of_pos hall]
  rcases hfront with rfl | ⟨before, rfl⟩
  · rfl
  · simp

/-- What stands before the first `b`, and this `b`. -/
theorem takeWhile_concat_isPrefix {b : UInt8} {text : Bytes} (h : b ∈ text) :
    text.takeWhile (· != b) ++ [b] <+: text := by
  induction text with
  | nil => simp at h
  | cons a text ih =>
    by_cases hab : a = b
    · subst hab
      simp
    · have hmem : b ∈ text := by
        rcases List.mem_cons.1 h with rfl | hmem
        · exact absurd rfl hab
        · exact hmem
      have hkeep : (a != b) = true := by simpa using hab
      rw [List.takeWhile_cons, if_pos hkeep, List.cons_append, List.cons_prefix_cons]
      exact ⟨rfl, ih hmem⟩

/-- The extension is the end of the file name. -/
theorem extension_isSuffix (path : Bytes) : extension path <:+ fileName path := by
  unfold extension
  by_cases hpoint : byte '.' ∈ (fileName path).reverse
  · have hcontains : (fileName path).reverse.contains (byte '.') = true := by simpa using hpoint
    have hsuffix := List.reverse_suffix.2 (takeWhile_concat_isPrefix hpoint)
    rw [List.reverse_reverse, List.reverse_concat] at hsuffix
    simp only [hcontains, if_true]
    exact hsuffix
  · have hcontains : ¬(fileName path).reverse.contains (byte '.') = true := by simpa using hpoint
    simp only [if_neg hcontains]
    exact List.nil_suffix

/-- Without its extension, a path has the same directory part and a shorter file name. -/
theorem stem_eq (path : Bytes) :
    ∃ base, stem path = directoryPart path ++ base ∧ base ++ extension path = fileName path := by
  obtain ⟨base, hbase⟩ := extension_isSuffix path
  refine ⟨base, ?_, hbase⟩
  have hpath : (directoryPart path ++ base) ++ extension path = path := by
    rw [List.append_assoc, hbase, directoryPart_append_fileName]
  have hlength : path.length - (extension path).length = (directoryPart path ++ base).length := by
    have hsum := congrArg List.length hpath
    rw [List.length_append] at hsum
    omega
  have htake : ((directoryPart path ++ base) ++ extension path).take
      (directoryPart path ++ base).length = directoryPart path ++ base := List.take_left
  rw [hpath] at htake
  rw [stem, hlength, htake]

theorem slash_not_mem_append_object (h : slash ∉ name) : slash ∉ name ++ utf8 ".o" := by
  have hobject : slash ∉ utf8 ".o" := by decide
  simp [h, hobject]

/-- The object's path is the directory part of the executable's path and a file name in `.o`. -/
theorem objectBeside_eq_append (path : Bytes) :
    ∃ base, objectBeside path = directoryPart path ++ (base ++ utf8 ".o") ∧ slash ∉ base := by
  unfold objectBeside
  by_cases hsame : object path = path
  · refine ⟨fileName path, ?_, slash_not_mem_fileName path⟩
    rw [if_pos hsame, ← List.append_assoc, directoryPart_append_fileName]
  · obtain ⟨base, hstem, hbase⟩ := stem_eq path
    have hname := slash_not_mem_fileName path
    rw [← hbase, List.mem_append, not_or] at hname
    refine ⟨base, ?_, hname.1⟩
    rw [if_neg hsame, object, hstem, List.append_assoc]

theorem objectBeside_ne (path : Bytes) : objectBeside path ≠ path := by
  unfold objectBeside
  by_cases hsame : object path = path
  · rw [if_pos hsame]
    intro heq
    have hlength := congrArg List.length heq
    rw [List.length_append] at hlength
    have htwo : (utf8 ".o").length = 2 := by decide
    omega
  · rwa [if_neg hsame]

theorem directoryPart_objectBeside (path : Bytes) :
    directoryPart (objectBeside path) = directoryPart path := by
  obtain ⟨base, heq, hbase⟩ := objectBeside_eq_append path
  rw [heq]
  exact directoryPart_append (directoryPart_cases path) (slash_not_mem_append_object hbase)

theorem directory_objectBeside (path : Bytes) : directory (objectBeside path) = directory path := by
  unfold directory
  rw [directoryPart_objectBeside]

end

/-- The object's path is another one than the executable's.  Both are one beginning, which is empty or
ends with a slash, and a name without a slash, which ends in `.o` for the object.  They have one
directory: making it for the object is making it for the executable, in every world, and wherever the
executable can be opened for writing, it stands where that directory's elements lead. -/
theorem objectBeside_beside (executable : Bytes) :
    objectBeside executable ≠ executable ∧
      (∃ front name base, (front = [] ∨ ∃ before, front = before ++ [slash]) ∧
        executable = front ++ name ∧ slash ∉ name ∧
        objectBeside executable = front ++ (base ++ utf8 ".o") ∧ slash ∉ base ++ utf8 ".o") ∧
      directory (objectBeside executable) = directory executable ∧
      (∀ w, (Session.makeParent (objectBeside executable)).runIn w =
        (Session.makeParent executable).runIn w) ∧
      ∀ (fs : FileSystem) (place : Place), fs.resolveForWriting executable = .ok place →
        ∃ name, place = placeFrom (fs.origin executable)
          (cleanElements (directory (objectBeside executable))) ++ [name] := by
  have hdirectory := directory_objectBeside executable
  refine ⟨objectBeside_ne executable, ?_, hdirectory, ?_, ?_⟩
  · obtain ⟨base, heq, hbase⟩ := objectBeside_eq_append executable
    exact ⟨directoryPart executable, fileName executable, base, directoryPart_cases executable,
      (directoryPart_append_fileName executable).symm, slash_not_mem_fileName executable, heq,
      slash_not_mem_append_object hbase⟩
  · intro w
    rw [Session.runIn_makeParent, Session.runIn_makeParent, hdirectory]
  · intro fs place hplace
    obtain ⟨directory, name, rfl, hopens⟩ := FileSystem.resolveForWriting_eq_ok hplace
    have hstart : isRooted executable = true → fs.origin executable = [] := by
      intro hrooted
      exact if_pos hrooted
    exact ⟨name, by rw [hopens.directory_eq, hdirectory, placeFrom_directory hstart]⟩

/-- Files with a directory that has a point in its name. -/
def dottedFiles : FileSystem where
  entries := [([utf8 "out.d"], .dir)]

/-- An executable that ends in `.o` itself, in a directory with a point in its name. -/
theorem objectBeside_beside_dotted :
    objectBeside (utf8 "out.d/../out.d/a.o") = utf8 "out.d/../out.d/a.o.o" ∧
      dottedFiles.resolveForWriting (utf8 "out.d/../out.d/a.o") =
        .ok [utf8 "out.d", utf8 "a.o"] ∧
      directory (objectBeside (utf8 "out.d/../out.d/a.o")) = utf8 "out.d" ∧
      ∃ name, [utf8 "out.d", utf8 "a.o"] =
        placeFrom [] (cleanElements (directory (objectBeside (utf8 "out.d/../out.d/a.o")))) ++
          [name] := by
  have hplace : dottedFiles.resolveForWriting (utf8 "out.d/../out.d/a.o") =
      .ok [utf8 "out.d", utf8 "a.o"] := rfl
  have hdirectory : directory (utf8 "out.d/../out.d/a.o") = utf8 "out.d" := by decide
  obtain ⟨-, -, hsame, -, hwritten⟩ := objectBeside_beside (utf8 "out.d/../out.d/a.o")
  exact ⟨by decide, hplace, by rw [hsame, hdirectory], hwritten dottedFiles _ hplace⟩

end LetPrint.Path
