import LetPrint.Proofs.Bytecode.Simulation
import LetPrint.Proofs.FailFast
import LetPrint.Proofs.Ir.Simulation
import LetPrint.Proofs.Program.Lines
import LetPrint.Proofs.Text.Quoting

/-!
# Strings on their way to the output

What a `print` of a string adds to the output, whichever way the program is run.  The interpreter and
the virtual machine write the literal of the name's newest binding (`Program.newest?`) and a newline;
the module of the program prints the literal up to its first zero byte and a newline.

* `Program.run_print` splits a run of the interpreter at a `print`: what was written before, the line
  of the string, and what follows.  It holds of a program with its literals cut as well, and that is
  how the module runs.
* `Program.string_payload` puts the three ways side by side for every source that is read and checked,
  and says when they agree.
-/

namespace LetPrint

open Text

/-! ## The newest binding of a name -/

/-- The right-hand side that a statement binds a name to. -/
def Stmt.binding? (name : Bytes) : Stmt → Option Expr
  | .bind other e _ => if other = name then some e else none
  | .print _ _ | .foreign _ _ => none

/-- The right-hand side of the newest binding of a name. -/
def Program.newest? (name : Bytes) : Program → Option Expr
  | [] => none
  | s :: rest => (newest? name rest).or (s.binding? name)

section

variable {name : Bytes} {e : Expr}

theorem Stmt.eq_bind_of_binding? {s : Stmt} (h : s.binding? name = some e) :
    ∃ line, s = .bind name e line := by
  cases s with
  | bind other e' line =>
    rw [binding?] at h
    by_cases hname : other = name
    · rw [if_pos hname] at h
      cases h
      exact ⟨line, by rw [hname]⟩
    · rw [if_neg hname] at h
      cases h
  | print other line => cases h
  | foreign typeName line => cases h

theorem Program.mem_of_newest? {p : Program} (h : p.newest? name = some e) :
    ∃ line, .bind name e line ∈ p := by
  induction p with
  | nil => cases h
  | cons s p ih =>
    rw [newest?, Option.or_eq_some_iff] at h
    rcases h with h | ⟨-, h⟩
    · obtain ⟨line, hmem⟩ := ih h
      exact ⟨line, List.mem_cons_of_mem s hmem⟩
    · obtain ⟨line, rfl⟩ := Stmt.eq_bind_of_binding? h
      exact ⟨line, List.mem_cons_self⟩

theorem Stmt.binding?_cut (s : Stmt) : s.cut.binding? name = (s.binding? name).map Expr.cut := by
  cases s with
  | bind other e line => by_cases h : other = name <;> simp [cut, binding?, h]
  | _ => rfl

theorem Program.newest?_cut (p : Program) :
    p.cut.newest? name = (p.newest? name).map Expr.cut := by
  induction p with
  | nil => rfl
  | cons s p ih =>
    change (newest? name (cut p)).or (s.cut.binding? name) = _
    rw [ih, Stmt.binding?_cut, newest?]
    cases newest? name p <;> rfl

end

/-! ## What one statement does -/

namespace RunState

variable {r r' : RunState} {name : Bytes} {line : Int} {p : Program} {index : Nat}

theorem exec_bind_ok {e : Expr} (h : r.exec (.bind name e line) = .ok r') :
    ∃ v, r.values.evaluateValue e = .ok v ∧ r' = { r with values := r.values.bind name v } := by
  cases hassign : r.assign name e with
  | error fault =>
    rw [exec, hassign] at h
    cases h
  | ok t =>
    rw [exec, hassign] at h
    cases h
    rw [assign, bind_eq_ok] at hassign
    obtain ⟨v, hv, hassign⟩ := hassign
    rw [bind_eq_ok] at hassign
    obtain ⟨-, -, hassign⟩ := hassign
    exact ⟨v, hv, (pure_eq_ok.1 hassign).symm⟩

theorem exec_print_ok (h : r.exec (.print name line) = .ok r') :
    ∃ v out, r.values.find? name = some v ∧ r.out.write? v.line = some out ∧
      r' = { r with out } := by
  cases hsubject : r.values.subject name with
  | error fault =>
    rw [exec, hsubject] at h
    cases h
  | ok v =>
    have hfind := Scope.subject_eq_ok.1 hsubject
    rw [exec_print hfind] at h
    cases hwrite : r.out.write? v.line with
    | none =>
      rw [hwrite] at h
      cases h
    | some out =>
      rw [hwrite] at h
      cases h
      exact ⟨v, out, hfind, hwrite, rfl⟩

/-! ## What a run leaves -/

/-- A statement writes at the end of what was written. -/
theorem exec_writes {s : Stmt} (h : r.exec s = .ok r') (hlimit : r.out.limit = none) :
    ∃ o, r'.out = { limit := none, written := r.out.written ++ o } := by
  cases s with
  | bind name e line =>
    obtain ⟨v, -, rfl⟩ := exec_bind_ok h
    exact ⟨[], by rw [List.append_nil, ← hlimit]⟩
  | print name line =>
    obtain ⟨v, out, -, hwrite, rfl⟩ := exec_print_ok h
    rw [Sink.write?_of_limit hlimit] at hwrite
    cases hwrite
    exact ⟨v.line, by rw [← hlimit]⟩
  | foreign typeName line => cases h

theorem walk_writes (h : walk exec index r p = (r', none)) (hlimit : r.out.limit = none) :
    ∃ o, r'.out = { limit := none, written := r.out.written ++ o } := by
  induction p generalizing r index with
  | nil =>
    cases h
    exact ⟨[], by rw [List.append_nil, ← hlimit]⟩
  | cons s p ih =>
    obtain ⟨t, hexec, hrest⟩ := walk_cons_eq_none h
    obtain ⟨o, ho⟩ := exec_writes hexec hlimit
    obtain ⟨o', ho'⟩ := ih hrest (by rw [ho])
    exact ⟨o ++ o', by rw [ho', ho, List.append_assoc]⟩

/-- A statement that does not bind a name leaves its value alone. -/
theorem exec_find? {s : Stmt} (h : r.exec s = .ok r') (hs : s.binding? name = none) :
    r'.values.find? name = r.values.find? name := by
  cases s with
  | bind other e line =>
    obtain ⟨v, -, rfl⟩ := exec_bind_ok h
    have hne : name ≠ other := by
      rintro rfl
      rw [Stmt.binding?, if_pos rfl] at hs
      cases hs
    rw [Scope.find?_bind, if_neg hne]
  | print other line =>
    obtain ⟨v, out, -, -, rfl⟩ := exec_print_ok h
    rfl
  | foreign typeName line => cases h

/-- A run that does not bind a name leaves its value alone. -/
theorem walk_find? (h : walk exec index r p = (r', none)) (hp : p.newest? name = none) :
    r'.values.find? name = r.values.find? name := by
  induction p generalizing r index with
  | nil =>
    cases h
    rfl
  | cons s p ih =>
    obtain ⟨t, hexec, hrest⟩ := walk_cons_eq_none h
    rw [Program.newest?, Option.or_eq_none_iff] at hp
    rw [ih hrest hp.1, exec_find? hexec hp.2]

/-- A sink without a limit refuses nothing. -/
theorem walk_not_refused {halt : Halt RunFault} (h : (walk exec index r p).2 = some halt)
    (hlimit : r.out.limit = none) : halt.fault ≠ .refused := by
  induction p generalizing r index with
  | nil => cases h
  | cons s p ih =>
    cases hexec : r.exec s with
    | ok t =>
      rw [walk_cons_ok hexec] at h
      obtain ⟨o, ho⟩ := exec_writes hexec hlimit
      exact ih h (by rw [ho])
    | error fault =>
      rw [walk_cons_error hexec] at h
      cases h
      rintro rfl
      cases s with
      | bind name e line =>
        rw [exec] at hexec
        split at hexec <;> cases hexec
      | print name line =>
        rw [exec] at hexec
        split at hexec
        · cases hexec
        · rw [Sink.write?_of_limit hlimit] at hexec
          cases hexec
      | foreign typeName line => cases hexec

/-- After a run, a name whose newest binding is a literal stands for the literal. -/
theorem walk_find?_literal {text : Bytes} {pos : Position} (h : walk exec index r p = (r', none))
    (hp : p.newest? name = some (.str text pos)) : r'.values.find? name = some (.str text) := by
  induction p generalizing r index with
  | nil => cases hp
  | cons s p ih =>
    obtain ⟨t, hexec, hrest⟩ := walk_cons_eq_none h
    rw [Program.newest?, Option.or_eq_some_iff] at hp
    rcases hp with hp | ⟨hnone, hs⟩
    · exact ih hrest hp
    · obtain ⟨line, rfl⟩ := Stmt.eq_bind_of_binding? hs
      obtain ⟨v, hv, rfl⟩ := exec_bind_ok hexec
      cases hv
      rw [walk_find? hrest hnone, Scope.find?_bind, if_pos rfl]

end RunState

/-- The run of a program, split at a `print` of a name whose newest binding is a literal: what the
program writes up to there, the literal and a newline, and what follows. -/
theorem Program.run_print {before after : Program} {name text : Bytes} {line : Int} {pos : Position}
    {out out' : Sink} (hnewest : before.newest? name = some (.str text pos))
    (hlimit : out.limit = none)
    (hrun : Program.run (before ++ .print name line :: after) out = (out', none)) :
    ∃ o o', before.run out = ({ out with written := out.written ++ o }, none) ∧
      out' = { out with written := out.written ++ (o ++ (text ++ [newline]) ++ o') } := by
  cases hwalk : walk RunState.exec 0 { out } (before ++ .print name line :: after) with
  | mk r stop =>
    rw [Program.run_eq hwalk] at hrun
    cases hrun
    obtain ⟨t, hbefore, hrest⟩ := walk_append_eq_none hwalk
    obtain ⟨o, ho⟩ := RunState.walk_writes hbefore hlimit
    obtain ⟨t', hprint, hafter⟩ := walk_cons_eq_none hrest
    obtain ⟨v, out₁, hv, hwrite, rfl⟩ := RunState.exec_print_ok hprint
    rw [RunState.walk_find?_literal hbefore hnewest] at hv
    cases hv
    rw [ho, Sink.write?_of_limit rfl] at hwrite
    cases hwrite
    obtain ⟨o', ho'⟩ := RunState.walk_writes hafter rfl
    refine ⟨o, o', ?_, ?_⟩
    · rw [Program.run_eq hbefore, ho, hlimit]
    · rw [ho', hlimit]
      simp [Value.line]

/-! ## Modules -/

/-- The module of a program for a target prints `o` and returns 0. -/
def Program.Prints (p : Program) (triple o : Bytes) : Prop :=
  ∃ m, p.lower triple = .ok m ∧ m.execute = .ok { output := o, status := 0 }

/-- What can be lowered can be lowered up to any statement. -/
theorem Program.lower_of_append {p q : Program} {triple : Bytes} {m : Ir.Module}
    (h : Program.lower (p ++ q) triple = .ok m) : ∃ m', p.lower triple = .ok m' := by
  obtain ⟨g, hwalk, -⟩ := Ir.walk_of_lower h
  obtain ⟨g', hp, -⟩ := walk_append_eq_none hwalk
  exact ⟨g'.finish triple, by rw [Program.lower, hp]⟩

/-- The run of a module, split at a `print` of a name whose newest binding is a literal. -/
theorem Program.prints_print {before after : Program} {name text triple : Bytes} {line : Int}
    {pos : Position} {m : Ir.Module} (hnewest : before.newest? name = some (.str text pos))
    (hlower : Program.lower (before ++ .print name line :: after) triple = .ok m) :
    ∃ n n', before.Prints triple n ∧
      Program.Prints (before ++ .print name line :: after) triple
        (n ++ (upToZero text ++ [newline]) ++ n') := by
  have hlimit : ({} : Sink).limit = none := rfl
  obtain ⟨output, hexecute, hrun⟩ := Ir.execute_lower_cut hlower hlimit
  obtain ⟨m', hlower'⟩ := Program.lower_of_append hlower
  obtain ⟨n, hexecute', hrun'⟩ := Ir.execute_lower_cut hlower' hlimit
  have hcut : Program.cut (before ++ .print name line :: after) =
      before.cut ++ .print name line :: Program.cut after := by
    simp [Program.cut, Stmt.cut]
  have hnewest' : before.cut.newest? name = some (.str (upToZero text) pos) := by
    rw [Program.newest?_cut, hnewest]
    rfl
  rw [hcut] at hrun
  obtain ⟨o, n', hbefore, hout⟩ := Program.run_print hnewest' hlimit hrun
  rw [hrun'] at hbefore
  have hn : n = o := by simpa using hbefore
  have houtput : output = n ++ (upToZero text ++ [newline]) ++ n' := by simpa [hn] using hout
  rw [houtput] at hexecute
  exact ⟨n, n', ⟨m', hlower', hexecute'⟩, m, hlower, hexecute⟩

/-! ## Backends that write the output themselves -/

/-- A backend runs a program without a failure, and writes `o` at the end of the output. -/
def Backend.Writes (b : Backend) (p : Program) (w : World) (o : Bytes) : Prop :=
  ∀ path, ∃ w', (b.compile p path).runIn w = (.ok {}, w') ∧
    w'.out = { w.out with written := w.out.written ++ o }

section

variable {p : Program} {w : World} {o : Bytes}

theorem Backend.interp_writes
    (h : p.run w.out = ({ w.out with written := w.out.written ++ o }, none)) :
    Backend.interp.Writes p w o := by
  intro path
  rw [Backend.compile, Backend.interpret_runIn, h]
  exact ⟨_, rfl, World.noted_out _ _⟩

theorem Backend.vm_writes {c : Chunk} (hc : p.chunk = .ok c)
    (hlets : p.countP Stmt.isLet ≤ maxSlots)
    (h : p.run w.out = ({ w.out with written := w.out.written ++ o }, none)) :
    Backend.vm.Writes p w o := by
  have hexecute : c.execute w.out = ({ w.out with written := w.out.written ++ o }, .halted) := by
    rcases Program.chunk_runs_alike hc hlets w.out with
      ⟨out, hrun, hexecute⟩ | ⟨out, index, line, hrun, -⟩
    · rw [h] at hrun
      cases hrun
      exact hexecute
    · rw [h] at hrun
      cases hrun
  intro path
  rw [Backend.compile, Backend.executeProgram_runIn hc, hexecute]
  exact ⟨_, rfl, World.noted_out _ _⟩

end

/-- What has bytecode has bytecode up to any statement. -/
theorem Program.chunk_of_append {p q : Program} {c : Chunk} (h : Program.chunk (p ++ q) = .ok c) :
    ∃ c', p.chunk = .ok c' := by
  unfold Program.chunk at h
  split at h
  case h_2 => cases h
  case h_1 g hwalk =>
    obtain ⟨g', hp, -⟩ := walk_append_eq_none hwalk
    exact ⟨_, by rw [Program.chunk, hp]⟩

/-! ## Sources -/

/-- A line binds a name to a literal: its right-hand side is, in quotes, a text that stands for
`text`. -/
def BindsLiteral (raw name text : Bytes) : Prop :=
  ∃ gap gap' rhs body,
    trim raw = utf8 "let" ++ gap ++ name ++ gap' ++ utf8 "=" ++ rhs ++ utf8 ";" ∧
      trim rhs = byte '"' :: (body ++ [byte '"']) ∧ unescape body = .ok text

theorem LineSays.bindsLiteral {number : Nat} {raw name text : Bytes} {pos : Position} {line : Int}
    (h : LineSays number raw (some (.bind name (.str text pos) line))) :
    line = number ∧ BindsLiteral raw name text := by
  cases h with
  | bind hgap hne hname hgap' hrhs hline hvalue =>
    cases hvalue with
    | literal htext hbody => exact ⟨rfl, _, _, _, _, hline, htext, hbody⟩
    | expr h =>
      -- An expression holds no literal.
      cases Expr.spelled_of_parse h

/-- A source that was read has a line for each binding of a literal. -/
theorem Program.line_of_literal {source name text : Bytes} {p : Program} {pos : Position}
    {line : Int} (h : Program.parse source = .ok p) (hs : .bind name (.str text pos) line ∈ p) :
    ∃ k raw, line = (k + 1 : Nat) ∧ (splitOn newline source)[k]? = some raw ∧
      BindsLiteral raw name text := by
  obtain ⟨said, hsaid, rfl⟩ := readLines_eq_ok_iff.1 h
  obtain ⟨k, raw, hraw, hline⟩ := hsaid.exists_line hs
  obtain ⟨hnumber, hbinds⟩ := hline.bindsLiteral
  exact ⟨k, raw, by rw [hnumber, Nat.add_comm], hraw, hbinds⟩

/-- A program that was read and checked runs to its end, if the sink has no limit. -/
theorem Program.run_of_checked {p : Program} {out : Sink} (h : p.Checked)
    (hlimit : out.limit = none) : ∃ out', p.run out = (out', none) := by
  cases hrun : p.run out with
  | mk out' stop =>
    cases stop with
    | none => exact ⟨out', rfl⟩
    | some halt =>
      have hstop : (p.run out).2 = some halt := by rw [hrun]
      exact absurd (h.run out halt hstop) (RunState.walk_not_refused hstop hlimit)

/-- A source with a zero byte between the two letters of its literal. -/
def zeroSource : Bytes :=
  utf8 "let s = \"a\x00b\";\nprint s;"

/-- The binding of its first line. -/
def zeroBinding : Stmt :=
  .bind (utf8 "s") (.str (utf8 "a\x00b") ⟨1, 9, 0⟩) 1

theorem analyse_zeroSource :
    analyse zeroSource = .ok ([zeroBinding] ++ .print (utf8 "s") 2 :: []) := by
  have hescape : escape (utf8 "a\x00b") = utf8 "a\x00b" := by decide
  have hbody : unescape (utf8 "a\x00b") = .ok (utf8 "a\x00b") := by
    rw [← hescape, unescape_escape, hescape]
  have hliteral : readValue (utf8 "\"a\x00b\"") 1 9 = .ok (.str (utf8 "a\x00b") ⟨1, 9, 0⟩) :=
    readValue_eq_ok_iff.2 (.literal rfl hbody)
  have hline : readLine 1 (utf8 "let s = \"a\x00b\";") =
      (readValue (utf8 "\"a\x00b\"") 1 9).map fun e => some (.bind (utf8 "s") e 1) := rfl
  have hsplit : splitOn newline zeroSource = [utf8 "let s = \"a\x00b\";", utf8 "print s;"] := rfl
  refine analyse_eq_ok_iff.2 ⟨?_, _, rfl⟩
  rw [Program.parse, hsplit, readLines, hline, hliteral]
  rfl

/-- A `print` of a string, in a source that is read and checked.  The line of the newest binding has
the literal; the interpreter, and the virtual machine where the slots have numbers, write it and a
newline behind what they write up to there; the module prints it up to its first zero byte and a
newline behind what it prints up to there.  These are the same bytes if and only if the literal has no
zero byte. -/
theorem Program.string_payload {source name : Bytes} {before after : Program} {line : Int} {e : Expr}
    (h : analyse source = .ok (before ++ .print name line :: after))
    (hnewest : before.newest? name = some e) (hkind : e.kind = .str) :
    ∃ text pos k raw, e = .str text pos ∧ .bind name e (k + 1 : Nat) ∈ before ∧
      (splitOn newline source)[k]? = some raw ∧ BindsLiteral raw name text ∧
      (∀ w : World, w.out.limit = none → ∃ o o',
        Backend.interp.Writes before w o ∧
        Backend.interp.Writes (before ++ .print name line :: after) w
          (o ++ (text ++ [newline]) ++ o') ∧
        ((before ++ .print name line :: after).countP Stmt.isLet ≤ maxSlots →
          Backend.vm.Writes before w o ∧
          Backend.vm.Writes (before ++ .print name line :: after) w
            (o ++ (text ++ [newline]) ++ o'))) ∧
      (∀ triple, ∃ n n', before.Prints triple n ∧
        Program.Prints (before ++ .print name line :: after) triple
          (n ++ (upToZero text ++ [newline]) ++ n')) ∧
      (upToZero text ++ [newline] = text ++ [newline] ↔ 0 ∉ text) := by
  have hchecked := Program.checked_of_analyse h
  obtain ⟨c, hchunk⟩ := hchecked.chunk
  obtain ⟨c', hchunk'⟩ := Program.chunk_of_append hchunk
  cases e with
  | str text pos =>
    obtain ⟨bound, hmem⟩ := Program.mem_of_newest? hnewest
    obtain ⟨k, raw, rfl, hraw, hbinds⟩ :=
      Program.line_of_literal (analyse_eq_ok_iff.1 h).1 (List.mem_append_left _ hmem)
    refine ⟨text, pos, k, raw, rfl, hmem, hraw, hbinds, ?_, ?_, ?_⟩
    · intro w hlimit
      obtain ⟨out', hrun⟩ := Program.run_of_checked hchecked hlimit
      obtain ⟨o, o', hbefore, rfl⟩ := Program.run_print hnewest hlimit hrun
      refine ⟨o, o', Backend.interp_writes hbefore, Backend.interp_writes hrun, ?_⟩
      intro hlets
      have hlets' : before.countP Stmt.isLet ≤ maxSlots := by
        rw [List.countP_append] at hlets
        omega
      exact ⟨Backend.vm_writes hchunk' hlets' hbefore, Backend.vm_writes hchunk hlets hrun⟩
    · intro triple
      obtain ⟨m, hlower⟩ := hchecked.lower triple
      exact Program.prints_print hnewest hlower
    · rw [List.append_left_inj, upToZero_eq_self_iff]
  | _ => cases hkind

theorem Program.string_payload_zeroByte :
    analyse zeroSource = .ok ([zeroBinding] ++ .print (utf8 "s") 2 :: []) ∧
      ∃ e, Program.newest? (utf8 "s") [zeroBinding] = some e ∧ e.kind = .str ∧
        ∃ text pos k raw, e = .str text pos ∧ .bind (utf8 "s") e (k + 1 : Nat) ∈ [zeroBinding] ∧
          (splitOn newline zeroSource)[k]? = some raw ∧ BindsLiteral raw (utf8 "s") text ∧
          (∃ o o', Backend.vm.Writes [zeroBinding] {} o ∧
            Backend.vm.Writes [zeroBinding, .print (utf8 "s") 2] {}
              (o ++ (text ++ [newline]) ++ o')) ∧
          (∃ n n', Program.Prints [zeroBinding] [] n ∧
            Program.Prints [zeroBinding, .print (utf8 "s") 2] []
              (n ++ (upToZero text ++ [newline]) ++ n')) ∧
          upToZero text ++ [newline] ≠ text ++ [newline] := by
  obtain ⟨text, pos, k, raw, he, hmem, hraw, hbinds, hwrites, hprints, hiff⟩ :=
    string_payload analyse_zeroSource rfl rfl
  refine ⟨analyse_zeroSource, _, rfl, rfl, text, pos, k, raw, he, hmem, hraw, hbinds, ?_,
    hprints [], ?_⟩
  · obtain ⟨o, o', -, -, hvm⟩ := hwrites {} rfl
    exact ⟨o, o', hvm (by decide)⟩
  · cases he
    rw [Ne, hiff]
    decide

/-- The literal is written with its zero byte, and printed without what follows it. -/
theorem Program.string_payload_lost :
    analyse zeroSource = .ok ([zeroBinding] ++ .print (utf8 "s") 2 :: []) ∧
      Backend.interp.Writes [zeroBinding, .print (utf8 "s") 2] {} (utf8 "a\x00b\n") ∧
      Backend.vm.Writes [zeroBinding, .print (utf8 "s") 2] {} (utf8 "a\x00b\n") ∧
      Program.Prints [zeroBinding, .print (utf8 "s") 2] [] (utf8 "a\n") ∧
      utf8 "a\n" ≠ utf8 "a\x00b\n" := by
  have hrun : Program.run [zeroBinding, .print (utf8 "s") 2] {} =
      ({ written := utf8 "a\x00b\n" }, none) := rfl
  refine ⟨analyse_zeroSource, Backend.interp_writes hrun, ?_, ?_, by decide⟩
  · exact Backend.vm_writes rfl (by decide) hrun
  · obtain ⟨m, hlower⟩ : ∃ m, Program.lower [zeroBinding, .print (utf8 "s") 2] [] = .ok m :=
      ⟨_, rfl⟩
    have hlimit : ({} : Sink).limit = none := rfl
    obtain ⟨output, hexecute, hcut⟩ := Ir.execute_lower_cut hlower hlimit
    have hrun' : Program.run (Program.cut [zeroBinding, .print (utf8 "s") 2]) {} =
        ({ written := utf8 "a\n" }, none) := rfl
    have hwritten : utf8 "a\n" = output := congrArg (fun run => run.1.written) (hrun'.symm.trans hcut)
    rw [← hwritten] at hexecute
    exact ⟨m, hlower, hexecute⟩

end LetPrint
