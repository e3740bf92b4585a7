import LetPrint.Proofs.Backend
import LetPrint.Proofs.Ir.Computation
import LetPrint.Proofs.Ir.Lowering

/-!
# Modules run like their programs

The `main` of a lowered program and direct execution, compared for every program that can be lowered.
A constant ends at its first zero byte where `printf` reads it, so a module prints what the interpreter
writes once every string literal is cut at its first zero byte (`Program.cut`).

* `Hosts`: what the module around `main` has to hold for `main` to run;
* `Simulates`: what holds of frame and interpreter between two statements; `Simulates.bind` and
  `Simulates.print` carry it over one statement, `Simulates.walk` over a program;
* `execute_lower_cut`: the module runs to its end, returns 0, and prints what the interpreter writes for
  the program with its literals cut;
* `Program.lower_preserves_output`: without zero bytes, that is what it writes for the program itself.
-/

namespace LetPrint

/-! ## Texts that end at a zero byte -/

/-- A text up to its first zero byte. -/
def upToZero (text : Bytes) : Bytes :=
  text.takeWhile (· != 0)

theorem upToZero_cons (b : UInt8) (text : Bytes) :
    upToZero (b :: text) = if b = 0 then [] else b :: upToZero text := by
  by_cases hb : b = 0
  · simp [upToZero, hb]
  · simp [upToZero, hb]

theorem upToZero_eq_self_iff {text : Bytes} : upToZero text = text ↔ 0 ∉ text := by
  induction text with
  | nil => simp [upToZero]
  | cons b text ih =>
    rw [upToZero_cons]
    by_cases hb : b = 0
    · simp [hb]
    · simp [hb, ih, Ne.symm hb]

/-- The zero byte at the end of a constant ends its text, if none before it does. -/
theorem takeWhile_concat_zero (text : Bytes) : (text ++ [0]).takeWhile (· != 0) = upToZero text := by
  induction text with
  | nil => rfl
  | cons b text ih =>
    rw [upToZero_cons, ← ih]
    by_cases hb : b = 0
    · simp [hb]
    · simp [hb]

/-- A right-hand side, with a literal cut at its first zero byte. -/
def Expr.cut : Expr → Expr
  | .str text pos => .str (upToZero text) pos
  | e => e

/-- A statement, with a literal cut at its first zero byte. -/
def Stmt.cut : Stmt → Stmt
  | .bind name e line => .bind name e.cut line
  | s => s

/-- A program, with every literal cut at its first zero byte. -/
def Program.cut (p : Program) : Program :=
  p.map Stmt.cut

theorem Expr.cut_of_int {e : Expr} (h : e.kind = .int) : e.cut = e := by
  cases e with
  | str text pos => cases h
  | _ => rfl

/-- Literals without zero bytes are not cut. -/
theorem Program.cut_eq_self {p : Program} (h : ∀ stmt ∈ p, ∀ text ∈ stmt.literals, 0 ∉ text) :
    p.cut = p := by
  have hcut : ∀ stmt ∈ p, stmt.cut = stmt := by
    intro stmt hstmt
    cases stmt with
    | bind name e line =>
      cases e with
      | str text pos =>
        have hzero := h _ hstmt text List.mem_cons_self
        rw [Stmt.cut, Expr.cut, upToZero_eq_self_iff.2 hzero]
      | _ => rfl
    | _ => rfl
  rw [Program.cut, List.map_congr_left hcut, List.map_id']

end LetPrint

namespace LetPrint.Ir

open Text

/-! ## Constants -/

/-- Among constants of different names, each is found under its own. -/
theorem find?_name_eq {globals : List Global} {c : Global}
    (hnames : (globals.map Global.name).Nodup) (hc : c ∈ globals) :
    globals.find? (·.name == c.name) = some c := by
  induction globals with
  | nil => cases hc
  | cons other globals ih =>
    rw [List.map_cons, List.nodup_cons] at hnames
    rcases List.mem_cons.1 hc with rfl | hc
    · simp
    · have hne : other.name ≠ c.name := by
        intro heq
        rw [heq] at hnames
        exact hnames.1 (List.mem_map_of_mem hc)
      rw [List.find?_cons_of_neg (by simpa using hne)]
      exact ih hnames.2 hc

/-- What a module has to hold for the code of its `main` to run: `printf` in its place, constants
that can be told apart by their names, and the formats among them. -/
structure Hosts (m : Module) : Prop where
  function : m.functions[0]? = some printfFunction
  names : (m.globals.map Global.name).Nodup
  formats : [wordFormat, textFormat] <+: m.globals

/-- The name of the format that prints a value of the given kind. -/
def formatName : Kind → Bytes
  | .int => wordFormat.name
  | .str => textFormat.name

namespace Hosts

variable {m : Module} {s : Frame} {c : Global}

/-- A constant is found under its name. -/
theorem constant?_eq (h : Hosts m) (hc : c ∈ m.globals) : m.constant? c.name = some c.content := by
  rw [Module.constant?, find?_name_eq h.names hc]
  rfl

/-- A constant made of a text reads as the text up to its first zero byte. -/
theorem textAt_eq {name text : Bytes} (h : Hosts m) (hc : textConstant name text ∈ m.globals) :
    m.textAt name = .ok (upToZero text) := by
  have hconstant : m.constant? name = some (text ++ [0]) := h.constant?_eq hc
  have hmem : 0 ∈ text ++ [0] := by simp
  simp only [Module.textAt, hconstant, if_pos hmem, takeWhile_concat_zero]

/-- The address of a constant's first byte can be computed. -/
theorem exec_firstByte (h : Hosts m) (hc : c ∈ m.globals) :
    c.firstByte.exec m s = .ok (some (.text c.name), s) := by
  have hconstant := h.constant?_eq hc
  simp [Global.firstByte, Operation.exec, Operand.value, Module.firstByte, hconstant, bind,
    Except.bind, pure, Except.pure]

/-- A format and what stands for a value of its kind print the line of the value. -/
theorem printed_eq {d : Datum} {v : Value} (h : Hosts m) (hd : StandsFor m d v) :
    m.printed printf [.text (formatName v.kind), d] = .ok v.line := by
  have hlists : m.lists ⟨0, printfFunction.name, printfFunction.signature⟩ = true := by
    simp [Module.lists, h.function]
  have hword : m.textAt wordFormat.name = .ok [byte '%', byte 'd', newline] :=
    h.textAt_eq (h.formats.subset List.mem_cons_self)
  have htext : m.textAt textFormat.name = .ok [byte '%', byte 's', newline] :=
    h.textAt_eq (h.formats.subset (List.mem_cons_of_mem _ List.mem_cons_self))
  have hcall : ∀ name, m.printed printf [.text name, d] = m.textAt name >>= (m.formatted · [d]) := by
    intro name
    simp only [Module.printed, printf, hlists, Bool.true_and]
    rfl
  rw [hcall]
  cases hd with
  | word n =>
    rw [Value.kind, formatName, hword]
    rfl
  | text hname =>
    rw [Value.kind, formatName, htext]
    change (m.textAt _ >>= fun text =>
      m.formatted [newline] [] >>= fun more => pure (text ++ more)) = _
    rw [hname]
    rfl

end Hosts

/-! ## Statements -/

/-- What holds of the frame between two statements, beside the state of the interpreter: the cells
hold the values of the names, and `start` and what was printed make up the output. -/
structure Simulates (m : Module) (start : Bytes) (g : LowerState) (r : RunState) (s : Frame) :
    Prop where
  bounded : Bounded s g.code.length g.bindings
  formats : ∀ kind, (formatOf kind).value m s = .ok (.text (formatName kind))
  scope : g.scope.Related (CellHolds m s) r.values
  out : r.out = { limit := none, written := start ++ s.out }

/-- The frame with a new cell for a binding. -/
def Frame.allocate (s : Frame) (c : Cell) (content : Option Datum) : Frame :=
  { s with cells := s.cells ++ [(cellTy c.kind, content)] }.set (.named c.name)
    (.cell s.cells.length)

section

variable {m : Module} {s : Frame} {c : Cell} {d : Datum}

theorem Grows.allocate (h : s.find? (.named c.name) = none) (content : Option Datum) :
    Grows s (s.allocate c content) := by
  refine ⟨(Grows.set h (.cell s.cells.length)).registers, ?_⟩
  intro k other hk
  obtain ⟨hlt, -⟩ := List.getElem?_eq_some_iff.1 hk
  simp [Frame.allocate, List.getElem?_append_left hlt, hk]

/-- A new cell, and a store to it. -/
theorem execAll_allocate {next : Nat} {o : Operand} (ho : o.value m s = .ok d)
    (hfits : d.fits (cellTy c.kind) = true) (hfind : s.find? (.named c.name) = none) :
    execAll m next s
        [{ name := some c.name, operation := .alloca (cellTy c.kind) },
          unnamed (.store o c.address)]
      = .ok (s.allocate c (some d)) := by
  have halloca : Instruction.exec m next s
      { name := some c.name, operation := .alloca (cellTy c.kind) }
        = .ok (s.allocate c none) :=
    Frame.define_of_find? (s := { s with cells := s.cells ++ [(cellTy c.kind, none)] }) hfind _
  have ho' : o.value m (s.allocate c none) = .ok d := (Grows.allocate hfind none).value ho
  have haddress : c.address.value m (s.allocate c none) = .ok (.cell s.cells.length) := by
    simp [Cell.address, Operand.value, Frame.allocate]
  have hstore : (s.allocate c none).store d (.cell s.cells.length)
      = .ok (s.allocate c (some d)) := by
    simp [Frame.store, hfits, Frame.allocate, Frame.set]
  rw [execAll, halloca]
  simp [execAll, unnamed, Instruction.exec, Operation.exec, ho', haddress, hstore, bind,
    Except.bind, pure, Except.pure]

end

/-- The code of a right-hand side computes what stands for its value, cut at a zero byte. -/
theorem valueCode_computes {m : Module} {bindings : Nat} {s : Frame} {g : LowerState}
    {values : Values} {e : Expr} {code : List Instruction} {o : Operand} {constant : Option Global}
    (hcode : g.valueCode e = .ok ((code, o), constant)) (hm : Hosts m)
    (hscope : g.scope.Related (CellHolds m s) values) (hbound : Bounded s g.code.length bindings)
    (hconstant : ∀ c ∈ constant, c ∈ m.globals) :
    ∃ v d, values.evaluateValue e.cut = .ok v ∧ v.kind = e.kind ∧ StandsFor m d v ∧
      ∃ s', Computes m bindings g.code.length s code o d s' := by
  cases hkind : e.kind with
  | int =>
    rw [LowerState.valueCode_int hkind, map_eq_ok] at hcode
    obtain ⟨fragment, hcode, heq⟩ := hcode
    cases heq
    obtain ⟨n, heval, hcomputes⟩ := exprCode_computes hcode hscope hbound
    refine ⟨.int n, .word n, ?_, rfl, .word n, hcomputes⟩
    rw [Expr.cut_of_int hkind, Values.evaluateValue_int hkind, heval]
    rfl
  | str =>
    cases e with
    | str text pos =>
      cases hcode
      have hmem := hconstant _ rfl
      refine ⟨.str (upToZero text), _, rfl, rfl, .text (hm.textAt_eq hmem), ?_⟩
      exact Computes.single .bytePtr (hm.exec_firstByte hmem) hbound
    | _ => cases hkind

/-- A call of `printf` with the format of a value and with what stands for it prints the line of the
value. -/
theorem execAll_printf {m : Module} {next bindings : Nat} {s : Frame} {x y : Operand} {d : Datum}
    {v : Value} (hm : Hosts m) (hx : x.value m s = .ok (.text (formatName v.kind)))
    (hy : y.value m s = .ok d) (hd : StandsFor m d v) (hbound : Bounded s next bindings) :
    ∃ s', execAll m next s [unnamed (.call printf [x, y])] = .ok s' ∧
      Bounded s' (next + 1) bindings ∧ Grows s s' ∧ s'.out = s.out ++ v.line := by
  let printed : Frame := { s with out := s.out ++ v.line }
  have hcall : (Operation.call printf [x, y]).exec m s =
      .ok (some (.word (Int32.ofNat v.line.length)), printed) := by
    simp [Operation.exec, hx, hy, hm.printed_eq hd, bind, Except.bind, pure, Except.pure, printed]
  have hfind : printed.find? (.unnamed next) = none := hbound.find?_unnamed
  refine ⟨printed.set (.unnamed next) (.word (Int32.ofNat v.line.length)), ?_,
    hbound.set_unnamed _, ?_, rfl⟩
  · rw [execAll, exec_unnamed hcall hfind]
    rfl
  · have hgrows : Grows s printed := ⟨fun _ _ h => h, fun _ _ h => h⟩
    exact hgrows.trans (.set hfind _)

section

variable {m : Module} {start : Bytes} {g g' : LowerState} {r : RunState} {s : Frame}
  {name : Bytes} {line : Int}

/-- The code of a `let` runs, and binds the name to what the interpreter binds it to once the literal
is cut. -/
theorem Simulates.bind {e : Expr} (h : Simulates m start g r s) (hm : Hosts m)
    (hgen : g.stmt (.bind name e line) = .ok g') (hglobals : g'.globals <+: m.globals) :
    ∃ code, g'.code = g.code ++ code ∧ ∃ r' s', r.exec (.bind name e.cut line) = .ok r' ∧
      execAll m g.code.length s code = .ok s' ∧ Simulates m start g' r' s' := by
  obtain ⟨hallow, code, o, constant, hvalue, rfl⟩ := LowerState.stmt_bind_ok hgen
  have hconstant : ∀ c ∈ constant, c ∈ m.globals := by
    intro c hc
    exact hglobals.subset (List.mem_append_right _ (Option.mem_toList.2 hc))
  obtain ⟨v, d, heval, hkind, hstands, s₁, hs₁⟩ :=
    valueCode_computes hvalue hm h.scope h.bounded hconstant
  -- The new cell is named after the number of bindings, so its name is new as well.
  have hfind : s₁.find? (.named (g.nextCell name e.kind).name) = none :=
    hs₁.bounded.find?_named name
  have hgrows := hs₁.grows.trans (Grows.allocate hfind (some d))
  refine ⟨_, rfl, { r with values := r.values.bind name v },
    s₁.allocate (g.nextCell name e.kind) (some d), ?_, ?_, ?_, ?_, ?_, ?_⟩
  · have hallow' := h.scope.allow (fun _ _ hholds => hholds.kind) hallow
    rw [← hkind] at hallow'
    exact RunState.exec_bind heval hallow' line
  · rw [execAll_append hs₁.run]
    refine execAll_allocate hs₁.value ?_ hfind
    rw [LowerState.nextCell, ← hkind]
    exact hstands.fits
  · have hbound : Bounded (s₁.allocate (g.nextCell name e.kind) (some d))
        (g.code.length + code.length) (g.bindings + 1) :=
      hs₁.bounded.set_named name (.cell s₁.cells.length)
    exact hbound.mono (by simp) (Nat.le_refl _)
  · intro kind
    exact hgrows.value (h.formats kind)
  · refine (h.scope.mono fun _ _ hholds => hholds.mono hgrows).bind ⟨hkind.symm, ?_⟩
    exact ⟨s₁.cells.length, d, by simp [Frame.allocate], by simp [Frame.allocate], hstands⟩
  · rw [h.out]
    simp [Frame.allocate, hs₁.out]

/-- The code of a `print` prints what the interpreter prints. -/
theorem Simulates.print (h : Simulates m start g r s) (hm : Hosts m)
    (hgen : g.stmt (.print name line) = .ok g') :
    ∃ code, g'.code = g.code ++ code ∧ ∃ r' s', r.exec (.print name line) = .ok r' ∧
      execAll m g.code.length s code = .ok s' ∧ Simulates m start g' r' s' := by
  obtain ⟨cell, hfind, rfl⟩ := LowerState.stmt_print_ok hgen
  obtain ⟨v, hv, hholds⟩ := h.scope.find hfind
  obtain ⟨d, hload, hstands⟩ := hholds.load
  obtain ⟨s₁, hs₁⟩ := Computes.single (cellTy cell.kind) hload h.bounded
  have hformat : (formatOf cell.kind).value m s₁ = .ok (.text (formatName v.kind)) := by
    rw [← hholds.kind]
    exact hs₁.grows.value (h.formats cell.kind)
  obtain ⟨s₂, hs₂, hbound, hgrows₂, hout⟩ :=
    execAll_printf hm hformat hs₁.value hstands hs₁.bounded
  have hgrows := hs₁.grows.trans hgrows₂
  refine ⟨_, rfl, { r with out := { limit := none, written := start ++ s₂.out } }, s₂,
    ?_, ?_, ?_, ?_, ?_, rfl⟩
  · rw [RunState.exec_print hv, h.out, Sink.write?_of_limit rfl, hout, hs₁.out]
    simp
  · exact (execAll_append hs₁.run).trans hs₂
  · exact hbound.mono (by simp) (Nat.le_refl _)
  · intro kind
    exact hgrows.value (h.formats kind)
  · exact h.scope.mono fun _ _ hholds => hholds.mono hgrows

/-- The code of a program runs like the program with its literals cut, from corresponding states
on. -/
theorem Simulates.walk {p : Program} {index k : Nat} (h : Simulates m start g r s) (hm : Hosts m)
    (hgen : walk LowerState.stmt index g p = (g', none)) (hglobals : g'.globals <+: m.globals) :
    ∃ code, g'.code = g.code ++ code ∧ ∃ r' s', walk RunState.exec k r p.cut = (r', none) ∧
      execAll m g.code.length s code = .ok s' ∧ Simulates m start g' r' s' := by
  induction p generalizing g r s index k with
  | nil =>
    cases hgen
    exact ⟨[], by simp, r, s, rfl, rfl, h⟩
  | cons stmt p ih =>
    obtain ⟨g₁, hstmt, hrest⟩ := walk_cons_eq_none hgen
    have hglobals₁ := (LowerState.walk_globals hrest).trans hglobals
    have hstep : ∃ code, g₁.code = g.code ++ code ∧ ∃ r₁ s₁, r.exec stmt.cut = .ok r₁ ∧
        execAll m g.code.length s code = .ok s₁ ∧ Simulates m start g₁ r₁ s₁ := by
      cases stmt with
      | bind name e line => exact h.bind hm hstmt hglobals₁
      | print name line => exact h.print hm hstmt
      | foreign typeName line => cases hstmt
    obtain ⟨first, hfirst, r₁, s₁, hexec, hrun, hsim⟩ := hstep
    obtain ⟨code, hcode, r', s', hwalk, hrun', hsim'⟩ := ih hsim hrest
    refine ⟨first ++ code, by rw [hcode, hfirst, List.append_assoc], r', s', ?_, ?_, hsim'⟩
    · rw [← hwalk]
      exact walk_cons_ok hexec
    · rw [execAll_append hrun, ← hrun', hfirst, List.length_append]

end

/-! ## Whole programs -/

/-- The first two instructions compute the addresses of the formats. -/
theorem initial_simulates {m : Module} (hm : Hosts m) {out : Sink} (hout : out.limit = none) :
    ∃ s, execAll m 0 {} LowerState.initial.code = .ok s ∧
      Simulates m out.written .initial { out } s := by
  have hword : wordFormat ∈ m.globals := hm.formats.subset List.mem_cons_self
  have htext : textFormat ∈ m.globals :=
    hm.formats.subset (List.mem_cons_of_mem _ List.mem_cons_self)
  have hempty : Bounded {} 0 0 := nofun
  have hbound₁ := hempty.set_unnamed (.text wordFormat.name)
  have hbound₂ := hbound₁.set_unnamed (.text textFormat.name)
  refine ⟨_, ?_, hbound₂, ?_, .empty, ?_⟩
  · rw [LowerState.initial]
    simp only [execAll, exec_unnamed (hm.exec_firstByte hword) hempty.find?_unnamed,
      exec_unnamed (hm.exec_firstByte htext) hbound₁.find?_unnamed, bind, Except.bind]
  · intro kind
    cases kind <;> rfl
  · cases out
    cases hout
    simp

/-- The module of a program can be run, returns 0, and prints what the program prints once its literals
are cut. -/
theorem execute_lower_cut {p : Program} {triple : Bytes} {m : Module}
    (hlower : p.lower triple = .ok m) {out : Sink} (hout : out.limit = none) :
    ∃ output, m.execute = .ok { output, status := 0 } ∧
      p.cut.run out = ({ out with written := out.written ++ output }, none) := by
  obtain ⟨g, hwalk, rfl⟩ := walk_of_lower hlower
  have hm : Hosts (g.finish triple) := by
    refine ⟨rfl, ?_, LowerState.walk_globals hwalk⟩
    rw [LowerState.finish, LowerState.walk_globals_names hwalk rfl]
    exact constantNames_nodup g.literals
  obtain ⟨s, hs, hsim⟩ := initial_simulates hm hout
  obtain ⟨code, hcode, r', s', hrun, hs', hsim'⟩ := hsim.walk hm hwalk List.prefix_rfl
  have hall : execAll (g.finish triple) 0 {} g.code = .ok s' := by
    rw [hcode, execAll_append hs, ← hs', Nat.zero_add]
  refine ⟨s'.out, ?_, ?_⟩
  · change Block.execute _ { instructions := g.code, terminator := some (.ret (word 0)), .. } = _
    simp [Block.execute, hall, bind, Except.bind, pure, Except.pure]
  · rw [Program.run_eq hrun, hsim'.out, hout]

/-- Without zero bytes, a module prints what the program prints. -/
theorem execute_lower {p : Program} {triple : Bytes} {m : Module} (hlower : p.lower triple = .ok m)
    (hzero : ∀ stmt ∈ p, ∀ text ∈ stmt.literals, 0 ∉ text) {out : Sink} (hout : out.limit = none) :
    ∃ output, m.execute = .ok { output, status := 0 } ∧
      p.run out = ({ out with written := out.written ++ output }, none) := by
  obtain ⟨output, hexecute, hrun⟩ := execute_lower_cut hlower hout
  rw [Program.cut_eq_self hzero] at hrun
  exact ⟨output, hexecute, hrun⟩

end LetPrint.Ir

namespace LetPrint

/-- A program whose string literals have no zero bytes means the same as a module: the run of the
module meets nothing undefined, returns 0, and prints the bytes that the interpreter writes to a sink
without a limit. -/
theorem Program.lower_preserves_output {p : Program} {triple : Bytes} {m : Ir.Module}
    (hlower : p.lower triple = .ok m) (hzero : ∀ stmt ∈ p, ∀ text ∈ stmt.literals, 0 ∉ text) :
    ∃ output, m.execute = .ok { output, status := 0 } ∧
      ∀ (path : Bytes) (w : World), w.out.limit = none →
        ∃ trace, (Backend.interp.compile p path).runIn w =
          (.ok {}, { w with out := { w.out with written := w.out.written ++ output }, trace }) := by
  obtain ⟨output, hexecute, -⟩ := Ir.execute_lower hlower hzero (rfl : ({} : Sink).limit = none)
  refine ⟨output, hexecute, ?_⟩
  intro path w hw
  obtain ⟨output', hexecute', hrun⟩ := Ir.execute_lower hlower hzero hw
  rw [hexecute] at hexecute'
  cases hexecute'
  rw [Backend.compile, Backend.interpret_runIn, hrun, World.noted_eq]
  exact ⟨_, rfl⟩

/-- The least word divided by -1 and by 0, under a name that is bound twice, and a string. -/
def guardedDivisions : Program :=
  [.bind (utf8 "x") (.neg (.int (-2147483648) default) default) 1,
   .bind (utf8 "x") (.bin .div (.var (utf8 "x") default) (.int (-1) default) default) 2,
   .bind (utf8 "y") (.bin .div (.var (utf8 "x") default) (.int 0 default) default) 3,
   .bind (utf8 "s") (.str (utf8 "hi") default) 4,
   .print (utf8 "x") 5,
   .print (utf8 "y") 6,
   .print (utf8 "s") 7]

theorem Program.lower_preserves_output_of_divisions :
    ∃ m, guardedDivisions.lower [] = .ok m ∧
      (∀ stmt ∈ guardedDivisions, ∀ text ∈ stmt.literals, 0 ∉ text) ∧
      m.execute = .ok { output := utf8 "-2147483648\n0\nhi\n", status := 0 } := by
  have hzero : ∀ stmt ∈ guardedDivisions, ∀ text ∈ stmt.literals, 0 ∉ text := by decide
  obtain ⟨m, hlower⟩ : ∃ m, guardedDivisions.lower [] = .ok m := ⟨_, rfl⟩
  refine ⟨m, hlower, hzero, ?_⟩
  obtain ⟨output, hexecute, hinterp⟩ := lower_preserves_output hlower hzero
  obtain ⟨trace, hrun⟩ := hinterp [] {} rfl
  have hwritten : ((Backend.interp.compile guardedDivisions []).runIn {}).2.out.written =
      utf8 "-2147483648\n0\nhi\n" := by decide
  rw [hrun] at hwritten
  rw [hexecute, ← hwritten]
  rfl

end LetPrint
