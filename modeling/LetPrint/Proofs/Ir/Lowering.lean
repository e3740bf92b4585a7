import LetPrint.Proofs.Passes
import LetPrint.Proofs.Text.Numerals

/-!
# What lowering adds to a module

Each statement adds code at the end of `main`, and a `let` of a string adds a constant behind the
constants there are.  `LowerState.stmt_bind_ok` and `LowerState.stmt_print_ok` say what a lowered
statement adds; `LowerState.walk_globals_names` says what the constants of a program are called, and
`constantNames_nodup` that no two of them share a name.
-/

namespace LetPrint.Ir

open Text

/-- The names of the constants of a module with `count` string literals: the two formats, and the
literals by number. -/
def constantNames (count : Nat) : List Bytes :=
  [wordFormat.name, textFormat.name] ++ (List.range count).map fun k => utf8 ".str" ++ decimal k

theorem constantNames_succ (count : Nat) :
    constantNames (count + 1) = constantNames count ++ [utf8 ".str" ++ decimal count] := by
  simp [constantNames, List.range_succ]

/-- No two constants share a name. -/
theorem constantNames_nodup (count : Nat) : (constantNames count).Nodup := by
  induction count with
  | zero => decide
  | succ count ih =>
    rw [constantNames_succ, List.nodup_append]
    refine ⟨ih, by simp, ?_⟩
    intro name hname other hother
    rw [List.mem_singleton.1 hother]
    rcases List.mem_append.1 hname with hformat | hliteral
    · -- A format's name has an `f` where a literal's name has an `s`.
      have hne : ∀ digits, wordFormat.name ≠ utf8 ".str" ++ digits ∧
          textFormat.name ≠ utf8 ".str" ++ digits := fun digits => ⟨nofun, nofun⟩
      simp only [List.mem_cons, List.not_mem_nil, or_false] at hformat
      rcases hformat with rfl | rfl
      · exact (hne _).1
      · exact (hne _).2
    · obtain ⟨k, hk, rfl⟩ := List.mem_map.1 hliteral
      intro heq
      have hnumber : k = count := decimal_injective (List.append_cancel_left heq)
      rw [List.mem_range] at hk
      omega

namespace LowerState

variable {g g' : LowerState} {name : Bytes}

/-- What a lowered `let` adds. -/
theorem stmt_bind_ok {e : Expr} {line : Int} (h : g.stmt (.bind name e line) = .ok g') :
    g.scope.allow Cell.kind name e.kind = .ok () ∧
      ∃ code v constant, g.valueCode e = .ok ((code, v), constant) ∧
        g' =
          { globals := g.globals ++ constant.toList
            code := g.code ++ (code ++
              [{ name := some (g.nextCell name e.kind).name, operation := .alloca (cellTy e.kind) },
                unnamed (.store v (g.nextCell name e.kind).address)])
            scope := g.scope.bind name (g.nextCell name e.kind)
            bindings := g.bindings + 1
            literals := g.literals + constant.toList.length } := by
  rw [stmt, bind_eq_ok] at h
  obtain ⟨⟨⟩, hallow, h⟩ := h
  rw [bind_eq_ok] at h
  obtain ⟨⟨⟨code, v⟩, constant⟩, hvalue, h⟩ := h
  rw [pure_eq_ok] at h
  refine ⟨hallow, code, v, constant, hvalue, ?_⟩
  rw [← h, List.append_assoc]

/-- What a lowered `print` adds. -/
theorem stmt_print_ok {line : Int} (h : g.stmt (.print name line) = .ok g') :
    ∃ cell, g.scope.find? name = some cell ∧
      g' =
        { g with
          code := g.code ++
            [unnamed (.load (cellTy cell.kind) cell.address),
              unnamed (.call printf
                [formatOf cell.kind, result g.code.length (cellTy cell.kind)])] } := by
  rw [stmt, bind_eq_ok] at h
  obtain ⟨cell, hcell, h⟩ := h
  rw [pure_eq_ok] at h
  exact ⟨cell, Scope.subject_eq_ok.1 hcell, h.symm⟩

/-- A right-hand side adds the constant of a string literal, under the next name, or none. -/
theorem valueCode_constant {e : Expr} {fragment : Fragment} {c : Global}
    (h : g.valueCode e = .ok (fragment, some c)) : c.name = utf8 ".str" ++ decimal g.literals := by
  cases hkind : e.kind with
  | int =>
    rw [valueCode_int hkind, map_eq_ok] at h
    obtain ⟨fragment', -, heq⟩ := h
    cases heq
  | str =>
    cases e with
    | str text pos =>
      cases h
      rfl
    | _ => cases hkind

/-- Constants are added at the end. -/
theorem stmt_globals {s : Stmt} (h : g.stmt s = .ok g') : g.globals <+: g'.globals := by
  cases s with
  | bind name e line =>
    obtain ⟨-, code, v, constant, -, rfl⟩ := stmt_bind_ok h
    exact List.prefix_append _ _
  | print name line =>
    obtain ⟨cell, -, rfl⟩ := stmt_print_ok h
    exact List.prefix_rfl
  | foreign typeName line => cases h

theorem walk_globals {p : Program} {index : Nat} (h : walk stmt index g p = (g', none)) :
    g.globals <+: g'.globals := by
  induction p generalizing g index with
  | nil =>
    cases h
    exact List.prefix_rfl
  | cons s p ih =>
    obtain ⟨g₁, hstep, hrest⟩ := walk_cons_eq_none h
    exact (stmt_globals hstep).trans (ih hrest)

/-- Constants keep to their names as statements are added. -/
theorem stmt_globals_names {s : Stmt} (h : g.stmt s = .ok g')
    (hnames : g.globals.map Global.name = constantNames g.literals) :
    g'.globals.map Global.name = constantNames g'.literals := by
  cases s with
  | bind name e line =>
    obtain ⟨-, code, v, constant, hvalue, rfl⟩ := stmt_bind_ok h
    cases constant with
    | none => simpa using hnames
    | some c => simp [hnames, valueCode_constant hvalue, constantNames_succ]
  | print name line =>
    obtain ⟨cell, -, rfl⟩ := stmt_print_ok h
    exact hnames
  | foreign typeName line => cases h

/-- The constants of a program are named by `constantNames`. -/
theorem walk_globals_names {p : Program} {index : Nat} (h : walk stmt index g p = (g', none))
    (hnames : g.globals.map Global.name = constantNames g.literals) :
    g'.globals.map Global.name = constantNames g'.literals := by
  induction p generalizing g index with
  | nil =>
    cases h
    exact hnames
  | cons s p ih =>
    obtain ⟨g₁, hstep, hrest⟩ := walk_cons_eq_none h
    exact ih hrest (stmt_globals_names hstep hnames)

end LowerState

/-- A program is lowered by lowering all of its statements. -/
theorem walk_of_lower {p : Program} {triple : Bytes} {m : Module} (h : p.lower triple = .ok m) :
    ∃ g, walk LowerState.stmt 0 .initial p = (g, none) ∧ m = g.finish triple := by
  rw [Program.lower] at h
  cases hwalk : walk LowerState.stmt 0 .initial p with
  | mk g stop =>
    rw [hwalk] at h
    cases stop with
    | some e => cases h
    | none => exact ⟨g, rfl, (Except.ok.inj h).symm⟩

end LetPrint.Ir
