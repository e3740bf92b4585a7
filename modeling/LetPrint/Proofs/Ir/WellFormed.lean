import LetPrint.Ir.Verify

/-!
# Which modules the checker accepts

The rules for modules, without the checker, and the result that the checker accepts the modules that
keep them and no others (`Module.verify_exact`).

* `Operation.WellFormed` and `Terminator.WellFormed` have one rule for each instruction and each end of
  a block; `Module.HasEntry` is the rule for the function that a program starts with.
* `Module.WellFormed` asks for these in every block of every function.
* Each part of the checker finds nothing just if its rule is kept: `callFault?_eq_none_iff`,
  `accessFault?_eq_none_iff`, `Module.entryFault?_eq_none_iff` and so on, up to
  `Module.fault?_eq_none_iff`.
-/

namespace LetPrint.Ir

open Text

/-! ## The rules -/

/-- The module has the function that an operand refers to: at the same place in its list, of the same
name and type. -/
def Module.Has (m : Module) (f : FunctionRef) (g : Function) : Prop :=
  m.functions[f.index]? = some g ∧ g.name = f.name ∧ g.signature = f.signature

/-- Arguments have the types of the parameters at the same places.  There are at least as many as
parameters, and no more unless the function is variadic. -/
structure Function.Takes (g : Function) (args : List Operand) : Prop where
  enough : g.params.length ≤ args.length
  exact : g.variadic = false → args.length = g.params.length
  types : ∀ (k : Nat) (arg : Operand) (param : Param), args[k]? = some arg →
    g.params[k]? = some param → arg.ty = .plain param.ty

/-- The rules for operations.  `alloca`, `or`, `firstByte` and the instructions that are known by their
text have none. -/
inductive Operation.WellFormed (m : Module) : Operation → Prop where
  | alloca (ty : Ty) : WellFormed m (.alloca ty)
  | load {ty : Ty} {space : Nat} {source : Operand} (pointer : source.ty = .plain (.ptr ty space)) :
      WellFormed m (.load ty source)
  | store {ty : Ty} {space : Nat} {value target : Operand} (stored : value.ty = .plain ty)
      (pointer : target.ty = .plain (.ptr ty space)) : WellFormed m (.store value target)
  | arith {op : Arith} {x y : Operand} (same : x.ty = y.ty) : WellFormed m (.arith op x y)
  | or (x y : Operand) : WellFormed m (.arith .or x y)
  | icmp {x y : Operand} (predicate : Predicate) (same : x.ty = y.ty) :
      WellFormed m (.icmp predicate x y)
  | select {x y : Operand} (condition : Operand) (same : x.ty = y.ty) :
      WellFormed m (.select condition x y)
  | call {f : FunctionRef} {g : Function} {args : List Operand} (listed : m.Has f g)
      (takes : g.Takes args) : WellFormed m (.call (.function f) args)
  | firstByte (size : Nat) (array : Operand) : WellFormed m (.firstByte size array)
  | other (ty : Ty) (text : Bytes) (operands : List (Operand × Bytes)) :
      WellFormed m (.other ty text operands)

/-- The rules for the end of a block of `f`: what is returned has the type of the function.  An end that
does not return has no rule. -/
inductive Terminator.WellFormed (f : Function) : Terminator → Prop where
  | ret {value : Operand} (returned : value.ty = .plain f.ret) : WellFormed f (.ret value)
  | retVoid (void : f.ret = .void) : WellFormed f .retVoid
  | unreachable : WellFormed f .unreachable
  | other (text : Bytes) (operands : List (Operand × Bytes)) : WellFormed f (.other text operands)

/-- A block of `f` has an end, and it and all instructions keep the rules. -/
structure Block.WellFormed (m : Module) (f : Function) (b : Block) : Prop where
  terminator : ∃ t, b.terminator = some t ∧ t.WellFormed f
  instructions : ∀ i ∈ b.instructions, i.operation.WellFormed m

/-- The last function of the entry's name is defined and returns a word. -/
def Module.HasEntry (m : Module) : Prop :=
  ∃ before main after, m.functions = before ++ main :: after ∧ main.name = entryName ∧
    (∀ f ∈ after, f.name ≠ entryName) ∧ main.blocks ≠ [] ∧ main.ret = .i32

/-- A module that keeps all rules. -/
structure Module.WellFormed (m : Module) : Prop where
  entry : m.HasEntry
  blocks : ∀ f ∈ m.functions, ∀ b ∈ f.blocks, b.WellFormed m f

/-! ## Instructions -/

theorem Module.lists_iff {m : Module} {f : FunctionRef} :
    m.lists f = true ↔ ∃ g, m.Has f g := by
  unfold lists Has
  cases m.functions[f.index]? with
  | none => simp
  | some g => simp

/-- Arguments are compared as far as there are both arguments and parameters. -/
theorem argumentFault?_eq_none_iff (callee : Bytes) (position : Nat) {args : List Operand}
    {params : List Ty} :
    argumentFault? callee position args params = none ↔
      ∀ (k : Nat) (arg : Operand) (ty : Ty), args[k]? = some arg → params[k]? = some ty →
        arg.ty = .plain ty := by
  induction args generalizing params position with
  | nil => simp [argumentFault?]
  | cons arg args ih =>
    cases params with
    | nil => simp [argumentFault?]
    | cons ty params =>
      rw [argumentFault?]
      constructor
      · intro h k arg' ty' harg hty
        split at h
        next hfirst =>
          cases k with
          | zero =>
            cases harg
            cases hty
            exact hfirst
          | succ k => exact (ih _).1 h k arg' ty' harg hty
        next => cases h
      · intro h
        rw [if_pos (h 0 arg ty rfl rfl), ih]
        intro k arg' ty' harg hty
        exact h (k + 1) arg' ty' harg hty

/-- The arguments of a call, by the type of the function. -/
theorem Function.takes_iff {g : Function} {args : List Operand} :
    g.Takes args ↔
      g.signature.params.length ≤ args.length ∧
        (g.signature.variadic = false → args.length = g.signature.params.length) ∧
        ∀ (k : Nat) (arg : Operand) (ty : Ty), args[k]? = some arg →
          g.signature.params[k]? = some ty → arg.ty = .plain ty := by
  have hlength : g.signature.params.length = g.params.length := List.length_map _
  have hparam : ∀ k : Nat, g.signature.params[k]? = g.params[k]?.map (·.ty) := fun _ =>
    List.getElem?_map
  rw [hlength]
  constructor
  · rintro ⟨henough, hexact, htypes⟩
    refine ⟨henough, hexact, ?_⟩
    intro k arg ty harg hty
    rw [hparam, Option.map_eq_some_iff] at hty
    obtain ⟨param, hk, rfl⟩ := hty
    exact htypes k arg param harg hk
  · rintro ⟨henough, hexact, htypes⟩
    refine ⟨henough, hexact, ?_⟩
    intro k arg param harg hk
    exact htypes k arg param.ty harg (by rw [hparam, hk]; rfl)

/-- Whether the checker finds the number of arguments right. -/
theorem argumentCount_iff {s : Signature} {args : List Operand} :
    (args.length < s.params.length || (!s.variadic && args.length != s.params.length)) = false ↔
      s.params.length ≤ args.length ∧ (s.variadic = false → args.length = s.params.length) := by
  cases s.variadic with
  | true => simp
  | false => simp

/-- A call of a function that the module has. -/
theorem callFault?_of_has {m : Module} {f : FunctionRef} {g : Function} (h : m.Has f g)
    (args : List Operand) : callFault? m (.function f) args = none ↔ g.Takes args := by
  rw [callFault?, if_pos (Module.lists_iff.2 ⟨g, h⟩), Function.takes_iff, h.2.2, ← and_assoc,
    ← argumentCount_iff, ← argumentFault?_eq_none_iff (shownName f.name) 1]
  simp only
  split
  next hcount => simp [hcount]
  next hcount => simp [Bool.not_eq_true _ ▸ hcount]

theorem callFault?_eq_none_iff {m : Module} {callee : Operand} {args : List Operand} :
    callFault? m callee args = none ↔ (Operation.call callee args).WellFormed m := by
  cases callee with
  | function f =>
    by_cases hlists : m.lists f = true
    · obtain ⟨g, hg⟩ := Module.lists_iff.1 hlists
      rw [callFault?_of_has hg]
      constructor
      · exact .call hg
      · intro h
        cases h with
        | @call _ g' _ listed takes =>
          -- The place in the list tells the function.
          obtain rfl : g' = g := Option.some.inj (listed.1.symm.trans hg.1)
          exact takes
    · rw [callFault?, if_neg hlists]
      exact ⟨nofun, fun | .call listed _ => absurd (Module.lists_iff.2 ⟨_, listed⟩) hlists⟩
  | _ => exact ⟨nofun, nofun⟩

theorem accessFault?_eq_none_iff {access : Bytes} {pointer : Operand} {value : ValueTy} :
    accessFault? access pointer value = none ↔
      ∃ ty space, value = .plain ty ∧ pointer.ty = .plain (.ptr ty space) := by
  unfold accessFault?
  split
  next target space hty =>
    rw [hty]
    by_cases hvalue : value = .plain target
    · simp [hvalue]
    · simp only [if_neg hvalue, reduceCtorEq, false_iff]
      rintro ⟨ty, space, rfl, heq⟩
      cases heq
      exact hvalue rfl
  next hty => simp [hty]
  next hother _ =>
    simp only [reduceCtorEq, false_iff]
    rintro ⟨ty, space, -, heq⟩
    exact hother ty space heq

theorem sameTypeFault?_eq_none_iff {instruction : Bytes} {x y : Operand} :
    sameTypeFault? instruction x y = none ↔ x.ty = y.ty := by
  unfold sameTypeFault?
  split
  next h => exact ⟨fun _ => h, fun _ => rfl⟩
  next h => exact ⟨nofun, fun heq => absurd heq h⟩

theorem Operation.fault?_eq_none_iff {m : Module} {op : Operation} :
    op.fault? m = none ↔ op.WellFormed m := by
  cases op with
  | alloca ty => exact ⟨fun _ => .alloca ty, fun _ => rfl⟩
  | load ty source =>
    rw [fault?, accessFault?_eq_none_iff]
    constructor
    · rintro ⟨_, space, ⟨⟩, hpointer⟩
      exact .load hpointer
    · rintro ⟨⟩
      exact ⟨ty, _, rfl, ‹_›⟩
  | store value target =>
    rw [fault?, accessFault?_eq_none_iff]
    exact ⟨fun ⟨_, _, stored, pointer⟩ => .store stored pointer,
      fun | .store stored pointer => ⟨_, _, stored, pointer⟩⟩
  | arith op x y =>
    by_cases hop : op = .or
    · subst hop
      exact ⟨fun _ => .or x y, fun _ => rfl⟩
    · have hfault : (Operation.arith op x y).fault? m = sameTypeFault? op.name x y := by
        cases op with
        | or => exact absurd rfl hop
        | _ => rfl
      rw [hfault, sameTypeFault?_eq_none_iff]
      constructor
      · exact .arith
      · intro h
        cases h with
        | arith same => exact same
        | or => exact absurd rfl hop
  | icmp predicate x y =>
    rw [fault?, sameTypeFault?_eq_none_iff]
    exact ⟨.icmp predicate, fun | .icmp _ same => same⟩
  | select condition x y =>
    rw [fault?, sameTypeFault?_eq_none_iff]
    exact ⟨.select condition, fun | .select _ same => same⟩
  | call callee args => exact callFault?_eq_none_iff
  | firstByte size array => exact ⟨fun _ => .firstByte size array, fun _ => rfl⟩
  | other ty text operands => exact ⟨fun _ => .other ty text operands, fun _ => rfl⟩

/-! ## Blocks and functions -/

theorem Terminator.fault?_eq_none_iff {f : Function} {t : Terminator} :
    t.fault? f = none ↔ t.WellFormed f := by
  cases t with
  | ret value =>
    rw [fault?]
    split
    next h => exact ⟨fun _ => .ret h, fun _ => rfl⟩
    next h => exact ⟨nofun, fun | .ret returned => absurd returned h⟩
  | retVoid =>
    rw [fault?]
    split
    next h => exact ⟨fun _ => .retVoid h, fun _ => rfl⟩
    next h => exact ⟨nofun, fun | .retVoid void => absurd void h⟩
  | unreachable => exact ⟨fun _ => .unreachable, fun _ => rfl⟩
  | other text operands => exact ⟨fun _ => .other text operands, fun _ => rfl⟩

theorem Block.fault?_eq_none_iff {m : Module} {f : Function} {b : Block} :
    b.fault? m f = none ↔ b.WellFormed m f := by
  unfold fault?
  cases hend : b.terminator with
  | none =>
    refine ⟨nofun, fun h => ?_⟩
    obtain ⟨t, ht, -⟩ := h.terminator
    rw [hend] at ht
    cases ht
  | some t =>
    simp only [Option.or_eq_none_iff, List.findSome?_eq_none_iff, Terminator.fault?_eq_none_iff,
      Operation.fault?_eq_none_iff]
    constructor
    · rintro ⟨hinstructions, ht⟩
      exact ⟨⟨t, hend, ht⟩, hinstructions⟩
    · rintro ⟨⟨t', ht', hformed⟩, hinstructions⟩
      rw [hend] at ht'
      cases ht'
      exact ⟨hinstructions, hformed⟩

/-- The checker takes the first function of the entry's name from the end of the list. -/
theorem Module.entryFault?_eq_none_iff {m : Module} : m.entryFault? = none ↔ m.HasEntry := by
  have hlast : ∀ main, m.functions.reverse.find? (·.name == entryName) = some main ↔
      ∃ before after, m.functions = before ++ main :: after ∧ main.name = entryName ∧
        ∀ f ∈ after, f.name ≠ entryName := by
    intro main
    rw [List.find?_eq_some_iff_append]
    constructor
    · rintro ⟨hname, after, before, hsplit, hafter⟩
      refine ⟨before.reverse, after.reverse, ?_, by simpa using hname, by simpa using hafter⟩
      rw [← List.reverse_reverse m.functions, hsplit]
      simp
    · rintro ⟨before, after, hsplit, hname, hafter⟩
      refine ⟨by simpa using hname, after.reverse, before.reverse, ?_, by simpa using hafter⟩
      rw [hsplit]
      simp
  unfold entryFault?
  cases hfind : m.functions.reverse.find? (·.name == entryName) with
  | none =>
    refine ⟨nofun, ?_⟩
    rintro ⟨before, main, after, hsplit, hname, hafter, -⟩
    have hsome := (hlast main).2 ⟨before, after, hsplit, hname, hafter⟩
    rw [hfind] at hsome
    cases hsome
  | some main =>
    obtain ⟨before, after, hsplit, hname, hafter⟩ := (hlast main).1 hfind
    have hentry : m.HasEntry ↔ main.blocks ≠ [] ∧ main.ret = .i32 := by
      constructor
      · rintro ⟨before', main', after', hsplit', hname', hafter', hdefined⟩
        have hsame := (hlast main').2 ⟨before', after', hsplit', hname', hafter'⟩
        rw [hfind] at hsame
        cases hsame
        exact hdefined
      · intro hdefined
        exact ⟨before, main, after, hsplit, hname, hafter, hdefined⟩
    rw [hentry]
    by_cases hblocks : main.blocks = []
    · simp [hblocks]
    · by_cases hret : main.ret = .i32
      · simp [hblocks, hret]
      · simp [hblocks, hret]

theorem Module.fault?_eq_none_iff {m : Module} : m.fault? = none ↔ m.WellFormed := by
  simp only [fault?, Option.or_eq_none_iff, List.findSome?_eq_none_iff, entryFault?_eq_none_iff,
    Block.fault?_eq_none_iff]
  exact ⟨fun ⟨entry, blocks⟩ => ⟨entry, blocks⟩, fun ⟨entry, blocks⟩ => ⟨entry, blocks⟩⟩

/-- The checker accepts a module if and only if it keeps all rules, and reports a verification error
of every other module. -/
theorem Module.verify_exact (m : Module) :
    (m.verify = .ok () ↔ m.WellFormed) ∧
      (¬ m.WellFormed →
        ∃ fault, m.verify = .error fault ∧ fault.diagnostic.category = .verification) := by
  rw [← fault?_eq_none_iff, verify]
  cases m.fault? with
  | none => exact ⟨⟨fun _ => rfl, fun _ => rfl⟩, fun h => absurd rfl h⟩
  | some fault => exact ⟨⟨nofun, nofun⟩, fun _ => ⟨fault, rfl, rfl⟩⟩

end LetPrint.Ir
