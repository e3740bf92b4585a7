import LetPrint.Proofs.Ir.Computation

/-!
# Division

The quotient of the language is one function on words, and eight instructions of a module.

* `divide_eq_tdiv`: the function is the quotient of the integers, rounded toward zero and wrapped;
* `execAll_sdiv`: instructions that run to their end divide where the quotient is defined, every one of
  them, also those whose result is thrown away later;
* `division_exact` puts both together with `divideCode_computes`, for all operands.
-/

namespace LetPrint

/-- The quotient of words is that of the integers, rounded toward zero and wrapped to 32 bits. -/
theorem divide_eq_tdiv (x y : Int32) :
    divide x y = if y = 0 then 0 else Int32.ofInt (x.toInt.tdiv y.toInt) := by
  unfold divide
  by_cases hzero : y = 0
  · rw [if_pos hzero, if_pos hzero]
  rw [if_neg hzero, if_neg hzero]
  by_cases hone : y = -1
  · -- A negation is the quotient by -1, and wraps as that does.
    have hquotient : x.toInt.tdiv (-1 : Int32).toInt = -x.toInt := by
      show x.toInt.tdiv (-1) = -x.toInt
      rw [Int.tdiv_neg, Int.tdiv_one]
    rw [if_pos hone, hone, hquotient, Int32.ofInt_neg, Int32.ofInt_toInt]
  · rw [if_neg hone]
    apply Int32.toInt_inj.1
    rw [Int32.toInt_div, Int32.toInt_ofInt]

namespace Ir

variable {m : Module} {s s' : Frame} {next : Nat}

/-- Instructions that run to their end also do so in two parts. -/
theorem execAll_of_append {code rest : List Instruction}
    (h : execAll m next s (code ++ rest) = .ok s') :
    ∃ s₁, execAll m next s code = .ok s₁ ∧ execAll m (next + code.length) s₁ rest = .ok s' := by
  induction code generalizing s next with
  | nil => exact ⟨s, rfl, h⟩
  | cons i code ih =>
    rw [List.cons_append, execAll, bind_eq_ok] at h
    obtain ⟨s₁, hi, hcode⟩ := h
    obtain ⟨s₂, hfirst, hrest⟩ := ih hcode
    have hindex : next + 1 + code.length = next + (code.length + 1) := by omega
    rw [hindex] at hrest
    refine ⟨s₂, ?_, hrest⟩
    rw [execAll, hi]
    exact hfirst

/-- A quotient that has a value is defined. -/
theorem apply_sdiv_eq_ok {a b d : Datum} (h : Arith.sdiv.apply a b = .ok d) :
    ∃ x y, a = .word x ∧ b = .word y ∧ y ≠ 0 ∧ ¬(x = Int32.minValue ∧ y = -1) := by
  cases a with
  | word x =>
    cases b with
    | word y =>
      by_cases hundefined : y = 0 ∨ x = Int32.minValue ∧ y = -1
      · simp [Arith.apply, hundefined] at h
      · exact ⟨x, y, rfl, rfl, (not_or.1 hundefined).1, (not_or.1 hundefined).2⟩
    | _ => cases h
  | _ => cases h

/-- Wherever a division stands in instructions that run to their end, its operands have a quotient. -/
theorem execAll_sdiv {before after : List Instruction} {p q : Operand}
    (h : execAll m next s (before ++ unnamed (.arith .sdiv p q) :: after) = .ok s') :
    ∃ s₁ x y, execAll m next s before = .ok s₁ ∧ p.value m s₁ = .ok (.word x) ∧
      q.value m s₁ = .ok (.word y) ∧ y ≠ 0 ∧ ¬(x = Int32.minValue ∧ y = -1) := by
  obtain ⟨s₁, hbefore, hrest⟩ := execAll_of_append h
  rw [execAll, bind_eq_ok] at hrest
  obtain ⟨s₂, hstep, -⟩ := hrest
  rw [unnamed, Instruction.exec, bind_eq_ok] at hstep
  obtain ⟨_, hop, -⟩ := hstep
  rw [Operation.exec, bind_eq_ok] at hop
  obtain ⟨a, hp, hop⟩ := hop
  rw [bind_eq_ok] at hop
  obtain ⟨b, hq, hop⟩ := hop
  rw [bind_eq_ok] at hop
  obtain ⟨d, happly, -⟩ := hop
  obtain ⟨x, y, rfl, rfl, hdefined⟩ := apply_sdiv_eq_ok happly
  exact ⟨s₁, x, y, hbefore, hp, hq, hdefined⟩

end Ir

/-- Division of two words.  By definition it is 0 for the divisor 0, and otherwise the quotient of the
integers, rounded toward zero and wrapped, so the least word divided by -1 is itself.  The eight
instructions for a division, run in any frame in which the operands have these words as values, run to
their end and leave the same word, and each division among them is one that is defined. -/
theorem division_exact (x y : Int32) :
    divide x y = (if y = 0 then 0 else Int32.ofInt (x.toInt.tdiv y.toInt)) ∧
      divide Int32.minValue (-1) = Int32.minValue ∧
      ∀ (m : Ir.Module) (s : Ir.Frame) (next bindings : Nat) (a b : Ir.Operand),
        Ir.Bounded s next bindings → a.value m s = .ok (.word x) → b.value m s = .ok (.word y) →
        ∃ code o, Ir.operatorCode next .div a b = .ok (code, o) ∧ code.length = 8 ∧
          (∃ s', Ir.execAll m next s code = .ok s' ∧ o.value m s' = .ok (.word (divide x y))) ∧
          ∀ before after p q, code = before ++ Ir.unnamed (.arith .sdiv p q) :: after →
            ∃ s₁ u v, Ir.execAll m next s before = .ok s₁ ∧ p.value m s₁ = .ok (.word u) ∧
              q.value m s₁ = .ok (.word v) ∧ v ≠ 0 ∧ ¬(u = Int32.minValue ∧ v = -1) := by
  refine ⟨divide_eq_tdiv x y, by decide, ?_⟩
  intro m s next bindings a b hbound ha hb
  obtain ⟨s', hcomputes⟩ := Ir.divideCode_computes ha hb hbound
  refine ⟨(Ir.divideCode next a b).1, (Ir.divideCode next a b).2, rfl, rfl,
    ⟨s', hcomputes.run, hcomputes.value⟩, ?_⟩
  intro before after p q hcode
  have hrun := hcomputes.run
  rw [hcode] at hrun
  exact Ir.execAll_sdiv hrun

/-- A frame with the least word in its only register. -/
def leastFrame : Ir.Frame where
  registers := [(.unnamed 0, .word Int32.minValue)]

/-- The least word, from a register, divided by the constant -1: the fifth instruction divides by some
other word, and the last one leaves the least word. -/
theorem division_exact_least :
    Ir.Bounded leastFrame 1 0 ∧
      (Ir.result 0 .i32).value {} leastFrame = .ok (.word Int32.minValue) ∧
      (Ir.word (-1)).value {} leastFrame = .ok (.word (-1)) ∧
      ∃ code o, Ir.operatorCode 1 .div (Ir.result 0 .i32) (Ir.word (-1)) = .ok (code, o) ∧
        (∃ s', Ir.execAll {} 1 leastFrame code = .ok s' ∧
          o.value {} s' = .ok (.word Int32.minValue)) ∧
        ∃ s₁ u v, Ir.execAll {} 1 leastFrame (code.take 4) = .ok s₁ ∧
          (Ir.result 0 .i32).value {} s₁ = .ok (.word u) ∧
          (Ir.result 4 .i32).value {} s₁ = .ok (.word v) ∧ v ≠ 0 ∧
          ¬(u = Int32.minValue ∧ v = -1) := by
  have hbound : Ir.Bounded leastFrame 1 0 := by
    intro r d hr
    by_cases heq : r = .unnamed 0
    · rw [heq]
      exact Nat.zero_lt_one
    · simp [leastFrame, Ir.Frame.find?, List.lookup_cons, beq_false_of_ne heq] at hr
  have ha : (Ir.result 0 .i32).value {} leastFrame = .ok (.word Int32.minValue) := rfl
  have hb : (Ir.word (-1)).value {} leastFrame = .ok (.word (-1)) := Ir.value_word (-1)
  obtain ⟨-, hleast, hcode⟩ := division_exact Int32.minValue (-1)
  obtain ⟨code, o, hemitted, -, hrun, hdefined⟩ := hcode {} leastFrame 1 0 _ _ hbound ha hb
  rw [hleast] at hrun
  refine ⟨hbound, ha, hb, code, o, hemitted, hrun, ?_⟩
  cases hemitted
  exact hdefined _ _ _ _ rfl

end LetPrint
