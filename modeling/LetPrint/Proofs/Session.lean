import LetPrint.Session

/-!
# Running sessions

How a session runs in a world, one equation for each way to build a session, so that no proof has to
open the monad:

* `runIn_bind_ok` and `runIn_bind_error` run the first part of a sequence;
* `World.noted` is the world after a note; it differs in the trace alone.

`Ensures` says what holds of the outcome of a session in every world: one property of its failures
and one of its results.
-/

namespace LetPrint

open Text

/-- The world after a note. -/
def World.noted (w : World) (text : Bytes) : World :=
  if w.tracing then { w with trace := w.trace ++ text } else w

/-- A note changes the trace and nothing else. -/
theorem World.noted_eq (w : World) (text : Bytes) :
    w.noted text = { w with trace := (w.noted text).trace } := by
  unfold World.noted
  split <;> rfl

theorem World.noted_of_untraced {w : World} (h : w.tracing = false) (text : Bytes) :
    w.noted text = w := by
  rw [World.noted, h]
  rfl

@[simp] theorem World.noted_nil (w : World) : w.noted [] = w := by
  unfold World.noted
  split
  · rw [List.append_nil]
  · rfl

theorem World.noted_noted (w : World) (text more : Bytes) :
    (w.noted text).noted more = w.noted (text ++ more) := by
  cases htracing : w.tracing with
  | false => simp [World.noted, htracing]
  | true => simp [World.noted, htracing]

/-- A note and a change of the output can be made in either order. -/
theorem World.setOut_noted (w : World) (text : Bytes) (out : Sink) :
    { w.noted text with out } = { w with out }.noted text := by
  unfold World.noted
  split <;> rfl

@[simp] theorem World.noted_out (w : World) (text : Bytes) : (w.noted text).out = w.out := by
  rw [noted_eq]

@[simp] theorem World.noted_runner (w : World) (text : Bytes) :
    (w.noted text).runner = w.runner := by
  rw [noted_eq]

@[simp] theorem World.noted_calls (w : World) (text : Bytes) :
    (w.noted text).calls = w.calls := by
  rw [noted_eq]

@[simp] theorem World.noted_files (w : World) (text : Bytes) :
    (w.noted text).files = w.files := by
  rw [noted_eq]

namespace Session

variable {α β : Type} {s : Session α} {f : α → Session β} {w w' : World}

@[simp] theorem runIn_pure (a : α) : (pure a : Session α).runIn w = (.ok a, w) := rfl

@[simp] theorem runIn_throw (d : Diagnostic) : (throw d : Session α).runIn w = (.error d, w) := rfl

@[simp] theorem runIn_get : (get : Session World).runIn w = (.ok w, w) := rfl

@[simp] theorem runIn_set : (set w' : Session PUnit).runIn w = (.ok ⟨⟩, w') := rfl

@[simp] theorem runIn_modify (change : World → World) :
    (modify change : Session PUnit).runIn w = (.ok ⟨⟩, change w) := rfl

@[simp] theorem runIn_note (text : Bytes) : (note text).runIn w = (.ok (), w.noted text) := rfl

@[simp] theorem runIn_display (text : Bytes) :
    (display text).runIn w = (.ok (), { w with shown := w.shown ++ text }) := rfl

theorem runIn_bind :
    (s >>= f).runIn w =
      match s.runIn w with
      | (.ok a, w') => (f a).runIn w'
      | (.error d, w') => (.error d, w') := by
  change ((ExceptT.run s >>= ExceptT.bindCont f).run w) = _
  rw [StateT.run_bind]
  change (match s.runIn w with | (r, w') => (ExceptT.bindCont f r).run w') = _
  rcases s.runIn w with ⟨r, w'⟩
  cases r <;> rfl

theorem runIn_bind_ok {a : α} (h : s.runIn w = (.ok a, w')) :
    (s >>= f).runIn w = (f a).runIn w' := by
  rw [runIn_bind, h]

theorem runIn_bind_error {d : Diagnostic} (h : s.runIn w = (.error d, w')) :
    (s >>= f).runIn w = (.error d, w') := by
  rw [runIn_bind, h]

theorem runIn_ofExcept {ε : Type} (diagnostic : ε → Diagnostic) (x : Except ε α) :
    (ofExcept diagnostic x).runIn w = (x.mapError diagnostic, w) := by
  cases x <;> rfl

theorem runIn_tryCatch (handle : Diagnostic → Session α) :
    (tryCatch s handle).runIn w =
      match s.runIn w with
      | (.ok a, w') => (.ok a, w')
      | (.error d, w') => (handle d).runIn w' := by
  change (ExceptT.run (ExceptT.tryCatch s handle)).run w = _
  rw [ExceptT.tryCatch, ExceptT.run_mk, StateT.run_bind]
  rcases hw : s.runIn w with ⟨r, w'⟩
  change StateT.run s w = (r, w') at hw
  rw [hw]
  cases r <;> rfl

theorem runIn_makeParent (w : World) (path : Bytes) :
    (makeParent path).runIn w =
      ((w.files.makeDirectories (Path.directory path)).2.elim (.ok ()) (fun e =>
        .error (.toolchain (utf8 "cannot create directory " ++ Path.directory path) e.diagnostic)),
        { w with files := (w.files.makeDirectories (Path.directory path)).1 }) := by
  rw [makeParent, runIn_bind_ok runIn_get]
  rcases w.files.makeDirectories (Path.directory path) with ⟨files, failure⟩
  cases failure <;> rfl

theorem runIn_changeFiles (message : Bytes) (change : FileSystem → Except PathError FileSystem) :
    (changeFiles message change).runIn w =
      match change w.files with
      | .ok files => (.ok (), { w with files })
      | .error e => (.error (.toolchain message e.diagnostic), w) := by
  rw [changeFiles, runIn_bind_ok runIn_get]
  cases change w.files <;> rfl

/-! ## Outcomes in every world -/

/-- In every world, the session returns something that satisfies `returns`, or fails with a diagnostic
that satisfies `fails`. -/
structure Ensures (fails : Diagnostic → Prop) (returns : α → Prop) (s : Session α) : Prop where
  outcome : ∀ w, (∃ a w', s.runIn w = (.ok a, w') ∧ returns a) ∨
    ∃ d w', s.runIn w = (.error d, w') ∧ fails d

namespace Ensures

variable {fails : Diagnostic → Prop} {returns : α → Prop} {returns' : β → Prop}

theorem error {d : Diagnostic} (h : Ensures fails returns s) (hd : (s.runIn w).1 = .error d) :
    fails d := by
  rcases h.outcome w with ⟨a, w', hw, -⟩ | ⟨d', w', hw, hfails⟩
  · rw [hw] at hd
    cases hd
  · rw [hw] at hd
    cases hd
    exact hfails

theorem ok {a : α} (h : Ensures fails returns s) (ha : (s.runIn w).1 = .ok a) : returns a := by
  rcases h.outcome w with ⟨a', w', hw, hreturns⟩ | ⟨d, w', hw, -⟩
  · rw [hw] at ha
    cases ha
    exact hreturns
  · rw [hw] at ha
    cases ha

theorem pure {a : α} (h : returns a) : Ensures fails returns (Pure.pure a) :=
  ⟨fun w => .inl ⟨a, w, rfl, h⟩⟩

theorem throw {d : Diagnostic} (h : fails d) : Ensures fails returns (MonadExcept.throw d) :=
  ⟨fun w => .inr ⟨d, w, rfl, h⟩⟩

/-- A session that cannot fail. -/
theorem of_runIn (h : ∀ w, ∃ a w', s.runIn w = (.ok a, w')) :
    Ensures fails (fun _ => True) s := by
  refine ⟨fun w => .inl ?_⟩
  obtain ⟨a, w', hw⟩ := h w
  exact ⟨a, w', hw, trivial⟩

theorem bind (hs : Ensures fails returns s) (hf : ∀ a, returns a → Ensures fails returns' (f a)) :
    Ensures fails returns' (s >>= f) := by
  refine ⟨fun w => ?_⟩
  rcases hs.outcome w with ⟨a, w', hw, ha⟩ | ⟨d, w', hw, hd⟩
  · rw [runIn_bind_ok hw]
    exact (hf a ha).outcome w'
  · exact .inr ⟨d, w', runIn_bind_error hw, hd⟩

theorem ofExcept {ε : Type} {diagnostic : ε → Diagnostic} {x : Except ε α}
    (herror : ∀ e, x = .error e → fails (diagnostic e)) (hok : ∀ a, x = .ok a → returns a) :
    Ensures fails returns (Session.ofExcept diagnostic x) := by
  cases x with
  | error e => exact .throw (herror e rfl)
  | ok a => exact .pure (hok a rfl)

theorem tryCatch {caught : Diagnostic → Prop} {handle : Diagnostic → Session α}
    (hs : Ensures caught returns s) (hhandle : ∀ d, caught d → Ensures fails returns (handle d)) :
    Ensures fails returns (MonadExcept.tryCatch s handle) := by
  refine ⟨fun w => ?_⟩
  rw [runIn_tryCatch]
  rcases hs.outcome w with ⟨a, w', hw, ha⟩ | ⟨d, w', hw, hd⟩
  · rw [hw]
    exact .inl ⟨a, w', rfl, ha⟩
  · rw [hw]
    exact (hhandle d hd).outcome w'

end Ensures

end Session

end LetPrint
