import IntScript.Interpreter
import IntScript.Proofs.Rephrasing
import Mathlib.Logic.Relation

set_option autoImplicit false

namespace IntScript

namespace World

theorem output_of_events {w v : World} {es : Array Event} (h : w.events = v.events ++ es) :
    w.output = v.output ++ es.toList.filterMap Event.output? := by
  rw [output, output, h, Array.toList_append, List.filterMap_append]

theorem output_note (w : World) {e : Event} (he : e.output? = none) : (w.note e).output = w.output := by
  have hnote : (w.note e).events = w.events ++ #[e] := Array.push_eq_append
  rw [output_of_events hnote]
  simp [he]

end World

namespace Interpreter

def values (i : Interpreter) : List (String × Value) :=
  i.globals.vars.entries.map fun p => (p.1, i.world.read p.2)

def arities (i : Interpreter) : List (String × Option Nat) :=
  i.globals.funs.entries.map fun p => (p.1, p.2.arity)

/-- The interpreters cannot be told apart from outside. -/
structure LooksLike (i j : Interpreter) : Prop where
  output : i.world.output = j.world.output
  values : i.values = j.values
  arities : i.arities = j.arities

theorem LooksLike.symm {i j : Interpreter} (h : i.LooksLike j) : j.LooksLike i :=
  ⟨h.output.symm, h.values.symm, h.arities.symm⟩

theorem LooksLike.trans {i j k : Interpreter} (h : i.LooksLike j) (h' : j.LooksLike k) : i.LooksLike k :=
  ⟨h.output.trans h'.output, h.values.trans h'.values, h.arities.trans h'.arities⟩

def withFrame (i : Interpreter) (f : Frame) : Interpreter := ⟨i.root, f.scope, i.limits, f.world⟩

theorem withFrame_looksLike {B : Block → Block → Prop} (i : Interpreter) {f g : Frame}
    (hscope : Scope.Akin B f.scope g.scope) (hread : ∀ cell, f.world.read cell = g.world.read cell)
    (houtput : f.world.output = g.world.output) : (i.withFrame f).LooksLike (i.withFrame g) := by
  refine ⟨houtput, ?_, hscope.funs.entries_map fun _ _ hg => hg.arity⟩
  have hvalue : f.world.read = g.world.read := funext hread
  change f.scope.vars.entries.map (fun p => (p.1, f.world.read p.2)) =
    g.scope.vars.entries.map (fun p => (p.1, g.world.read p.2))
  rw [hscope.vars, hvalue]

theorem note_looksLike (i : Interpreter) {e : Event} (he : e.output? = none) :
    (i.withWorld (i.world.note e)).LooksLike i :=
  ⟨i.world.output_note he, rfl, rfl⟩

def start (i : Interpreter) (program : Block) : World := i.world.note (.started program.length)

def body (n : Nat) (program : Block) (i : Interpreter) (w : World) : Outcome EvalError Signal × Interpreter :=
  match Block.exec n (.top i.limits) program ⟨i.globals, w⟩ with
  | (r, f) => (r, i.withFrame f)

theorem closing_looksLike (m : Interpret Signal) (i : Interpreter) :
    (closing m i).1 = (m i).1 ∧ (closing m i).2.LooksLike (m i).2 := by
  unfold closing
  rcases m i with ⟨r, j⟩
  cases r with
  | done a => exact ⟨rfl, j.note_looksLike rfl⟩
  | failed e => exact ⟨rfl, j.note_looksLike rfl⟩
  | outOfFuel => exact ⟨rfl, rfl, rfl, rfl⟩

/-- The notes around a program are not seen. -/
theorem execute_body (n : Nat) (program : Block) (i : Interpreter) :
    (execute n program i).1 = (body n program i (i.start program)).1 ∧
      (execute n program i).2.LooksLike (body n program i (i.start program)).2 :=
  closing_looksLike (atTop fun c => Block.exec n c program) (i.withWorld (i.start program))

theorem body_start (n : Nat) (program other : Block) (i : Interpreter) :
    (body n program i (i.start other)).1 = (body n program i (i.start program)).1 ∧
      (body n program i (i.start other)).2.LooksLike (body n program i (i.start program)).2 := by
  have hall := Confines.all (fun _ => True) n
  obtain ⟨hout, hscope, -, hmoves⟩ := hall.block (.top i.limits) program i.globals (i.start other) (i.start program)
    (fun _ _ => trivial) ⟨rfl, fun _ _ => trivial, fun _ _ => rfl⟩
  obtain ⟨es, hes, hes'⟩ := hmoves.events
  have hbegin : (i.start other).output = (i.start program).output :=
    (i.world.output_note rfl).trans (i.world.output_note rfl).symm
  refine ⟨hout, withFrame_looksLike (B := Eq) i ?_ (fun cell => hmoves.agree.read cell trivial) ?_⟩
  · rw [hscope]
    exact .refl Eq _
  · rw [World.output_of_events hes, World.output_of_events hes', hbegin]

variable {P P' P'' : Block} {n n' : Nat} {i : Interpreter}

section Along

variable {statement branch : Statement → Statement → Prop} {block : Block → Block → Prop} {hB : ∀ b, block b b}

theorem execute_along (i : Interpreter)
    (hK : (Kinship.ofBodies statement branch block hB).Along i.limits n n') (h : block P P') :
    (execute n P i).1 = (execute n' P' i).1 ∧ (execute n P i).2.LooksLike (execute n' P' i).2 ∨
      (execute n P i).1 = .outOfFuel ∧ (execute n P i).2.world.output <+: (execute n' P' i).2.world.output := by
  obtain ⟨hout, hseen⟩ := execute_body n P i
  obtain ⟨hout', hseen'⟩ := execute_body n' P' i
  obtain ⟨hstart, hstartSeen⟩ := body_start n' P' P i
  have hboth : Run.CutShort (fun _ => False) (Scope.Akin block) _ _ := hK.block (L := ()) ⟨0, rfl, rfl⟩ h
  have hself : Frame.Rel (Scope.Akin block) ⟨i.globals, i.start P⟩ ⟨i.globals, i.start P⟩ := ⟨.refl _ _, rfl⟩
  rcases hboth.same_or_cut _ _ hself with ⟨hsame, hscope, hworld⟩ | ⟨hcut, hbefore⟩
  · have hresult : (body n P i (i.start P)).1 = (body n' P' i (i.start P)).1 := hsame
    have hlook : (body n P i (i.start P)).2.LooksLike (body n' P' i (i.start P)).2 :=
      withFrame_looksLike i hscope (fun cell => congrArg (fun w : World => w.read cell) hworld)
        (congrArg World.output hworld)
    left
    constructor
    · rw [hout, hresult, hstart, hout']
    · exact hseen.trans (hlook.trans (hstartSeen.trans hseen'.symm))
  · right
    constructor
    · rw [hout]
      exact Outcome.IsCut.outOfFuel hcut
    · rw [hseen.output, hseen'.output, ← hstartSeen.output]
      exact World.Before.output hbefore

end Along

/-- The run of a program ends, with the given result and interpreter. -/
def Ends (i : Interpreter) (program : Block) (r : Except EvalError Signal) (j : Interpreter) : Prop :=
  ∃ n, execute n program i = (.ofExcept r, j)

theorem ends_of_execute {program : Block} {r : Except EvalError Signal}
    (h : (execute n program i).1 = .ofExcept r) : i.Ends program r (execute n program i).2 :=
  ⟨n, Prod.ext h rfl⟩

/-- The run of a program never ends. -/
def Diverges (i : Interpreter) (program : Block) : Prop := ∀ n, (execute n program i).1 = .outOfFuel

section UpTo

variable {Q : Interpreter → Interpreter → Prop}

/-- Whatever the first program does, the second does, and the interpreters that are left are related. -/
structure MirrorsUpTo (Q : Interpreter → Interpreter → Prop) (i : Interpreter) (P P' : Block) : Prop where
  ends : ∀ r j, i.Ends P r j → ∃ j', i.Ends P' r j' ∧ Q j j'
  output : ∀ n, ∃ n', (execute n P i).2.world.output <+: (execute n' P' i).2.world.output

theorem mirrorsUpTo_of_execute (fuel : Nat → Nat) (hQ : ∀ j j', Q j j' → j.world.output = j'.world.output)
    (h : ∀ n, (execute n P i).1 = (execute (fuel n) P' i).1 ∧ Q (execute n P i).2 (execute (fuel n) P' i).2 ∨
      (execute n P i).1 = .outOfFuel ∧ (execute n P i).2.world.output <+: (execute (fuel n) P' i).2.world.output) :
    MirrorsUpTo Q i P P' := by
  constructor
  · rintro r j ⟨n, hn⟩
    rcases h n with ⟨hout, hrel⟩ | ⟨hstuck, -⟩
    · rw [hn] at hout hrel
      exact ⟨(execute (fuel n) P' i).2, ends_of_execute hout.symm, hrel⟩
    · rw [hn] at hstuck
      cases r <;> cases hstuck
  · intro n
    refine ⟨fuel n, ?_⟩
    rcases h n with ⟨-, hrel⟩ | ⟨-, hbefore⟩
    · exact ⟨[], by rw [List.append_nil, hQ _ _ hrel]⟩
    · exact hbefore

theorem MirrorsUpTo.diverges (h : MirrorsUpTo Q i P' P) (hP : i.Diverges P) : i.Diverges P' := by
  have hnot : ∀ r j, ¬ i.Ends P' r j := by
    intro r j hj
    obtain ⟨j', ⟨n, hn⟩, -⟩ := h.ends r j hj
    have hstuck := hP n
    rw [hn] at hstuck
    cases r <;> cases hstuck
  intro n
  rcases hrun : execute n P' i with ⟨r, j⟩
  cases r with
  | done a => exact absurd ⟨n, hrun⟩ (hnot (.ok a) j)
  | failed e => exact absurd ⟨n, hrun⟩ (hnot (.error e) j)
  | outOfFuel => rfl

end UpTo

structure Mirrors (i : Interpreter) (P P' : Block) : Prop where
  ends : ∀ r j, i.Ends P r j → ∃ j', i.Ends P' r j' ∧ j.LooksLike j'
  output : ∀ n, ∃ n', (execute n P i).2.world.output <+: (execute n' P' i).2.world.output

theorem Mirrors.upTo (h : i.Mirrors P P') : MirrorsUpTo LooksLike i P P' := ⟨h.ends, h.output⟩

theorem mirrors_refl (i : Interpreter) (P : Block) : i.Mirrors P P :=
  ⟨fun _ j h => ⟨j, h, rfl, rfl, rfl⟩, fun n => ⟨n, List.prefix_refl _⟩⟩

theorem Mirrors.trans (h : i.Mirrors P P') (h' : i.Mirrors P' P'') : i.Mirrors P P'' := by
  constructor
  · intro r j hj
    obtain ⟨j', hj', hlook⟩ := h.ends r j hj
    obtain ⟨j'', hj'', hlook'⟩ := h'.ends r j' hj'
    exact ⟨j'', hj'', hlook.trans hlook'⟩
  · intro n
    obtain ⟨n', hn'⟩ := h.output n
    obtain ⟨n'', hn''⟩ := h'.output n'
    exact ⟨n'', hn'.trans hn''⟩

theorem Mirrors.diverges (h : i.Mirrors P' P) (hP : i.Diverges P) : i.Diverges P' := h.upTo.diverges hP

/-- Programs that go along with each other, for whatever fuel, mirror each other. -/
theorem mirrors_of_along {statement branch : Statement → Statement → Prop} {block : Block → Block → Prop}
    {hB : ∀ b, block b b} (i : Interpreter) (fuel : Nat → Nat)
    (hK : ∀ n, (Kinship.ofBodies statement branch block hB).Along i.limits n (fuel n)) (h : block P P') :
    i.Mirrors P P' := by
  have hmirrors := mirrorsUpTo_of_execute fuel (fun _ _ hlook => LooksLike.output hlook) fun n => execute_along i (hK n) h
  exact ⟨hmirrors.ends, hmirrors.output⟩

theorem mirrors_of_rephrases (i : Interpreter) (h : Block.Rephrases P P') : i.Mirrors P P' :=
  mirrors_of_along i (4 * ·) (fun n => Kinship.rephrased_along i.limits (Nat.le_refl (4 * n))) h

end Interpreter

/-- However often and wherever a program is rephrased, in a run from any interpreter it ends alike or never ends, puts
out the same, and leaves the same variables and functions to be seen. Tools have no memory, as `Tool` assumes. -/
theorem rephrasing_preserves_runs {P P' : Block} (h : Relation.ReflTransGen Block.Rephrases P P') (i : Interpreter) :
    i.Mirrors P P' ∧ i.Mirrors P' P ∧ (i.Diverges P ↔ i.Diverges P') := by
  have hboth : i.Mirrors P P' ∧ i.Mirrors P' P := by
    induction h with
    | refl => exact ⟨i.mirrors_refl P, i.mirrors_refl P⟩
    | tail _ hstep ih => exact ⟨ih.1.trans (i.mirrors_of_rephrases hstep), (i.mirrors_of_rephrases hstep.symm).trans ih.2⟩
  exact ⟨hboth.1, hboth.2, hboth.2.diverges, hboth.1.diverges⟩

def terse : Block :=
  [.declare "x" none,
    .function "f" [] [
      .ifThen (.binary .lt (.var "x") (.literal 10))
        (.block [.assign "x" (.binary .add (.var "x") (.literal 1)), .evaluate (.call "f" [])]),
      .result (.var "x"), .assign "x" (.literal 5)],
    .evaluate (.call "f" [])]

def verbose : Block :=
  [.declare "x" (some (.literal 0)),
    .function "f" [] [
      .ifElse (.binary .lt (.var "x") (.literal 10))
        (.block [.block [.assign "x" (.binary .add (.var "x") (.literal 1)), .evaluate (.call "f" [])]]) (.block []),
      .result (.var "x")],
    .evaluate (.call "f" [])]

theorem terse_rephrased : Block.Rephrases terse verbose := by
  refine .cons (.zeroAdded "x") (.cons (.function "f" [] ?_) (.refl _))
  exact .cons (.elseAdded _ (.wrapped (.refl _))) (.stop (.var "x") _ _)

theorem terse_runs_alike :
    Relation.ReflTransGen Block.Rephrases terse verbose ∧
      (Interpreter.ofRegistry .standard ⟨some 3, some 20⟩).Mirrors terse verbose ∧
      (Interpreter.ofRegistry .standard ⟨some 3, some 20⟩).Mirrors verbose terse := by
  have hsteps : Relation.ReflTransGen Block.Rephrases terse verbose := .single terse_rephrased
  have hruns := rephrasing_preserves_runs hsteps (.ofRegistry .standard ⟨some 3, some 20⟩)
  exact ⟨hsteps, hruns.1, hruns.2.1⟩

end IntScript
