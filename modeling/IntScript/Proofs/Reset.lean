import IntScript.Interpreter
import IntScript.Proofs.Displaced
import IntScript.Proofs.RephrasedPrograms

set_option autoImplicit false

namespace IntScript

theorem Registry.rootScope_behind (past : World) (registry : Registry) :
    registry.rootScope.behind past = registry.rootScope := by
  have hfuns : (registry.tools.map Callable.native).map (·.behind past) = registry.tools.map Callable.native := by
    unfold Table.map
    rw [List.map_map]
    rfl
  rw [Scope.behind_eq]
  exact congrArg (Scope.mk .empty) hfuns

open Attempt

namespace Interpreter

variable {α : Type}

def behind (past : World) (i : Interpreter) : Interpreter :=
  ⟨i.root.behind past, i.globals.behind past, i.limits, i.world.behind past⟩

abbrev Displaced {ε : Type} (past : World) (m : Attempt ε Interpreter α) : Prop := Carries Eq (behind past) m m

variable (past : World)

theorem displaced_note (e : Event) : Displaced past (note e) :=
  ⟨fun _ => .done (), fun i => congrArg (i.behind past).withWorld (i.world.note_behind past e)⟩

variable {past}

theorem displaced_atTop {m : Context → Run α} (hm : ∀ c, Run.Displaced past (m c)) : Displaced past (atTop m) := by
  constructor
  · intro i
    exact (hm (.top i.limits)).outcome ⟨i.globals, i.world⟩
  · intro i
    have hframe := (hm (.top i.limits)).state ⟨i.globals, i.world⟩
    exact congrArg (fun f : Frame => Interpreter.mk (i.root.behind past) f.scope i.limits f.world) hframe

theorem Displaced.closing {m : Interpret α} (hm : Displaced past m) : Displaced past (closing m) := by
  apply carries_of_each
  intro i
  have hrun : m (i.behind past) = ((m i).1, (m i).2.behind past) :=
    Prod.ext (hm.outcome i).eq.symm (hm.state i)
  unfold Interpreter.closing
  rw [hrun]
  rcases m i with ⟨a | e | _, j⟩
  · exact ⟨.done a, congrArg (j.behind past).withWorld (j.world.note_behind past _)⟩
  · exact ⟨.failed rfl, congrArg (j.behind past).withWorld (j.world.note_behind past _)⟩
  · exact ⟨.outOfFuel, rfl⟩

variable (past)

theorem displaced_execute (n : Nat) (program : Block) : Displaced past (execute n program) := by
  apply (displaced_note past _).bind
  intro _
  apply Displaced.closing
  apply displaced_atTop
  intro c
  exact Block.displaced past n c program

theorem displaced_run (n : Nat) (source : String) : Displaced past (run n source) := by
  unfold run
  cases parseProgram source with
  | error e => exact ⟨fun _ => .failed rfl, fun _ => rfl⟩
  | ok program => exact (displaced_execute past n program).mapError fun _ _ h => h ▸ rfl

theorem values_behind (i : Interpreter) : (i.behind past).values = i.values := by
  change (i.globals.behind past).vars.entries.map (fun p => (p.1, (i.world.behind past).read p.2)) =
    i.globals.vars.entries.map (fun p => (p.1, i.world.read p.2))
  rw [Scope.vars_behind]
  exact Table.entries_map_eq _ fun cell => i.world.read_behind past cell

theorem arities_behind (i : Interpreter) : (i.behind past).arities = i.arities := by
  change (i.globals.behind past).funs.entries.map (fun p => (p.1, p.2.arity)) =
    i.globals.funs.entries.map (fun p => (p.1, p.2.arity))
  rw [Scope.funs_behind]
  exact Table.entries_map_eq _ fun g => g.arity_behind past

/-- The first run ends as the second and shows the same, with the past in front of what the second puts out. -/
structure Repeats {ε : Type} (past : World) (used fresh : Outcome ε Signal × Interpreter) : Prop where
  outcome : used.1 = fresh.1
  events : used.2.world.events = past.events ++ fresh.2.world.events
  output : used.2.world.output = past.output ++ fresh.2.world.output
  values : used.2.values = fresh.2.values
  arities : used.2.arities = fresh.2.arities

variable {past}

theorem Displaced.repeats {ε : Type} {m : Attempt ε Interpreter Signal} (hm : Displaced past m) (i : Interpreter) :
    Repeats past (m (i.behind past)) (m i) := by
  have hstate := hm.state i
  have hevents : (m (i.behind past)).2.world.events = past.events ++ (m i).2.world.events := by
    rw [hstate]
    rfl
  exact {
    outcome := (hm.outcome i).eq.symm
    events := hevents
    output := World.output_of_events hevents
    values := by rw [hstate, values_behind]
    arities := by rw [hstate, arities_behind] }

/-- What can be done with an interpreter. A function or a cell need not be one that is in sight. -/
inductive Operation where
  | execute (fuel : Nat) (program : Block)
  | run (fuel : Nat) (source : String)
  | statement (fuel : Nat) (st : Statement)
  | expression (fuel : Nat) (e : Expression)
  | call (fuel : Nat) (f : String) (args : List Value)
  | invoke (fuel : Nat) (callee : Callable) (args : List Value)
  | get (x : String)
  | set (x : String) (v : Value)
  | write (cell : Cell) (v : Value)
  | limit (limits : Limits)
  | flush
  | reset

/-- The interpreter after an operation, whether or not it failed or was broken off. -/
def Operation.apply (i : Interpreter) : Operation → Interpreter
  | .execute n program => (i.execute n program).2
  | .run n source => (i.run n source).2
  | .statement n st => (i.statement n st).2
  | .expression n e => (i.expression n e).2
  | .call n f args => (i.call n f args).2
  | .invoke n callee args => (i.atTop fun c => Run.within fun _ => Callable.invoke n c callee args).2
  | .get x => (i.get x).2
  | .set x v => (i.set x v).2
  | .write cell v => i.withWorld (i.world.write cell v)
  | .limit limits => i.withLimits limits
  | .flush => i.flush.2
  | .reset => i.reset

def after (i : Interpreter) (history : List Operation) : Interpreter := history.foldl Operation.apply i

theorem root_closing (m : Interpret α) (i : Interpreter) : (closing m i).2.root = (m i).2.root := by
  unfold closing
  rcases m i with ⟨a | e | _, j⟩ <;> rfl

theorem root_execute (n : Nat) (program : Block) (i : Interpreter) : (execute n program i).2.root = i.root :=
  root_closing (atTop fun c => Block.exec n c program) (i.withWorld (i.start program))

theorem root_run (n : Nat) (source : String) (i : Interpreter) : (run n source i).2.root = i.root := by
  unfold run
  cases parseProgram source with
  | error e => rfl
  | ok program => exact root_execute n program i

theorem Operation.root_apply (i : Interpreter) (op : Operation) : (op.apply i).root = i.root := by
  cases op with
  | execute n program => exact root_execute n program i
  | run n source => exact root_run n source i
  | _ => rfl

theorem root_after (i : Interpreter) (history : List Operation) : (i.after history).root = i.root := by
  induction history generalizing i with
  | nil => rfl
  | cons op rest ih =>
    calc ((op.apply i).after rest).root = (op.apply i).root := ih (op.apply i)
      _ = i.root := op.root_apply i

/-- A new interpreter reaches no cell, so behind a past it only has the past as its world. -/
theorem ofRegistry_behind (past : World) (registry : Registry) (limits : Limits) :
    (ofRegistry registry limits).behind past = (ofRegistry registry limits).withWorld past := by
  unfold behind ofRegistry withWorld
  dsimp only
  rw [← Scope.child_behind, registry.rootScope_behind, World.empty_behind]

theorem reset_after (registry : Registry) (limits limits' : Limits) (history : List Operation) :
    ((ofRegistry registry limits).after history).reset.withLimits limits' =
      (ofRegistry registry limits').behind ((ofRegistry registry limits).after history).world := by
  have hroot := root_after (ofRegistry registry limits) history
  rw [ofRegistry_behind]
  unfold reset withLimits
  rw [hroot]
  rfl

/-- After any history and a reset, every program and every text runs as on a new interpreter with the same tools and
limits: it ends alike, puts out the same from then on, and leaves the same variables and functions to be seen. The
tools are kept, so this needs that they have no memory, as `Tool` assumes: one that counted its calls would go on
counting behind the reset. -/
theorem reset_forgets (registry : Registry) (limits limits' : Limits) (history : List Operation) (n : Nat) :
    let used := ((ofRegistry registry limits).after history).reset.withLimits limits'
    let fresh := ofRegistry registry limits'
    (∀ program, Repeats used.world (execute n program used) (execute n program fresh)) ∧
      ∀ source, Repeats used.world (run n source used) (run n source fresh) := by
  intro used fresh
  have hused : used = fresh.behind used.world := reset_after registry limits limits' history
  constructor
  · intro program
    have h := (displaced_execute used.world n program).repeats fresh
    rw [← hused] at h
    exact h
  · intro source
    have h := (displaced_run used.world n source).repeats fresh
    rw [← hused] at h
    exact h

end Interpreter

end IntScript
