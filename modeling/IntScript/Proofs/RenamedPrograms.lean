import IntScript.Proofs.Failure
import IntScript.Proofs.LimitLaws
import IntScript.Proofs.Motion
import IntScript.Proofs.NotedEvents
import Mathlib.Logic.Equiv.Basic

set_option autoImplicit false

/-! # Renamed programs

Evaluation of a renamed program does what that of the program does, renamed, with the same fuel, and reaches what the
program reaches, renamed. An error that evaluation raises comes renamed. An error that a tool reports comes as the tool
reports it, for a tool knows nothing of the renaming. -/

namespace IntScript

open Attempt

theorem Callable.moved_rename (ρ : Renaming) (g : Callable) : g.moved ρ (Scope.rename ρ) = g.rename ρ := by
  rcases g with tool | ⟨decl, scope⟩ <;> rfl

/-- Names change, and cells stay. Which errors come of it is left open. -/
def Motion.renamed (ρ : Renaming) : Motion where
  names := ρ
  error _ _ := True
  cell := id
  scope := Scope.rename ρ
  world := World.rename ρ
  error_refl _ := trivial
  error_rename _ := trivial
  lookupCell s x := .of_mapError (fun _ => trivial) (s.cell_rename ρ x)
  lookupCallable s f := by
    simp only [Callable.moved_rename]
    exact .of_mapError (fun _ => trivial) (s.callable_rename ρ f)
  child s := (s.child_rename ρ).symm
  declareVariable s x cell := .of_mapError (fun _ => trivial) (s.declareVariable_rename ρ x cell)
  declareFunction s d := by
    rw [← Scope.user_rename]
    exact .of_mapError (fun _ => trivial) (s.declareFunction_rename ρ d.name _)
  entryScope closure := by
    obtain ⟨decl, scope⟩ := closure
    exact (Closure.entryScope_rename ρ ⟨decl, scope⟩).symm
  read _ _ := rfl
  write _ _ _ := rfl
  nextCell _ := rfl
  add _ _ := rfl
  noteAll w es := (w.noteAll_rename ρ es).symm

def Task.rename (ρ : Renaming) : Task → Task
  | .expression e => .expression (e.rename ρ)
  | .arguments i es => .arguments i (Expression.renameAll ρ es)
  | .invocation f args => .invocation (ρ.function f) args
  | .parameters d i rest => .parameters (d.rename ρ) i (rest.map fun p => (ρ.var p.1, p.2))
  | .statement st => .statement (st.rename ρ)
  | .statements i b => .statements i (Block.rename ρ b)
  | .branch st => .branch (st.rename ρ)
  | .iteration e st k => .iteration (e.rename ρ) (st.rename ρ) k

def Config.rename (ρ : Renaming) (g : Config) : Config :=
  ⟨g.place, g.fuel, g.context, g.scope.rename ρ, g.world.rename ρ, g.task.rename ρ⟩

section Reached

variable (ρ : Renaming) {n : Nat} {c : Context} {s : Scope} {w w' : World}

theorem Expression.eval_rename {e : Expression} {v : Value} (h : Expression.eval n c s e w = (.done v, w')) :
    Expression.eval n c (s.rename ρ) (e.rename ρ) (w.rename ρ) = (.done v, w'.rename ρ) :=
  ((Motion.renamed ρ).carries_eval n c s e).apply_done h

theorem Expression.evalAll_rename {es : List Expression} {vs : List Value}
    (h : Expression.evalAll n c s es w = (.done vs, w')) :
    Expression.evalAll n c (s.rename ρ) (Expression.renameAll ρ es) (w.rename ρ) = (.done vs, w'.rename ρ) :=
  ((Motion.renamed ρ).carries_evalAll n c s es).apply_done h

theorem Statement.exec_rename {st : Statement} {signal : Signal} {f f' : Frame}
    (h : Statement.exec n c st f = (.done signal, f')) :
    Statement.exec n c (st.rename ρ) (f.rename ρ) = (.done signal, f'.rename ρ) :=
  ((Motion.renamed ρ).carries_statement n c st).apply_done h

theorem Statement.execChild_rename {st : Statement} {signal : Signal}
    (h : Statement.execChild n c s st w = (.done signal, w')) :
    Statement.execChild n c (s.rename ρ) (st.rename ρ) (w.rename ρ) = (.done signal, w'.rename ρ) :=
  ((Motion.renamed ρ).carries_child n c s st).apply_done h

theorem Calls.rename {g h : Config} (hc : Calls g h) : Calls (g.rename ρ) (h.rename ρ) := by
  cases hc with
  | left => exact .left
  | right hl ha => exact .right (Expression.eval_rename ρ hl) ha
  | arguments => exact .arguments
  | argument => exact .argument
  | nextArgument he => exact .nextArgument (Expression.eval_rename ρ he)
  | invocation hargs => exact .invocation (Expression.evalAll_rename ρ hargs)
  | parameter hx => exact .parameter (Scope.declareVariable_rename_ok ρ hx)
  | body => exact .body
  | @block p n c s w b =>
    rw [Config.rename, Config.rename, ← Scope.child_rename]
    exact .block
  | initial => exact .initial
  | evaluate => exact .evaluate
  | loop => exact .loop
  | condition => exact .condition
  | consequent he hv => exact .consequent (Expression.eval_rename ρ he) hv
  | choice => exact .choice
  | first he hv => exact .first (Expression.eval_rename ρ he) hv
  | second he hv => exact .second (Expression.eval_rename ρ he) hv
  | assigned hx => exact .assigned (Scope.cell_rename_ok ρ hx)
  | result => exact .result
  | statement => exact .statement
  | nextStatement hst => exact .nextStatement (Statement.exec_rename ρ hst)
  | branchBlock =>
    rw [Config.rename, Config.rename, ← Scope.child_rename]
    exact .branchBlock
  | branchStatement hst =>
    rw [Config.rename, Config.rename, ← Scope.child_rename]
    exact .branchStatement (Statement.rename_ne_block hst)
  | loopCondition => exact .loopCondition
  | loopBody he hv hk => exact .loopBody (Expression.eval_rename ρ he) hv hk
  | nextIteration he hv hk hb =>
    exact .nextIteration (Expression.eval_rename ρ he) hv hk (Statement.execChild_rename ρ hb)

theorem Enters.rename {q : Place} {closure : Closure} {g h : Config} (he : Enters q closure g h) :
    Enters q (closure.rename ρ) (g.rename ρ) (h.rename ρ) := by
  obtain ⟨decl, captured⟩ := closure
  cases he with
  | @intro p n c s w f args d hf hargs hd =>
    -- parameters are renamed before they meet their arguments
    have hpairs : (decl.params.zip args).map (fun p => (ρ.var p.1, p.2)) = (decl.params.map ρ.var).zip args := by
      rw [List.zip_map_left]
      rfl
    rw [Config.rename, Config.rename, Task.rename, Task.rename]
    dsimp only
    rw [hpairs, ← Closure.entryScope_rename, World.note_rename]
    exact .intro (Scope.callable_rename_ok ρ hf) ((List.length_map _).trans hargs) hd

theorem Config.Makes.rename {g : Config} {closure : Closure} (h : g.Makes closure) :
    (g.rename ρ).Makes (closure.rename ρ) := by
  obtain ⟨decl, captured⟩ := closure
  obtain ⟨htask, hscope⟩ := h
  dsimp only at htask hscope
  subst hscope
  refine ⟨?_, (g.scope.child_rename ρ).symm⟩
  rw [Config.rename, htask]
  rfl

theorem Reached.rename {start g : Config} (hg : Reached start g) : Reached (start.rename ρ) (g.rename ρ) := by
  induction hg with
  | start => exact .start
  | calls _ hc ih => exact ih.calls (hc.rename ρ)
  | enters _ _ hmade he ihg ihm => exact ihg.enters ihm (hmade.rename ρ) (he.rename ρ)

end Reached

/-- All tools that the scope leads to are those of the registry. -/
inductive Scope.Equipped (registry : Registry) : Scope → Prop
  | intro {s : Scope} (hnative : ∀ f tool, s.funs.lookup? f = some (.native tool) → registry.Offers tool)
      (huser : ∀ f closure, s.funs.lookup? f = some (.user closure) → Equipped registry closure.scope) :
      Equipped registry s

def Callable.Equipped (registry : Registry) : Callable → Prop
  | .native tool => registry.Offers tool
  | .user closure => closure.scope.Equipped registry

namespace Scope.Equipped

variable {registry : Registry} {s t : Scope}

theorem callable {f : String} {g : Callable} (h : s.Equipped registry) (hf : s.callable f = .ok g) :
    g.Equipped registry := by
  have hf := Scope.callable_eq_ok.1 hf
  cases h with
  | intro hnative huser =>
    cases g with
    | native tool => exact hnative f tool hf
    | user closure => exact huser f closure hf

theorem of_callable (h : ∀ f g, s.callable f = .ok g → g.Equipped registry) : s.Equipped registry := by
  constructor
  · intro f tool hf
    exact h f (.native tool) (Scope.callable_eq_ok.2 hf)
  · intro f closure hf
    exact h f (.user closure) (Scope.callable_eq_ok.2 hf)

theorem of_funs (h : s.Equipped registry) (hfuns : t.funs.lookup? = s.funs.lookup?) : t.Equipped registry := by
  apply of_callable
  intro f g hf
  rw [Scope.callable_eq_ok, hfuns] at hf
  exact h.callable (Scope.callable_eq_ok.2 hf)

theorem child (h : s.Equipped registry) : s.child.Equipped registry := h.of_funs rfl

theorem of_bind {f : String} {g : Callable} (h : s.Equipped registry) (hg : g.Equipped registry)
    (hfuns : t.funs.lookup? = (s.funs.bind f g).lookup?) : t.Equipped registry := by
  apply of_callable
  intro f' g' hf
  rw [Scope.callable_eq_ok, hfuns, Table.lookup?_bind] at hf
  by_cases heq : f' = f
  · rw [if_pos heq] at hf
    cases hf
    exact hg
  · rw [if_neg heq] at hf
    exact h.callable (Scope.callable_eq_ok.2 hf)

theorem entryScope {closure : Closure} (h : closure.scope.Equipped registry) : closure.entryScope.Equipped registry :=
  h.of_bind (f := closure.decl.name) (g := .user closure) h rfl

theorem declares {st : Statement} (h : s.Equipped registry) (hd : s.Declares st t) : t.Equipped registry := by
  cases st with
  | declare x init =>
    obtain ⟨cell, hx⟩ := hd
    obtain ⟨-, rfl⟩ := Scope.declareVariable_eq_ok.1 hx
    exact h.of_funs rfl
  | function f params b =>
    obtain ⟨-, rfl⟩ := Scope.declareFunction_eq_ok.1 hd
    have hclosure : (Callable.user ⟨⟨f, params, b⟩, s.child⟩).Equipped registry := h.child
    exact h.of_bind hclosure rfl
  | _ =>
    obtain rfl : t = s := hd
    exact h

end Scope.Equipped

theorem Registry.rootScope_equipped (registry : Registry) : registry.rootScope.child.Equipped registry := by
  constructor
  · intro f tool hf
    change (registry.tools.map Callable.native).lookup? f = some (.native tool) at hf
    rw [Table.lookup?_map] at hf
    obtain ⟨tool', hlookup, heq⟩ := Option.map_eq_some_iff.1 hf
    cases heq
    exact ⟨f, hlookup⟩
  · intro f closure hf
    exact absurd hf (Config.ofProgram_native registry .unlimited [] 0 f closure)

/-- All scopes that a run reaches have the tools of the registry only. -/
theorem Reached.equipped {registry : Registry} {start g : Config} (hstart : start.scope.Equipped registry)
    (hg : Reached start g) : g.scope.Equipped registry := by
  induction hg with
  | start => exact hstart
  | calls _ hc ih =>
    cases hc with
    | parameter hx =>
      obtain ⟨-, rfl⟩ := Scope.declareVariable_eq_ok.1 hx
      exact ih.of_funs rfl
    | nextStatement hst => exact ih.declares (Statement.exec_declares hst)
    | block => exact ih.child
    | branchBlock => exact ih.child
    | branchStatement => exact ih.child
    | _ => exact ih
  | enters _ _ _ he ih _ =>
    cases he with
    | intro hf _ _ => exact Scope.Equipped.entryScope (ih.callable hf)

/-- The configuration calls a tool, and the tool reports the error. -/
inductive Config.Reports (registry : Registry) : Config → EvalError → Prop
  | intro {p n c s w f args tool e} (hf : s.callable f = .ok (.native tool)) (htool : registry.Offers tool)
      (hargs : (Callable.native tool).checkArity args = .ok ()) (he : (tool.act args).2 = .error e) :
      Reports registry ⟨p, n + 1, c, s, w, .invocation f args⟩ e

/-- The run comes to a tool that reports the error. -/
def Config.MeetsReport (registry : Registry) (start : Config) (e : EvalError) : Prop :=
  ∃ g, Reached start g ∧ g.Reports registry e

/-- Left as it is if a tool that the run came to has reported it, and renamed if not. -/
def EvalError.Renamed (ρ : Renaming) (registry : Registry) (start : Config) (e e' : EvalError) : Prop :=
  start.MeetsReport registry e ∧ e' = e ∨ ¬ start.MeetsReport registry e ∧ e' = e.rename ρ

variable {ρ : Renaming} {registry : Registry}

theorem BinaryOp.combine_rename {op : BinaryOp} {a b : Value} {e : EvalError} (h : op.combine a b = .error e) :
    e.rename ρ = e := by
  cases op with
  | div =>
    rw [BinaryOp.combine] at h
    split at h
    · cases h
      rfl
    · cases h
  | mod =>
    rw [BinaryOp.combine] at h
    split at h
    · cases h
      rfl
    · cases h
  | _ => cases h

theorem Limits.checkIterations_rename {l : Limits} {k : Nat} {e : EvalError} (h : l.checkIterations k = .error e) :
    e.rename ρ = e := by
  obtain ⟨limit, rfl⟩ := Limits.guard_eq_error h
  rfl

theorem Context.enter_rename {c : Context} {e : EvalError} (h : c.enter = .error e) : e.rename ρ = e := by
  change (c.limits.checkDepth (c.depth + 1) >>= fun _ => Except.ok (Context.mk c.limits (c.depth + 1))) = _ at h
  cases hcheck : c.limits.checkDepth (c.depth + 1) with
  | ok u =>
    rw [hcheck] at h
    cases h
  | error e' =>
    rw [hcheck] at h
    cases h
    obtain ⟨limit, rfl⟩ := Limits.guard_eq_error hcheck
    rfl

theorem Callable.checkArity_rename (hfix : ρ.Fixes registry) {g : Callable} (hg : g.Equipped registry)
    (args : List Value) :
    (g.rename ρ).checkArity args = ((g.checkArity args).map id).mapError (EvalError.rename ρ) := by
  have harity : (g.rename ρ).arity = g.arity := by
    rcases g with tool | ⟨decl, scope⟩
    · rfl
    · exact congrArg some (List.length_map _)
  have hname : (g.rename ρ).name = ρ.function g.name := by
    rcases g with tool | ⟨decl, scope⟩
    · obtain ⟨f, hf⟩ := hg
      exact (hfix f tool hf).2.symm
    · rfl
  unfold Callable.checkArity
  rw [harity, hname]
  cases g.arity with
  | none => rfl
  | some expected =>
    dsimp only
    split <;> rfl

def Check.rename (ρ : Renaming) : Check → Check
  | .cell x => .cell (ρ.var x)
  | .callable f => .callable (ρ.function f)
  | .arity f args => .arity (ρ.function f) args
  | .declareVariable x a => .declareVariable (ρ.var x) a
  | .declareFunction f item => .declareFunction (ρ.function f) (item.rename ρ)

namespace Scope

theorem errorOf_rename {α β : Type} (r : Except EvalError α) (view : α → β) :
    errorOf ((r.map view).mapError (EvalError.rename ρ)) = (errorOf r).map (EvalError.rename ρ) := by
  cases r <;> rfl

theorem fault_rename (hfix : ρ.Fixes registry) {s : Scope} (hs : s.Equipped registry) (k : Check) :
    (s.rename ρ).fault (k.rename ρ) = (s.fault k).map (EvalError.rename ρ) := by
  cases k with
  | cell x => rw [Check.rename, fault, cell_rename, errorOf_rename, fault]
  | callable f => rw [Check.rename, fault, callable_rename, errorOf_rename, fault]
  | arity f args =>
    simp only [Check.rename, fault, callable_rename]
    cases hf : s.callable f with
    | error e => rfl
    | ok g =>
      change errorOf ((g.rename ρ).checkArity args) = _
      rw [Callable.checkArity_rename hfix (hs.callable hf), errorOf_rename]
  | declareVariable x cell => rw [Check.rename, fault, declareVariable_rename, errorOf_rename, fault]
  | declareFunction f item => rw [Check.rename, fault, declareFunction_rename, errorOf_rename, fault]

end Scope

namespace Config

variable {g : Config} {e : EvalError}

theorem Performs.rename {k : Check} (h : g.Performs k) : (g.rename ρ).Performs (k.rename ρ) := by
  cases h with
  | read => exact .read
  | lookup => exact .lookup
  | arity hf => exact .arity (Scope.callable_rename_ok ρ hf)
  | parameter => exact .parameter
  | definition =>
    rw [Check.rename, Scope.user_rename]
    exact .definition
  | declaration => exact .declaration
  | @initialized p n c s w x init v w' he =>
    have hnext : (w'.rename ρ).nextCell = w'.nextCell := rfl
    rw [Check.rename, ← hnext]
    exact .initialized (Expression.eval_rename ρ he)
  | assignment => exact .assignment

theorem Reports.rename (h : g.Reports registry e) : (g.rename ρ).Raises e := by
  cases h with
  | intro hf _ hargs he => exact .inr (.tool (Scope.callable_rename_ok ρ hf) hargs he)

/-- No operator and no limit names anything. -/
theorem Stops.rename (hfix : ρ.Fixes registry) (hs : g.scope.Equipped registry) (h : g.Stops e) :
    g.Reports registry e ∨ (g.rename ρ).Raises (e.rename ρ) := by
  cases h with
  | operator hl ha hr he =>
    right
    rw [BinaryOp.combine_rename he]
    exact .inr (.operator (Expression.eval_rename ρ hl) ha (Expression.eval_rename ρ hr) he)
  | tool hf hargs he => exact .inl (.intro hf (hs.callable hf) hargs he)
  | @depth p n c s w f args closure e hf hargs he =>
    right
    have harity := Callable.checkArity_rename hfix (hs.callable hf) args
    rw [hargs] at harity
    rw [Context.enter_rename he]
    exact .inr (.depth (Scope.callable_rename_ok ρ hf) harity he)
  | iterations hc hv he =>
    right
    rw [Limits.checkIterations_rename he]
    exact .inr (.iterations (Expression.eval_rename ρ hc) hv he)

theorem Raises.rename (hfix : ρ.Fixes registry) (hs : g.scope.Equipped registry) (h : g.Raises e) :
    g.Reports registry e ∨ (g.rename ρ).Raises (e.rename ρ) := by
  rcases h with ⟨k, hk, he⟩ | h
  · right
    refine .of_check hk.rename ?_
    change (g.scope.rename ρ).fault (k.rename ρ) = _
    rw [Scope.fault_rename hfix hs, he]
    rfl
  · exact h.rename hfix hs

theorem ofProgram_rename (hfix : ρ.Fixes registry) (limits : Limits) (program : Block) (n : Nat) :
    (ofProgram registry limits program n).rename ρ = ofProgram registry limits (Block.rename ρ program) n := by
  have hempty : World.empty.rename ρ = World.empty := by simp [World.rename, World.empty]
  have hstart := World.empty.note_rename ρ (.started program.length)
  rw [hempty] at hstart
  simp only [rename, ofProgram, Task.rename, registry.rootScope_rename hfix, hstart, Block.length_rename, Event.rename]

end Config

theorem World.output_rename (ρ : Renaming) (w : World) : (w.rename ρ).output = w.output := by
  have houtput : ∀ e : Event, (e.rename ρ).output? = e.output? := by
    intro e
    cases e <;> rfl
  simp [output, rename, List.filterMap_map, houtput]

theorem Outcome.ending_rename {E : EvalError → EvalError → Prop} {r r' : Outcome EvalError Signal}
    (h : Outcome.Alike E r r') : r'.ending = r.ending.map (Event.rename ρ) := by
  cases h <;> rfl

theorem Outcome.Alike.eq_mapError {start : Config} {r r' : Outcome EvalError Signal}
    (h : Outcome.Alike (EvalError.Renamed ρ registry start) r r')
    (hreports : ∀ e, start.MeetsReport registry e → e.rename ρ = e) :
    r' = r.mapError (EvalError.rename ρ) := by
  cases h with
  | done signal => rfl
  | outOfFuel => rfl
  | @failed e e' h =>
    rcases h with ⟨hreported, rfl⟩ | ⟨-, rfl⟩
    · exact congrArg Outcome.failed (hreports e' hreported).symm
    · rfl

namespace Interpreter

variable (limits : Limits) (program : Block) (n : Nat)

theorem execute_rename (hfix : ρ.Fixes registry) :
    Outcome.Alike (fun _ _ => True) (execute n program (.ofRegistry registry limits)).1
        (execute n (Block.rename ρ program) (.ofRegistry registry limits)).1 ∧
      (execute n (Block.rename ρ program) (.ofRegistry registry limits)).2 =
        (execute n program (.ofRegistry registry limits)).2.rename ρ := by
  have hstart := Config.ofProgram_rename hfix limits program n
  have hframe : (Motion.renamed ρ).frame ⟨registry.rootScope.child, (ofRegistry registry limits).start program⟩ =
      ⟨registry.rootScope.child, (ofRegistry registry limits).start (Block.rename ρ program)⟩ :=
    congrArg₂ Frame.mk (congrArg Config.scope hstart) (congrArg Config.world hstart)
  have hblock := (Motion.renamed ρ).carries_block n (.top limits) program
  have hout := hblock.outcome ⟨registry.rootScope.child, (ofRegistry registry limits).start program⟩
  have hstate := hblock.state ⟨registry.rootScope.child, (ofRegistry registry limits).start program⟩
  rw [hframe] at hout hstate
  rcases hrun : Block.exec n (.top limits) program
    ⟨registry.rootScope.child, (ofRegistry registry limits).start program⟩ with ⟨r, f⟩
  rcases hrun' : Block.exec n (.top limits) (Block.rename ρ program)
    ⟨registry.rootScope.child, (ofRegistry registry limits).start (Block.rename ρ program)⟩ with ⟨r', f'⟩
  change Block.exec n (.top limits) (Block.rename (Motion.renamed ρ).names program) _ = _ at hrun'
  rw [hrun, hrun'] at hout hstate
  obtain rfl : f' = f.rename ρ := hstate
  obtain ⟨hfirst, hend⟩ := execute_apply n program (.ofRegistry registry limits) hrun
  obtain ⟨hfirst', hend'⟩ := execute_apply n (Block.rename ρ program) (.ofRegistry registry limits) hrun'
  rw [hfirst, hfirst', hend, hend', Outcome.ending_rename hout]
  refine ⟨hout, congrArg (fun w => Interpreter.mk registry.rootScope (f.scope.rename ρ) limits w) ?_⟩
  exact (f.world.noteAll_rename ρ r.ending).symm

/-- An error is raised where the program raises its own. -/
theorem execute_failed_rename (hfix : ρ.Fixes registry) {e : EvalError}
    (h : (execute n program (.ofRegistry registry limits)).1 = .failed e) :
    ∃ e', (execute n (Block.rename ρ program) (.ofRegistry registry limits)).1 = .failed e' ∧
      EvalError.Renamed ρ registry (.ofProgram registry limits program n) e e' := by
  have hreached : ∀ g, Reached (.ofProgram registry limits program n) g →
      Reached (.ofProgram registry limits (Block.rename ρ program) n) (g.rename ρ) := by
    intro g hg
    rw [← Config.ofProgram_rename hfix]
    exact hg.rename ρ
  by_cases hreport : (Config.ofProgram registry limits program n).MeetsReport registry e
  · obtain ⟨g, hg, hreports⟩ := hreport
    exact ⟨e, (execute_failed_iff _ _ _ _ _).2 ⟨_, hreached g hg, hreports.rename⟩, .inl ⟨⟨g, hg, hreports⟩, rfl⟩⟩
  · obtain ⟨g, hg, he⟩ := (execute_failed_iff registry limits program n e).1 h
    have hraised := (he.rename hfix (hg.equipped registry.rootScope_equipped)).resolve_left fun hreports =>
      hreport ⟨g, hg, hreports⟩
    exact ⟨e.rename ρ, (execute_failed_iff _ _ _ _ _).2 ⟨_, hreached g hg, hraised⟩, .inr ⟨hreport, rfl⟩⟩

theorem execute_alike (hfix : ρ.Fixes registry) :
    Outcome.Alike (EvalError.Renamed ρ registry (.ofProgram registry limits program n))
      (execute n program (.ofRegistry registry limits)).1
      (execute n (Block.rename ρ program) (.ofRegistry registry limits)).1 := by
  have hends := (execute_rename limits program n hfix).1
  have hfailed := fun e => execute_failed_rename (e := e) limits program n hfix
  generalize (execute n program (.ofRegistry registry limits)).1 = r at hends hfailed ⊢
  generalize (execute n (Block.rename ρ program) (.ofRegistry registry limits)).1 = r' at hends hfailed ⊢
  cases hends with
  | done signal => exact .done signal
  | outOfFuel => exact .outOfFuel
  | failed _ =>
    obtain ⟨e', he', hrenamed⟩ := hfailed _ rfl
    cases he'
    exact .failed hrenamed

end Interpreter

open Interpreter

/-- Names mean nothing but what they are bound to, and variables and functions have names of their own: a renamed
program does what the program does, renamed. Tools have no memory, as `Tool` assumes, and their errors are among those
of evaluation; so an error of theirs may name something of the program, and comes as it was reported. -/
theorem renaming_preserves_runs (ρ : Renaming) {registry : Registry} (hfix : ρ.Fixes registry) (limits : Limits)
    (program : Block) (n : Nat) :
    Outcome.Alike (EvalError.Renamed ρ registry (.ofProgram registry limits program n))
        (execute n program (.ofRegistry registry limits)).1
        (execute n (Block.rename ρ program) (.ofRegistry registry limits)).1 ∧
      (execute n (Block.rename ρ program) (.ofRegistry registry limits)).2 =
        (execute n program (.ofRegistry registry limits)).2.rename ρ ∧
      (execute n (Block.rename ρ program) (.ofRegistry registry limits)).2.world.output =
        (execute n program (.ofRegistry registry limits)).2.world.output ∧
      ((∀ e, (Config.ofProgram registry limits program n).MeetsReport registry e → e.rename ρ = e) →
        (execute n (Block.rename ρ program) (.ofRegistry registry limits)).1 =
          (execute n program (.ofRegistry registry limits)).1.mapError (EvalError.rename ρ)) := by
  have hstate := (execute_rename limits program n hfix).2
  have hout := execute_alike limits program n hfix
  refine ⟨hout, hstate, ?_, hout.eq_mapError⟩
  rw [hstate]
  exact World.output_rename ρ _

def crossed : Renaming where
  var := Equiv.swap "x" "y"
  function := Equiv.swap "x" "z"
  var_injective := (Equiv.swap "x" "y").injective
  function_injective := (Equiv.swap "x" "z").injective

def oneName : Block :=
  [.declare "x" (some (.literal 1)), .function "x" ["x"] [.assign "x" (.literal 2), .result (.var "x")],
    .evaluate (.call "println" [.call "x" [.literal 3], .var "x"]), .evaluate (.call "x" [])]

theorem oneName_crossed :
    crossed.Fixes .standard ∧
      (execute 20 (Block.rename crossed oneName) (.ofRegistry .standard .unlimited)).1 =
        .failed (.arityMismatch "z" 1 0) ∧
      (execute 20 (Block.rename crossed oneName) (.ofRegistry .standard .unlimited)).2.world.output =
        [.line [2, 1]] := by
  have htools : ∀ f tool, Registry.standard.tools.lookup? f = some tool → f = "println" ∧ tool = .println := by
    intro f tool hf
    change (Table.bind .empty "println" Tool.println).lookup? f = some tool at hf
    rw [Table.lookup?_bind] at hf
    split at hf
    · next heq => exact ⟨heq, (Option.some.inj hf).symm⟩
    · cases hf
  have hkept : crossed.function "println" = "println" := Equiv.swap_apply_of_ne_of_ne (by decide) (by decide)
  have hfix : crossed.Fixes .standard := by
    intro f tool hf
    obtain ⟨rfl, rfl⟩ := htools f tool hf
    exact ⟨hkept, hkept⟩
  have hsilent : ∀ e, (Config.ofProgram .standard .unlimited oneName 20).MeetsReport .standard e →
      e.rename crossed = e := by
    rintro e ⟨_, -, -, ⟨f, htool⟩, -, he⟩
    obtain ⟨-, rfl⟩ := htools f _ htool
    cases he
  have hplain : (execute 20 oneName (.ofRegistry .standard .unlimited)).1 = .failed (.arityMismatch "x" 1 0) := rfl
  have hname : crossed.function "x" = "z" := Equiv.swap_apply_left "x" "z"
  have hruns := renaming_preserves_runs crossed hfix .unlimited oneName 20
  refine ⟨hfix, ?_, ?_⟩
  · rw [hruns.2.2.2 hsilent, hplain, Outcome.mapError, EvalError.rename, hname]
  · rw [hruns.2.2.1]
    rfl

end IntScript
