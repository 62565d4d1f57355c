import IntScript.Proofs.RephrasedPrograms
import IntScript.Proofs.Trails
import IntScript.Proofs.WorldLaws

set_option autoImplicit false

namespace IntScript

/-- Each event of the second list has the property, with those of the first and those in front of it as its past. -/
def Event.Each (Q : List Event → Event → Prop) : List Event → List Event → Prop
  | _, [] => True
  | past, e :: es => Q past e ∧ Each Q (past ++ [e]) es

theorem Event.each_append {Q : List Event → Event → Prop} (past es es' : List Event) :
    Each Q past (es ++ es') ↔ Each Q past es ∧ Each Q (past ++ es) es' := by
  induction es generalizing past with
  | nil => simp [Each]
  | cons e es ih => simp [Each, ih, and_assoc]

theorem Event.each_of_forall {Q : List Event → Event → Prop} {es : List Event} (h : ∀ e ∈ es, ∀ past, Q past e)
    (past : List Event) : Each Q past es := by
  induction es generalizing past with
  | nil => trivial
  | cons e es ih => exact ⟨h e (by simp) past, ih (fun e' he' => h e' (by simp [he'])) _⟩

namespace Attempt

variable {ε σ α β : Type} {events : σ → List Event} {Q : List Event → Event → Prop} {s : σ}

/-- Events are only added, and each of them has the property. -/
def Logged (events : σ → List Event) (Q : List Event → Event → Prop) (m : Attempt ε σ α) (s : σ) : Prop :=
  ∃ es, events (m s).2 = events s ++ es ∧ Event.Each Q (events s) es

theorem logged_of_silent {m : Attempt ε σ α} (h : events (m s).2 = events s) : Logged events Q m s :=
  ⟨[], by rw [h, List.append_nil], trivial⟩

theorem Logged.bind {m : Attempt ε σ α} {k : α → Attempt ε σ β} (hm : Logged events Q m s)
    (hk : ∀ a t, m s = (.done a, t) → Logged events Q (k a) t) : Logged events Q (m >>= k) s := by
  obtain ⟨es, hes, heach⟩ := hm
  rcases hrun : m s with ⟨a | e | _, t⟩
  · rw [hrun] at hes
    dsimp only at hes
    obtain ⟨es', hes', heach'⟩ := hk a t hrun
    refine ⟨es ++ es', ?_, (Event.each_append _ _ _).2 ⟨heach, ?_⟩⟩
    · rw [bind_of_done hrun, hes', hes, List.append_assoc]
    · rw [← hes]
      exact heach'
  · rw [hrun] at hes
    refine ⟨es, ?_, heach⟩
    rw [bind_of_failed hrun]
    exact hes
  · rw [hrun] at hes
    refine ⟨es, ?_, heach⟩
    rw [bind_of_outOfFuel hrun]
    exact hes

theorem logged_ofExcept {r : Except ε α} {k : α → Attempt ε σ β} (hk : ∀ a, r = .ok a → Logged events Q (k a) s) :
    Logged events Q ((.ofExcept r : Attempt ε σ α) >>= k) s := by
  cases r with
  | ok a => exact hk a rfl
  | error e => exact logged_of_silent rfl

end Attempt

open Attempt

abbrev Exec.Logged {α : Type} (Q : List Event → Event → Prop) (m : Exec α) (w : World) : Prop :=
  Attempt.Logged (fun w : World => w.events.toList) Q m w

abbrev Run.Logged {α : Type} (Q : List Event → Event → Prop) (m : Run α) (f : Frame) : Prop :=
  Attempt.Logged (fun f : Frame => f.world.events.toList) Q m f

namespace Config

def Logged (Q : List Event → Event → Prop) (g : Config) : Prop :=
  match g.task with
  | .expression x => Exec.Logged Q (Expression.eval g.fuel g.context g.scope x) g.world
  | .arguments _ es => Exec.Logged Q (Expression.evalAll g.fuel g.context g.scope es) g.world
  | .invocation f args =>
    Exec.Logged Q (do
      let callee ← .ofExcept (g.scope.callable f)
      Callable.invoke g.fuel g.context callee args) g.world
  | .parameters d _ rest =>
    Exec.Logged Q (do
      let scope ← Exec.declareAll rest g.scope
      (Block.exec g.fuel g.context d.body).inScope scope) g.world
  | .statement s => Run.Logged Q (Statement.exec g.fuel g.context s) ⟨g.scope, g.world⟩
  | .statements _ b => Run.Logged Q (Block.exec g.fuel g.context b) ⟨g.scope, g.world⟩
  | .branch s => Exec.Logged Q (Statement.execChild g.fuel g.context g.scope s) g.world
  | .iteration c b k => Exec.Logged Q (Statement.iterate g.fuel g.context g.scope c b k) g.world

/-- What the configuration asks for notes nothing but what has the property, nor does it when it begins a call. -/
structure Vouches (Q : List Event → Event → Prop) (g : Config) : Prop where
  calls : ∀ h, Calls g h → h.Logged Q
  enters : ∀ q closure h, Enters q closure g h →
    Q g.world.events.toList (.calling closure.decl.name h.context.depth) ∧ h.Logged Q

section Tasks

variable {Q : List Event → Event → Prop} {p : Place} {n : Nat} {c : Context} {s : Scope} {w : World}

theorem Vouches.expression {x : Expression} (h : Vouches Q ⟨p, n, c, s, w, .expression x⟩) :
    Exec.Logged Q (Expression.eval n c s x) w := by
  cases n with
  | zero => exact logged_of_silent rfl
  | succ n =>
    cases x with
    | literal v => exact logged_of_silent rfl
    | var x => exact logged_ofExcept fun cell _ => logged_of_silent rfl
    | binary op l r =>
      have hleft : Exec.Logged Q (Expression.eval n c s l) w := h.calls _ .left
      apply hleft.bind
      intro a t hl
      unfold BinaryOp.apply
      cases ha : op.decidedBy a with
      | true => exact logged_of_silent rfl
      | false =>
        have hright : Exec.Logged Q (Expression.eval n c s r) t := h.calls _ (.right hl ha)
        exact hright.bind fun _ _ _ => logged_of_silent rfl
    | call f args =>
      have hall : Exec.Logged Q (Expression.evalAll n c s args) w := h.calls _ .arguments
      exact hall.bind fun values t hargs => h.calls _ (.invocation hargs)

theorem Vouches.arguments {i : Nat} {xs : List Expression} (h : Vouches Q ⟨p, n, c, s, w, .arguments i xs⟩) :
    Exec.Logged Q (Expression.evalAll n c s xs) w := by
  cases n with
  | zero => exact logged_of_silent rfl
  | succ n =>
    cases xs with
    | nil => exact logged_of_silent rfl
    | cons x xs =>
      have hfirst : Exec.Logged Q (Expression.eval n c s x) w := h.calls _ .argument
      apply hfirst.bind
      intro v t hx
      have hrest : Exec.Logged Q (Expression.evalAll n c s xs) t := h.calls _ (.nextArgument hx)
      exact hrest.bind fun _ _ _ => logged_of_silent rfl

theorem logged_useTool (hQ : ∀ past e, (∀ f k, e ≠ .calling f k) → Q past e) (tool : Tool) (args : List Value) :
    Exec.Logged Q (Exec.useTool tool args) w := by
  refine ⟨(tool.act args).1.map .output, w.events_noteAll _, Event.each_of_forall (fun e he past => hQ past e ?_) _⟩
  obtain ⟨item, -, rfl⟩ := List.mem_map.1 he
  exact nofun

theorem Vouches.call {f : String} {closure : Closure} {args : List Value} {d : Context}
    (h : Vouches Q ⟨p, n + 1, c, s, w, .invocation f args⟩) (hf : s.callable f = .ok (.user closure))
    (hargs : closure.decl.params.length = args.length) (hd : c.enter = .ok d) :
    Exec.Logged Q (do
      Exec.note (.calling closure.decl.name d.depth)
      let scope ← Exec.declareAll (closure.decl.params.zip args) closure.entryScope
      let signal ← (Block.exec n d closure.decl.body).inScope scope
      return signal.getD 0) w := by
  obtain ⟨hcalling, hbody⟩ := h.enters p closure _ (.intro hf hargs hd)
  have hnote : Exec.Logged Q (Exec.note (.calling closure.decl.name d.depth)) w :=
    ⟨[.calling closure.decl.name d.depth], w.events_note _, hcalling, trivial⟩
  apply hnote.bind
  intro _ t ht
  obtain rfl := (modify_eq_done _ _ _ _).1 ht
  have hcall : Exec.Logged Q (do
      let scope ← Exec.declareAll (closure.decl.params.zip args) closure.entryScope
      (Block.exec n d closure.decl.body).inScope scope) (w.note (.calling closure.decl.name d.depth)) := hbody
  have hvalue := hcall.bind fun signal u _ =>
    show Exec.Logged Q (Pure.pure (signal.getD 0) : Exec Value) u from logged_of_silent rfl
  rw [bind_assoc] at hvalue
  exact hvalue

theorem Vouches.invocation (hQ : ∀ past e, (∀ f k, e ≠ .calling f k) → Q past e) {f : String} {args : List Value}
    (h : Vouches Q ⟨p, n, c, s, w, .invocation f args⟩) :
    Exec.Logged Q (do
      let callee ← .ofExcept (s.callable f)
      Callable.invoke n c callee args) w := by
  apply logged_ofExcept
  intro callee hf
  cases n with
  | zero => exact logged_of_silent rfl
  | succ n =>
    apply logged_ofExcept
    intro _ harity
    cases callee with
    | native tool => exact (logged_useTool hQ tool args).bind fun _ _ _ => logged_of_silent rfl
    | user closure =>
      apply logged_ofExcept
      intro d hd
      exact h.call hf ((checkArity_user closure args).1 harity) hd

theorem Vouches.parameters {d : FunctionDecl} {i : Nat} {rest : List (String × Value)}
    (h : Vouches Q ⟨p, n, c, s, w, .parameters d i rest⟩) :
    Exec.Logged Q (do
      let scope ← Exec.declareAll rest s
      (Block.exec n c d.body).inScope scope) w := by
  cases rest with
  | nil => exact h.calls ⟨p, n, c, s, w, .statements 0 d.body⟩ .body
  | cons b rest =>
    obtain ⟨x, v⟩ := b
    have halloc : Exec.Logged Q (Exec.alloc v) w := logged_of_silent rfl
    simp only [Exec.declareAll, bind_assoc]
    apply halloc.bind
    intro cell t ht
    cases ht
    apply logged_ofExcept
    intro u hu
    exact h.calls _ (.parameter hu)

theorem Vouches.statement (hQ : ∀ past e, (∀ f k, e ≠ .calling f k) → Q past e) {st : Statement}
    (h : Vouches Q ⟨p, n, c, s, w, .statement st⟩) : Run.Logged Q (Statement.exec n c st) ⟨s, w⟩ := by
  cases n with
  | zero => exact logged_of_silent rfl
  | succ n =>
    cases st with
    | function f params b =>
      have hnote : Run.Logged Q (Run.note (.defining f params.length)) ⟨s, w⟩ :=
        ⟨[.defining f params.length], w.events_note _, hQ _ _ nofun, trivial⟩
      apply hnote.bind
      intro _ g _
      have hdeclare : Run.Logged Q (Run.declareFunction ⟨f, params, b⟩) g := by
        apply logged_of_silent
        unfold Run.declareFunction
        cases g.scope.declareFunction f (.user ⟨⟨f, params, b⟩, g.scope.child⟩) <;> rfl
      exact hdeclare.bind fun _ _ _ => logged_of_silent rfl
    | block b =>
      cases n with
      | zero => exact logged_of_silent rfl
      | succ n => exact h.calls _ .block
    | declare x init =>
      have hdeclare : ∀ v g, Run.Logged Q (do Run.declareVariable x v; return none : Run Signal) g := by
        intro v g
        apply logged_of_silent
        simp only [bind_apply, Run.declareVariable]
        cases g.scope.declareVariable x g.world.nextCell <;> rfl
      cases init with
      | none => exact hdeclare 0 _
      | some e =>
        have heval : Run.Logged Q (Run.within fun s => Expression.eval n c s e) ⟨s, w⟩ := h.calls _ .initial
        exact heval.bind fun v g _ => hdeclare v g
    | evaluate e =>
      have heval : Exec.Logged Q (Expression.eval n c s e) w := h.calls _ .evaluate
      exact heval.bind fun _ _ _ => logged_of_silent rfl
    | loop e b => exact h.calls _ .loop
    | ifThen e t =>
      have heval : Exec.Logged Q (Expression.eval n c s e) w := h.calls _ .condition
      apply heval.bind
      intro v u he
      cases hv : Value.isTruthy v with
      | true => exact h.calls _ (.consequent he hv)
      | false => exact logged_of_silent rfl
    | ifElse e t t' =>
      have heval : Exec.Logged Q (Expression.eval n c s e) w := h.calls _ .choice
      apply heval.bind
      intro v u he
      cases hv : Value.isTruthy v with
      | true => exact h.calls _ (.first he hv)
      | false => exact h.calls _ (.second he hv)
    | assign x e =>
      have hassign : Exec.Logged Q (.ofExcept (s.cell x) >>= fun cell => Expression.eval n c s e >>= fun v =>
          Exec.write cell v >>= fun _ => (Pure.pure none : Exec Signal)) w := by
        apply logged_ofExcept
        intro cell hx
        have heval : Exec.Logged Q (Expression.eval n c s e) w := h.calls _ (.assigned hx)
        exact heval.bind fun v u _ => logged_of_silent rfl
      exact hassign
    | result e =>
      have heval : Exec.Logged Q (Expression.eval n c s e) w := h.calls _ .result
      exact heval.bind fun _ _ _ => logged_of_silent rfl

theorem Vouches.statements {i : Nat} {b : Block} (h : Vouches Q ⟨p, n, c, s, w, .statements i b⟩) :
    Run.Logged Q (Block.exec n c b) ⟨s, w⟩ := by
  cases n with
  | zero => exact logged_of_silent rfl
  | succ n =>
    cases b with
    | nil => exact logged_of_silent rfl
    | cons st rest =>
      have hfirst : Run.Logged Q (Statement.exec n c st) ⟨s, w⟩ := h.calls _ .statement
      apply hfirst.bind
      intro signal g hst
      cases signal with
      | some v => exact logged_of_silent rfl
      | none => exact h.calls _ (.nextStatement hst)

theorem Vouches.branch {st : Statement} (h : Vouches Q ⟨p, n, c, s, w, .branch st⟩) :
    Exec.Logged Q (Statement.execChild n c s st) w := by
  cases n with
  | zero => exact logged_of_silent rfl
  | succ n =>
    cases st with
    | block b => exact h.calls _ .branchBlock
    | _ => exact h.calls _ (.branchStatement nofun)

theorem Vouches.iteration {x : Expression} {b : Statement} {k : Nat}
    (h : Vouches Q ⟨p, n, c, s, w, .iteration x b k⟩) : Exec.Logged Q (Statement.iterate n c s x b k) w := by
  cases n with
  | zero => exact logged_of_silent rfl
  | succ n =>
    have heval : Exec.Logged Q (Expression.eval n c s x) w := h.calls _ .loopCondition
    apply heval.bind
    intro v t hx
    cases hv : Value.isTruthy v with
    | false => exact logged_of_silent rfl
    | true =>
      apply logged_ofExcept
      intro _ hk
      have hbody : Exec.Logged Q (Statement.execChild n c s b) t := h.calls _ (.loopBody hx hv hk)
      apply hbody.bind
      intro signal u hb
      cases signal with
      | some result => exact logged_of_silent rfl
      | none => exact h.calls _ (.nextIteration hx hv hk hb)

end Tasks

/-- What holds of the parts of a configuration, and of the call that it may begin, holds of the whole. -/
theorem Vouches.logged {Q : List Event → Event → Prop} (hQ : ∀ past e, (∀ f k, e ≠ .calling f k) → Q past e)
    {g : Config} (h : g.Vouches Q) : g.Logged Q := by
  obtain ⟨p, n, c, s, w, task⟩ := g
  cases task with
  | expression x => exact h.expression
  | arguments i xs => exact h.arguments
  | invocation f args => exact h.invocation hQ
  | parameters d i rest => exact h.parameters
  | statement st => exact h.statement hQ
  | statements i b => exact h.statements
  | branch st => exact h.branch
  | iteration x b k => exact h.iteration

end Config

/-- A call was begun on a trail, with these events before it; its depth is one more than the calls that were active. -/
def Trail.Begun (start : Config) (past : List Event) (e : Event) : Prop :=
  ∀ f depth, e = .calling f depth → ∃ k live q closure g h, Trail start k live g ∧ Enters q closure g h ∧
    g.world.events.toList = past ∧ closure.decl.name = f ∧ depth = start.context.depth + k + 1

/-- Every call that is noted in a run was begun on a trail into it. -/
theorem Trail.logged {start g : Config} {k : Nat} {live : List Scope} (hg : Trail start k live g) :
    g.Logged (Trail.Begun start) := by
  -- whatever a configuration asks for has less fuel, or fewer parameters left
  induction hm : g.measure using (Prod.lex Nat.lt_wfRel Nat.lt_wfRel).wf.induction generalizing g k live with
  | _ m ih =>
    subst hm
    have hvouches : g.Vouches (Trail.Begun start) := by
      constructor
      · intro h hc
        exact ih _ (Config.measure_lt_of_calls hc) (hg.calls hc) rfl
      · intro q closure h he
        refine ⟨fun f depth heq => ?_, ih _ (Config.measure_lt_of_enters he) (hg.enters he) rfl⟩
        obtain ⟨hname, hdepth⟩ := Event.calling.inj heq
        refine ⟨k, live, q, closure, g, h, hg, he, rfl, hname, ?_⟩
        rw [← hdepth, (hg.enters he).depth_eq]
        omega
    exact hvouches.logged fun past e hne f depth heq => absurd heq (hne f depth)

def Outcome.ending {α : Type} : Outcome EvalError α → List Event
  | .done _ => [.finished true]
  | .failed _ => [.finished false]
  | .outOfFuel => []

theorem Outcome.mem_ending {α : Type} {r : Outcome EvalError α} {e : Event} (h : e ∈ r.ending) :
    ∃ ok, e = .finished ok := by
  cases r with
  | done a => exact ⟨true, List.mem_singleton.1 h⟩
  | failed e => exact ⟨false, List.mem_singleton.1 h⟩
  | outOfFuel => exact absurd h List.not_mem_nil

namespace Interpreter

def Since (i j : Interpreter) (es : List Event) : Prop := j.world.events.toList = i.world.events.toList ++ es

theorem execute_apply (n : Nat) (program : Block) (i : Interpreter) {r : Outcome EvalError Signal} {f : Frame}
    (h : Block.exec n (.top i.limits) program ⟨i.globals, i.start program⟩ = (r, f)) :
    (execute n program i).1 = r ∧ (execute n program i).2 = i.withFrame ⟨f.scope, f.world.noteAll r.ending⟩ := by
  change (closing (atTop fun c => Block.exec n c program) (i.withWorld (i.start program))).1 = r ∧
    (closing (atTop fun c => Block.exec n c program) (i.withWorld (i.start program))).2 = _
  unfold closing atTop withWorld
  dsimp only
  rw [h]
  cases r <;> exact ⟨rfl, rfl⟩

theorem since_execute {n : Nat} {program : Block} {i : Interpreter} {r : Outcome EvalError Signal} {f : Frame}
    {es : List Event} (h : Block.exec n (.top i.limits) program ⟨i.globals, i.start program⟩ = (r, f))
    (hes : f.world.events.toList = (i.start program).events.toList ++ es) :
    i.Since (execute n program i).2 (.started program.length :: es ++ r.ending) := by
  rw [Since, (execute_apply n program i h).2]
  change (f.world.noteAll r.ending).events.toList = _
  rw [World.events_noteAll, hes, start, World.events_note]
  simp

def startConfig (i : Interpreter) (n : Nat) (program : Block) : Config :=
  ⟨[], n, .top i.limits, i.globals, i.start program, .statements 0 program⟩

theorem calls_begun {i : Interpreter} {n : Nat} {program : Block} {es : List Event}
    (h : i.Since (execute n program i).2 es) :
    Event.Each (Trail.Begun (i.startConfig n program)) i.world.events.toList es := by
  have hother : ∀ past e, (∀ f k, e ≠ Event.calling f k) → Trail.Begun (i.startConfig n program) past e :=
    fun past e hne f k heq => absurd heq (hne f k)
  have hlogged : Run.Logged _ (Block.exec n (.top i.limits) program) ⟨i.globals, i.start program⟩ :=
    (@Trail.start (i.startConfig n program)).logged
  obtain ⟨es', hes', heach⟩ := hlogged
  have hsince := since_execute (i := i) rfl hes'
  rw [Since, h] at hsince
  rw [List.append_cancel_left hsince, Event.each_append, ← List.singleton_append, Event.each_append]
  refine ⟨⟨⟨hother _ _ nofun, trivial⟩, ?_⟩, Event.each_of_forall (fun e he past => hother past e ?_) _⟩
  · rw [← World.events_note]
    exact heach
  · obtain ⟨ok, rfl⟩ := Outcome.mem_ending he
    exact nofun

end Interpreter

end IntScript
