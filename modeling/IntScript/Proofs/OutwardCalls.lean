import IntScript.Proofs.Resolution
import IntScript.Proofs.Termination

set_option autoImplicit false

namespace IntScript

open Attempt

mutual

def Expression.callees : Expression → List String
  | .call f args => f :: Expression.calleesAll args
  | .literal _ => []
  | .var _ => []
  | .binary _ l r => l.callees ++ r.callees

def Expression.calleesAll : List Expression → List String
  | [] => []
  | e :: es => e.callees ++ Expression.calleesAll es

end

mutual

def Statement.callees : Statement → List String
  | .function _ _ b => Block.callees b
  | .block b => Block.callees b
  | .declare _ none => []
  | .declare _ (some e) => e.callees
  | .evaluate e => e.callees
  | .loop e s => e.callees ++ s.callees
  | .ifThen e s => e.callees ++ s.callees
  | .ifElse e s t => e.callees ++ (s.callees ++ t.callees)
  | .assign _ e => e.callees
  | .result e => e.callees

def Block.callees : List Statement → List String
  | [] => []
  | st :: rest => st.callees ++ Block.callees rest

end

mutual

def Statement.Every (P : Statement → Prop) : Statement → Prop
  | .function f params b => P (.function f params b) ∧ Block.Every P b
  | .block b => P (.block b) ∧ Block.Every P b
  | .loop e s => P (.loop e s) ∧ s.Every P
  | .ifThen e s => P (.ifThen e s) ∧ s.Every P
  | .ifElse e s t => P (.ifElse e s t) ∧ s.Every P ∧ t.Every P
  | st => P st

def Block.Every (P : Statement → Prop) : List Statement → Prop
  | [] => True
  | st :: rest => st.Every P ∧ Block.Every P rest

end

def Statement.IsLoop : Statement → Prop
  | .loop _ _ => True
  | _ => False

/-- A function that calls its own name, be it inside another function. -/
def Statement.CallsItself : Statement → Prop
  | .function f _ b => f ∈ Block.callees b
  | _ => False

def Statement.Tame (st : Statement) : Prop := ¬ st.IsLoop ∧ ¬ st.CallsItself

variable {l : Limits} {s t : Scope}

/-- A call of the function settles, at whatever depth and with whatever arguments. -/
def Callable.Settling (l : Limits) (callee : Callable) : Prop :=
  ∀ d args w, Settles (fun k => Callable.invoke k ⟨l, d⟩ callee args) w

theorem Callable.settling_native (l : Limits) (tool : Tool) : (Callable.native tool).Settling l := by
  intro d args w
  refine Settles.succ (settles_ofExcept fun _ _ => ?_) fun k => by rw [Callable.invoke]
  have htool : Settles (fun _ => Exec.useTool tool args) w := ⟨(tool.act args).2, _, 0, fun _ _ => rfl⟩
  exact htool.bind fun result v => settles_pure (result.getD 0) v

/-- What the scope has under these names settles. -/
def Scope.SettlesOn (l : Limits) (s : Scope) (names : List String) : Prop :=
  ∀ f ∈ names, ∀ callee, s.callable f = .ok callee → callee.Settling l

namespace Scope.SettlesOn

theorem left {names names' : List String} (h : s.SettlesOn l (names ++ names')) : s.SettlesOn l names :=
  fun f hf => h f (List.mem_append_left _ hf)

theorem right {names names' : List String} (h : s.SettlesOn l (names ++ names')) : s.SettlesOn l names' :=
  fun f hf => h f (List.mem_append_right _ hf)

theorem of_funs {names : List String} (h : s.SettlesOn l names) (hfuns : t.funs.lookup? = s.funs.lookup?) :
    t.SettlesOn l names := by
  intro f hf callee hcallee
  rw [Scope.callable_eq_ok, hfuns] at hcallee
  exact h f hf callee (Scope.callable_eq_ok.2 hcallee)

theorem of_bind {names : List String} {f : String} {callee : Callable} (h : s.SettlesOn l names)
    (hcallee : f ∈ names → callee.Settling l) (hfuns : t.funs.lookup? = (s.funs.bind f callee).lookup?) :
    t.SettlesOn l names := by
  intro g hg callee' hcallee'
  rw [Scope.callable_eq_ok, hfuns, Table.lookup?_bind] at hcallee'
  by_cases heq : g = f
  · rw [if_pos heq] at hcallee'
    cases hcallee'
    exact hcallee (heq ▸ hg)
  · rw [if_neg heq] at hcallee'
    exact h g hg callee' (Scope.callable_eq_ok.2 hcallee')

end Scope.SettlesOn

mutual

theorem Expression.settles_on {d : Nat} : (e : Expression) → ∀ s w, s.SettlesOn l e.callees →
    Settles (fun k => Expression.eval k ⟨l, d⟩ s e) w
  | .literal v, _, w, _ => (settles_pure v w).succ fun _ => rfl
  | .var x, s, w, _ => by
    have hread : Settles (fun _ => .ofExcept (s.cell x) >>= Exec.read) w :=
      settles_ofExcept fun cell _ => settles_ask _ w
    exact hread.succ fun _ => rfl
  | .binary op a b, s, w, h => by
    refine Settles.succ ((Expression.settles_on a s w h.left).bind fun v u => ?_) fun k => by rw [Expression.eval]
    exact op.settles_apply v (Expression.settles_on b s u h.right)
  | .call f args, s, w, h => by
    have hargs : s.SettlesOn l (Expression.calleesAll args) := fun g hg => h g (List.mem_cons_of_mem f hg)
    refine Settles.succ ((Expression.settles_all_on args s w hargs).bind fun values u => ?_) fun k => by
      rw [Expression.eval]
    exact settles_ofExcept fun callee hf => h f List.mem_cons_self callee hf d values u

theorem Expression.settles_all_on {d : Nat} : (es : List Expression) → ∀ s w, s.SettlesOn l (Expression.calleesAll es) →
    Settles (fun k => Expression.evalAll k ⟨l, d⟩ s es) w
  | [], _, w, _ => (settles_pure [] w).succ fun _ => rfl
  | e :: es, s, w, h => by
    refine Settles.succ ((Expression.settles_on e s w h.left).bind fun v u => ?_) fun k => by rw [Expression.evalAll]
    exact (Expression.settles_all_on es s u h.right).bind fun vs u' => settles_pure (v :: vs) u'

end

/-- Wherever what the statements call settles, they settle. -/
def Block.Settling (l : Limits) (b : Block) : Prop :=
  ∀ d s w, s.SettlesOn l (Block.callees b) → Settles (fun k => Block.exec k ⟨l, d⟩ b) ⟨s, w⟩

/-- A function settles if its body does, unless it calls its own name. -/
theorem Callable.settling_user {f : String} {params : List String} {b : Block} (hb : Block.Settling l b)
    (hf : f ∉ Block.callees b) (hs : s.SettlesOn l (Block.callees b)) :
    (Callable.user ⟨⟨f, params, b⟩, s.child⟩).Settling l := by
  intro d args w
  refine Settles.succ (settles_ofExcept fun _ _ => settles_ofExcept fun _ _ => ?_) fun k => by
    rw [Callable.invoke, Context.enter_bind]
  refine (settles_modify _ w).bind fun _ w' => ?_
  refine (Exec.settles_declareAll _ _ w').then fun scope u _ hscope => ?_
  -- what the function's own name is bound to does not matter, for the body does not call it
  have hentry : scope.SettlesOn l (Block.callees b) := by
    apply hs.of_bind (f := f) (fun hmem => absurd hmem hf)
    rw [Exec.declareAll_funs hscope]
    rfl
  exact (Run.settles_inScope (hb (d + 1) scope u hentry)).bind fun signal u' => settles_pure (signal.getD 0) u'

/-- Wherever what the statement calls settles, it settles, in the scope itself and as a branch; and so does the function
that it may define. -/
structure Statement.SettlingOn (l : Limits) (st : Statement) : Prop where
  exec : ∀ d s w, s.SettlesOn l st.callees → Settles (fun k => Statement.exec k ⟨l, d⟩ st) ⟨s, w⟩
  child : ∀ d s w, s.SettlesOn l st.callees → Settles (fun k => Statement.execChild k ⟨l, d⟩ s st) w
  defined : ∀ f params b (s : Scope), st = .function f params b → s.SettlesOn l st.callees →
    (Callable.user ⟨⟨f, params, b⟩, s.child⟩).Settling l

namespace Statement.SettlingOn

theorem of_exec {st : Statement} (hst : ∀ b, st ≠ .block b)
    (hexec : ∀ d s w, s.SettlesOn l st.callees → Settles (fun k => Statement.exec k ⟨l, d⟩ st) ⟨s, w⟩)
    (hdefined : ∀ f params b (s : Scope), st = .function f params b → s.SettlesOn l st.callees →
      (Callable.user ⟨⟨f, params, b⟩, s.child⟩).Settling l) : Statement.SettlingOn l st := by
  refine ⟨hexec, fun d s w hs => ?_, hdefined⟩
  have hchild : s.child.SettlesOn l st.callees := hs.of_funs rfl
  refine (Run.settles_inScope (hexec d s.child w hchild)).succ fun k => ?_
  cases st with
  | block b => exact absurd rfl (hst b)
  | _ => rfl

theorem of_within {st : Statement} {m : Nat → Nat → Scope → Exec Signal} (hst : ∀ b, st ≠ .block b)
    (hfun : ∀ f params b, st ≠ .function f params b)
    (hexec : ∀ k d, Statement.exec (k + 1) ⟨l, d⟩ st = Run.within (m k d))
    (hm : ∀ d s w, s.SettlesOn l st.callees → Settles (fun k => m k d s) w) : Statement.SettlingOn l st := by
  apply of_exec hst
  · intro d s w hs
    exact Settles.succ (Run.settles_within (hm d s w hs)) fun k => hexec k d
  · intro f params b s heq
    exact absurd heq (hfun f params b)

theorem of_block {b : Block} (hb : Block.Settling l b) : Statement.SettlingOn l (.block b) := by
  have hchild : ∀ d s w, s.SettlesOn l (Block.callees b) →
      Settles (fun k => Statement.execChild k ⟨l, d⟩ s (.block b)) w := by
    intro d s w hs
    have hinner : s.child.SettlesOn l (Block.callees b) := hs.of_funs rfl
    exact (Run.settles_inScope (hb d s.child w hinner)).succ fun _ => rfl
  refine ⟨fun d s w hs => ?_, hchild, nofun⟩
  exact Settles.succ (Run.settles_within (hchild d s w hs)) fun k => by rw [Statement.exec]

theorem function {f : String} {params : List String} {b : Block} (hb : Block.Settling l b)
    (hf : f ∉ Block.callees b) : Statement.SettlingOn l (.function f params b) := by
  apply of_exec
  · rintro _ ⟨⟩
  · intro d s w _
    refine Settles.succ ?_ fun k => by rw [Statement.exec]
    refine (settles_modify _ _).bind fun _ g => ?_
    exact (Run.settles_declareFunction ⟨f, params, b⟩ g).bind fun _ g' => settles_pure none g'
  · rintro _ _ _ s ⟨⟩ hs
    exact Callable.settling_user hb hf hs

theorem declare_none (x : String) : Statement.SettlingOn l (.declare x none) := by
  apply of_exec
  · rintro _ ⟨⟩
  · intro d s w _
    refine Settles.succ ?_ fun k => by rw [Statement.exec]
    exact (Run.settles_declareVariable x 0 _).bind fun _ g => settles_pure none g
  · rintro _ _ _ _ ⟨⟩

theorem declare_some (x : String) (e : Expression) : Statement.SettlingOn l (.declare x (some e)) := by
  apply of_exec
  · rintro _ ⟨⟩
  · intro d s w hs
    refine Settles.succ ?_ fun k => by rw [Statement.exec]
    refine (Run.settles_within (e.settles_on s w hs)).bind fun v g => ?_
    exact (Run.settles_declareVariable x v g).bind fun _ g' => settles_pure none g'
  · rintro _ _ _ _ ⟨⟩

theorem evaluate (e : Expression) : Statement.SettlingOn l (.evaluate e) := by
  apply of_within
  · rintro _ ⟨⟩
  · rintro _ _ _ ⟨⟩
  · intro k d
    rw [Statement.exec]
  intro d s w hs
  exact (e.settles_on s w hs).bind fun _ u => settles_pure none u

theorem ifThen {st : Statement} (e : Expression) (h : Statement.SettlingOn l st) :
    Statement.SettlingOn l (.ifThen e st) := by
  apply of_within
  · rintro _ ⟨⟩
  · rintro _ _ _ ⟨⟩
  · intro k d
    rw [Statement.exec]
  intro d s w hs
  refine (e.settles_on s w hs.left).bind fun v u => ?_
  cases Value.isTruthy v with
  | true => exact h.child d s u hs.right
  | false => exact settles_pure none u

theorem ifElse {st st' : Statement} (e : Expression) (h : Statement.SettlingOn l st)
    (h' : Statement.SettlingOn l st') : Statement.SettlingOn l (.ifElse e st st') := by
  apply of_within
  · rintro _ ⟨⟩
  · rintro _ _ _ ⟨⟩
  · intro k d
    rw [Statement.exec]
  intro d s w hs
  refine (e.settles_on s w hs.left).bind fun v u => ?_
  cases Value.isTruthy v with
  | true => exact h.child d s u hs.right.left
  | false => exact h'.child d s u hs.right.right

theorem assign (x : String) (e : Expression) : Statement.SettlingOn l (.assign x e) := by
  apply of_within
  · rintro _ ⟨⟩
  · rintro _ _ _ ⟨⟩
  · intro k d
    rw [Statement.exec]
  intro d s w hs
  refine settles_ofExcept fun cell _ => (e.settles_on s w hs).bind fun v u => ?_
  exact (settles_modify _ u).bind fun _ u' => settles_pure none u'

theorem result (e : Expression) : Statement.SettlingOn l (.result e) := by
  apply of_within
  · rintro _ ⟨⟩
  · rintro _ _ _ ⟨⟩
  · intro k d
    rw [Statement.exec]
  intro d s w hs
  exact (e.settles_on s w hs).bind fun v u => settles_pure (some v) u

/-- What is called behind the statement settles in the scope that it leaves. -/
theorem declares {st : Statement} {names : List String} (h : Statement.SettlingOn l st)
    (hs : s.SettlesOn l (st.callees ++ names)) (hd : s.Declares st t) : t.SettlesOn l names := by
  cases st with
  | declare x init =>
    obtain ⟨cell, hx⟩ := hd
    obtain ⟨-, rfl⟩ := Scope.declareVariable_eq_ok.1 hx
    exact hs.right.of_funs rfl
  | function f params b =>
    obtain ⟨-, rfl⟩ := Scope.declareFunction_eq_ok.1 hd
    exact hs.right.of_bind (fun _ => h.defined f params b s rfl hs.left) rfl
  | _ =>
    obtain rfl : t = s := hd
    exact hs.right

end Statement.SettlingOn

theorem Block.settling_cons {st : Statement} {rest : Block} (hst : Statement.SettlingOn l st)
    (hrest : Block.Settling l rest) : Block.Settling l (st :: rest) := by
  intro d s w hs
  refine Settles.succ ((hst.exec d s w hs.left).then fun signal g k hdone => ?_) fun k => by rw [Block.exec]
  cases signal with
  | some v => exact settles_pure (some v) g
  | none => exact hrest d g.scope g.world (hst.declares hs (Statement.exec_declares hdone))

mutual

theorem Statement.settles_on : (st : Statement) → st.Every Statement.Tame → Statement.SettlingOn l st
  | .function _ _ b, h => .function (Block.settles_on b h.2) h.1.2
  | .block b, h => .of_block (Block.settles_on b h.2)
  | .declare x none, _ => .declare_none x
  | .declare x (some e), _ => .declare_some x e
  | .evaluate e, _ => .evaluate e
  | .loop _ _, h => absurd trivial h.1.1
  | .ifThen e st, h => .ifThen e (Statement.settles_on st h.2)
  | .ifElse e st st', h => .ifElse e (Statement.settles_on st h.2.1) (Statement.settles_on st' h.2.2)
  | .assign x e, _ => .assign x e
  | .result e, _ => .result e

theorem Block.settles_on : (b : List Statement) → Block.Every Statement.Tame b → Block.Settling l b
  | [], _ => fun _ _ _ _ => (settles_pure none _).succ fun _ => rfl
  | st :: rest, h => Block.settling_cons (Statement.settles_on st h.1) (Block.settles_on rest h.2)

end

theorem Registry.rootScope_settlesOn (r : Registry) (l : Limits) (names : List String) :
    r.rootScope.child.SettlesOn l names := by
  intro f _ callee hf
  cases callee with
  | native tool => exact Callable.settling_native l tool
  | user closure =>
    exact absurd (Scope.callable_eq_ok.1 hf) (Config.ofProgram_native r l [] 0 f closure)

/-- Every call of a function, in the run of a program on a new interpreter, goes to a definition that stands around the
functions in which the call stands or ends before them; and a program ends if it has no loop and no function that calls
its own name. -/
theorem recursion_goes_outward (r : Registry) (limits : Limits) (program : Block) :
    (∀ n g f args closure, Reached (.ofProgram r limits program n) g → g.task = .invocation f args →
      g.scope.callable f = .ok (.user closure) →
      ∃ made, Reached (.ofProgram r limits program n) made ∧ made.Makes closure ∧
        (Point.ofProgram r program).resolve f g.place = some made.place ∧
        ∀ D E F params body, (Point.ofProgram r program).at? D = some ⟨E, .statement (.function F params body)⟩ →
          Place.Encloses D g.place → made.place <:+ D ∨ Place.EndsBefore made.place D) ∧
    (∀ n before f depth after,
      (Interpreter.ofRegistry r limits).Since (Interpreter.execute n program (.ofRegistry r limits)).2
        (before ++ .calling f depth :: after) →
      ∃ q closure g h, Reached (.ofProgram r limits program n) g ∧ Enters q closure g h ∧
        g.world.events.toList = before ∧ closure.decl.name = f) ∧
    (Block.Every Statement.Tame program →
      ∃ res j m, ∀ k, m ≤ k → Interpreter.execute k program (.ofRegistry r limits) = (.ofExcept res, j)) := by
  refine ⟨fun n g f args closure hg htask hf => ?_, fun n before f depth after hlog => ?_, fun htame => ?_⟩
  · obtain ⟨made, hmade, hmakes, hplace⟩ := hg.resolves f closure (Scope.callable_eq_ok.1 hf)
    have hposition : g.position = g.place := by
      unfold Config.position
      rw [htask]
    rw [hposition] at hplace
    exact ⟨made, hmade, hmakes, hplace, fun D _ _ _ _ _ hD => (Point.sees_of_resolve hplace).outward hD⟩
  · have hbegun := ((Event.each_append _ _ _).1 (Interpreter.calls_begun hlog)).2.1
    obtain ⟨k, live, q, closure, g, h, htrail, henters, hpast, hname, -⟩ := hbegun f depth rfl
    obtain ⟨p, hreached⟩ := Trail.reached (g := g) htrail
    cases henters with
    | intro hf hargs hd => exact ⟨q, closure, _, _, hreached, .intro hf hargs hd, hpast, hname⟩
  · obtain ⟨res, f, m, hm⟩ := Block.settles_on (l := limits) program htame 0 r.rootScope.child _
      (r.rootScope_settlesOn limits _)
    let j := (Interpreter.ofRegistry r limits).withFrame ⟨f.scope, f.world.noteAll (Outcome.ofExcept res).ending⟩
    refine ⟨res, j, m, fun k hk => ?_⟩
    obtain ⟨hout, hend⟩ := Interpreter.execute_apply k program (.ofRegistry r limits) (hm k hk)
    exact Prod.ext hout hend

def relay : Block :=
  [.function "g" [] [.result (.literal 1)], .function "f" [] [.evaluate (.call "g" [])], .evaluate (.call "f" [])]

theorem relay_goes_outward :
    (∃ g made closure, Reached (.ofProgram .standard .unlimited relay 20) g ∧ g.place = [0, 0, 1] ∧
      g.task = .invocation "g" [] ∧ g.scope.callable "g" = .ok (.user closure) ∧
      Reached (.ofProgram .standard .unlimited relay 20) made ∧ made.Makes closure ∧
      (Point.ofProgram .standard relay).resolve "g" [0, 0, 1] = some made.place ∧
      (made.place <:+ [1] ∨ Place.EndsBefore made.place [1])) ∧
    ∃ res j m, ∀ k, m ≤ k → Interpreter.execute k relay (.ofRegistry .standard .unlimited) = (.ofExcept res, j) := by
  have houtward := recursion_goes_outward .standard .unlimited relay
  refine ⟨?_, houtward.2.2 ?_⟩
  · have hsecond : Reached (.ofProgram .standard .unlimited relay 20) _ := Reached.start.calls (.nextStatement rfl)
    have hthird := hsecond.calls (.nextStatement rfl)
    have hcall := ((hthird.calls .statement).calls .evaluate).calls (.invocation rfl)
    have hbody := (hcall.enters (hsecond.calls .statement) ⟨rfl, rfl⟩ (.intro rfl rfl rfl)).calls .body
    have hinner := ((hbody.calls .statement).calls .evaluate).calls (.invocation rfl)
    obtain ⟨made, hmade, hmakes, hplace, hends⟩ := houtward.1 20 _ "g" [] _ hinner rfl rfl
    refine ⟨_, made, _, hinner, rfl, rfl, rfl, hmade, hmakes, hplace, ?_⟩
    exact hends [1] _ "f" [] _ rfl ⟨⟨[0, 0], rfl⟩, by decide⟩
  · simp [relay, Block.Every, Statement.Every, Statement.Tame, Statement.IsLoop, Statement.CallsItself, Block.callees,
      Statement.callees, Expression.callees, Expression.calleesAll]

end IntScript
