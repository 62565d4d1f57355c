import IntScript.Proofs.Reset
import IntScript.Proofs.Trails

set_option autoImplicit false

namespace IntScript

/-- The name is bound to the cell in the scope, or in one that a function of the scope has captured. -/
inductive Scope.Binds : Scope → String → Cell → Prop
  | bound {s : Scope} {x : String} {cell : Cell} (hx : s.vars.lookup? x = some cell) : Binds s x cell
  | captured {s : Scope} {f : String} {closure : Closure} {x : String} {cell : Cell}
      (hf : s.funs.lookup? f = some (.user closure)) (hc : Binds closure.scope x cell) : Binds s x cell

namespace Scope

variable {s t : Scope} {x y : String} {cell other : Cell}

def Sub (s t : Scope) : Prop := ∀ x cell, s.Binds x cell → t.Binds x cell

theorem child_sub (s : Scope) : s.child.Sub s := by
  intro x cell h
  cases h with
  | bound hx => exact .bound hx
  | captured hf hc => exact .captured hf hc

theorem captured_sub {f : String} {closure : Closure} (hf : s.callable f = .ok (.user closure)) :
    closure.scope.Sub s := by
  intro x cell h
  exact .captured (callable_eq_ok.1 hf) h

theorem function_sub {f : String} {closure : Closure} {funs : Table Callable}
    (hfuns : ∀ g, funs.lookup? g = if g = f then some (.user closure) else s.funs.lookup? g)
    (hclosure : closure.scope.Sub s) : Scope.Sub ⟨s.vars, funs⟩ s := by
  intro x cell h
  cases h with
  | bound hx => exact .bound hx
  | @captured _ g _ _ _ hg hc =>
    rw [hfuns g] at hg
    by_cases hname : g = f
    · rw [if_pos hname] at hg
      cases hg
      exact hclosure x cell hc
    · rw [if_neg hname] at hg
      exact .captured hg hc

theorem entryScope_sub (closure : Closure) : closure.entryScope.Sub closure.scope := by
  have hself : closure.entryScope.Sub closure.scope.child :=
    function_sub (Table.lookup?_inherit _ _ · _) fun x cell h => by
      cases h with
      | bound hx => exact .bound hx
      | captured hf hc => exact .captured hf hc
  intro x cell h
  exact child_sub closure.scope x cell (hself x cell h)

theorem binds_declared (h : Scope.Binds ⟨s.vars.bind x cell, s.funs⟩ y other) :
    y = x ∧ other = cell ∨ s.Binds y other := by
  cases h with
  | bound hy =>
    rw [Table.lookup?_bind] at hy
    by_cases hxy : y = x
    · rw [if_pos hxy] at hy
      exact .inl ⟨hxy, (Option.some.inj hy).symm⟩
    · rw [if_neg hxy] at hy
      exact .inr (.bound hy)
  | captured hf hc => exact .inr (.captured hf hc)

/-- No cell is bound under two names, in whichever of the scopes. -/
def Unaliased (scopes : List Scope) : Prop :=
  ∀ s ∈ scopes, ∀ t ∈ scopes, ∀ x y cell, s.Binds x cell → t.Binds y cell → x = y

/-- All cells that the scopes bind have been added, and one assignment of names fits all the scopes. -/
def Named (scopes : List Scope) (w : World) : Prop :=
  ∃ name : Cell → String, ∀ s ∈ scopes, ∀ x cell, s.Binds x cell → cell.index < w.store.size ∧ name cell = x

namespace Named

variable {scopes scopes' : List Scope} {w w' : World}

theorem unaliased (h : Named scopes w) : Unaliased scopes := by
  obtain ⟨name, hname⟩ := h
  intro s hs t ht x y cell hx hy
  calc x = name cell := (hname s hs x cell hx).2.symm
    _ = y := (hname t ht y cell hy).2

theorem allocated (h : Named scopes w) (hs : s ∈ scopes) (hx : s.Binds x cell) : cell.index < w.store.size := by
  obtain ⟨name, hname⟩ := h
  exact (hname s hs x cell hx).1

theorem mono (h : Named scopes w) (hscopes : scopes' ⊆ scopes) (hsize : w.store.size ≤ w'.store.size) :
    Named scopes' w' := by
  obtain ⟨name, hname⟩ := h
  refine ⟨name, fun s hs x cell hx => ?_⟩
  obtain ⟨hlt, hcell⟩ := hname s (hscopes hs) x cell hx
  exact ⟨by omega, hcell⟩

theorem cons (h : Named scopes w) (hs : s ∈ scopes) (ht : t.Sub s) : Named (t :: scopes) w := by
  obtain ⟨name, hname⟩ := h
  refine ⟨name, fun u hu x cell hx => ?_⟩
  rcases List.mem_cons.1 hu with rfl | hu
  · exact hname s hs x cell (ht x cell hx)
  · exact hname u hu x cell hx

theorem declare (h : Named scopes w) (hs : s ∈ scopes) (x : String) (v : Value) :
    Named (⟨s.vars.bind x w.nextCell, s.funs⟩ :: scopes) (w.add v) := by
  classical
  obtain ⟨name, hname⟩ := h
  -- no scope can bind the next cell yet, so to name it leaves all other names as they are
  have hold : ∀ t ∈ scopes, ∀ y cell, t.Binds y cell →
      cell.index < (w.add v).store.size ∧ Function.update name w.nextCell x cell = y := by
    intro t ht y cell hy
    obtain ⟨hlt, hcell⟩ := hname t ht y cell hy
    have hne : cell ≠ w.nextCell := by
      rintro rfl
      exact Nat.lt_irrefl _ hlt
    rw [World.size_add, Function.update_of_ne hne]
    exact ⟨by omega, hcell⟩
  refine ⟨Function.update name w.nextCell x, fun t ht y cell hy => ?_⟩
  rcases List.mem_cons.1 ht with rfl | ht
  · rcases binds_declared hy with ⟨rfl, rfl⟩ | hy
    · rw [World.size_add, Function.update_self]
      exact ⟨Nat.lt_succ_self _, rfl⟩
    · exact hold s hs y cell hy
  · exact hold t ht y cell hy

end Named

end Scope

open Attempt Scope

/-- Whatever else is live, the names that fit before fit after, and fit the scope reached as well. -/
def Frame.Evolves (f g : Frame) : Prop :=
  ∀ scopes, f.scope ∈ scopes → Named scopes f.world → Named (g.scope :: scopes) g.world

namespace Frame.Evolves

variable {f g h : Frame}

theorem of_sub (hscope : g.scope.Sub f.scope) (hsize : f.world.store.size ≤ g.world.store.size) : f.Evolves g := by
  intro scopes hf hnamed
  exact (hnamed.cons hf hscope).mono (List.Subset.refl _) hsize

theorem of_eq (hscope : g.scope = f.scope) (hsize : f.world.store.size ≤ g.world.store.size) : f.Evolves g :=
  of_sub (fun _ _ hx => hscope ▸ hx) hsize

theorem refl (f : Frame) : f.Evolves f := of_eq rfl (Nat.le_refl _)

theorem trans (hfg : f.Evolves g) (hgh : g.Evolves h) : f.Evolves h := by
  intro scopes hf hnamed
  have hboth := hgh (g.scope :: scopes) List.mem_cons_self (hfg scopes hf hnamed)
  refine hboth.mono ?_ (Nat.le_refl _)
  intro s hs
  simp only [List.mem_cons] at hs ⊢
  tauto

end Frame.Evolves

theorem Exec.Confined.size_le {α : Type} {m : Exec α} (h : Exec.Confined (fun _ => True) m m) (w : World) :
    w.store.size ≤ (m w).2.store.size :=
  (h w w ⟨rfl, fun _ _ => trivial, fun _ _ => rfl⟩).2.size

theorem Run.Confined.size_le {α : Type} {m : Run α} (h : Run.Confined (fun _ => True) m m) (f : Frame) :
    f.world.store.size ≤ (m f).2.world.store.size :=
  (h f.scope f.world f.world (fun _ _ => trivial) ⟨rfl, fun _ _ => trivial, fun _ _ => rfl⟩).2.2.2.size

namespace Run

variable {α β : Type}

def Evolving (m : Run α) : Prop := ∀ f : Frame, f.Evolves (m f).2

theorem Evolving.bind {m : Run α} {k : α → Run β} (hm : Evolving m) (hk : ∀ a, Evolving (k a)) :
    Evolving (m >>= k) := by
  intro f
  have hfirst := hm f
  rw [bind_apply]
  generalize m f = r at hfirst ⊢
  rcases r with ⟨a | e | _, g⟩
  · exact hfirst.trans (hk a g)
  · exact hfirst
  · exact hfirst

theorem evolving_pure (a : α) : Evolving (Pure.pure a) := fun f => .refl f

theorem evolving_outOfFuel : Evolving (outOfFuel : Run α) := fun f => .refl f

theorem evolving_note (e : Event) : Evolving (note e) := fun _ => .of_eq rfl (Nat.le_refl _)

theorem evolving_declareVariable (x : String) (v : Value) : Evolving (declareVariable x v) := by
  intro f
  unfold declareVariable
  cases hx : f.scope.declareVariable x f.world.nextCell with
  | error e => exact .refl f
  | ok t =>
    obtain ⟨-, rfl⟩ := declareVariable_eq_ok.1 hx
    intro scopes hf hnamed
    exact hnamed.declare hf x v

theorem evolving_declareFunction (d : FunctionDecl) : Evolving (declareFunction d) := by
  intro f
  unfold declareFunction
  cases hd : f.scope.declareFunction d.name (.user ⟨d, f.scope.child⟩) with
  | error e => exact .refl f
  | ok t =>
    obtain ⟨-, rfl⟩ := declareFunction_eq_ok.1 hd
    exact .of_sub (function_sub (Table.lookup?_bind _ _ · _) (child_sub f.scope)) (Nat.le_refl _)

end Run

/-- Only declarations change the scope of a statement. -/
theorem Statement.evolving (n : Nat) (c : Context) (st : Statement) : Run.Evolving (Statement.exec n c st) := by
  have hsize := ((Confines.all (fun _ => True) n).statement c st).size_le
  cases n with
  | zero => exact Run.evolving_outOfFuel
  | succ n =>
    cases st with
    | function f params b =>
      apply (Run.evolving_note _).bind
      intro _
      apply (Run.evolving_declareFunction _).bind
      intro _
      exact Run.evolving_pure none
    | declare x init =>
      cases init with
      | none =>
        apply (Run.evolving_declareVariable x 0).bind
        intro _
        exact Run.evolving_pure none
      | some e =>
        have heval : Run.Evolving (Run.within fun s => Expression.eval n c s e) := by
          intro f
          exact .of_eq rfl (((Confines.all _ n).eval c f.scope e fun _ _ => trivial).size_le f.world)
        apply heval.bind
        intro v
        apply (Run.evolving_declareVariable x v).bind
        intro _
        exact Run.evolving_pure none
    | _ => exact fun f => .of_eq rfl (hsize f)

theorem Block.evolving (n : Nat) (c : Context) (b : Block) : Run.Evolving (Block.exec n c b) := by
  induction n generalizing b with
  | zero => exact Run.evolving_outOfFuel
  | succ n ih =>
    cases b with
    | nil => exact Run.evolving_pure none
    | cons st rest =>
      apply (Statement.evolving n c st).bind
      intro signal
      cases signal with
      | some v => exact Run.evolving_pure (some v)
      | none => exact ih rest

def Config.frame (g : Config) : Frame := ⟨g.scope, g.world⟩

theorem Exec.Confined.size_le_of {α : Type} {m : Exec α} (h : Exec.Confined (fun _ => True) m m) {w w' : World}
    {r : Outcome EvalError α} (hm : m w = (r, w')) : w.store.size ≤ w'.store.size := by
  have hsize := h.size_le w
  rw [hm] at hsize
  exact hsize

theorem Calls.evolves {g h : Config} (hc : Calls g h) : g.frame.Evolves h.frame := by
  have hwithin := Scope.within_true
  have hall : ∀ n, Confines (fun _ => True) n := Confines.all _
  cases hc with
  | @right p n c s w op l r a w' hl ha => exact .of_eq rfl (((hall n).eval c s l (hwithin s)).size_le_of hl)
  | @nextArgument p n c s w i e es v w' he => exact .of_eq rfl (((hall n).eval c s e (hwithin s)).size_le_of he)
  | @invocation p n c s w f args vs w' hargs =>
    exact .of_eq rfl (((hall n).evalAll c s args (hwithin s)).size_le_of hargs)
  | parameter hx =>
    obtain ⟨-, rfl⟩ := declareVariable_eq_ok.1 hx
    intro scopes hg hnamed
    exact hnamed.declare hg _ _
  | block => exact .of_sub (child_sub _) (Nat.le_refl _)
  | @consequent p n c s w e t v w' he hv => exact .of_eq rfl (((hall n).eval c s e (hwithin s)).size_le_of he)
  | @first p n c s w e t u v w' he hv => exact .of_eq rfl (((hall n).eval c s e (hwithin s)).size_le_of he)
  | @second p n c s w e t u v w' he hv => exact .of_eq rfl (((hall n).eval c s e (hwithin s)).size_le_of he)
  | @nextStatement p n c s w i st rest f hst =>
    have hframe := Statement.evolving n c st ⟨s, w⟩
    rw [hst] at hframe
    exact hframe
  | branchBlock => exact .of_sub (child_sub _) (Nat.le_refl _)
  | branchStatement => exact .of_sub (child_sub _) (Nat.le_refl _)
  | @loopBody p n c s w e b k v w' he hv hk => exact .of_eq rfl (((hall n).eval c s e (hwithin s)).size_le_of he)
  | @nextIteration p n c s w e b k v w' w'' he hv hk hb =>
    have hcondition := ((hall n).eval c s e (hwithin s)).size_le_of he
    have hbody := ((hall n).child c s b (hwithin s)).size_le_of hb
    exact .of_eq rfl (Nat.le_trans hcondition hbody)
  | _ => exact .refl _

theorem Enters.evolves {q : Place} {closure : Closure} {g h : Config} (he : Enters q closure g h) :
    g.frame.Evolves h.frame := by
  cases he with
  | intro hf hargs hd =>
    refine .of_sub (fun x cell hx => ?_) (Nat.le_refl _)
    exact captured_sub hf x cell (entryScope_sub closure x cell hx)

/-- All scopes on the way into a run, and all that were live before it, are named alike. -/
theorem Trail.named {start g : Config} {k : Nat} {live scopes : List Scope} (hg : Trail start k live g)
    (hstart : start.scope ∈ scopes) (h : Named scopes start.world) : Named (g.scope :: live ++ scopes) g.world := by
  induction hg with
  | start => exact h.cons hstart fun _ _ hx => hx
  | calls _ hc ih => exact hc.evolves _ List.mem_cons_self ih
  | enters _ he ih => exact he.evolves _ List.mem_cons_self ih

namespace Interpreter

def frame (i : Interpreter) : Frame := ⟨i.globals, i.world⟩

/-- A function that is called as a value, or a cell that is written, was found by name in one of the scopes. -/
def Operation.Finds (scopes : List Scope) : Operation → Prop
  | .invoke _ callee _ => ∃ s ∈ scopes, ∃ f, s.callable f = .ok callee
  | .write cell _ => ∃ s ∈ scopes, ∃ x, s.cell x = .ok cell
  | _ => True

/-- The interpreter comes from a new one by operations that may have failed. The list has its top-level scopes since
then, the present one first, and its root. -/
inductive Arises (r : Registry) : List Scope → Interpreter → Prop
  | new (limits : Limits) : Arises r [(ofRegistry r limits).globals, (ofRegistry r limits).root] (ofRegistry r limits)
  | step {seen : List Scope} {i : Interpreter} (h : Arises r seen i) (op : Operation) (hop : op.Finds seen) :
      Arises r ((op.apply i).globals :: seen) (op.apply i)

/-- Where evaluation begins in an operation. A function that is called as a value runs as by its name, in a scope where
it was found. -/
inductive Operation.Begins (seen : List Scope) (i : Interpreter) : Operation → Config → Prop
  | execute (n : Nat) (program : Block) :
      Begins seen i (.execute n program)
        ⟨[], n, .top i.limits, i.globals, i.start program, .statements 0 program⟩
  | run {n : Nat} {source : String} {program : Block} (h : parseProgram source = .ok program) :
      Begins seen i (.run n source) ⟨[], n, .top i.limits, i.globals, i.start program, .statements 0 program⟩
  | statement (n : Nat) (st : Statement) :
      Begins seen i (.statement n st) ⟨[], n, .top i.limits, i.globals, i.world, .statement st⟩
  | expression (n : Nat) (e : Expression) :
      Begins seen i (.expression n e) ⟨[], n, .top i.limits, i.globals, i.world, .expression e⟩
  | call (n : Nat) (f : String) (args : List Value) :
      Begins seen i (.call n f args) ⟨[], n, .top i.limits, i.globals, i.world, .invocation f args⟩
  | invoke {n : Nat} {callee : Callable} {args : List Value} {s : Scope} {f : String} (hs : s ∈ seen)
      (hf : s.callable f = .ok callee) :
      Begins seen i (.invoke n callee args) ⟨[], n, .top i.limits, s, i.world, .invocation f args⟩

section Operations

variable {α β : Type}

theorem evolves_atTop {m : Context → Run α} (hm : ∀ c, Run.Evolving (m c)) (i : Interpreter) :
    i.frame.Evolves (atTop m i).2.frame :=
  hm (.top i.limits) i.frame

theorem evolves_within {m : Context → Scope → Exec α}
    (hm : ∀ c s, Exec.Confined (fun _ => True) (m c s) (m c s)) (i : Interpreter) :
    i.frame.Evolves (atTop (fun c => Run.within (m c)) i).2.frame :=
  .of_eq rfl ((hm (.top i.limits) i.globals).size_le i.world)

theorem evolves_execute (n : Nat) (program : Block) (i : Interpreter) :
    i.frame.Evolves (execute n program i).2.frame := by
  have hblock : i.frame.Evolves (atTop (fun c => Block.exec n c program) (i.withWorld (i.start program))).2.frame :=
    evolves_atTop (fun c => Block.evolving n c program) (i.withWorld (i.start program))
  change i.frame.Evolves (closing (atTop fun c => Block.exec n c program) (i.withWorld (i.start program))).2.frame
  unfold closing
  generalize atTop (fun c => Block.exec n c program) (i.withWorld (i.start program)) = r at hblock ⊢
  rcases r with ⟨a | e | _, j⟩
  · exact hblock.trans (.of_eq rfl (Nat.le_refl _))
  · exact hblock.trans (.of_eq rfl (Nat.le_refl _))
  · exact hblock

theorem evolves_run (n : Nat) (source : String) (i : Interpreter) : i.frame.Evolves (run n source i).2.frame := by
  unfold run
  cases parseProgram source with
  | error e => exact .refl _
  | ok program => exact evolves_execute n program i

/-- What follows a look-up adds cells only if it does so itself. -/
theorem evolves_lookup {r : Context → Scope → Except EvalError β} {m : Context → Scope → β → Exec α}
    (hm : ∀ c s b, Exec.Confined (fun _ => True) (m c s b) (m c s b)) (i : Interpreter) :
    i.frame.Evolves (atTop (fun c => Run.within fun s => .ofExcept (r c s) >>= m c s) i).2.frame := by
  apply evolves_within
  intro c s
  exact (Exec.confined_check (r c s)).bind fun b => hm c s b

open Exec in
theorem Operation.named {seen : List Scope} {i : Interpreter} (op : Operation) (hglobals : i.globals ∈ seen)
    (hroot : i.root ∈ seen) (h : Named seen i.world) : Named ((op.apply i).globals :: seen) (op.apply i).world := by
  have hevolves : i.frame.Evolves (op.apply i).frame → Named ((op.apply i).globals :: seen) (op.apply i).world :=
    fun hi => hi seen hglobals h
  have hall : ∀ n, Confines (fun _ => True) n := Confines.all _
  cases op with
  | execute n program => exact hevolves (evolves_execute n program i)
  | run n source => exact hevolves (evolves_run n source i)
  | statement n st => exact hevolves (evolves_atTop (fun c => Statement.evolving n c st) i)
  | expression n e => exact hevolves (evolves_within (fun c s => (hall n).eval c s e fun _ _ => trivial) i)
  | call n f args =>
    apply hevolves
    exact evolves_lookup (fun c _ callee => (hall n).invoke c callee args (Callable.within_true callee)) i
  | invoke n callee args =>
    apply hevolves
    exact evolves_within (fun c _ => (hall n).invoke c callee args (Callable.within_true callee)) i
  | get x =>
    apply hevolves
    exact evolves_lookup (fun _ _ cell => confined_read trivial) i
  | set x v =>
    apply hevolves
    exact evolves_lookup (fun _ _ cell => confined_write trivial v) i
  | write cell v => exact hevolves (.of_eq rfl (Nat.le_of_eq (World.size_write i.world cell v).symm))
  | limit limits => exact hevolves (.refl _)
  | flush => exact hevolves (.of_eq rfl (Nat.le_refl _))
  | reset => exact h.cons hroot (child_sub i.root)

theorem Operation.Begins.scope_mem {seen : List Scope} {i : Interpreter} {op : Operation} {start : Config}
    (hop : op.Begins seen i start) (hglobals : i.globals ∈ seen) :
    start.scope ∈ seen ∧ start.world.store = i.world.store := by
  cases hop with
  | invoke hs hf => exact ⟨hs, rfl⟩
  | _ => exact ⟨hglobals, rfl⟩

end Operations

namespace Arises

variable {r : Registry} {seen : List Scope} {i : Interpreter}

theorem globals_mem (h : Arises r seen i) : i.globals ∈ seen := by
  cases h with
  | new => exact List.mem_cons_self
  | step => exact List.mem_cons_self

theorem root_mem (h : Arises r seen i) : i.root ∈ seen := by
  induction h with
  | new => simp
  | step _ op _ ih =>
    rw [op.root_apply]
    exact List.mem_cons_of_mem _ ih

theorem new_binds (r : Registry) {x : String} {cell : Cell} : ¬ r.rootScope.Binds x cell := by
  intro h
  cases h with
  | bound hx => cases hx
  | @captured _ f closure _ _ hf hc =>
    change (r.tools.map Callable.native).lookup? f = some (.user closure) at hf
    rw [Table.lookup?_map] at hf
    cases hlookup : r.tools.lookup? f <;> simp [hlookup] at hf

theorem named (h : Arises r seen i) : Named seen i.world := by
  induction h with
  | new limits =>
    have hroot : Named [r.rootScope] .empty := by
      refine ⟨fun _ => "", fun s hs x cell hx => ?_⟩
      rw [List.mem_singleton.1 hs] at hx
      exact absurd hx (new_binds r)
    exact hroot.cons List.mem_cons_self (child_sub _)
  | step h op _ ih => exact op.named h.globals_mem h.root_mem ih

end Arises

end Interpreter

open Interpreter

theorem Statement.exec_assign {n : Nat} {c : Context} {f : Frame} {x : String} {e : Expression} {cell : Cell} {v : Value}
    {w : World} (hx : f.scope.cell x = .ok cell) (he : Expression.eval n c f.scope e f.world = (.done v, w)) :
    Statement.exec (n + 1) c (.assign x e) f = (.done none, ⟨f.scope, w.write cell v⟩) := by
  simp only [Statement.exec, Run.within, hx, bind_apply, Attempt.ofExcept, Outcome.ofExcept, he, Exec.write,
    Attempt.modify, Attempt.pure_apply]

/-- After any operations on an interpreter, and everywhere inside the next one, each cell is bound under one name in all
scopes that are live or were live at the top. So no scope sees a cell under two names, and an assignment shows under no
other name than its own. -/
theorem cells_have_one_name {r : Registry} {seen : List Scope} {i : Interpreter} (h : Arises r seen i) :
    Unaliased seen ∧ ∀ (op : Operation) start k live g, op.Begins seen i start → Trail start k live g →
      Unaliased (g.scope :: live ++ seen) ∧
        (∀ s ∈ g.scope :: live ++ seen, ∀ x y cell, s.cell x = .ok cell → s.cell y = .ok cell → x = y) ∧
        ∀ n x e cell v w, g.fuel = n + 1 → g.task = .statement (.assign x e) → g.scope.cell x = .ok cell →
          Expression.eval n g.context g.scope e g.world = (.done v, w) →
            let after := (Statement.exec g.fuel g.context (.assign x e) g.frame).2.world
            after.read cell = v ∧ ∀ s ∈ g.scope :: live ++ seen, ∀ y other, y ≠ x → s.Binds y other →
              after.read other = w.read other := by
  refine ⟨h.named.unaliased, fun op start k live g hop hg => ?_⟩
  obtain ⟨hstart, hstore⟩ := hop.scope_mem h.globals_mem
  have hbegin : Named seen start.world := h.named.mono (List.Subset.refl _) (by rw [hstore])
  have hnamed := hg.named hstart hbegin
  have hone := hnamed.unaliased
  refine ⟨hone, fun s hs x y cell hx hy => ?_, fun n x e cell v w hfuel _ hx he => ?_⟩
  · exact hone s hs s hs x y cell (.bound (cell_eq_ok.1 hx)) (.bound (cell_eq_ok.1 hy))
  · have hbound : g.scope.Binds x cell := .bound (cell_eq_ok.1 hx)
    have hsize : g.world.store.size ≤ w.store.size :=
      ((Confines.all (fun _ => True) n).eval g.context g.scope e fun _ _ => trivial).size_le_of he
    have hcell : cell.index < w.store.size := Nat.lt_of_lt_of_le (hnamed.allocated List.mem_cons_self hbound) hsize
    have hrun := Statement.exec_assign (f := g.frame) hx he
    dsimp only
    rw [hfuel, hrun]
    refine ⟨?_, fun s hs y other hne hy => ?_⟩
    · rw [World.read_write, if_pos ⟨rfl, hcell⟩]
    · rw [World.read_write, if_neg]
      rintro ⟨rfl, -⟩
      exact hne (hone s hs g.scope List.mem_cons_self y x other hy hbound)

def sharing : Block := [.declare "x" (some (.literal 7)), .function "f" ["y"] [.assign "y" (.var "x")]]

def shared : Interpreter := (Operation.execute 9 sharing).apply (.ofRegistry .standard .unlimited)

theorem shared_has_one_name :
    ∃ seen live g,
      Arises .standard seen shared ∧
      Operation.Begins seen shared (.call 9 "f" [5])
        ⟨[], 9, .top .unlimited, shared.globals, shared.world, .invocation "f" [5]⟩ ∧
      Trail ⟨[], 9, .top .unlimited, shared.globals, shared.world, .invocation "f" [5]⟩ 1 live g ∧
      g.task = .statement (.assign "y" (.var "x")) ∧ g.scope.cell "y" = .ok ⟨1⟩ ∧ g.scope.cell "x" = .ok ⟨0⟩ ∧
      Unaliased (g.scope :: live ++ seen) ∧
      (Statement.exec g.fuel g.context (.assign "y" (.var "x")) g.frame).2.world.read ⟨1⟩ = 7 := by
  have harises : Arises .standard _ shared := .step (.new .unlimited) (.execute 9 sharing) trivial
  have htrail : Trail ⟨[], 9, .top .unlimited, shared.globals, shared.world, .invocation "f" [5]⟩ 1 _ _ :=
    (((Trail.start.enters (q := []) (.intro (f := "f") rfl rfl rfl)).calls (.parameter rfl)).calls .body).calls .statement
  have hnames := (cells_have_one_name harises).2 _ _ _ _ _ (.call 9 "f" [5]) htrail
  have hassign := hnames.2.2 _ "y" (.var "x") ⟨1⟩ 7 _ rfl rfl rfl rfl
  exact ⟨_, _, _, harises, .call 9 "f" [5], htrail, rfl, rfl, rfl, hnames.1, hassign.1⟩

end IntScript
