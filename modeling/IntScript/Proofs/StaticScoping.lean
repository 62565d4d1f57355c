import IntScript.Proofs.Failure

set_option autoImplicit false

namespace IntScript

namespace StaticScope

def fault (E : StaticScope) : Check → Option EvalError
  | .cell x => if x ∈ E.vars then none else some (.nameNotFound .var x)
  | .callable f => if (E.funs f).isSome then none else some (.nameNotFound .function f)
  | .arity f args =>
    match E.funs f with
    | some ⟨name, some expected⟩ =>
      if expected = args.length then none else some (.arityMismatch name expected args.length)
    | _ => none
  | .declareVariable x _ => if x ∈ E.varsHere then some (.duplicateDeclaration .var x) else none
  | .declareFunction f _ => if f ∈ E.funsHere then some (.duplicateDeclaration .function f) else none

theorem foldl_take_succ {α β : Type} (f : β → α → β) (start : β) {items rest : List α} {i : Nat} {x : α}
    (h : items.drop i = x :: rest) :
    (items.take (i + 1)).foldl f start = f ((items.take i).foldl f start) x := by
  have hget : items[i]? = some x := by
    rw [← List.head?_drop, h]
    rfl
  rw [List.take_add_one, hget]
  simp

end StaticScope

namespace Scope.Matches

variable {s t : Scope} {E : StaticScope}

theorem declares {st : Statement} (h : s.Matches E) (hd : s.Declares st t) : t.Matches (E.after st) := by
  cases st with
  | declare x init =>
    obtain ⟨cell, hx⟩ := hd
    obtain ⟨-, rfl⟩ := declareVariable_eq_ok.1 hx
    exact h.bindVariable x cell
  | function f params b =>
    obtain ⟨-, rfl⟩ := declareFunction_eq_ok.1 hd
    exact h.bindFunction rfl
  | _ =>
    subst hd
    exact h

theorem entryScope {closure : Closure} (h : s.Matches E) (hs : closure.scope = s.child) :
    closure.entryScope.Matches (E.entry closure.decl.name closure.decl.params.length) := by
  unfold Closure.entryScope
  rw [hs]
  exact h.child.child.inheritFunction rfl

theorem fault_cell (h : s.Matches E) (x : String) : s.fault (.cell x) = E.fault (.cell x) := by
  have hx := h.vars x
  unfold Table.contains at hx
  unfold Scope.fault StaticScope.fault Scope.cell
  dsimp only
  cases hl : s.vars.lookup? x with
  | none =>
    rw [hl] at hx
    have hn : x ∉ E.vars := fun hin => by simpa using hx.2 hin
    rw [if_neg hn]
    rfl
  | some cell =>
    rw [hl] at hx
    rw [if_pos (hx.1 rfl)]
    rfl

theorem fault_callable (h : s.Matches E) (f : String) : s.fault (.callable f) = E.fault (.callable f) := by
  have hf := h.funs f
  unfold Scope.fault StaticScope.fault Scope.callable
  dsimp only
  rw [← hf]
  cases s.funs.lookup? f <;> rfl

theorem fault_arity (h : s.Matches E) (f : String) (args : List Value) :
    s.fault (.arity f args) = E.fault (.arity f args) := by
  have hf := h.funs f
  unfold Scope.fault StaticScope.fault Scope.callable
  dsimp only
  rw [← hf]
  cases s.funs.lookup? f with
  | none => rfl
  | some callee =>
    simp only [Option.map_some, Callable.signature, Callable.checkArity]
    cases callee.arity with
    | none => rfl
    | some expected =>
      dsimp only
      split <;> rfl

theorem fault (h : s.Matches E) (k : Check) : s.fault k = E.fault k := by
  cases k with
  | cell x => exact h.fault_cell x
  | callable f => exact h.fault_callable f
  | arity f args => exact h.fault_arity f args
  | declareVariable x cell =>
    have hx := h.varsHere x
    unfold Scope.fault StaticScope.fault Scope.declareVariable Table.declare?
    dsimp only
    by_cases hin : x ∈ E.varsHere
    · rw [hx.2 hin, if_pos hin]
      rfl
    · have hf : s.vars.isDeclaredHere x = false := by simpa using mt hx.1 hin
      rw [hf, if_neg hin]
      rfl
  | declareFunction f item =>
    have hf := h.funsHere f
    unfold Scope.fault StaticScope.fault Scope.declareFunction Table.declare?
    dsimp only
    by_cases hin : f ∈ E.funsHere
    · rw [hf.2 hin, if_pos hin]
      rfl
    · have hd : s.funs.isDeclaredHere f = false := by simpa using mt hf.1 hin
      rw [hd, if_neg hin]
      rfl

end Scope.Matches

/-- What the text says of a configuration: the static scope that rules there. -/
def Config.Text (start : Point) (g : Config) (E : StaticScope) : Prop :=
  match g.task with
  | .expression e => start.at? g.place = some ⟨E, .expression e⟩
  | .arguments i es =>
    ∃ f args, start.at? g.place = some ⟨E, .expression (.call f args)⟩ ∧ args.drop i = es
  | .invocation f values =>
    ∃ args, start.at? g.place = some ⟨E, .expression (.call f args)⟩ ∧ values.length = args.length
  | .parameters d i rest =>
    ∃ before, start.at? g.place = some ⟨before, .statement d.statement⟩ ∧
      E = (before.entry d.name d.params.length).declareAll (d.params.take i) ∧
      d.params.drop i = rest.map Prod.fst
  | .statement s => start.at? g.place = some ⟨E, .statement s⟩
  | .statements i rest =>
    ∃ point first b, start.at? g.place = some point ∧ point.block? = some (first, b) ∧
      E = first.afterAll (b.take i) ∧ b.drop i = rest
  | .branch s => start.at? g.place = some ⟨E.inner, .statement s⟩
  | .iteration c s _ => start.at? g.place = some ⟨E, .statement (.loop c s)⟩

theorem Expression.evalAll_length {n : Nat} {c : Context} {s : Scope} {es : List Expression} {w w' : World}
    {values : List Value} (h : Expression.evalAll n c s es w = (.done values, w')) : values.length = es.length := by
  induction n generalizing es values w w' with
  | zero => cases h
  | succ n ih =>
    cases es with
    | nil =>
      obtain ⟨rfl, -⟩ := (Attempt.pure_eq_done _ _ _ _).1 h
      rfl
    | cons e es =>
      rw [Expression.evalAll, Attempt.bind_eq_done] at h
      obtain ⟨v, w₁, -, h⟩ := h
      obtain ⟨vs, w₂, hvs, h⟩ := Attempt.bind_eq_done.1 h
      obtain ⟨rfl, -⟩ := (Attempt.pure_eq_done _ _ _ _).1 h
      rw [List.length_cons, List.length_cons, ih hvs]

namespace Config

variable {start : Point} {g h : Config} {E : StaticScope}

theorem Text.statement {p : Place} {n : Nat} {c : Context} {s : Scope} {w : World} {i : Nat} {st : Statement}
    {rest : Block} (ht : Text start ⟨p, n, c, s, w, .statements i (st :: rest)⟩ E) :
    start.at? (i :: p) = some ⟨E, .statement st⟩ := by
  obtain ⟨point, first, b, hat, hb, rfl, hrest⟩ := ht
  have hget : b[i]? = some st := by
    rw [← List.head?_drop, hrest]
    rfl
  rw [Point.at?_cons hat, Point.part_of_block? hb, Point.statementAt, hget]
  rfl

theorem Text.argument {p : Place} {n : Nat} {c : Context} {s : Scope} {w : World} {i : Nat} {e : Expression}
    {es : List Expression} (ht : Text start ⟨p, n, c, s, w, .arguments i (e :: es)⟩ E) :
    start.at? (i :: p) = some ⟨E, .expression e⟩ := by
  obtain ⟨f, args, hat, hes⟩ := ht
  have hget : args[i]? = some e := by
    rw [← List.head?_drop, hes]
    rfl
  rw [Point.at?_cons hat, Point.part, hget]
  rfl

theorem drop_succ_of_drop {α : Type} {items rest : List α} {i : Nat} {x : α} (h : items.drop i = x :: rest) :
    items.drop (i + 1) = rest := by
  rw [← List.tail_drop, h]
  rfl

theorem Text.calls (ht : g.Text start E) (hs : g.scope.Matches E) (hc : Calls g h) :
    ∃ E', h.Text start E' ∧ h.scope.Matches E' := by
  cases hc with
  | left => exact ⟨E, Point.at?_cons ht 0, hs⟩
  | right => exact ⟨E, Point.at?_cons ht 1, hs⟩
  | arguments => exact ⟨E, ⟨_, _, ht, rfl⟩, hs⟩
  | argument => exact ⟨E, ht.argument, hs⟩
  | nextArgument =>
    obtain ⟨f, args, hat, hes⟩ := ht
    exact ⟨E, ⟨f, args, hat, drop_succ_of_drop hes⟩, hs⟩
  | invocation hargs => exact ⟨E, ⟨_, ht, Expression.evalAll_length hargs⟩, hs⟩
  | parameter hx =>
    obtain ⟨before, hat, rfl, hrest⟩ := ht
    obtain ⟨-, rfl⟩ := Scope.declareVariable_eq_ok.1 hx
    refine ⟨_, ⟨before, hat, rfl, drop_succ_of_drop hrest⟩, ?_⟩
    -- the parameters bound so far are the first ones of the definition, and now one more
    rw [StaticScope.declareAll, StaticScope.foldl_take_succ _ _ hrest]
    exact hs.bindVariable _ _
  | @body p n c s w d i =>
    obtain ⟨before, hat, rfl, hrest⟩ := ht
    have htake : d.params.take i = d.params := List.take_of_length_le (List.drop_eq_nil_iff.1 hrest)
    rw [htake] at hs
    exact ⟨_, ⟨_, _, d.body, hat, rfl, rfl, rfl⟩, hs⟩
  | block => exact ⟨_, ⟨_, _, _, ht, rfl, rfl, rfl⟩, hs.child⟩
  | initial => exact ⟨E, Point.at?_cons ht 0, hs⟩
  | evaluate => exact ⟨E, Point.at?_cons ht 0, hs⟩
  | loop => exact ⟨E, ht, hs⟩
  | condition => exact ⟨E, Point.at?_cons ht 0, hs⟩
  | consequent => exact ⟨E, Point.at?_cons ht 1, hs⟩
  | choice => exact ⟨E, Point.at?_cons ht 0, hs⟩
  | first => exact ⟨E, Point.at?_cons ht 1, hs⟩
  | second => exact ⟨E, Point.at?_cons ht 2, hs⟩
  | assigned => exact ⟨E, Point.at?_cons ht 0, hs⟩
  | result => exact ⟨E, Point.at?_cons ht 0, hs⟩
  | statement => exact ⟨E, ht.statement, hs⟩
  | nextStatement hst =>
    obtain ⟨point, first, b, hat, hb, rfl, hrest⟩ := ht
    refine ⟨_, ⟨point, first, b, hat, hb, rfl, drop_succ_of_drop hrest⟩, ?_⟩
    rw [StaticScope.afterAll, StaticScope.foldl_take_succ _ _ hrest]
    exact hs.declares (Statement.exec_declares hst)
  | branchBlock => exact ⟨_, ⟨_, _, _, ht, rfl, rfl, rfl⟩, hs.child⟩
  | branchStatement => exact ⟨_, ht, hs.child⟩
  | loopCondition => exact ⟨E, Point.at?_cons ht 0, hs⟩
  | loopBody => exact ⟨E, Point.at?_cons ht 1, hs⟩
  | nextIteration => exact ⟨E, ht, hs⟩

/-- A call goes on in the static scope of the definition, wherever it was made. -/
theorem Text.enters {made : Config} {closure : Closure} (hmade : made.Makes closure)
    (ht : made.Text start E) (hs : made.scope.Matches E) (hc : Enters made.place closure g h) :
    ∃ E', h.Text start E' ∧ h.scope.Matches E' := by
  cases hc with
  | intro hf hargs hd =>
    have hat : start.at? made.place = some ⟨E, .statement closure.decl.statement⟩ := by
      unfold Text at ht
      rw [hmade.1] at ht
      exact ht
    refine ⟨_, ⟨E, hat, rfl, ?_⟩, hs.entryScope hmade.2⟩
    rw [List.map_fst_zip (Nat.le_of_eq hargs)]
    rfl

end Config

/-- Every reached scope matches the static scope that the text gives for it. -/
theorem Reached.text {r : Registry} {limits : Limits} {program : Block} {fuel : Nat} {g : Config}
    (hg : Reached (.ofProgram r limits program fuel) g) :
    ∃ E, g.Text (.ofProgram r program) E ∧ g.scope.Matches E := by
  induction hg with
  | start => exact ⟨_, ⟨_, _, program, rfl, rfl, rfl, rfl⟩, r.rootScope_matches⟩
  | calls _ hc ih =>
    obtain ⟨E, ht, hs⟩ := ih
    exact ht.calls hs hc
  | enters _ _ hmade hc _ ih =>
    obtain ⟨E, ht, hs⟩ := ih
    exact Config.Text.enters hmade ht hs hc

namespace Config

inductive Shows : Config → Node → Scope → Prop
  | expression {p n c s w e} : Shows ⟨p, n, c, s, w, .expression e⟩ (.expression e) s
  | statement {p n c s w st} : Shows ⟨p, n, c, s, w, .statement st⟩ (.statement st) s
  | branch {p n c s w st} : Shows ⟨p, n, c, s, w, .branch st⟩ (.statement st) s.child

variable {start : Point} {g : Config} {E E' : StaticScope}

theorem Text.shows {node : Node} {s : Scope} (ht : g.Text start E) (hs : g.scope.Matches E) (hn : g.Shows node s) :
    ∃ E', start.at? g.place = some ⟨E', node⟩ ∧ s.Matches E' := by
  cases hn with
  | expression => exact ⟨E, ht, hs⟩
  | statement => exact ⟨E, ht, hs⟩
  | branch => exact ⟨E.inner, ht, hs.child⟩

theorem Text.unique {k : Check} (hk : g.Performs k) (ht : g.Text start E) (ht' : g.Text start E') : E = E' := by
  cases hk with
  | read => exact congrArg Point.scope (Option.some.inj (ht.symm.trans ht'))
  | lookup =>
    obtain ⟨_, ht, -⟩ := ht
    obtain ⟨_, ht', -⟩ := ht'
    exact congrArg Point.scope (Option.some.inj (ht.symm.trans ht'))
  | arity =>
    obtain ⟨_, ht, -⟩ := ht
    obtain ⟨_, ht', -⟩ := ht'
    exact congrArg Point.scope (Option.some.inj (ht.symm.trans ht'))
  | parameter =>
    obtain ⟨before, ht, rfl, -⟩ := ht
    obtain ⟨before', ht', rfl, -⟩ := ht'
    have heq : before = before' := congrArg Point.scope (Option.some.inj (ht.symm.trans ht'))
    rw [heq]
  | definition => exact congrArg Point.scope (Option.some.inj (ht.symm.trans ht'))
  | declaration => exact congrArg Point.scope (Option.some.inj (ht.symm.trans ht'))
  | initialized => exact congrArg Point.scope (Option.some.inj (ht.symm.trans ht'))
  | assignment => exact congrArg Point.scope (Option.some.inj (ht.symm.trans ht'))

end Config

theorem Reached.fault {r : Registry} {limits : Limits} {program : Block} {fuel : Nat} {g : Config} {k : Check}
    {E : StaticScope} (hg : Reached (.ofProgram r limits program fuel) g) (hk : g.Performs k)
    (ht : g.Text (.ofProgram r program) E) : g.scope.fault k = E.fault k := by
  obtain ⟨E', ht', hs⟩ := hg.text
  rw [Config.Text.unique hk ht ht']
  exact hs.fault k

/-- On a new interpreter, what is visible at every place that a run reaches, and how every check of a name ends, can
be read off the text; and the checks that fail there, with what stops a run otherwise, are what makes it fail. -/
theorem scoping_is_static (r : Registry) (limits : Limits) (program : Block) (fuel : Nat) :
    (∀ g, Reached (.ofProgram r limits program fuel) g →
      (∀ node s, g.Shows node s →
        ∃ E, (Point.ofProgram r program).at? g.place = some ⟨E, node⟩ ∧ s.Matches E) ∧
      ∀ k, g.Performs k →
        ∃ E, g.Text (.ofProgram r program) E ∧ g.scope.Matches E ∧ g.scope.fault k = E.fault k) ∧
    ∀ e, (Interpreter.execute fuel program (.ofRegistry r limits)).1 = .failed e ↔
      ∃ g, Reached (.ofProgram r limits program fuel) g ∧
        ((∃ k E, g.Performs k ∧ g.Text (.ofProgram r program) E ∧ E.fault k = some e) ∨ g.Stops e) := by
  refine ⟨fun g hg => ?_, fun e => ?_⟩
  · obtain ⟨E, ht, hs⟩ := hg.text
    exact ⟨fun node s hn => ht.shows hs hn, fun k hk => ⟨E, ht, hs, hs.fault k⟩⟩
  · rw [Interpreter.execute_failed_iff]
    constructor
    · rintro ⟨g, hg, ⟨k, hk, he⟩ | h⟩
      · obtain ⟨E, ht, hs⟩ := hg.text
        rw [hs.fault k] at he
        exact ⟨g, hg, .inl ⟨k, E, hk, ht, he⟩⟩
      · exact ⟨g, hg, .inr h⟩
    · rintro ⟨g, hg, ⟨k, E, hk, ht, he⟩ | h⟩
      · rw [← hg.fault hk ht] at he
        exact ⟨g, hg, .inl ⟨k, hk, he⟩⟩
      · exact ⟨g, hg, .inr h⟩

end IntScript
