import IntScript.Proofs.Kinship
import IntScript.Proofs.NotedEvents

set_option autoImplicit false

namespace IntScript

/-- A call that is one deeper than the limit. -/
def Event.TooDeep (d : Nat) (e : Event) : Prop := ∃ f, e = .calling f (d + 1)

namespace Attempt

variable {ε σ α β : Type} {events : σ → List Event} {deep : Event → Prop} {stop : ε}

/-- The first attempt does what the second does up to its first event of the set, and fails in place of that event. -/
def Halts (events : σ → List Event) (deep : Event → Prop) (stop : ε) (m m' : Attempt ε σ α) : Prop :=
  ∀ s, ∃ es, (∀ e ∈ es, ¬ deep e) ∧ events (m s).2 = events s ++ es ∧
    (m' s = m s ∨ (m s).1 = .failed stop ∧ ∃ e rest, deep e ∧ events (m' s).2 = events s ++ es ++ e :: rest)

theorem halts_silent {m : Attempt ε σ α} (h : ∀ s, events (m s).2 = events s) : Halts events deep stop m m :=
  fun s => ⟨[], nofun, by rw [h s, List.append_nil], .inl rfl⟩

theorem Halts.grows {m m' : Attempt ε σ α} (h : Halts events deep stop m m') (s : σ) :
    ∃ es, events (m' s).2 = events s ++ es := by
  obtain ⟨es, -, hes, heq | ⟨-, e, rest, -, hrest⟩⟩ := h s
  · exact ⟨es, by rw [heq, hes]⟩
  · exact ⟨es ++ e :: rest, by rw [hrest, List.append_assoc]⟩

theorem Halts.bind {m m' : Attempt ε σ α} {k k' : α → Attempt ε σ β} (hm : Halts events deep stop m m')
    (hk : ∀ a, Halts events deep stop (k a) (k' a)) : Halts events deep stop (m >>= k) (m' >>= k') := by
  intro s
  obtain ⟨es, hes, hevents, hcase⟩ := hm s
  rcases hcase with hsame | ⟨hstop, e, rest, he, hrest⟩
  · rcases hrun : m s with ⟨a | e | _, t⟩
    · rw [hrun] at hevents hsame
      dsimp only at hevents
      obtain ⟨es', hes', hevents', hcase'⟩ := hk a t
      rw [bind_of_done hrun, bind_of_done hsame]
      refine ⟨es ++ es', ?_, by rw [hevents', hevents, List.append_assoc], ?_⟩
      · intro e he
        rcases List.mem_append.1 he with he | he
        · exact hes e he
        · exact hes' e he
      · rw [hevents, List.append_assoc] at hcase'
        exact hcase'
    · rw [hrun] at hevents hsame
      rw [bind_of_failed hrun, bind_of_failed hsame]
      exact ⟨es, hes, hevents, .inl rfl⟩
    · rw [hrun] at hevents hsame
      rw [bind_of_outOfFuel hrun, bind_of_outOfFuel hsame]
      exact ⟨es, hes, hevents, .inl rfl⟩
  · have hfailed : m s = (.failed stop, (m s).2) := Prod.ext hstop rfl
    rw [bind_of_failed hfailed]
    refine ⟨es, hes, hevents, .inr ⟨rfl, e, ?_⟩⟩
    -- what the second attempt does behind the event only adds to it
    rcases hrun : m' s with ⟨a | e' | _, t⟩
    · rw [hrun] at hrest
      dsimp only at hrest
      obtain ⟨es', hes'⟩ := (hk a).grows t
      refine ⟨rest ++ es', he, ?_⟩
      rw [bind_of_done hrun, hes', hrest, List.append_assoc, List.cons_append]
    · rw [hrun] at hrest
      exact ⟨rest, he, by rw [bind_of_failed hrun]; exact hrest⟩
    · rw [hrun] at hrest
      exact ⟨rest, he, by rw [bind_of_outOfFuel hrun]; exact hrest⟩

theorem halts_ofExcept {γ : Type} {V : α → β → Prop} {r : Except EvalError α} {r' : Except EvalError β}
    {stop : EvalError} {k : α → Attempt EvalError σ γ} {k' : β → Attempt EvalError σ γ} (hr : ExceptRel Eq V r r')
    (hk : ∀ a b, V a b → Halts events deep stop (k a) (k' b)) :
    Halts events deep stop (.ofExcept r >>= k) (.ofExcept r' >>= k') := by
  cases hr with
  | ok h => exact hk _ _ h
  | error h =>
    subst h
    exact halts_silent fun _ => rfl

end Attempt

open Attempt

abbrev Exec.Halts {α : Type} (d : Nat) (m m' : Exec α) : Prop :=
  Attempt.Halts (fun w : World => w.events.toList) (Event.TooDeep d) (.callDepthExceeded d) m m'

abbrev Run.Halts {α : Type} (d : Nat) (m m' : Run α) : Prop :=
  Attempt.Halts (fun f : Frame => f.world.events.toList) (Event.TooDeep d) (.callDepthExceeded d) m m'

namespace Exec

variable {α : Type} {d : Nat}

theorem halts_note {e : Event} (he : ¬ e.TooDeep d) : Halts d (note e) (note e) := by
  intro w
  refine ⟨[e], fun e' he' => ?_, w.events_note e, .inl rfl⟩
  rw [List.mem_singleton.1 he']
  exact he

theorem halts_useTool (tool : Tool) (args : List Value) : Halts d (useTool tool args) (useTool tool args) := by
  intro w
  refine ⟨(tool.act args).1.map .output, fun e he => ?_, w.events_noteAll _, .inl rfl⟩
  obtain ⟨item, -, rfl⟩ := List.mem_map.1 he
  rintro ⟨f, hf⟩
  cases hf

end Exec

namespace Run

variable {α : Type} {d : Nat}

theorem halts_within {m m' : Scope → Exec α} (hm : ∀ s, Exec.Halts d (m s) (m' s)) :
    Halts d (within m) (within m') := by
  intro f
  obtain ⟨es, hes, hevents, hsame | hstop⟩ := hm f.scope f.world
  · refine ⟨es, hes, hevents, .inl ?_⟩
    simp only [within, hsame]
  · exact ⟨es, hes, hevents, .inr hstop⟩

theorem Halts.inScope {m m' : Run α} (hm : Halts d m m') (s : Scope) : Exec.Halts d (m.inScope s) (m'.inScope s) := by
  intro w
  obtain ⟨es, hes, hevents, hsame | hstop⟩ := hm ⟨s, w⟩
  · refine ⟨es, hes, hevents, .inl ?_⟩
    simp only [Run.inScope, hsame]
  · exact ⟨es, hes, hevents, .inr hstop⟩

theorem halts_note {e : Event} (he : ¬ e.TooDeep d) : Halts d (note e) (note e) := by
  intro f
  obtain ⟨es, hes, hevents, -⟩ := Exec.halts_note he f.world
  exact ⟨es, hes, hevents, .inl rfl⟩

theorem halts_declareVariable (x : String) (v : Value) : Halts d (declareVariable x v) (declareVariable x v) := by
  apply halts_silent
  intro f
  unfold declareVariable
  cases f.scope.declareVariable x f.world.nextCell <;> rfl

theorem halts_declareFunction (decl : FunctionDecl) : Halts d (declareFunction decl) (declareFunction decl) := by
  apply halts_silent
  intro f
  unfold declareFunction
  cases f.scope.declareFunction decl.name (.user ⟨decl, f.scope.child⟩) <;> rfl

end Run

theorem Closure.perform_grows (closure : Closure) (n : Nat) (c : Context) (args : List Value) :
    Exec.Grows (closure.perform n c args) := by
  have hself : Callable.Rel Eq Eq Eq (Scope.Held fun _ => True) (.user closure) (.user closure) :=
    Callable.held (Callable.within_true (.user closure))
  have hperform : Exec.Confined (fun _ => True) (closure.perform n c args) (closure.perform n c args) :=
    (Simulation.confinement_along _ n).perform (L := ()) rfl hself args
  exact hperform.grows

namespace Limits

def free (iterations : Option Nat) : Limits := ⟨iterations, none⟩

def bounded (iterations : Option Nat) (d : Nat) : Limits := ⟨iterations, some d⟩

end Limits

open Limits

section Begin

variable {iterations : Option Nat} {d k n n' : Nat} {closure : Closure} {args : List Value}

/-- At the limit the call is not made, and the other run notes it before anything else. -/
theorem Closure.halts_at_limit :
    Exec.Halts d (closure.begin n ⟨bounded iterations d, d⟩ args) (closure.begin n' ⟨free iterations, d⟩ args) := by
  have hcheck : (bounded iterations d).checkDepth (d + 1) = .error (.callDepthExceeded d) := if_pos (Nat.lt_succ_self d)
  rw [begin, begin, Context.enter_bind, Context.enter_bind, hcheck]
  intro w
  refine ⟨[], nofun, (List.append_nil _).symm, .inr ⟨rfl, .calling closure.decl.name (d + 1), ?_⟩⟩
  obtain ⟨rest, hrest⟩ := closure.perform_grows n' ⟨free iterations, d + 1⟩ args
    (w.note (.calling closure.decl.name (d + 1)))
  refine ⟨rest, ⟨_, rfl⟩, ?_⟩
  dsimp only at hrest
  rw [World.events_note] at hrest
  rw [List.append_nil, List.append_cons]
  exact hrest.symm

theorem Closure.halts_below_limit (hk : k < d)
    (hperform : Exec.Halts d (closure.perform n ⟨bounded iterations d, k + 1⟩ args)
      (closure.perform n' ⟨free iterations, k + 1⟩ args)) :
    Exec.Halts d (closure.begin n ⟨bounded iterations d, k⟩ args) (closure.begin n' ⟨free iterations, k⟩ args) := by
  have hcheck : (bounded iterations d).checkDepth (k + 1) = .ok () := if_neg (by omega)
  have hnote : ¬ (Event.calling closure.decl.name (k + 1)).TooDeep d := by
    rintro ⟨f, hf⟩
    cases hf
    omega
  rw [begin, begin, Context.enter_bind, Context.enter_bind, hcheck]
  exact (Exec.halts_note hnote).bind fun _ => hperform

end Begin

theorem Run.halts_define {d : Nat} (decl : FunctionDecl) :
    Run.Halts d (do note (.defining decl.name decl.params.length); declareFunction decl; return none : Run Signal)
      (do note (.defining decl.name decl.params.length); declareFunction decl; return none : Run Signal) := by
  have hnote : ¬ (Event.defining decl.name decl.params.length).TooDeep d := by
    rintro ⟨g, hg⟩
    cases hg
  apply (Run.halts_note hnote).bind
  intro _
  exact (Run.halts_declareFunction decl).bind fun _ => halts_silent fun _ => rfl

/-- Runs with a limit on the depth of calls, at no more than the allowed depth, beside runs without one. -/
def Simulation.bounding (iterations : Option Nat) (d : Nat) : Simulation where
  toCorrespondence := Kinship.same.correspondence
  context c c' := ∃ k ≤ d, c = ⟨bounded iterations d, k⟩ ∧ c' = ⟨free iterations, k⟩
  exec _ := Exec.Halts d
  run _ := Run.Halts d
  body _ _ _ := Run.Halts d
  pure _ := halts_silent fun _ => rfl
  bind := Halts.bind
  ofExcept := halts_ofExcept
  read h := h ▸ halts_silent fun _ => rfl
  write h _ := h ▸ halts_silent fun _ => rfl
  alloc v hk := by
    have halloc : Exec.Halts d (Exec.alloc v) (Exec.alloc v) := halts_silent fun _ => rfl
    exact halloc.bind fun cell => hk () cell cell (le_refl _) rfl
  useTool := Exec.halts_useTool
  iterations k hc hm := by
    obtain ⟨_, _, rfl, rfl⟩ := hc
    have hcheck : Exec.Halts d (.ofExcept ((bounded iterations d).checkIterations k))
        (.ofExcept ((bounded iterations d).checkIterations k)) := halts_silent fun _ => rfl
    -- both limits on iterations are one
    exact hcheck.bind fun _ => hm
  begin hc hg hperform := by
    obtain ⟨k, hk, rfl, rfl⟩ := hc
    obtain rfl := Callable.user.inj (Callable.Rel.eq hg)
    -- below the limit both runs go on, at the limit they part
    rcases Nat.lt_or_eq_of_le hk with hlt | rfl
    · exact Closure.halts_below_limit hlt (hperform _ _ ⟨k + 1, hlt, rfl, rfl⟩)
    · exact Closure.halts_at_limit
  within hm := Run.halts_within fun s => hm () s s (le_refl _) rfl
  declare hx hm := by
    subst hx
    apply (Run.halts_within fun s => hm () s s (le_refl _) rfl).bind
    intro v
    exact (Run.halts_declareVariable _ v).bind fun _ => halts_silent fun _ => rfl
  define hf hparams hb := by
    change List.Forall₂ Eq _ _ at hparams
    rw [List.forall₂_eq_eq_eq] at hparams
    subst hf hparams hb
    exact Run.halts_define _
  inScope hm hs := hs ▸ hm.inScope _
  bodyInScope _ hm hs := hs ▸ hm.inScope _

theorem Simulation.bounding_along (iterations : Option Nat) (d n : Nat) : (bounding iterations d).Along n n := by
  have hsequential : (bounding iterations d).Sequential :=
    ⟨Iff.rfl, fun {_ m m' k k'} (hm : Run.Halts d m m') (hk : ∀ signal, Run.Halts d (k signal) (k' signal)) => hm.bind hk⟩
  have hstuck : ∀ {α : Type}, Exec.Halts d (outOfFuel : Exec α) outOfFuel := halts_silent fun _ => rfl
  have hcongruent := Congruent.of_eq hsequential rfl rfl rfl rfl rfl
  exact hcongruent.along (hcongruent.zero hstuck) n

theorem eq_of_split_at_first {α : Type} {P : α → Prop} {before before' after after' : List α} {x x' : α}
    (h : before ++ x :: after = before' ++ x' :: after') (hbefore : ∀ y ∈ before, ¬ P y)
    (hbefore' : ∀ y ∈ before', ¬ P y) (hx : P x) (hx' : P x') : before = before' := by
  induction before generalizing before' with
  | nil =>
    cases before' with
    | nil => rfl
    | cons y ys =>
      obtain ⟨rfl, -⟩ := List.cons.inj h
      exact absurd hx (hbefore' x (by simp))
  | cons y ys ih =>
    cases before' with
    | nil =>
      obtain ⟨rfl, -⟩ := List.cons.inj h
      exact absurd hx' (hbefore y (by simp))
    | cons z zs =>
      obtain ⟨rfl, htail⟩ := List.cons.inj h
      rw [ih htail (fun w hw => hbefore w (by simp [hw])) (fun w hw => hbefore' w (by simp [hw]))]

namespace Interpreter

/-- At the same fuel, the run with the limit does as the one without, or fails at its first call that is too deep. -/
theorem execute_bounded (i : Interpreter) (program : Block) (iterations : Option Nat) (d n : Nat) :
    ∃ es, (∀ e ∈ es, ¬ e.TooDeep d) ∧
      i.Since (execute n program (i.withLimits (bounded iterations d))).2 es ∧
      (i.Since (execute n program (i.withLimits (free iterations))).2 es ∧
          execute n program (i.withLimits (bounded iterations d)) =
            ((execute n program (i.withLimits (free iterations))).1,
              (execute n program (i.withLimits (free iterations))).2.withLimits (bounded iterations d)) ∨
        (execute n program (i.withLimits (bounded iterations d))).1 = .failed (.callDepthExceeded d) ∧
          ∃ before e rest, e.TooDeep d ∧ es = before ++ [.finished false] ∧
            i.Since (execute n program (i.withLimits (free iterations))).2 (before ++ e :: rest)) := by
  have hhalts : Run.Halts d (Block.exec n ⟨bounded iterations d, 0⟩ program) (Block.exec n ⟨free iterations, 0⟩ program) :=
    (Simulation.bounding_along iterations d n).block (L := ()) ⟨0, Nat.zero_le d, rfl, rfl⟩ rfl
  obtain ⟨es, hes, hevents, hcase⟩ := hhalts ⟨i.globals, i.start program⟩
  dsimp only at hevents hcase
  rcases hlow : Block.exec n ⟨bounded iterations d, 0⟩ program ⟨i.globals, i.start program⟩ with ⟨r, f⟩
  rcases hhigh : Block.exec n ⟨free iterations, 0⟩ program ⟨i.globals, i.start program⟩ with ⟨r', f'⟩
  rw [hlow, hhigh] at hcase
  rw [hlow] at hevents
  obtain ⟨hout, hend⟩ := execute_apply n program (i.withLimits (bounded iterations d)) hlow
  obtain ⟨hout', hend'⟩ := execute_apply n program (i.withLimits (free iterations)) hhigh
  have hsince := since_execute (i := i.withLimits (bounded iterations d)) hlow hevents
  have hshallow : ∀ e ∈ Event.started program.length :: es ++ r.ending, ¬ e.TooDeep d := by
    rintro e he ⟨g, rfl⟩
    rcases List.mem_append.1 he with he | he
    · exact hes _ ((List.mem_cons.1 he).resolve_left nofun) ⟨g, rfl⟩
    · exact nomatch Outcome.mem_ending he
  refine ⟨_, hshallow, hsince, ?_⟩
  rcases hcase with hsame | ⟨hstop, e, rest, he, hrest⟩
  · obtain ⟨rfl, rfl⟩ := Prod.mk.inj hsame
    refine .inl ⟨since_execute (i := i.withLimits (free iterations)) hhigh hevents, Prod.ext ?_ ?_⟩
    · rw [hout, hout']
    · rw [hend, hend']
      rfl
  · dsimp only at hstop hrest
    subst hstop
    rw [List.append_assoc] at hrest
    refine .inr ⟨hout, .started program.length :: es, e, rest ++ r'.ending, he, rfl, ?_⟩
    have hsince' := since_execute (i := i.withLimits (free iterations)) hhigh hrest
    rw [List.cons_append, List.append_assoc] at hsince'
    exact hsince'

end Interpreter

open Interpreter

/-- The limit on the depth of calls stops a run just before its first call that is too deep, and does nothing else. The
depth that a call notes is one more than the calls that are active. Tools have no memory, as `Tool` assumes. -/
theorem call_depth_limit_exact (i : Interpreter) (program : Block) (iterations : Option Nat) (d : Nat) :
    (∀ n before f after,
      i.Since (execute n program (i.withLimits (free iterations))).2 (before ++ .calling f (d + 1) :: after) →
      (∀ e ∈ before, ¬ e.TooDeep d) →
      ∃ j, (i.withLimits (bounded iterations d)).Ends program (.error (.callDepthExceeded d)) j ∧
        i.Since j (before ++ [.finished false])) ∧
    (∀ r j es, (i.withLimits (free iterations)).Ends program r j → i.Since j es → (∀ e ∈ es, ¬ e.TooDeep d) →
      (i.withLimits (bounded iterations d)).Ends program r (j.withLimits (bounded iterations d))) ∧
    ∀ limits n before f depth after,
      i.Since (execute n program (i.withLimits limits)).2 (before ++ .calling f depth :: after) →
      ∃ k live q closure g h, Trail ((i.withLimits limits).startConfig n program) k live g ∧ Enters q closure g h ∧
        g.world.events.toList = i.world.events.toList ++ before ∧ closure.decl.name = f ∧ depth = k + 1 := by
  refine ⟨fun n before f after hlog hfirst => ?_, fun r j es hfree hlog hshallow => ?_, ?_⟩
  · obtain ⟨es, hes, hsince, ⟨hsame, -⟩ | ⟨hout, before', e, rest, he, rfl, hsince'⟩⟩ :=
      execute_bounded i program iterations d n
    · have hmem : Event.calling f (d + 1) ∈ es := by
        rw [List.append_cancel_left (hsame.symm.trans hlog)]
        simp
      exact absurd ⟨f, rfl⟩ (hes _ hmem)
    · obtain rfl : before = before' := by
        apply eq_of_split_at_first (List.append_cancel_left (hlog.symm.trans hsince')) hfirst _ ⟨f, rfl⟩ he
        intro e' he'
        exact hes e' (by simp [he'])
      exact ⟨_, ⟨n, Prod.ext hout rfl⟩, hsince⟩
  · obtain ⟨n, hn⟩ := hfree
    obtain ⟨es', -, -, ⟨-, hsame⟩ | ⟨-, before, e, rest, he, -, hsince⟩⟩ := execute_bounded i program iterations d n
    · refine ⟨n, ?_⟩
      rw [hsame, hn]
    · rw [hn] at hsince
      have hmem : e ∈ es := by
        rw [List.append_cancel_left (hlog.symm.trans hsince)]
        simp
      exact absurd he (hshallow e hmem)
  · intro limits n before f depth after hlog
    have heach := ((Event.each_append _ _ _).1 (calls_begun (i := i.withLimits limits) hlog)).2.1
    obtain ⟨k, live, q, closure, g, h, htrail, henters, hpast, hname, hdepth⟩ := heach f depth rfl
    refine ⟨k, live, q, closure, g, h, htrail, henters, hpast, hname, ?_⟩
    rw [hdepth]
    exact congrArg (· + 1) (Nat.zero_add k)

def digging : Block :=
  [.function "f" [] [.evaluate (.call "println" [.literal 7]), .loop (.literal 1) (.evaluate (.call "f" []))],
    .evaluate (.call "f" [])]

def scratching : Block := [.function "f" [] [], .evaluate (.call "f" [])]

theorem digging_stops_at_limit :
    (∃ j, (Interpreter.ofRegistry .standard ⟨none, some 1⟩).Ends digging (.error (.callDepthExceeded 1)) j ∧
      j.world.events.toList =
        [.started 2, .defining "f" 0, .calling "f" 1, .output (.line [7]), .finished false]) ∧
    (∃ j, (Interpreter.ofRegistry .standard ⟨none, some 1⟩).Ends scratching (.ok none) j ∧
      j.world.events.toList = [.started 2, .defining "f" 0, .calling "f" 1, .finished true]) ∧
    ∃ live q closure g h,
      Trail ((Interpreter.ofRegistry .standard .unlimited).startConfig 22 digging) 2 live g ∧ Enters q closure g h ∧
        g.world.events.size = 6 := by
  have hlog : (Interpreter.ofRegistry .standard .unlimited).Since
      (execute 22 digging (.ofRegistry .standard .unlimited)).2
      ([.started 2, .defining "f" 0, .calling "f" 1, .output (.line [7])] ++ .calling "f" 2 ::
        [.output (.line [7]), .calling "f" 3]) := rfl
  have hfirst : ∀ e ∈ [Event.started 2, .defining "f" 0, .calling "f" 1, .output (.line [7])], ¬ e.TooDeep 1 := by
    rintro e he ⟨f, rfl⟩
    simp at he
  have hends : (Interpreter.ofRegistry .standard .unlimited).Ends scratching (.ok none) _ := ⟨9, rfl⟩
  have hshallow : ∀ e ∈ [Event.started 2, .defining "f" 0, .calling "f" 1, .finished true], ¬ e.TooDeep 1 := by
    rintro e he ⟨f, rfl⟩
    simp at he
  have hdigging := call_depth_limit_exact (.ofRegistry .standard .unlimited) digging none 1
  have hscratching := call_depth_limit_exact (.ofRegistry .standard .unlimited) scratching none 1
  obtain ⟨j, hstopped, hsince⟩ := hdigging.1 22 _ "f" _ hlog hfirst
  obtain ⟨k, live, q, closure, g, h, htrail, henters, hpast, -, hdepth⟩ :=
    hdigging.2.2 .unlimited 22 [_, _, _, _, _, _] "f" 3 [] hlog
  obtain rfl : 2 = k := Nat.succ.inj hdepth
  refine ⟨⟨j, hstopped, hsince⟩, ⟨_, hscratching.2.1 _ _ _ hends rfl hshallow, rfl⟩, live, q, closure, g, h, htrail,
    henters, ?_⟩
  rw [← Array.length_toList, hpast]
  rfl

end IntScript
