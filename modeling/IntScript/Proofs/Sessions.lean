import IntScript.Interpreter
import IntScript.Proofs.JoinedSources
import IntScript.Proofs.LimitsRaised
import IntScript.Proofs.RephrasedPrograms

set_option autoImplicit false

namespace IntScript

open Attempt

/-- The statements of the second block run with the fuel that those of the first have left. -/
theorem Block.exec_append (n : Nat) (c : Context) (b b' : Block) :
    Block.exec n c (b ++ b') = Block.exec n c b >>= fun signal => match signal with
      | some v => Pure.pure (some v)
      | none => Block.exec (n - b.length) c b' := by
  induction b generalizing n with
  | nil =>
    cases n with
    | zero => rfl
    | succ n => rfl
  | cons st b ih =>
    cases n with
    | zero => rfl
    | succ n =>
      rw [List.cons_append, Block.exec, Block.exec, bind_assoc]
      apply Attempt.bind_congr
      intro signal
      cases signal with
      | some v => rfl
      | none =>
        rw [List.length_cons, Nat.add_sub_add_right]
        exact ih n

theorem World.store_eq {w v : World} (hsize : w.store.size = v.store.size) (hread : ∀ cell, w.read cell = v.read cell) :
    w.store = v.store := by
  apply Array.ext hsize
  intro k hw hv
  have hcell := hread ⟨k⟩
  unfold World.read at hcell
  simpa [hw, hv] using hcell

namespace Interpreter

variable {ε α β : Type} {i j k : Interpreter}

/-- The interpreters differ at most in the notes between their output. -/
structure Agrees (i j : Interpreter) : Prop where
  root : i.root = j.root
  globals : i.globals = j.globals
  limits : i.limits = j.limits
  store : i.world.store = j.world.store
  output : i.world.output = j.world.output

theorem Agrees.refl (i : Interpreter) : i.Agrees i := ⟨rfl, rfl, rfl, rfl, rfl⟩

theorem Agrees.symm (h : i.Agrees j) : j.Agrees i :=
  ⟨h.root.symm, h.globals.symm, h.limits.symm, h.store.symm, h.output.symm⟩

theorem Agrees.trans (h : i.Agrees j) (h' : j.Agrees k) : i.Agrees k :=
  ⟨h.root.trans h'.root, h.globals.trans h'.globals, h.limits.trans h'.limits, h.store.trans h'.store,
    h.output.trans h'.output⟩

theorem agrees_note (i : Interpreter) {e : Event} (he : e.output? = none) :
    (i.withWorld (i.world.note e)).Agrees i :=
  ⟨rfl, rfl, rfl, rfl, i.world.output_note he⟩

/-- On interpreters that agree, both computations end alike, and on such interpreters again. -/
def Alike (m m' : Attempt ε Interpreter α) : Prop :=
  ∀ i j, i.Agrees j → (m i).1 = (m' j).1 ∧ (m i).2.Agrees (m' j).2

section Alike

variable {m m' : Attempt ε Interpreter α}

theorem alike_pure (a : α) : Alike (Pure.pure a : Attempt ε Interpreter α) (Pure.pure a) := fun _ _ h => ⟨rfl, h⟩

theorem Alike.bind {f f' : α → Attempt ε Interpreter β} (hm : Alike m m') (hf : ∀ a, Alike (f a) (f' a)) :
    Alike (m >>= f) (m' >>= f') := by
  intro i j h
  obtain ⟨hout, hstate⟩ := hm i j h
  rcases hi : m i with ⟨r, i'⟩
  rcases hj : m' j with ⟨r', j'⟩
  rw [hi, hj] at hout hstate
  obtain rfl : r = r' := hout
  rw [bind_apply, bind_apply, hi, hj]
  cases r with
  | done a => exact hf a i' j' hstate
  | failed e => exact ⟨rfl, hstate⟩
  | outOfFuel => exact ⟨rfl, hstate⟩

theorem Alike.mapError {ε' : Type} (hm : Alike m m') (g : ε → ε') : Alike (m.mapError g) (m'.mapError g) := by
  intro i j h
  obtain ⟨hout, hstate⟩ := hm i j h
  exact ⟨congrArg (Outcome.mapError g) hout, hstate⟩

theorem alike_closing {m m' : Interpret α} (hm : Alike m m') : Alike (closing m) m' := by
  intro i j h
  obtain ⟨hout, hstate⟩ := hm i j h
  unfold closing
  rcases hi : m i with ⟨r, i'⟩
  rw [hi] at hout hstate
  cases r with
  | done a => exact ⟨hout, (i'.agrees_note rfl).trans hstate⟩
  | failed e => exact ⟨hout, (i'.agrees_note rfl).trans hstate⟩
  | outOfFuel => exact ⟨hout, hstate⟩

def statements (n : Nat) (program : Block) : Interpret Signal := atTop fun c => Block.exec n c program

theorem alike_statements (n : Nat) (program : Block) : Alike (statements n program) (statements n program) := by
  rintro ⟨root, globals, limits, w⟩ ⟨_, _, _, v⟩ ⟨rfl, rfl, rfl, hstore, houtput⟩
  have hread : ∀ cell, w.read cell = v.read cell := by
    intro cell
    unfold World.read
    rw [hstore]
  have hagree : World.Agree (fun _ => True) w v :=
    ⟨congrArg Array.size hstore, fun _ _ => trivial, fun cell _ => hread cell⟩
  obtain ⟨hout, hscope, -, hmoves⟩ :=
    (Confines.all (fun _ => True) n).block (.top limits) program globals w v (fun _ _ => trivial) hagree
  obtain ⟨es, hes, hes'⟩ := hmoves.events
  refine ⟨hout, rfl, hscope, rfl, ?_, ?_⟩
  · exact World.store_eq hmoves.agree.size fun cell => hmoves.agree.read cell trivial
  · have hbefore : w.output = v.output := houtput
    have hafter := World.output_of_events hes
    rw [hbefore, ← World.output_of_events hes'] at hafter
    exact hafter

theorem alike_execute (n : Nat) (program : Block) : Alike (execute n program) (statements n program) := by
  intro i j h
  exact alike_closing (alike_statements n program) _ j ((i.agrees_note rfl).trans h)

theorem alike_run {source : String} {program : Block} (h : parseProgram source = .ok program) (n : Nat) :
    Alike (run n source) ((statements n program).mapError .evaluation) := by
  unfold run
  rw [h]
  exact (alike_execute n program).mapError _

end Alike

section Fuel

/-- The first computation has less fuel: it ends as the second, or what it has noted begins what the second notes. -/
abbrev CutShort (m m' : Interpret α) : Prop :=
  Attempt.CutShort (fun i : Interpreter => i.world.events.toList) (fun _ => False) Eq m m'

theorem cutShort_statements {n n' : Nat} (hn : n ≤ n') (program : Block) :
    CutShort (statements n program) (statements n' program) := by
  have hblock : ∀ limits, Run.CutShort (fun _ => False) Eq (Block.exec n (.top limits) program)
      (Block.exec n' (.top limits) program) := fun limits =>
    (Kinship.more_fuel limits hn).block (L := ()) ⟨0, rfl, rfl⟩ (rfl : program = program)
  constructor
  · intro i
    exact (hblock i.limits).grows ⟨i.globals, i.world⟩
  · rintro i _ rfl
    rcases (hblock i.limits).same_or_cut ⟨i.globals, i.world⟩ _ ⟨rfl, rfl⟩ with ⟨hout, hframe⟩ | hcut
    · exact .inl ⟨hout, congrArg (fun f : Frame => Interpreter.mk i.root f.scope i.limits f.world) hframe.eq⟩
    · exact .inr hcut

def inTurn (m m' : Attempt ε Interpreter Signal) : Attempt ε Interpreter Signal := do
  match ← m with
  | some v => return some v
  | none => m'

theorem Alike.inTurn {m m' l l' : Attempt ε Interpreter Signal} (h : Alike m m') (h' : Alike l l') :
    Alike (inTurn m l) (inTurn m' l') := by
  apply h.bind
  intro signal
  cases signal with
  | some v => exact alike_pure (some v)
  | none => exact h'

theorem mapError_inTurn {ε' : Type} (g : ε → ε') (m l : Attempt ε Interpreter Signal) :
    (inTurn m l).mapError g = inTurn (m.mapError g) (l.mapError g) := by
  funext i
  simp only [inTurn, Attempt.mapError, bind_apply]
  rcases m i with ⟨signal | e | _, j⟩
  · cases signal <;> rfl
  · rfl
  · rfl

theorem cutShort_inTurn {m m' l l' : Interpret Signal} (h : CutShort m m') (h' : CutShort l l') :
    CutShort (inTurn m l) (inTurn m' l') := by
  apply Attempt.CutShort.bind h
  intro signal
  cases signal with
  | some v => exact cutShort_pure (some v)
  | none => exact h'

theorem atTop_bind (m : Context → Run α) (f : α → Context → Run β) :
    atTop (fun c => m c >>= fun a => f a c) = atTop m >>= fun a => atTop (f a) := by
  funext i
  simp only [atTop, bind_apply]
  rcases m (.top i.limits) ⟨i.globals, i.world⟩ with ⟨a | e | _, f⟩ <;> rfl

theorem statements_append (n : Nat) (program program' : Block) :
    statements n (program ++ program') = inTurn (statements n program) (statements (n - program.length) program') := by
  unfold statements inTurn
  simp only [Block.exec_append]
  rw [atTop_bind]
  apply Attempt.bind_congr
  intro signal
  cases signal <;> rfl

end Fuel

/-- Runs two texts, the second if the first has ended without a value, on the interpreter that the first has left. -/
def session (n : Nat) (s s' : String) : Attempt Error Interpreter Signal := inTurn (run n s) (run n s')

/-- Whatever the first computation does, given fuel, the second does. -/
structure Follows (i : Interpreter) (m m' : Nat → Attempt Error Interpreter Signal) : Prop where
  ends : ∀ n r j, m n i = (.ofExcept r, j) → ∃ n' j', m' n' i = (.ofExcept r, j') ∧ j.Agrees j'
  output : ∀ n, ∃ n', (m n i).2.world.output <+: (m' n' i).2.world.output

theorem follows_of_cutShort {m m' : Nat → Attempt Error Interpreter Signal} {l l' : Nat → Interpret Signal}
    (hm : ∀ n, Alike (m n) ((l n).mapError .evaluation)) (hm' : ∀ n, Alike (m' n) ((l' n).mapError .evaluation))
    (hcut : ∀ n, ∃ n', CutShort (l n) (l' n')) (i : Interpreter) : Follows i m m' := by
  constructor
  · intro n r j hrun
    obtain ⟨n', hn'⟩ := hcut n
    obtain ⟨hout, hstate⟩ := hm n i i (.refl i)
    obtain ⟨hout', hstate'⟩ := hm' n' i i (.refl i)
    rw [hrun] at hout hstate
    rcases hn'.same_or_cut i i rfl with ⟨hsame, hreached⟩ | ⟨hstuck, -⟩
    · refine ⟨n', (m' n' i).2, Prod.ext ?_ rfl, ?_⟩
      · calc (m' n' i).1 = (l' n' i).1.mapError .evaluation := hout'
          _ = (l n i).1.mapError .evaluation := by rw [hsame]
          _ = .ofExcept r := hout.symm
      · have hleft : j.Agrees (l n i).2 := hstate
        rw [hreached] at hleft
        exact hleft.trans hstate'.symm
    · have hnone : (l n i).1 = .outOfFuel := Outcome.IsCut.outOfFuel hstuck
      have hended : Outcome.ofExcept r = (l n i).1.mapError .evaluation := hout
      rw [hnone] at hended
      cases r <;> cases hended
  · intro n
    obtain ⟨n', hn'⟩ := hcut n
    have hleft : (m n i).2.world.output = (l n i).2.world.output := (hm n i i (.refl i)).2.output
    have hright : (m' n' i).2.world.output = (l' n' i).2.world.output := (hm' n' i i (.refl i)).2.output
    refine ⟨n', ?_⟩
    rw [hleft, hright]
    rcases hn'.same_or_cut i i rfl with ⟨-, hreached⟩ | ⟨-, hbefore⟩
    · exact ⟨[], by rw [List.append_nil, hreached]⟩
    · exact World.Before.output hbefore

section Session

variable {source s s' : String} {program program' : Block}

theorem alike_session (h : parseProgram s = .ok program) (h' : parseProgram s' = .ok program') (n : Nat) :
    Alike (session n s s') ((inTurn (statements n program) (statements n program')).mapError .evaluation) := by
  rw [mapError_inTurn]
  exact (alike_run h n).inTurn (alike_run h' n)

/-- In one run, the second program has less fuel by one unit for each statement of the first. -/
theorem script_follows_session (hjoined : parseProgram source = .ok (program ++ program'))
    (h : parseProgram s = .ok program) (h' : parseProgram s' = .ok program') (i : Interpreter) :
    Follows i (run · source) (session · s s') := by
  refine follows_of_cutShort (alike_run hjoined) (alike_session h h') (fun n => ⟨n, ?_⟩) i
  rw [statements_append]
  have hfirst := cutShort_statements (Nat.le_refl n) program
  have hsecond := cutShort_statements (Nat.sub_le n program.length) program'
  exact cutShort_inTurn hfirst hsecond

theorem session_follows_script (hjoined : parseProgram source = .ok (program ++ program'))
    (h : parseProgram s = .ok program) (h' : parseProgram s' = .ok program') (i : Interpreter) :
    Follows i (session · s s') (run · source) := by
  refine follows_of_cutShort (alike_session h h') (alike_run hjoined) (fun n => ⟨n + program.length, ?_⟩) i
  rw [statements_append, Nat.add_sub_cancel]
  have hfirst := cutShort_statements (Nat.le_add_right n program.length) program
  have hsecond := cutShort_statements (Nat.le_refl n) program'
  exact cutShort_inTurn hfirst hsecond

end Session

end Interpreter

/-- A text made of two programs, with a line feed between them, is the program made of both. Run at once it ends as the
session of the two, with the same value or error, top-level scope and store, and puts out the same; or neither ends.
Between the two texts of a session nothing is left but the interpreter: tools have no memory, as `Tool` assumes. -/
theorem script_is_session {s s' : String} {ts ts' : List Token} {program program' : Block}
    (hts : tokenize s = .ok ts) (hts' : tokenize s' = .ok ts') (h : parseProgram s = .ok program)
    (h' : parseProgram s' = .ok program') (hseparate : Separate ts ts') :
    parseProgram (s ++ "\n" ++ s') = .ok (program ++ program') ∧
      ∀ i : Interpreter, i.Follows (Interpreter.run · (s ++ "\n" ++ s')) (Interpreter.session · s s') ∧
        i.Follows (Interpreter.session · s s') (Interpreter.run · (s ++ "\n" ++ s')) := by
  have hjoined := parseProgram_append hts hts' h h' hseparate
  refine ⟨hjoined, fun i => ⟨?_, ?_⟩⟩
  · exact Interpreter.script_follows_session hjoined h h' i
  · exact Interpreter.session_follows_script hjoined h h' i

def assigned : List Token :=
  [⟨.identifier "x", "x", ⟨1, 1⟩⟩, ⟨.assign, "=", ⟨1, 2⟩⟩, ⟨.integer 1, "1", ⟨1, 3⟩⟩, .endAt ⟨1, 7⟩]

def enclosed : List Token :=
  [⟨.leftParen, "(", ⟨1, 1⟩⟩, ⟨.identifier "x", "x", ⟨1, 2⟩⟩, ⟨.rightParen, ")", ⟨1, 3⟩⟩, .endAt ⟨1, 4⟩]

theorem tokenize_assigned : tokenize "x=1//y" = .ok assigned := by
  have hx : Segment.first 'x' ['=', '1', '/', '/', 'y'] = (_, ['=', '1', '/', '/', 'y']) := rfl
  have hassign : Segment.first '=' ['1', '/', '/', 'y'] = (_, ['1', '/', '/', 'y']) := rfl
  have hone : Segment.first '1' ['/', '/', 'y'] = (_, ['/', '/', 'y']) := rfl
  have hcomment : Segment.first '/' ['/', 'y'] = (_, []) := rfl
  change (Scanner.scanFrom (segments ['x', '=', '1', '/', '/', 'y']) .start []).1 = _
  rw [segments_of_first hx, segments_of_first hassign, segments_of_first hone, segments_of_first hcomment, segments]
  rfl

theorem tokenize_enclosed : tokenize "(x)" = .ok enclosed := by
  have hopen : Segment.first '(' ['x', ')'] = (_, ['x', ')']) := rfl
  have hx : Segment.first 'x' [')'] = (_, [')']) := rfl
  have hclose : Segment.first ')' [] = (_, []) := rfl
  change (Scanner.scanFrom (segments ['(', 'x', ')']) .start []).1 = _
  rw [segments_of_first hopen, segments_of_first hx, segments_of_first hclose, segments]
  rfl

theorem assigned_then_enclosed :
    Separate assigned enclosed ∧
      parseProgram ("x=1//y" ++ "\n" ++ "(x)") = .ok [.assign "x" (.literal 1), .evaluate (.var "x")] ∧
      ∀ i : Interpreter,
        i.Follows (Interpreter.run · ("x=1//y" ++ "\n" ++ "(x)")) (Interpreter.session · "x=1//y" "(x)") ∧
          i.Follows (Interpreter.session · "x=1//y" "(x)") (Interpreter.run · ("x=1//y" ++ "\n" ++ "(x)")) := by
  have hfirst : parseProgram "x=1//y" = .ok [.assign "x" (.literal 1)] :=
    (parseProgram_eq_ok tokenize_assigned).2 (parseTokens_eq_iff.2 ⟨_, rfl⟩)
  have hsecond : parseProgram "(x)" = .ok [.evaluate (.var "x")] :=
    (parseProgram_eq_ok tokenize_enclosed).2 (parseTokens_eq_iff.2 ⟨_, rfl⟩)
  have hseparate : Separate assigned enclosed := by
    refine ⟨nofun, fun _ t ht x hx => ?_⟩
    cases ht
    cases hx
  exact ⟨hseparate, script_is_session tokenize_assigned tokenize_enclosed hfirst hsecond hseparate⟩

end IntScript
