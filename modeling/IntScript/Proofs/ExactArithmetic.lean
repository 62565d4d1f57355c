import IntScript.Evaluation

set_option autoImplicit false

namespace IntScript

namespace Value

/-- The value is the one integer in the range of values that is congruent to the given one. -/
def Represents (v : Value) (i : Int) : Prop :=
  ∀ j : Int, j = v.toInt ↔ -0x8000000000000000 ≤ j ∧ j < 0x8000000000000000 ∧ 0x10000000000000000 ∣ j - i

theorem represents_ofInt (i : Int) : Represents (Int64.ofInt i) i := by
  intro j
  rw [Int64.toInt_ofInt, eq_comm, Int.bmod_eq_iff (by decide)]
  rfl

end Value

namespace BinaryOp

/-- What the operator does to integers, for those that never fail and only wrap. -/
def onIntegers? : BinaryOp → Option (Int → Int → Int)
  | .add => some fun i j => i + j
  | .sub => some fun i j => i - j
  | .mul => some fun i j => i * j
  | _ => none

theorem combine_exact {op : BinaryOp} {f : Int → Int → Int} (h : op.onIntegers? = some f) (i j : Int) :
    op.decidedBy (Int64.ofInt i) = false ∧
      op.combine (Int64.ofInt i) (Int64.ofInt j) = .ok (Int64.ofInt (f i j)) := by
  cases op with
  | add =>
    cases h
    exact ⟨rfl, congrArg Except.ok (Int64.ofInt_add i j).symm⟩
  | sub =>
    cases h
    exact ⟨rfl, congrArg Except.ok (Int64.ofInt_sub i j).symm⟩
  | mul =>
    cases h
    exact ⟨rfl, congrArg Except.ok (Int64.ofInt_mul i j).symm⟩
  | _ => cases h

theorem apply_of_undecided {σ : Type} {op : BinaryOp} {a b : Value} {right : Attempt EvalError σ Value} {t u : σ}
    (hop : op.decidedBy a = false) (h : right t = (.done b, u)) :
    op.apply a right t = (.ofExcept (op.combine a b), u) := by
  rw [BinaryOp.apply, hop]
  change (right >>= fun b => .ofExcept (op.combine a b)) t = _
  rw [Attempt.bind_of_done h]
  rfl

end BinaryOp

namespace Expression

/-- The exact value of an expression of literals and visible variables with sums, differences and products. Other
expressions have none. -/
def integer? (s : Scope) (w : World) : Expression → Option Int
  | .literal v => some v.toInt
  | .var x => (s.vars.lookup? x).map fun cell => (w.read cell).toInt
  | .binary op l r => do
    let f ← op.onIntegers?
    let i ← integer? s w l
    let j ← integer? s w r
    return f i j
  | .call _ _ => none

/-- With fuel enough, the expression has the value, and the world is left as it was. -/
def Yields (c : Context) (s : Scope) (w : World) (e : Expression) (v : Value) : Prop :=
  ∃ n, ∀ m, n ≤ m → Expression.eval m c s e w = (.done v, w)

/-- One expression is the other with sums and products associated, exchanged or distributed otherwise, anywhere
inside. -/
inductive Rearranges : Expression → Expression → Prop
  | refl (e : Expression) : Rearranges e e
  | symm {e e' : Expression} : Rearranges e e' → Rearranges e' e
  | trans {e e' e'' : Expression} : Rearranges e e' → Rearranges e' e'' → Rearranges e e''
  | inside {l l' r r' : Expression} (op : BinaryOp) :
      Rearranges l l' → Rearranges r r' → Rearranges (.binary op l r) (.binary op l' r')
  | add_comm (l r : Expression) : Rearranges (.binary .add l r) (.binary .add r l)
  | mul_comm (l r : Expression) : Rearranges (.binary .mul l r) (.binary .mul r l)
  | add_assoc (l m r : Expression) :
      Rearranges (.binary .add (.binary .add l m) r) (.binary .add l (.binary .add m r))
  | add_sub (l m r : Expression) :
      Rearranges (.binary .sub (.binary .add l m) r) (.binary .add l (.binary .sub m r))
  | sub_sub (l m r : Expression) :
      Rearranges (.binary .sub (.binary .sub l m) r) (.binary .sub l (.binary .add m r))
  | sub_add (l m r : Expression) :
      Rearranges (.binary .add (.binary .sub l m) r) (.binary .sub l (.binary .sub m r))
  | mul_assoc (l m r : Expression) :
      Rearranges (.binary .mul (.binary .mul l m) r) (.binary .mul l (.binary .mul m r))
  | mul_add (l m r : Expression) :
      Rearranges (.binary .mul l (.binary .add m r)) (.binary .add (.binary .mul l m) (.binary .mul l r))
  | mul_sub (l m r : Expression) :
      Rearranges (.binary .mul l (.binary .sub m r)) (.binary .sub (.binary .mul l m) (.binary .mul l r))

variable {c : Context} {s : Scope} {w : World} {e e' l r : Expression}

section Yields

theorem yields_literal (v : Value) : Yields c s w (.literal v) v := by
  refine ⟨1, fun m hm => ?_⟩
  obtain ⟨m, rfl⟩ := Nat.exists_eq_add_of_le' hm
  rfl

theorem yields_var {x : String} {cell : Cell} (hx : s.vars.lookup? x = some cell) :
    Yields c s w (.var x) (w.read cell) := by
  refine ⟨1, fun m hm => ?_⟩
  obtain ⟨m, rfl⟩ := Nat.exists_eq_add_of_le' hm
  rw [Expression.eval, Scope.cell, hx]
  rfl

theorem Yields.binary {op : BinaryOp} {a b v : Value} (hl : Yields c s w l a) (hr : Yields c s w r b)
    (hop : op.decidedBy a = false) (hv : op.combine a b = .ok v) : Yields c s w (.binary op l r) v := by
  obtain ⟨n, hn⟩ := hl
  obtain ⟨n', hn'⟩ := hr
  refine ⟨max n n' + 1, fun m hm => ?_⟩
  obtain ⟨m, rfl⟩ : ∃ k, m = k + 1 := ⟨m - 1, by omega⟩
  rw [Expression.eval, Attempt.bind_of_done (hn m (by omega)),
    BinaryOp.apply_of_undecided hop (hn' m (by omega)), hv]
  rfl

/-- Wrapping at each operator gives the exact value, wrapped once. -/
theorem yields_exact {i : Int} (h : e.integer? s w = some i) : Yields c s w e (Int64.ofInt i) := by
  fun_induction integer? s w e generalizing i with
  | case1 v =>
    cases h
    rw [Int64.ofInt_toInt]
    exact yields_literal v
  | case2 x =>
    obtain ⟨cell, hx, rfl⟩ := Option.map_eq_some_iff.1 h
    rw [Int64.ofInt_toInt]
    exact yields_var hx
  | case3 op l r ihl ihr =>
    obtain ⟨f, hf, a, ha, b, hb, rfl⟩ : ∃ f, op.onIntegers? = some f ∧ ∃ a, l.integer? s w = some a ∧
        ∃ b, r.integer? s w = some b ∧ f a b = i := by
      simpa [Option.bind_eq_some_iff] using h
    obtain ⟨hdecided, hcombine⟩ := BinaryOp.combine_exact hf a b
    exact (ihl ha).binary (ihr hb) hdecided hcombine
  | case4 => cases h

end Yields

theorem Rearranges.integer?_eq (h : Rearranges e e') : e.integer? s w = e'.integer? s w := by
  induction h with
  | refl e => rfl
  | symm _ ih => exact ih.symm
  | trans _ _ ih ih' => exact ih.trans ih'
  | inside op _ _ ihl ihr => rw [integer?, integer?, ihl, ihr]
  | add_comm l r | mul_comm l r =>
    simp only [integer?, BinaryOp.onIntegers?]
    cases l.integer? s w <;> cases r.integer? s w <;> simp [Int.add_comm, Int.mul_comm]
  | sub_add l m r =>
    simp only [integer?, BinaryOp.onIntegers?]
    cases l.integer? s w <;> cases m.integer? s w <;> cases r.integer? s w <;> simp
    omega
  | add_assoc l m r | add_sub l m r | sub_sub l m r | mul_assoc l m r | mul_add l m r | mul_sub l m r =>
    simp only [integer?, BinaryOp.onIntegers?]
    cases l.integer? s w <;> cases m.integer? s w <;> cases r.integer? s w <;>
      simp [Int.add_assoc, Int.add_sub_assoc, Int.sub_sub, Int.mul_assoc, Int.mul_add, Int.mul_sub]

end Expression

namespace Value

structure Divides (a b q r : Value) : Prop where
  quotient : q.Represents (a.toInt.tdiv b.toInt)
  wraps : q.toInt ≠ a.toInt.tdiv b.toInt ↔ a.toInt = -0x8000000000000000 ∧ b.toInt = -1
  small : r.toInt.natAbs < b.toInt.natAbs
  sign : r = 0 ∨ r.toInt.sign = a.toInt.sign
  whole : (do BinaryOp.combine .add (← BinaryOp.combine .mul q b) r) = .ok a

theorem div_eq_ofInt (a b : Value) : a / b = Int64.ofInt (a.toInt.tdiv b.toInt) := by
  rw [← Int64.toInt_inj, Int64.toInt_div, Int64.toInt_ofInt]

theorem mod_eq_ofInt (a b : Value) : a % b = Int64.ofInt (a.toInt.tmod b.toInt) := by
  rw [← Int64.toInt_mod, Int64.ofInt_toInt]

theorem div_mul_add_mod (a b : Value) : a / b * b + a % b = a := by
  calc a / b * b + a % b
      = Int64.ofInt (a.toInt.tdiv b.toInt) * Int64.ofInt b.toInt + Int64.ofInt (a.toInt.tmod b.toInt) := by
        rw [div_eq_ofInt, mod_eq_ofInt, Int64.ofInt_toInt]
    _ = Int64.ofInt (a.toInt.tdiv b.toInt * b.toInt + a.toInt.tmod b.toInt) := by
        rw [Int64.ofInt_add, Int64.ofInt_mul]
    _ = a := by rw [Int.tdiv_mul_add_tmod, Int64.ofInt_toInt]

theorem toInt_div_ne_iff (a b : Value) :
    (a / b).toInt ≠ a.toInt.tdiv b.toInt ↔ a.toInt = -0x8000000000000000 ∧ b.toInt = -1 := by
  constructor
  · intro h
    have ha : a = Int64.minValue := Classical.byContradiction fun ha => h (Int64.toInt_div_of_ne_left a b ha)
    have hb : b = -1 := Classical.byContradiction fun hb => h (Int64.toInt_div_of_ne_right a b hb)
    subst ha hb
    exact ⟨rfl, rfl⟩
  · rintro ⟨ha, hb⟩
    obtain rfl : a = Int64.minValue := Int64.toInt_inj.1 ha
    obtain rfl : b = -1 := Int64.toInt_inj.1 hb
    decide

theorem divides {a b : Value} (hb : b ≠ 0) : Divides a b (a / b) (a % b) where
  quotient := div_eq_ofInt a b ▸ represents_ofInt _
  wraps := toInt_div_ne_iff a b
  small := by
    have hpos : 0 < b.toInt.natAbs := Int.natAbs_pos.2 fun h => hb (Int64.toInt_inj.1 h)
    rw [Int64.toInt_mod, Int.natAbs_tmod]
    exact Nat.mod_lt _ hpos
  sign := by
    have hsign := Int.sign_tmod a.toInt b.toInt
    rw [← Int64.toInt_mod] at hsign
    split at hsign
    · exact .inl (Int64.toInt_inj.1 (Int.sign_eq_zero_iff_zero.1 hsign))
    · exact .inr hsign
  whole := congrArg Except.ok (div_mul_add_mod a b)

end Value

/-- An expression of sums, differences and products has the value that represents its exact value, however it is
rearranged. Division fails on zero only, and otherwise truncates. -/
theorem arithmetic_is_exact (c : Context) (s : Scope) (w : World) :
    (∀ (e : Expression) (i : Int), e.integer? s w = some i →
      ∃ v : Value, v.Represents i ∧ e.Yields c s w v ∧ ∀ e', e.Rearranges e' → e'.Yields c s w v) ∧
    ∀ (a b : Value) (right : Exec Value) (w' : World), right w = (.done b, w') →
      (b = 0 → ∀ op : BinaryOp, op = .div ∨ op = .mod →
        op.apply a right w = (.failed (.arithmeticFailure op a b), w')) ∧
      (b ≠ 0 → ∃ q r, BinaryOp.apply .div a right w = (.done q, w') ∧
        BinaryOp.apply .mod a right w = (.done r, w') ∧ Value.Divides a b q r) := by
  refine ⟨fun e i he => ⟨Int64.ofInt i, Value.represents_ofInt i, Expression.yields_exact he, fun e' h => ?_⟩,
    fun a b right w' hright => ⟨?_, fun hb => ⟨a / b, a % b, ?_, ?_, Value.divides hb⟩⟩⟩
  · exact Expression.yields_exact (h.integer?_eq.symm.trans he)
  · rintro rfl op (rfl | rfl)
    · exact BinaryOp.apply_of_undecided rfl hright
    · exact BinaryOp.apply_of_undecided rfl hright
  · rw [BinaryOp.apply_of_undecided rfl hright, BinaryOp.combine, if_neg hb]
    rfl
  · rw [BinaryOp.apply_of_undecided rfl hright, BinaryOp.combine, if_neg hb]
    rfl

def greatestBound : Scope := ⟨Table.empty.bind "x" ⟨0⟩, .empty⟩

def greatestStored : World := ⟨#[0x7fffffffffffffff], #[]⟩

def squaredSum : Expression := .binary .mul (.var "x") (.binary .add (.var "x") (.literal 3))

theorem greatest_squared_is_exact :
    (∃ v : Value, v.Represents (0x7fffffffffffffff * 0x8000000000000002) ∧
      squaredSum.Yields (.top .unlimited) greatestBound greatestStored v ∧
      Expression.Yields (.top .unlimited) greatestBound greatestStored
        (.binary .add (.binary .mul (.var "x") (.var "x")) (.binary .mul (.var "x") (.literal 3))) v) ∧
    ∃ q r, BinaryOp.apply .div Int64.minValue (pure (-1) : Exec Value) greatestStored = (.done q, greatestStored) ∧
      BinaryOp.apply .mod Int64.minValue (pure (-1) : Exec Value) greatestStored = (.done r, greatestStored) ∧
      Value.Divides Int64.minValue (-1) q r := by
  obtain ⟨hexact, hdivision⟩ := arithmetic_is_exact (.top .unlimited) greatestBound greatestStored
  obtain ⟨v, hv, hyields, hrearranged⟩ := hexact squaredSum _ rfl
  obtain ⟨-, hquotient⟩ := hdivision Int64.minValue (-1) (pure (-1)) _ rfl
  exact ⟨⟨v, hv, hyields, hrearranged _ (.mul_add _ _ _)⟩, hquotient (by decide)⟩

end IntScript
