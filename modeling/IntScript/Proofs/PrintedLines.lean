import IntScript.Proofs.FewestParentheses
import IntScript.Proofs.FrontEndImage

set_option autoImplicit false

namespace IntScript

namespace Decimal

/-- Reads one digit or more, with a sign before them or without. -/
def integer? : List Char → Option Int
  | '-' :: cs => (natural? cs).map fun n : Nat => -(n : Int)
  | '+' :: cs => (natural? cs).map fun n : Nat => (n : Int)
  | cs => (natural? cs).map fun n : Nat => (n : Int)

theorem natural?_digits (n : Nat) : natural? (digits n) = some n := by
  have hsome : (digits n).isEmpty = false := List.isEmpty_eq_false_iff.2 Nat.toDigits_ne_nil
  have hall : (digits n).all Char.isDigit = true := List.all_eq_true.2 fun c hc => isDigit_of_mem_digits hc
  rw [natural?, hsome, hall, value_digits]
  rfl

theorem integer?_digits (n : Nat) : integer? (digits n) = some (n : Int) := by
  have hdigit : ∀ c ∈ (digits n).head?, c.isDigit = true :=
    fun c hc => isDigit_of_mem_digits (List.mem_of_mem_head? hc)
  unfold integer?
  split
  · next heq => cases hdigit '-' (by rw [heq]; rfl)
  · next heq => cases hdigit '+' (by rw [heq]; rfl)
  · rw [natural?_digits]
    rfl

theorem integer?_signed (i : Int) : integer? (signed i) = some i := by
  unfold signed
  split
  · next hneg =>
    rw [integer?, natural?_digits, Option.map_some, Int.ofNat_natAbs_of_nonpos (Int.le_of_lt hneg), Int.neg_neg]
  · next hneg => rw [integer?_digits, Int.natAbs_of_nonneg (Int.not_lt.1 hneg)]

theorem mem_signed {i : Int} {c : Char} (h : c ∈ signed i) : c = '-' ∨ c.isDigit = true := by
  unfold signed at h
  split at h
  · rcases List.mem_cons.1 h with rfl | h
    · exact .inl rfl
    · exact .inr (isDigit_of_mem_digits h)
  · exact .inr (isDigit_of_mem_digits h)

theorem signed_ne_nil (i : Int) : signed i ≠ [] := by
  unfold signed
  split
  · exact List.cons_ne_nil _ _
  · exact Nat.toDigits_ne_nil

end Decimal

namespace Value

def read? (cs : List Char) : Option Value := (Decimal.integer? cs).bind ofInt?

/-- Cuts a line at its spaces, and reads a value from each piece. -/
def readLine? (line : String) : Option (List Value) := (line.toList.splitOn ' ').mapM read?

def withCommas (line : String) : String := line.map fun c => if c = ' ' then ',' else c

theorem read?_chars (v : Value) : read? v.chars = some v := by
  rw [read?, chars, Decimal.integer?_signed, Option.bind_some, ofInt?_toInt]

theorem space_notMem_chars (v : Value) : ' ' ∉ v.chars := by
  intro h
  rcases Decimal.mem_signed h with h | h <;> cases h

theorem readLine?_lineText {values : List Value} (h : values ≠ []) : readLine? (lineText values) = some values := by
  have hpieces : (lineChars values).splitOn ' ' = values.map chars :=
    List.splitOn_intercalate ' ' (List.forall_mem_map.2 fun v _ => space_notMem_chars v) (by simpa using h)
  have hread : read? ∘ chars = fun v => pure (id v) := funext read?_chars
  rw [readLine?, lineText, String.toList_ofList, hpieces, List.mapM_map, hread, List.mapM_pure, List.map_id]
  rfl

theorem lineChars_cons_cons (v w : Value) (values : List Value) :
    lineChars (v :: w :: values) = v.chars ++ ' ' :: lineChars (w :: values) := by
  simp [lineChars, List.intercalate_cons_cons]

theorem lineChars_cons_ne_nil (v : Value) (values : List Value) : lineChars (v :: values) ≠ [] := by
  cases values with
  | nil => simpa [lineChars, chars] using Decimal.signed_ne_nil v.toInt
  | cons w values => simp [lineChars_cons_cons]

theorem lineText_eq_empty_iff (values : List Value) : lineText values = "" ↔ values = [] := by
  rw [lineText, String.ofList_eq_empty_iff]
  cases values with
  | nil => exact iff_of_true rfl rfl
  | cons v values => exact iff_of_false (lineChars_cons_ne_nil v values) (List.cons_ne_nil v values)

theorem lineText_injective : Function.Injective lineText := by
  intro values values' heq
  by_cases hempty : values = []
  · subst hempty
    exact ((lineText_eq_empty_iff values').1 heq.symm).symm
  · have hempty' : values' ≠ [] := by
      rintro rfl
      exact hempty ((lineText_eq_empty_iff values).1 heq)
    have hread := readLine?_lineText hempty
    rw [heq, readLine?_lineText hempty'] at hread
    exact (Option.some.inj hread).symm

theorem withCommas_lineText (values : List Value) :
    withCommas (lineText values) = String.ofList (List.intercalate [','] (values.map chars)) := by
  have hkept : ∀ v : Value, v.chars.map (fun c => if c = ' ' then ',' else c) = v.chars := by
    intro v
    refine (List.map_congr_left fun c hc => ?_).trans (List.map_id v.chars)
    exact if_neg fun h : c = ' ' => space_notMem_chars v (h ▸ hc)
  rw [← String.toList_inj, withCommas, lineText, String.toList_map, String.toList_ofList, String.toList_ofList]
  induction values with
  | nil => rfl
  | cons v values ih =>
    cases values with
    | nil => simpa [lineChars] using hkept v
    | cons w values =>
      rw [lineChars_cons_cons, List.map_append, List.map_cons, hkept, ih]
      simp [List.intercalate_cons_cons]

end Value

section Spelling

variable {values : List Value}

/-- The text of a value spells the literal, if no digit stands behind it and the value is not the least. -/
theorem Spells.literal {v : Value} {rest : List Char} {ks : Kinds} (hv : -0x8000000000000000 < v.toInt)
    (hrest : ∀ d ∈ rest.head?, d.isDigit = false) (h : Spells rest ks) :
    Spells (v.chars ++ rest) ((Expression.literal v).terseKinds ++ ks) := by
  have hhigh := Int64.toInt_lt v
  have hspelled : ∀ i : Int, 0 ≤ i ∧ i < 0x8000000000000000 → i.toNat = v.toInt.natAbs →
      Spells (Decimal.digits v.toInt.natAbs ++ rest) (.integer i :: ks) := by
    intro i hi heq
    rw [← heq]
    exact .cons (k := .integer i) hi hrest h
  rw [Value.chars, Decimal.signed, Expression.terseKinds]
  split
  · exact .cons (k := .operator .sub) trivial (fun _ _ => rfl) (hspelled _ (by omega) (by omega))
  · exact hspelled _ (by omega) (by omega)

theorem spells_arguments (hvalues : ∀ v ∈ values, -0x8000000000000000 < v.toInt) :
    Spells (List.intercalate [','] (values.map Value.chars) ++ [')'])
      (List.intercalate [.comma] (values.map fun v => (Expression.literal v).terseKinds) ++ [.rightParen]) := by
  have hparen : Spells [')'] [.rightParen] := .cons (k := .rightParen) trivial (.nil _) .nil
  induction values with
  | nil => exact hparen
  | cons v values ih =>
    obtain ⟨hv, hvalues⟩ := List.forall_mem_cons.1 hvalues
    cases values with
    | nil => simpa using Spells.literal hv (by simp) hparen
    | cons w values =>
      have hcomma := Spells.cons (k := .comma) trivial (fun _ _ => rfl) (ih hvalues)
      have hliteral := Spells.literal hv (by simp [TokenKind.spelling]) hcomma
      simpa [List.intercalate_cons_cons, TokenKind.spelling] using hliteral

theorem spells_call {f : String} (hf : IsName f) (hvalues : ∀ v ∈ values, -0x8000000000000000 < v.toInt) :
    Spells (f.toList ++ '(' :: (List.intercalate [','] (values.map Value.chars) ++ [')']))
      (Expression.call f (values.map .literal)).terseKinds := by
  rw [Expression.terseKinds, Expression.terseKindsEach_eq, List.map_map]
  have hparen := Spells.cons (k := .leftParen) trivial (fun _ _ => rfl) (spells_arguments hvalues)
  exact .cons (k := .identifier f) hf (.cons rfl _) hparen

end Spelling

namespace Parse

open Attempt

variable {ts : List Token} {n : Nat} {f : String} {args : List Expression}

/-- A call alone is a statement: what stands behind its name is no sign of assignment. -/
theorem returns_call_statement (he : (Expression.call f args).Writable)
    (hts : At ts ((Expression.call f args).terseKinds ++ [.endOfText])) :
    Returns (statement n) ts (.evaluate (.call f args)) [.endOfText] := by
  cases n with
  | zero => exact succeeds_outOfFuel
  | succ n =>
    have hread : Returns (binary n 0) ts (.call f args) [.endOfText] :=
      ReadsTerse.returns (readsTerse he) (Nat.zero_le _) (by simp) (by simp) hts
    rw [Expression.terseKinds] at hts
    have hnext : nextIs .assign ts = false := by
      rw [hts.nextIs (by simp)]
      rfl
    rw [statement]
    refine succeeds_ask ?_
    rw [hts.current]
    refine succeeds_ask ?_
    rw [hnext]
    exact hread.bind fun us hus => returns_pure hus

end Parse

theorem parseProgram_call_line {f : String} {values : List Value} (hf : IsName f)
    (hvalues : ∀ v ∈ values, -0x8000000000000000 < v.toInt) :
    parseProgram (f ++ "(" ++ Value.withCommas (Value.lineText values) ++ ")") =
      .ok [.evaluate (.call f (values.map .literal))] := by
  have hwritable : (Expression.call f (values.map .literal)).Writable := by
    refine .call hf (List.forall_mem_map.2 fun v hv => .literal ?_)
    have hlow := hvalues v hv
    have hhigh := Int64.toInt_lt v
    omega
  have htext : f ++ "(" ++ Value.withCommas (Value.lineText values) ++ ")" =
      String.ofList (f.toList ++ '(' :: (List.intercalate [','] (values.map Value.chars) ++ [')'])) := by
    rw [← String.toList_inj, Value.withCommas_lineText]
    simp
  rw [htext]
  refine parseProgram_of_spells (spells_call hf hvalues) fun ts hts => ?_
  exact Parse.returns_untilEnd_one (by simp [hts.current, Expression.terseKinds])
    (Parse.returns_call_statement hwritable hts)

theorem arguments_of_parseProgram {source f : String} {values : List Value}
    (h : parseProgram source = .ok [.evaluate (.call f (values.map .literal))]) :
    ∀ v ∈ values, -0x8000000000000000 < v.toInt := by
  intro v hv
  cases writable_of_parseProgram h _ List.mem_cons_self with
  | evaluate he =>
    cases he with
    | call _ hargs =>
      cases hargs _ (List.mem_map_of_mem hv) with
      | literal hrange => omega

/-- A line that is not empty is read back, only no values at all are printed as the empty line, and different values are
printed differently. With commas in place of its spaces, a line is read as the arguments of a call, exactly if the least
value is not among them. -/
theorem printed_lines_unambiguous :
    (∀ values : List Value, values ≠ [] → Value.readLine? (Value.lineText values) = some values) ∧
    (∀ values : List Value, Value.lineText values = "" ↔ values = []) ∧
    Function.Injective Value.lineText ∧
    ∀ (f : String) (values : List Value), IsName f →
      (parseProgram (f ++ "(" ++ Value.withCommas (Value.lineText values) ++ ")") =
          .ok [.evaluate (.call f (values.map .literal))] ↔
        ∀ v ∈ values, -0x8000000000000000 < v.toInt) :=
  ⟨fun _ => Value.readLine?_lineText, Value.lineText_eq_empty_iff, Value.lineText_injective,
    fun _ _ hf => ⟨arguments_of_parseProgram, parseProgram_call_line hf⟩⟩

def opposites : List Value := [0x7fffffffffffffff, 0, -0x7fffffffffffffff]

/-- The least value is read back from its line, but no call has it for an argument. -/
theorem opposites_read_back :
    opposites ≠ [] ∧ Value.readLine? "9223372036854775807 0 -9223372036854775807" = some opposites ∧
      Value.readLine? "-9223372036854775808" = some [Int64.minValue] ∧
      IsName "f" ∧ (∀ v ∈ opposites, -0x8000000000000000 < v.toInt) ∧
      parseProgram "f(9223372036854775807,0,-9223372036854775807)" =
        .ok [.evaluate (.call "f" (opposites.map .literal))] ∧
      parseProgram "f(-9223372036854775808)" ≠ .ok [.evaluate (.call "f" [.literal Int64.minValue])] := by
  obtain ⟨hread, -, -, hparse⟩ := printed_lines_unambiguous
  have hf : IsName "f" := isName_letter 'f' (by decide)
  have hrange : ∀ v ∈ opposites, -0x8000000000000000 < v.toInt :=
    List.forall_mem_cons.2 ⟨by decide, List.forall_mem_cons.2 ⟨by decide, List.forall_mem_singleton.2 (by decide)⟩⟩
  have hcall := (hparse "f" opposites hf).2 hrange
  have hleast := mt (hparse "f" [Int64.minValue] hf).1 fun h => absurd (List.forall_mem_singleton.1 h) (by decide)
  rw [Value.withCommas_lineText] at hcall hleast
  exact ⟨by decide, hread opposites (by decide), hread [Int64.minValue] (by decide), hf, hrange, hcall, hleast⟩

end IntScript
