import IntScript.Program.Source
import IntScript.Proofs.AttemptLaws
import IntScript.Proofs.Grammar
import IntScript.Proofs.ScannedTokens

set_option autoImplicit false

namespace IntScript

namespace Attempt

variable {ε σ α β : Type} {m : Attempt ε σ α} {f : α → Attempt ε σ β} {s : σ} {P : α → σ → Prop} {Q : β → σ → Prop}

def Ensures (m : Attempt ε σ α) (s : σ) (Q : α → σ → Prop) : Prop := ∀ a t, m s = (.done a, t) → Q a t

def Succeeds (m : Attempt ε σ α) (s : σ) (Q : α → σ → Prop) : Prop := (∀ e, ¬ m.Fails s e) ∧ m.Ensures s Q

theorem Ensures.bind (hm : m.Ensures s P) (hf : ∀ a t, P a t → (f a).Ensures t Q) : (m >>= f).Ensures s Q := by
  intro b u h
  obtain ⟨a, t, ha, hb⟩ := bind_eq_done.1 h
  exact hf a t (hm a t ha) b u hb

theorem Succeeds.bind (hm : m.Succeeds s P) (hf : ∀ a t, P a t → (f a).Succeeds t Q) : (m >>= f).Succeeds s Q := by
  refine ⟨fun e h => ?_, hm.2.bind fun a t ha => (hf a t ha).2⟩
  rcases fails_bind.1 h with h | ⟨a, t, ha, h⟩
  · exact hm.1 e h
  · exact (hf a t (hm.2 a t ha)).1 e h

theorem Ensures.mono {P' : α → σ → Prop} (hm : m.Ensures s P) (h : ∀ a t, P a t → P' a t) : m.Ensures s P' :=
  fun a t ha => h a t (hm a t ha)

theorem Succeeds.mono {P' : α → σ → Prop} (hm : m.Succeeds s P) (h : ∀ a t, P a t → P' a t) : m.Succeeds s P' :=
  ⟨hm.1, hm.2.mono h⟩

theorem ensures_pure {a : α} (h : P a s) : (Pure.pure a : Attempt ε σ α).Ensures s P := by
  intro b t hb
  obtain ⟨rfl, rfl⟩ := (pure_eq_done _ _ _ _).1 hb
  exact h

theorem succeeds_pure {a : α} (h : P a s) : (Pure.pure a : Attempt ε σ α).Succeeds s P :=
  ⟨fun e he => (fails_pure a s e).1 he, ensures_pure h⟩

theorem ensures_outOfFuel : (outOfFuel : Attempt ε σ α).Ensures s P := nofun

theorem succeeds_outOfFuel : (outOfFuel : Attempt ε σ α).Succeeds s P := ⟨nofun, ensures_outOfFuel⟩

end Attempt

def kinds (ts : List Token) : Kinds := ts.map Token.kind

@[simp] theorem kinds_nil : kinds [] = [] := rfl

@[simp] theorem kinds_cons (t : Token) (ts : List Token) : kinds (t :: ts) = t.kind :: kinds ts := rfl

@[simp] theorem kinds_append (ts us : List Token) : kinds (ts ++ us) = kinds ts ++ kinds us := List.map_append

def Scanned (ts : List Token) : Prop := ∀ t ∈ ts, t.Sound

theorem Scanned.head {t : Token} {ts : List Token} (h : Scanned (t :: ts)) : t.Sound := h t List.mem_cons_self

theorem Scanned.tail {t : Token} {ts : List Token} (h : Scanned (t :: ts)) : Scanned ts :=
  fun u hu => h u (List.mem_cons_of_mem t hu)

def At (ts : List Token) (ks : Kinds) : Prop := Scanned ts ∧ kinds ts = ks

namespace At

variable {ts : List Token} {k : TokenKind} {ks : Kinds}

theorem uncons (h : At ts (k :: ks)) : ∃ t us, ts = t :: us ∧ t.kind = k ∧ At us ks := by
  obtain ⟨hts, h⟩ := h
  cases ts with
  | nil => cases h
  | cons t us =>
    obtain ⟨hk, hks⟩ := List.cons.inj h
    exact ⟨t, us, rfl, hk, hts.tail, hks⟩

theorem current (h : At ts ks) : (Parse.current ts).kind = ks.headD .endOfText := by
  obtain ⟨-, rfl⟩ := h
  cases ts with
  | nil => rfl
  | cons t us => rfl

theorem nextIs (h : At ts (k :: ks)) {k' : TokenKind} (hk : k' ≠ .endOfText) :
    Parse.nextIs k' ts = (ks.headD .endOfText == k') := by
  obtain ⟨t, us, rfl, -, -, rfl⟩ := h.uncons
  cases us with
  | nil => exact (beq_eq_false_iff_ne.2 hk.symm).symm
  | cons u us => rfl

end At

/-- Reading has gone from the first tokens to the last, past tokens of the given kinds and no end token. -/
def Passed (ts : List Token) (ks : Kinds) (us : List Token) : Prop :=
  ∃ read, ts = read ++ us ∧ kinds read = ks ∧ .endOfText ∉ ks

namespace Passed

variable {ts us vs : List Token} {ks ks' : Kinds}

theorem refl (ts : List Token) : Passed ts [] ts := ⟨[], rfl, rfl, List.not_mem_nil⟩

theorem head {t : Token} (h : t.kind ≠ .endOfText) (us : List Token) : Passed (t :: us) [t.kind] us :=
  ⟨[t], rfl, rfl, fun hend => h (List.mem_singleton.1 hend).symm⟩

theorem append (h : Passed ts ks us) (h' : Passed us ks' vs) : Passed ts (ks ++ ks') vs := by
  obtain ⟨read, rfl, rfl, hend⟩ := h
  obtain ⟨read', rfl, rfl, hend'⟩ := h'
  refine ⟨read ++ read', (List.append_assoc _ _ _).symm, kinds_append _ _, fun h => ?_⟩
  exact (List.mem_append.1 h).elim hend hend'

theorem current {k : TokenKind} (h : Passed ts (k :: ks) us) : (Parse.current ts).kind = k := by
  obtain ⟨read, rfl, hread, -⟩ := h
  cases read with
  | nil => cases hread
  | cons t read => exact (List.cons.inj hread).1

theorem kinds_eq (h : Passed ts ks us) : kinds ts = ks ++ kinds us := by
  obtain ⟨read, rfl, rfl, -⟩ := h
  exact kinds_append read us

theorem scanned (h : Passed ts ks us) (hts : Scanned ts) : Scanned us := by
  obtain ⟨read, rfl, -⟩ := h
  exact fun t ht => hts t (List.mem_append_right read ht)

/-- A kind that was passed belongs to a token of the scanner. -/
theorem exists_sound {k : TokenKind} (h : Passed ts ks us) (hts : Scanned ts) (hk : k ∈ ks) :
    ∃ t : Token, t.Sound ∧ t.kind = k := by
  obtain ⟨read, rfl, rfl, -⟩ := h
  obtain ⟨t, ht, rfl⟩ := List.mem_map.1 hk
  exact ⟨t, hts t (List.mem_append_left us ht), rfl⟩

theorem integer_range {i : Int} (h : Passed ts [.integer i] us) (hts : Scanned ts) :
    0 ≤ i ∧ i < 0x8000000000000000 := by
  obtain ⟨t, ht, hk⟩ := h.exists_sound hts (List.mem_singleton.2 rfl)
  exact ht.integer i hk

end Passed

namespace Parse

open Attempt

variable {α β : Type} {ts us : List Token} {t : Token} {k : TokenKind}

theorem behind_cons (h : t.kind ≠ .endOfText) : behind (t :: us) = us := by
  have hend : t.isEnd = false := by simpa [Token.isEnd] using h
  simp [behind, hend]

/-- A token of any kind but the last is really there. -/
theorem exists_of_current (hk : k ≠ .endOfText) (h : (current ts).kind = k) : ∃ t us, ts = t :: us ∧ t.kind = k := by
  cases ts with
  | nil => exact absurd h.symm hk
  | cons t us => exact ⟨t, us, rfl, h⟩

section Ensures

variable {f : Unit → Parse β} {Q : β → List Token → Prop}

theorem ensures_unexpected {expected : Expectation} {P : α → List Token → Prop} :
    (unexpected expected : Parse α).Ensures ts P := nofun

theorem ensures_ask {q : List Token → α} {g : α → Parse β} (h : (g (q ts)).Ensures ts Q) :
    ((.ask q : Parse α) >>= g).Ensures ts Q := h

theorem ensures_advance (hk : k ≠ .endOfText) (h : (current ts).kind = k)
    (hf : ∀ us, Passed ts [k] us → (f ()).Ensures us Q) : (advance >>= f).Ensures ts Q := by
  obtain ⟨t, us, rfl, rfl⟩ := exists_of_current hk h
  change (f ()).Ensures (behind (t :: us)) Q
  rw [behind_cons hk]
  exact hf us (Passed.head hk us)

theorem ensures_consume (hk : k ≠ .endOfText) (hf : ∀ us, Passed ts [k] us → (f ()).Ensures us Q) :
    (consume k >>= f).Ensures ts Q := by
  rw [consume, bind_assoc]
  refine ensures_ask ?_
  split
  · next h => exact ensures_advance hk (by simpa using h) hf
  · intro b us h
    obtain ⟨a, vs, ha, -⟩ := bind_eq_done.1 h
    cases ha

theorem ensures_accept {g : Bool → Parse β} (hk : k ≠ .endOfText)
    (hyes : ∀ us, Passed ts [k] us → (g true).Ensures us Q) (hno : (current ts).kind ≠ k → (g false).Ensures ts Q) :
    (accept k >>= g).Ensures ts Q := by
  rw [accept, bind_assoc]
  refine ensures_ask ?_
  split
  · next h =>
    rw [bind_assoc]
    exact ensures_advance hk (by simpa using h) hyes
  · next h => exact hno (by simpa using h)

theorem ensures_name {role : NameRole} {g : String → Parse β}
    (hg : ∀ x us, Passed ts [.identifier x] us → (g x).Ensures us Q) : (name role >>= g).Ensures ts Q := by
  rw [name, bind_assoc]
  refine ensures_ask ?_
  split
  · next x h =>
    rw [bind_assoc]
    have hx : TokenKind.identifier x ≠ .endOfText := by simp
    exact ensures_advance hx h fun us hus => hg x us hus
  · intro b us h
    obtain ⟨a, vs, ha, -⟩ := bind_eq_done.1 h
    cases ha

end Ensures

section Succeeds

variable {f : Unit → Parse β} {Q : β → List Token → Prop} {ks : Kinds}

theorem succeeds_ask {q : List Token → α} {g : α → Parse β} (h : (g (q ts)).Succeeds ts Q) :
    ((.ask q : Parse α) >>= g).Succeeds ts Q := h

theorem succeeds_check {g : Bool → Parse β} (h : At ts (k :: ks)) (hg : (g true).Succeeds ts Q) :
    (check k >>= g).Succeeds ts Q := by
  refine succeeds_ask ?_
  rwa [h.current, List.headD_cons, beq_self_eq_true]

theorem succeeds_check_other {g : Bool → Parse β} (h : (current ts).kind ≠ k) (hg : (g false).Succeeds ts Q) :
    (check k >>= g).Succeeds ts Q := by
  refine succeeds_ask ?_
  rwa [beq_eq_false_iff_ne.2 h]

theorem succeeds_advance (h : At ts (k :: ks)) (hk : k ≠ .endOfText) (hf : ∀ us, At us ks → (f ()).Succeeds us Q) :
    (advance >>= f).Succeeds ts Q := by
  obtain ⟨t, us, rfl, rfl, hus⟩ := h.uncons
  change (f ()).Succeeds (behind (t :: us)) Q
  rw [behind_cons hk]
  exact hf us hus

theorem succeeds_consume (h : At ts (k :: ks)) (hk : k ≠ .endOfText) (hf : ∀ us, At us ks → (f ()).Succeeds us Q) :
    (consume k >>= f).Succeeds ts Q := by
  rw [consume, bind_assoc]
  exact succeeds_check h (succeeds_advance h hk hf)

theorem succeeds_accept {g : Bool → Parse β} (h : At ts (k :: ks)) (hk : k ≠ .endOfText)
    (hg : ∀ us, At us ks → (g true).Succeeds us Q) : (accept k >>= g).Succeeds ts Q := by
  rw [accept, bind_assoc]
  refine succeeds_check h ?_
  rw [if_pos rfl, bind_assoc]
  exact succeeds_advance h hk hg

theorem succeeds_decline {g : Bool → Parse β} (h : (current ts).kind ≠ k) (hg : (g false).Succeeds ts Q) :
    (accept k >>= g).Succeeds ts Q := by
  rw [accept, bind_assoc]
  exact succeeds_check_other h hg

theorem succeeds_name {role : NameRole} {x : String} {g : String → Parse β} (h : At ts (.identifier x :: ks))
    (hg : ∀ us, At us ks → (g x).Succeeds us Q) : (name role >>= g).Succeeds ts Q := by
  rw [name, bind_assoc]
  refine succeeds_ask ?_
  rw [h.current]
  change ((advance >>= fun _ => (Pure.pure x : Parse String)) >>= g).Succeeds ts Q
  rw [bind_assoc]
  exact succeeds_advance h (by simp) hg

end Succeeds

end Parse

theorem parseTokens_eq_iff {ts : List Token} {r : Except SyntaxError Block} :
    (parseTokens ts).1 = r ↔ ∃ us, Parse.program (Parse.enough ts) ts = (.ofExcept r, us) := by
  unfold parseTokens
  split
  next outcome us h =>
  constructor
  · rintro rfl
    cases outcome with
    | done _ => exact ⟨us, h⟩
    | failed _ => exact ⟨us, h⟩
    | outOfFuel => exact absurd (congrArg Prod.fst h) (Parse.ends_program ts).1
  · rintro ⟨vs, hvs⟩
    cases h.symm.trans hvs
    cases r <;> rfl

theorem parseTokens_eq_ok {ts : List Token} {body : Block} :
    (parseTokens ts).1 = .ok body ↔ ∃ us, Parse.program (Parse.enough ts) ts = (.done body, us) :=
  parseTokens_eq_iff

theorem parseTokens_of_succeeds {ts : List Token} {Q : Block → List Token → Prop}
    (h : (Parse.program (Parse.enough ts)).Succeeds ts Q) : ∃ body us, (parseTokens ts).1 = .ok body ∧ Q body us := by
  rcases hrun : Parse.program (Parse.enough ts) ts with ⟨body | e | _, us⟩
  · exact ⟨body, us, parseTokens_eq_ok.2 ⟨us, hrun⟩, h.2 body us hrun⟩
  · exact absurd (congrArg Prod.fst hrun) (h.1 e)
  · exact absurd (congrArg Prod.fst hrun) (Parse.ends_program ts).1

theorem Token.sound_endAt (p : Position) : (Token.endAt p).Sound := .of_sign nofun nofun (by decide)

theorem scanned_of_tokenize {source : String} {ts : List Token} (h : tokenize source = .ok ts) :
    ∃ body p, ts = body ++ [Token.endAt p] ∧ (∀ t ∈ body, t.kind ≠ .endOfText) ∧ Scanned ts := by
  obtain ⟨body, p, rfl, hbody⟩ := tokenize_tokens h
  refine ⟨body, p, rfl, fun t ht => (hbody t ht).1, fun t ht => ?_⟩
  rcases List.mem_append.1 ht with ht | ht
  · exact (hbody t ht).2
  · obtain rfl := List.mem_singleton.1 ht
    exact Token.sound_endAt p

end IntScript
