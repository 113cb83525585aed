import Marquee.Proofs.Toml.Scalar
import Marquee.Proofs.Toml.Text
import Marquee.Toml.Reader

/-!
# Written Values Are Read Back

A value stands on a line of its own, between its key and the newline. Texts begin with a quote;
anything else is a token, and of the characters that end a token or begin another kind of value
it has none.

## Main statements

* `value_write` — what is written for a value is read as that value.
-/

namespace Marquee.Toml

namespace Plain

/-- What a value is in a document. -/
def value : Plain → Document
  | boolean b => .boolean b
  | word n => .whole n.toNat
  | single x => .real (Scalar.wide x)
  | text s => .text s

/-- Whether the digits of a value, if it is a fraction, are read back as that fraction. -/
def Rereads : Plain → Prop
  | single x => Scalar.Rereads x
  | _ => True

end Plain

/-- What fields are in a document. -/
def contents (fields : List (String × Plain)) : List (String × Document) :=
  fields.map fun f => (f.1, f.2.value)

namespace Scalar

/-! ### Tokens -/

/-- The characters that tokens are written with. -/
def InToken (c : Char) : Prop := c.isAlphanum ∨ c ∈ ['.', '+', '-']

instance : DecidablePred InToken := fun c =>
  inferInstanceAs (Decidable (c.isAlphanum ∨ c ∈ ['.', '+', '-']))

/-- A digit may stand in a token. -/
theorem InToken.of_isDigit {c : Char} (h : c.isDigit) : InToken c := by
  refine .inl ?_
  rw [Char.isAlphanum, h, Bool.or_true]

/-- What may stand in a token does not end it. -/
theorem InToken.not_endsToken {c : Char} (h : InToken c) : ¬ endsToken c := by
  intro hends
  simp only [endsToken, decide_eq_true_eq] at hends
  fin_cases hends <;> exact absurd h (by decide)

/-- What may stand in a token is not blank. -/
theorem InToken.not_isBlank {c : Char} (h : InToken c) : ¬ isBlank c := by
  intro hblank
  refine h.not_endsToken ?_
  rw [isBlank, Bool.or_eq_true, beq_iff_eq, beq_iff_eq] at hblank
  rcases hblank with rfl | rfl <;> decide

/-- The characters of written numbers may stand in a token. -/
theorem InToken.of_inNumeral {c : Char} (h : Number.Layout.InNumeral c) : InToken c := by
  rcases h with hdigit | hother
  · exact .of_isDigit hdigit
  · fin_cases hother <;> decide

/-- A number is a token, also one that is not finite. -/
theorem inToken_single (x : Float32) : ∀ c ∈ (Number.Layout.toml.write x).toList, InToken c := by
  by_cases hx : x.isFinite
  · exact fun c hc => .of_inNumeral (Number.Layout.toml.inNumeral_write hx c hc)
  · change ¬ x.toModel.unpack.isFinite at hx
    rw [Number.Layout.write]
    split
    · exact (by simp [InToken] : ∀ c ∈ ['n', 'a', 'n'], InToken c)
    · exact (by simp [InToken] : ∀ c ∈ ['i', 'n', 'f'], InToken c)
    · exact (by simp [InToken] : ∀ c ∈ ['-', 'i', 'n', 'f'], InToken c)
    all_goals
      rename_i hunpack
      rw [hunpack] at hx
      exact absurd rfl hx

/-- A token is read up to the newline. -/
theorem read_token {s : List Char} (hs : ∀ c ∈ s, InToken c) (rest : List Char) :
    read (s ++ '\n' :: rest) = (ofToken? s).map fun v => (v, '\n' :: rest) := by
  have hends : ∀ c ∈ s, !endsToken c := fun c hc => by
    rw [Bool.not_eq_true', ← Bool.not_eq_true]
    exact (hs c hc).not_endsToken
  have htoken : token (s ++ '\n' :: rest) = (s, '\n' :: rest) := by
    rw [token, List.takeWhile_append_of_pos hends, List.dropWhile_append_of_pos hends,
      List.takeWhile_cons_of_neg (by decide), List.dropWhile_cons_of_neg (by decide),
      List.append_nil]
  rw [read, htoken]
  dsimp only
  split
  next hrest => cases hrest
  next =>
    cases ofToken? s <;> rfl

end Scalar

namespace Reader

/-! ### Values -/

/-- A value that begins with a quote is read as a text. -/
theorem value_quoted {q : Char} (hq : q = '"' ∨ q = '\'') (room steps : ℕ) (s : List Char) :
    value room (steps + 1) (q :: s) =
      (Text.read (q :: s)).map fun r => (.text (String.ofList r.1), r.2) := by
  rcases hq with rfl | rfl
  all_goals
    rw [value]
    cases Text.read _ <;> rfl

/-- A value that begins like a token is read as one. -/
theorem value_token {c : Char} (hc : Scalar.InToken c) (room steps : ℕ) (s : List Char) :
    value room (steps + 1) (c :: s) = Scalar.read (c :: s) := by
  rw [value]
  · rintro _ ⟨⟩
    exact absurd hc (by decide)
  · rintro _ ⟨⟩
    exact absurd hc (by decide)
  · rintro _ _ ⟨⟩
    exact absurd hc (by decide)
  · rintro _ _ ⟨⟩
    exact absurd hc (by decide)

/-- A token that says something is read up to the newline. -/
theorem value_ofToken {s : List Char} {v : Document} (hs : ∀ c ∈ s, Scalar.InToken c)
    (hv : Scalar.ofToken? s = some v) (room steps : ℕ) (rest : List Char) :
    value room (steps + 1) (s ++ '\n' :: rest) = some (v, '\n' :: rest) := by
  have hread := Scalar.read_token hs rest
  rw [hv] at hread
  rcases s with _ | ⟨c, s⟩
  · cases hv
  · rw [List.cons_append, value_token (hs c List.mem_cons_self)]
    exact hread

/-- A text begins with a quote. -/
theorem exists_quote (t : String) :
    ∃ q s, (writeText t).toList = q :: s ∧ (q = '"' ∨ q = '\'') := by
  rw [writeText, String.toList_ofList]
  cases Form.of t.toList with
  | basic | basicLines => exact ⟨'"', _, rfl, .inl rfl⟩
  | literal | literalLines => exact ⟨'\'', _, rfl, .inr rfl⟩

/-- What is not a text is written as a token that says what the value is. -/
theorem token_write {p : Plain} (rereads : p.Rereads) (hp : ∀ t, p ≠ .text t) :
    (∀ c ∈ p.write.toList, Scalar.InToken c) ∧
      Scalar.ofToken? p.write.toList = some p.value := by
  cases p with
  | boolean b =>
    cases b with
    | true => exact ⟨(by simp [Scalar.InToken] : ∀ c ∈ ['t', 'r', 'u', 'e'], _), rfl⟩
    | false => exact ⟨(by simp [Scalar.InToken] : ∀ c ∈ ['f', 'a', 'l', 's', 'e'], _), rfl⟩
  | word n =>
    rw [Plain.write, Nat.toString_eq_repr, Nat.toList_repr]
    have hdigits := Number.Literal.isDigit_toDigits n.toNat
    exact ⟨fun c hc => .of_isDigit (hdigits c hc), Scalar.ofToken?_word n⟩
  | single x => exact ⟨Scalar.inToken_single x, (Scalar.ofToken?_single rereads).1⟩
  | text t => exact absurd rfl (hp t)

/-- **What is written for a value** is read as that value, up to the end of the line. -/
theorem value_write {p : Plain} (rereads : p.Rereads) (room steps : ℕ) (rest : List Char) :
    value room (steps + 1) (p.write.toList ++ '\n' :: rest) = some (p.value, '\n' :: rest) := by
  by_cases hp : ∃ t, p = .text t
  · obtain ⟨t, rfl⟩ := hp
    have hread := Text.read_writeText t rest
    obtain ⟨q, s, hwrite, hq⟩ := exists_quote t
    rw [Plain.write, hwrite, List.cons_append, value_quoted hq, ← List.cons_append, ← hwrite, hread,
      Option.map_some, String.ofList_toList]
    rfl
  · obtain ⟨hs, hv⟩ := token_write rereads (not_exists.1 hp)
    exact value_ofToken hs hv room steps rest

/-- No value begins with a blank. -/
theorem skip_write {p : Plain} (rereads : p.Rereads) (rest : List Char) :
    skip (p.write.toList ++ '\n' :: rest) = p.write.toList ++ '\n' :: rest := by
  suffices hhead : ∃ c s, p.write.toList = c :: s ∧ ¬ isBlank c by
    obtain ⟨c, s, hwrite, hc⟩ := hhead
    rw [hwrite, List.cons_append, skip, List.dropWhile_cons_of_neg hc]
  by_cases hp : ∃ t, p = .text t
  · obtain ⟨t, rfl⟩ := hp
    obtain ⟨q, s, hwrite, rfl | rfl⟩ := exists_quote t
    · exact ⟨_, s, hwrite, by decide⟩
    · exact ⟨_, s, hwrite, by decide⟩
  · obtain ⟨hs, hv⟩ := token_write rereads (not_exists.1 hp)
    rcases hwrite : p.write.toList with _ | ⟨c, s⟩
    · rw [hwrite] at hv
      cases hv
    · refine ⟨c, s, rfl, (hs c (hwrite ▸ List.mem_cons_self)).not_isBlank⟩

end Reader

end Marquee.Toml
