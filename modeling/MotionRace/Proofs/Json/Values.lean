import MotionRace.Proofs.Json.Tokens

/-!
# Written values are read back

The tokens of a value are put together to the value again, so a value is read back from its text,
except that a float that is not finite comes back as `null` (`parse?_compact`).
-/

namespace MotionRace.Json.Value

variable {fuel : Nat} {v : Value} {vs : List Value} {ms : List (String × Value)}
  {ts us rest : List Token}

/-! ## One step -/

theorem ofTokens?_scalar (fuel : Nat) (v : Value) (rest : List Token) :
    ofTokens? fuel (.scalar v :: rest) = some (v, rest) := by
  simp [ofTokens?]

theorem ofTokens?_array (notClosing : ∀ after, ts ≠ .closeBracket :: after)
    (read : elementsOfTokens? fuel ts = .some (vs, rest)) :
    ofTokens? (fuel + 1) (.openBracket :: ts) = .some (.array vs, rest) := by
  cases ts with
  | nil => simp [ofTokens?, read]
  | cons t ts =>
    cases t with
    | closeBracket => exact absurd rfl (notClosing ts)
    | _ => simp [ofTokens?, read]

theorem ofTokens?_object (notClosing : ∀ after, ts ≠ .closeBrace :: after)
    (read : membersOfTokens? fuel ts = .some (ms, rest)) :
    ofTokens? (fuel + 1) (.openBrace :: ts) = .some (.object ms, rest) := by
  cases ts with
  | nil => simp [ofTokens?, read]
  | cons t ts =>
    cases t with
    | closeBrace => exact absurd rfl (notClosing ts)
    | _ => simp [ofTokens?, read]

theorem elementsOfTokens?_last (read : ofTokens? fuel ts = some (v, .closeBracket :: rest)) :
    elementsOfTokens? (fuel + 1) ts = some ([v], rest) := by
  simp [elementsOfTokens?, read]

theorem elementsOfTokens?_more (read : ofTokens? fuel ts = some (v, .comma :: us))
    (next : elementsOfTokens? fuel us = some (vs, rest)) :
    elementsOfTokens? (fuel + 1) ts = some (v :: vs, rest) := by
  simp [elementsOfTokens?, read, next]

theorem membersOfTokens?_last (name : String)
    (read : ofTokens? fuel ts = some (v, .closeBrace :: rest)) :
    membersOfTokens? (fuel + 1) (.scalar (.text name) :: .colon :: ts) =
      some ([(name, v)], rest) := by
  simp [membersOfTokens?, read]

theorem membersOfTokens?_more (name : String)
    (read : ofTokens? fuel ts = some (v, .comma :: us))
    (next : membersOfTokens? fuel us = some (ms, rest)) :
    membersOfTokens? (fuel + 1) (.scalar (.text name) :: .colon :: ts) =
      some ((name, v) :: ms, rest) := by
  simp [membersOfTokens?, read, next]

/-! ## A whole value -/

theorem tokens_length_pos (v : Value) : 0 < v.tokens.length := by
  cases v <;> exact Nat.succ_pos _

theorem elementTokens_last (v : Value) : elementTokens [v] = v.tokens ++ [.closeBracket] := by
  simp [elementTokens]

theorem elementTokens_more (v w : Value) (vs : List Value) :
    elementTokens (v :: w :: vs) = v.tokens ++ .comma :: elementTokens (w :: vs) := by
  rw [elementTokens]
  simp

theorem memberTokens_last (name : String) (v : Value) :
    memberTokens [(name, v)] = .scalar (.text name) :: .colon :: (v.tokens ++ [.closeBrace]) := by
  simp [memberTokens]

theorem memberTokens_more (name : String) (v : Value) (m : String × Value)
    (ms : List (String × Value)) :
    memberTokens ((name, v) :: m :: ms) =
      .scalar (.text name) :: .colon :: (v.tokens ++ .comma :: memberTokens (m :: ms)) := by
  rw [memberTokens]
  simp

/-- No value begins with a closing mark. -/
theorem elementTokens_ne_closing (v : Value) (vs : List Value) (rest after : List Token) :
    elementTokens (v :: vs) ++ rest ≠ .closeBracket :: after := by
  rw [elementTokens]
  cases v <;> rintro ⟨⟩

theorem memberTokens_ne_closing (m : String × Value) (ms : List (String × Value))
    (rest after : List Token) : memberTokens (m :: ms) ++ rest ≠ .closeBrace :: after := by
  rw [memberTokens]
  rintro ⟨⟩

mutual

/-- The tokens of a value are put together to the value, with fuel for each of them. -/
theorem ofTokens?_tokens : (v : Value) → {fuel : Nat} → v.tokens.length ≤ fuel →
    (rest : List Token) → ofTokens? fuel (v.tokens ++ rest) = some (v, rest)
  | .null, _, _, rest | .boolean _, _, _, rest | .natural _, _, _, rest | .number _, _, _, rest
  | .text _, _, _, rest => ofTokens?_scalar _ _ rest
  | .array [], fuel, _, rest => by simp [tokens, elementTokens, ofTokens?]
  | .object [], fuel, _, rest => by simp [tokens, memberTokens, ofTokens?]
  | .array (v :: vs), fuel + 1, enough, rest => by
    have read := elementsOfTokens?_tokens (v :: vs) (List.cons_ne_nil v vs)
      (Nat.le_of_succ_le_succ enough) rest
    exact ofTokens?_array (elementTokens_ne_closing v vs rest) read
  | .object (m :: ms), fuel + 1, enough, rest => by
    have read := membersOfTokens?_tokens (m :: ms) (List.cons_ne_nil m ms)
      (Nat.le_of_succ_le_succ enough) rest
    exact ofTokens?_object (memberTokens_ne_closing m ms rest) read

theorem elementsOfTokens?_tokens : (vs : List Value) → vs ≠ [] → {fuel : Nat} →
    (elementTokens vs).length ≤ fuel → (rest : List Token) →
    elementsOfTokens? fuel (elementTokens vs ++ rest) = some (vs, rest)
  | [v], _, fuel, enough, rest => by
    rw [elementTokens_last, List.length_append, List.length_singleton] at enough
    obtain ⟨left, rfl⟩ : ∃ left, fuel = left + 1 := ⟨fuel - 1, by omega⟩
    rw [elementTokens_last, List.append_assoc]
    exact elementsOfTokens?_last (ofTokens?_tokens v (by omega) _)
  | v :: w :: vs, _, fuel, enough, rest => by
    have nonempty := tokens_length_pos v
    rw [elementTokens_more, List.length_append, List.length_cons] at enough
    obtain ⟨left, rfl⟩ : ∃ left, fuel = left + 1 := ⟨fuel - 1, by omega⟩
    have next : elementsOfTokens? left (elementTokens (w :: vs) ++ rest) = _ :=
      elementsOfTokens?_tokens (w :: vs) (List.cons_ne_nil w vs) (by omega) rest
    rw [elementTokens_more, List.append_assoc]
    exact elementsOfTokens?_more (ofTokens?_tokens v (by omega) _) next

theorem membersOfTokens?_tokens : (ms : List (String × Value)) → ms ≠ [] → {fuel : Nat} →
    (memberTokens ms).length ≤ fuel → (rest : List Token) →
    membersOfTokens? fuel (memberTokens ms ++ rest) = some (ms, rest)
  | [(name, v)], _, fuel, enough, rest => by
    rw [memberTokens_last, List.length_cons, List.length_cons, List.length_append,
      List.length_singleton] at enough
    obtain ⟨left, rfl⟩ : ∃ left, fuel = left + 1 := ⟨fuel - 1, by omega⟩
    rw [memberTokens_last, List.cons_append, List.cons_append, List.append_assoc]
    exact membersOfTokens?_last name (ofTokens?_tokens v (by omega) _)
  | (name, v) :: m :: ms, _, fuel, enough, rest => by
    rw [memberTokens_more, List.length_cons, List.length_cons, List.length_append,
      List.length_cons] at enough
    obtain ⟨left, rfl⟩ : ∃ left, fuel = left + 1 := ⟨fuel - 1, by omega⟩
    have next : membersOfTokens? left (memberTokens (m :: ms) ++ rest) = _ :=
      membersOfTokens?_tokens (m :: ms) (List.cons_ne_nil m ms) (by omega) rest
    rw [memberTokens_more, List.cons_append, List.cons_append, List.append_assoc]
    exact membersOfTokens?_more name (ofTokens?_tokens v (by omega) _) next

end

/-- A value is read back from its text, with `null` for what is no number. -/
theorem parse?_compact (words : v.InWords) : parse? v.compact = some v.reread := by
  have cut := (lexes_compact v words).tokens?_eq
  have read := ofTokens?_tokens v.reread (le_refl _) []
  rw [List.append_nil] at read
  simp [parse?, cut, read]

end MotionRace.Json.Value
