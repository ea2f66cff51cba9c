import MotionRace.Proofs.Json.Numbers

/-!
# Written values are cut into their tokens

An escaped text is read back up to its closing quote. Then a written value is cut into the tokens
that it consists of (`lexes_compact`), whatever follows it, as long as that does not continue a
number.
-/

namespace MotionRace.Json

variable {cs ds rest : List Char} {ts us more : List Token} {fuel : Nat}

/-! ## Texts -/

theorem unescapeHex?_hexDigit {c : Char} (control : c.toNat < 0x20) :
    unescapeHex? '0' '0' (hexDigit (c.toNat / 16)) (hexDigit (c.toNat % 16)) = some c := by
  have table : ∀ n < 0x20,
      unescapeHex? '0' '0' (hexDigit (n / 16)) (hexDigit (n % 16)) = some (Char.ofNat n) := by
    decide +kernel
  rw [table c.toNat control, Char.ofNat_toNat]

/-- Each character is read back from what it is written as. -/
theorem textBody?_escapeChar {s : List Char} (c : Char) (read : textBody? cs = some (s, rest)) :
    textBody? (escapeChar c ++ cs) = some (c :: s, rest) := by
  unfold escapeChar
  split_ifs with quote backslash line carriage tab back form control
  · subst quote
    simp [textBody?, unescape?, List.lookup, read]
  · subst backslash
    simp [textBody?, unescape?, List.lookup, read]
  · subst line
    simp [textBody?, unescape?, List.lookup, read]
  · subst carriage
    simp [textBody?, unescape?, List.lookup, read]
  · subst tab
    simp [textBody?, unescape?, List.lookup, read]
  · subst back
    simp [textBody?, unescape?, List.lookup, read]
  · subst form
    simp [textBody?, unescape?, List.lookup, read]
  · simp [textBody?, unescapeHex?_hexDigit control, read]
  · simp [textBody?, backslash, control, read]

/-- A text is read back up to the quote behind it. -/
theorem textBody?_escaped (s rest : List Char) :
    textBody? (s.flatMap escapeChar ++ '"' :: rest) = some (s, rest) := by
  induction s with
  | nil => simp [textBody?]
  | cons c s ih =>
    rw [List.flatMap_cons, List.append_assoc]
    exact textBody?_escapeChar c ih

/-! ## Cutting a text into tokens -/

/-- Whether some characters are cut into some tokens, wherever they stand before something that does
not continue a number. A token takes at least one character, so the fuel is enough. -/
structure Lexes (cs : List Char) (ts : List Token) : Prop where
  length_le : ts.length ≤ cs.length
  read : ∀ {fuel rest more}, Stops rest → tokensFrom? fuel rest = some more →
    tokensFrom? (fuel + ts.length) (cs ++ rest) = some (ts ++ more)

theorem tokensFrom?_cons {c : Char} {t : Token} (solid : isBlank c = false)
    (token : token? (c :: cs) = some (t, rest)) (next : tokensFrom? fuel rest = some more) :
    tokensFrom? (fuel + 1) (c :: cs) = some (t :: more) := by
  simp [tokensFrom?, solid, token, next]

theorem tokensFrom?_nil (fuel : Nat) : tokensFrom? fuel [] = some [] := by
  cases fuel <;> rfl

namespace Lexes

/-- The whole of a text is cut into tokens. -/
theorem tokens?_eq (lexes : Lexes cs ts) : tokens? cs = some ts := by
  have fits := lexes.length_le
  have ends : Stops [] := fun c mem => by cases mem
  have read := lexes.read ends (tokensFrom?_nil (cs.length - ts.length))
  rwa [Nat.sub_add_cancel fits, List.append_nil, List.append_nil] at read

theorem append (first : Lexes cs ts) (second : Lexes ds us)
    (stops : ∀ rest, Stops rest → Stops (ds ++ rest)) : Lexes (cs ++ ds) (ts ++ us) where
  length_le := by
    rw [List.length_append, List.length_append]
    exact Nat.add_le_add first.length_le second.length_le
  read := by
    intro fuel rest more ends next
    have read := first.read (stops rest ends) (second.read ends next)
    rwa [List.append_assoc, List.append_assoc, List.length_append, Nat.add_comm ts.length,
      ← Nat.add_assoc]

/-- A mark in front of other tokens. -/
theorem cons {c : Char} {mark : Token} (solid : isBlank c = false)
    (token : ∀ rest, token? (c :: rest) = some (mark, rest)) (lexes : Lexes ds us) :
    Lexes (c :: ds) (mark :: us) where
  length_le := Nat.succ_le_succ lexes.length_le
  read := by
    intro fuel rest more ends next
    exact tokensFrom?_cons solid (token (ds ++ rest)) (lexes.read ends next)

end Lexes

/-! ## The tokens of a value -/

namespace Value

mutual

/-- A value as it is read back: a float that is not finite has become `null`. -/
def reread : Value → Value
  | number x => if x.isFinite then number x else null
  | array elements => array (rereadAll elements)
  | object members => object (rereadMembers members)
  | v => v

def rereadAll : List Value → List Value
  | [] => []
  | v :: rest => v.reread :: rereadAll rest

def rereadMembers : List (String × Value) → List (String × Value)
  | [] => []
  | (name, v) :: rest => (name, v.reread) :: rereadMembers rest

end

mutual

/-- Whether every whole number is a word. Larger ones are read as floats. -/
def InWords : Value → Prop
  | natural n => n < UInt64.size
  | array elements => AllInWords elements
  | object members => MembersInWords members
  | _ => True

def AllInWords : List Value → Prop
  | [] => True
  | v :: rest => v.InWords ∧ AllInWords rest

def MembersInWords : List (String × Value) → Prop
  | [] => True
  | (_, v) :: rest => v.InWords ∧ MembersInWords rest

end

mutual

/-- The tokens of a value. -/
def tokens : Value → List Token
  | array elements => .openBracket :: elementTokens elements
  | object members => .openBrace :: memberTokens members
  | v => [.scalar v]

/-- The tokens of the elements of an array, up to the closing bracket. -/
def elementTokens : List Value → List Token
  | [] => [.closeBracket]
  | v :: rest => v.tokens ++ (if rest.isEmpty then [] else [.comma]) ++ elementTokens rest

/-- The tokens of the members of an object, up to the closing brace. -/
def memberTokens : List (String × Value) → List Token
  | [] => [.closeBrace]
  | (name, v) :: rest =>
    .scalar (.text name) :: .colon :: v.tokens ++ (if rest.isEmpty then [] else [.comma]) ++
      memberTokens rest

end

end Value

/-! ## Scalars -/

theorem token?_text (s : String) (rest : List Char) :
    token? ((quoted s).toList ++ rest) = some (.scalar (.text s), rest) := by
  have read := textBody?_escaped s.toList rest
  have form : (quoted s).toList ++ rest = '"' :: (s.toList.flatMap escapeChar ++ '"' :: rest) := by
    rw [quoted, String.toList_ofList, List.append_assoc]
    rfl
  rw [form]
  simp [token?, read]

/-- No other token begins as a number does. -/
theorem token?_of_number? {v : Value} (read : number? cs = some (v, rest)) :
    token? cs = some (.scalar v, rest) := by
  unfold token?
  split
  all_goals first | cases read | rw [read]; rfl

/-! ## Values -/

/-- A scalar is one token. -/
theorem lexes_scalar {v : Value} (nonempty : cs ≠ [])
    (solid : ∀ c ∈ cs.head?, isBlank c = false)
    (token : ∀ rest, Stops rest → token? (cs ++ rest) = .some (.scalar v, rest)) :
    Lexes cs [.scalar v] where
  length_le := List.length_pos_iff.mpr nonempty
  read := by
    intro fuel rest more ends next
    cases cs with
    | nil => exact absurd rfl nonempty
    | cons c cs => exact tokensFrom?_cons (solid c rfl) (token rest ends) next

theorem lexes_number {v : Value}
    (read : ∀ rest, Stops rest → number? (cs ++ rest) = some (v, rest)) :
    Lexes cs [.scalar v] := by
  have whole : number? cs = some (v, []) := by
    have alone := read [] fun c mem => by cases mem
    rwa [List.append_nil] at alone
  have nonempty : cs ≠ [] := by
    rintro rfl
    cases whole
  refine lexes_scalar nonempty ?_ fun rest ends => token?_of_number? (read rest ends)
  intro c first
  by_contra blank
  rw [Bool.not_eq_false, isBlank] at blank
  simp only [Bool.or_eq_true, beq_iff_eq] at blank
  obtain ⟨after, rfl⟩ := List.head?_eq_some_iff.mp first
  rcases blank with ((rfl | rfl) | rfl) | rfl <;> cases whole

theorem lexes_null : Lexes "null".toList [.scalar .null] := by
  refine lexes_scalar (by decide) ?_ fun rest _ => rfl
  rintro c ⟨⟩
  rfl

theorem lexes_boolean (b : Bool) :
    Lexes (if b then "true" else "false").toList [.scalar (.boolean b)] := by
  cases b with
  | true =>
    refine lexes_scalar (by decide) ?_ fun rest _ => rfl
    rintro c ⟨⟩
    rfl
  | false =>
    refine lexes_scalar (by decide) ?_ fun rest _ => rfl
    rintro c ⟨⟩
    rfl

theorem lexes_text (s : String) : Lexes (quoted s).toList [.scalar (.text s)] := by
  have form : (quoted s).toList = '"' :: (s.toList.flatMap escapeChar ++ ['"']) := by
    rw [quoted, String.toList_ofList]
    rfl
  refine lexes_scalar ?_ ?_ fun rest _ => token?_text s rest
  · rw [form]
    exact List.cons_ne_nil _ _
  · rw [form]
    rintro c ⟨⟩
    rfl

/-- An item of a list, with a comma behind it unless it is the last. -/
theorem lexes_item (last : Bool) (item : Lexes cs ts) (others : Lexes ds us)
    (closes : last = true → ∀ rest, Stops (ds ++ rest)) :
    Lexes (cs ++ ((if last then [] else [',']) ++ ds))
      (ts ++ ((if last then [] else [.comma]) ++ us)) := by
  cases last with
  | true => exact item.append others fun rest _ => closes rfl rest
  | false =>
    refine item.append (others.cons rfl fun rest => rfl) ?_
    rintro rest - c ⟨⟩
    rfl

theorem toList_intercalate_cons (s : String) (ss : List String) :
    (",".intercalate (s :: ss)).toList =
      s.toList ++ ((if ss.isEmpty then [] else [',']) ++ (",".intercalate ss).toList) := by
  cases ss with
  | nil => simp
  | cons t ss => simp [String.intercalate_cons_cons]

namespace Value

theorem isEmpty_compactAll (vs : List Value) : (compactAll vs).isEmpty = vs.isEmpty := by
  cases vs <;> rfl

theorem isEmpty_compactMembers (ms : List (String × Value)) :
    (compactMembers ms).isEmpty = ms.isEmpty := by
  cases ms <;> rfl

theorem isEmpty_rereadAll (vs : List Value) : (rereadAll vs).isEmpty = vs.isEmpty := by
  cases vs <;> rfl

theorem isEmpty_rereadMembers (ms : List (String × Value)) :
    (rereadMembers ms).isEmpty = ms.isEmpty := by
  cases ms <;> rfl

end Value

open Value

theorem lexes_nil : Lexes [] [] where
  length_le := le_refl 0
  read _ next := next

theorem lexes_mark {c : Char} {mark : Token} (solid : isBlank c = false)
    (token : ∀ rest, token? (c :: rest) = some (mark, rest)) : Lexes [c] [mark] :=
  lexes_nil.cons solid token

/-- Marks around what is cut into tokens. -/
theorem lexes_between {opening inner closing : String} {c : Char} {mark : Token}
    (single : opening.toList = [c]) (solid : isBlank c = false)
    (token : ∀ rest, token? (c :: rest) = some (mark, rest))
    (lexes : Lexes (inner.toList ++ closing.toList) ts) :
    Lexes (opening ++ inner ++ closing).toList (mark :: ts) := by
  rw [String.toList_append, String.toList_append, single, List.append_assoc]
  exact lexes.cons solid token

/-- A name and a value with a colon between them. -/
theorem lexes_member (name : String) {value : String} (lexes : Lexes value.toList ts) :
    Lexes (quoted name ++ ":" ++ value).toList (.scalar (.text name) :: .colon :: ts) := by
  rw [String.toList_append, String.toList_append, List.append_assoc]
  refine (lexes_text name).append (lexes.cons (c := ':') rfl fun rest => rfl) ?_
  rintro rest - c ⟨⟩
  rfl

theorem stops_closing {mark : Char} (other : continues mark = false) (inner : List String)
    (empty : inner.isEmpty = true) (rest : List Char) :
    Stops ((",".intercalate inner).toList ++ [mark] ++ rest) := by
  rw [List.isEmpty_iff.mp empty]
  rintro c ⟨⟩
  exact other

mutual

/-- A written value is cut into the tokens of the value as it is read back. -/
theorem lexes_compact : (v : Value) → v.InWords → Lexes v.compact.toList v.reread.tokens
  | .null, _ => lexes_null
  | .boolean b, _ => lexes_boolean b
  | .natural n, small => lexes_number fun rest ends => number?_natural small ends
  | .number x, _ => by
    rw [reread]
    split_ifs with finite
    · exact lexes_number fun rest ends => number?_json finite ends
    · rw [compact, json_of_special (Bool.not_eq_true _ ▸ finite)]
      exact lexes_null
  | .text s, _ => lexes_text s
  | .array elements, words => by
    rw [compact, reread, tokens]
    exact lexes_between rfl rfl (fun rest => rfl) (lexes_elements elements words)
  | .object members, words => by
    rw [compact, reread, tokens]
    exact lexes_between rfl rfl (fun rest => rfl) (lexes_members members words)

theorem lexes_elements : (vs : List Value) → AllInWords vs →
    Lexes ((",".intercalate (compactAll vs)).toList ++ [']']) (elementTokens (rereadAll vs))
  | [], _ => lexes_mark rfl fun rest => rfl
  | v :: rest, words => by
    have item := lexes_item (compactAll rest).isEmpty (lexes_compact v words.1)
      (lexes_elements rest words.2) (stops_closing rfl (compactAll rest))
    rw [compactAll, toList_intercalate_cons, rereadAll, elementTokens, List.append_assoc,
      List.append_assoc, List.append_assoc, isEmpty_rereadAll, ← isEmpty_compactAll]
    exact item

theorem lexes_members : (ms : List (String × Value)) → MembersInWords ms →
    Lexes ((",".intercalate (compactMembers ms)).toList ++ ['\x7d'])
      (memberTokens (rereadMembers ms))
  | [], _ => lexes_mark rfl fun rest => rfl
  | (name, v) :: rest, words => by
    have item := lexes_item (compactMembers rest).isEmpty
      (lexes_member name (lexes_compact v words.1)) (lexes_members rest words.2)
      (stops_closing rfl (compactMembers rest))
    rw [compactMembers, toList_intercalate_cons, rereadMembers, memberTokens, List.append_assoc,
      List.append_assoc, List.append_assoc, isEmpty_rereadMembers, ← isEmpty_compactMembers]
    exact item

end

end MotionRace.Json
