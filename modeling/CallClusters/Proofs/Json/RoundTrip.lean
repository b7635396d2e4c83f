import CallClusters.Json.Parser
import CallClusters.Proofs.Json.Text

/-! A value is read back from every text that spells it, and so from what is printed. The tokens of
a value, whatever stands behind them, are parsed into that value. -/

namespace CallClusters.Json

/-- Items do not start with a closing bracket. -/
theorem itemTokens_ne_closeBracket (item : Json) (items : List Json) (ts rest : List Token) :
    itemTokens (item :: items) ++ ts ≠ .closeBracket :: rest := by
  cases items <;> cases item <;> simp [itemTokens, tokens]

/-- Items do not read as a key, since no colon follows one. -/
theorem itemTokens_ne_key (item : Json) (items : List Json) (rest : List Token) (key : JsonString)
    (ts : List Token) :
    itemTokens (item :: items) ++ .closeBracket :: rest ≠ .string key :: .colon :: ts := by
  cases items <;> cases item <;> simp [itemTokens, tokens]

theorem parseValue_openBracket (stack : List Frame) {ts : List Token}
    (h : ∀ rest, ts ≠ .closeBracket :: rest) :
    parseValue stack (.openBracket :: ts) = parseValue (.items [] :: stack) ts := by
  rw [parseValue]
  exact h

theorem parseAfter_comma (stack : List Frame) (done : List Json) (v : Json) {ts : List Token}
    (h : ∀ key rest, ts ≠ .string key :: .colon :: rest) :
    parseAfter (.items done :: stack) v (.comma :: ts) =
      parseValue (.items (v :: done) :: stack) ts := by
  rw [parseAfter]
  exact h

theorem fieldTokens_cons (key : JsonString) (value : Json) (fields : List (JsonString × Json))
    (rest : List Token) : ∃ ts,
      fieldTokens ((key, value) :: fields) ++ rest = .string key :: .colon :: ts := by
  cases fields with
  | nil => exact ⟨_, rfl⟩
  | cons field fields => exact ⟨_, rfl⟩

mutual

theorem parseValue_tokens (stack : List Frame) (rest : List Token) :
    (v : Json) → parseValue stack (v.tokens ++ rest) = parseAfter stack v rest
  | .null => by simp only [tokens, List.cons_append, List.nil_append, parseValue]
  | .bool b => by simp only [tokens, List.cons_append, List.nil_append, parseValue]
  | .number n => by simp only [tokens, List.cons_append, List.nil_append, parseValue]
  | .string s => by simp only [tokens, List.cons_append, List.nil_append, parseValue]
  | .array [] => by
    simp only [tokens, itemTokens, List.cons_append, List.nil_append, parseValue]
  | .array (item :: items) => by
    have h := parseValue_items stack [] rest (item :: items) (List.cons_ne_nil _ _)
    simp only [tokens, List.cons_append, List.append_assoc, List.nil_append]
    rw [parseValue_openBracket _ (itemTokens_ne_closeBracket item items _), h]
    rfl
  | .object [] => by
    simp only [tokens, fieldTokens, List.cons_append, List.nil_append, parseValue]
  | .object ((key, value) :: fields) => by
    obtain ⟨ts, hts⟩ := fieldTokens_cons key value fields (.closeBrace :: rest)
    have h := parseValue_fields stack [] key ts rest ((key, value) :: fields) hts
    simp only [tokens, List.cons_append, List.append_assoc, List.nil_append]
    rw [hts, parseValue, h]
    rfl

/-- The items that are still to come in an open array. -/
theorem parseValue_items (stack : List Frame) (done : List Json) (rest : List Token) :
    (items : List Json) → items ≠ [] →
      parseValue (.items done :: stack) (itemTokens items ++ .closeBracket :: rest) =
        parseAfter stack (.array (done.reverse ++ items)) rest
  | [], h => absurd rfl h
  | [item], _ => by
    rw [itemTokens, parseValue_tokens _ _ item, parseAfter, List.reverse_cons]
  | item :: next :: items, _ => by
    have h := parseValue_items stack (item :: done) rest (next :: items) (List.cons_ne_nil _ _)
    simp only [itemTokens, List.append_assoc, List.cons_append]
    rw [parseValue_tokens _ _ item, parseAfter_comma _ _ _ (itemTokens_ne_key next items rest), h]
    simp

/-- The fields that are still to come in an open object, of which the first key has been read. -/
theorem parseValue_fields (stack : List Frame) (done : List (JsonString × Json))
    (first : JsonString) (ts rest : List Token) :
    (fields : List (JsonString × Json)) →
      fieldTokens fields ++ .closeBrace :: rest = .string first :: .colon :: ts →
        parseValue (.fields done first :: stack) ts =
          parseAfter stack (.object (done.reverse ++ fields)) rest
  | [], h => by cases h
  | [(key, value)], h => by
    simp only [fieldTokens, List.cons_append, List.cons.injEq, Token.string.injEq, true_and] at h
    obtain ⟨rfl, rfl⟩ := h
    rw [parseValue_tokens _ _ value, parseAfter, List.reverse_cons]
  | (key, value) :: (nextKey, next) :: fields, h => by
    obtain ⟨ts', hts⟩ := fieldTokens_cons nextKey next fields (.closeBrace :: rest)
    have ih := parseValue_fields stack ((key, value) :: done) nextKey ts' rest
      ((nextKey, next) :: fields) hts
    simp only [fieldTokens, List.append_assoc, List.cons_append, List.cons.injEq,
      Token.string.injEq, true_and] at h
    obtain ⟨rfl, rfl⟩ := h
    rw [parseValue_tokens _ _ value, hts, parseAfter, ih]
    simp

end

/-- A text that spells a value is read as this value. -/
theorem parse?_of_spells {v : Json} {text : String} (h : Padded (Spells v) text.toList) :
    parse? text = some v := by
  have hparse := parseValue_tokens [] [] v
  rw [List.append_nil] at hparse
  rw [parse?, lex_spells h, Option.bind_some, hparse, parseAfter]
  rfl

/-- What is printed with blanks between tokens is read back. -/
theorem parse?_render {v : Json} (hv : v.Proper) {style : Style} (hstyle : style.Blank) :
    parse? (String.ofList (v.render style 0)) = some v :=
  parse?_of_spells (by rw [String.toList_ofList]; exact padded_render hstyle hv 0)

end CallClusters.Json
