import GatewayStore.Proofs.Json.Words

/-
  Printed JSON is read back. The reader gives what was printed with the members of objects put in
  order, the last of equal names kept, and with floats as their text is read (`reread`). This needs
  that every number can be read and that not too many containers are open (`parse?_render`).
-/

namespace GatewayStore.Json

/-- A number as it is read from its text. -/
def Number.reread : Number → Number
  | .integer i fits => .integer i fits
  | .float x =>
    match Token.scanOne (floatLayout.write x) with
    | some (.number n, _) => n
    | _ => .float x

/-- The text of a number is one word. -/
structure Number.Readable (n : Number) : Prop where
  nonempty : n.text ≠ []
  nonblank : ∀ c ∈ n.text.head?, Token.isBlank c = false
  scanned : ∀ rest, Token.StopsNumber rest →
    Token.scanOne (n.text ++ rest) = some (.number n.reread, rest)

/-- Every number in a value is of some kind. -/
def EachNumber (p : Number → Prop) : Json → Prop
  | .number n => p n
  | .array elements => eachElement elements
  | .object members => eachMember members
  | _ => True
where
  eachElement : List Json → Prop
    | [] => True
    | v :: rest => v.EachNumber p ∧ eachElement rest
  eachMember : List (String × Json) → Prop
    | [] => True
    | (_, v) :: rest => v.EachNumber p ∧ eachMember rest

/-- A value as it is read from its text. -/
def reread : Json → Json
  | .number n => .number n.reread
  | .array elements => .array (rereadElements elements)
  | .object members => .object (Assoc.ofPairs (rereadMembers members))
  | v => v
where
  rereadElements : List Json → List Json
    | [] => []
    | v :: rest => v.reread :: rereadElements rest
  rereadMembers : List (String × Json) → List (String × Json)
    | [] => []
    | (k, v) :: rest => (k, v.reread) :: rereadMembers rest

mutual

/-- The tokens in the text of a value. -/
def tokens : Json → List Token
  | .null => [.null]
  | .bool b => [.bool b]
  | .number n => [.number n.reread]
  | .string s => [.string s]
  | .array [] => [.openArray, .closeArray]
  | .array (v :: rest) => .openArray :: (tokens v ++ tokenElements rest)
  | .object [] => [.openObject, .closeObject]
  | .object ((k, v) :: rest) =>
    .openObject :: .string k :: .colon :: (tokens v ++ tokenMembers rest)

/-- The tokens of the elements after the first. -/
def tokenElements : List Json → List Token
  | [] => [.closeArray]
  | v :: rest => .comma :: (tokens v ++ tokenElements rest)

/-- The tokens of the members after the first. -/
def tokenMembers : List (String × Json) → List Token
  | [] => [.closeObject]
  | (k, v) :: rest => .comma :: .string k :: .colon :: (tokens v ++ tokenMembers rest)

end

/-! ## From text to tokens -/

namespace Token

theorem Scans.quote {s : String} {rest : List Char} {ts : List Token} (h : Scans rest ts) :
    Scans (quote s ++ rest) (.string s :: ts) :=
  .word (by simp [Json.quote]) (by simp [Json.quote, isBlank]) (scanOne_quote s rest) h

/-- A mark of one character. -/
theorem Scans.mark {c : Char} {t : Token} {rest : List Char} {ts : List Token}
    (hblank : isBlank c = false) (hone : scanOne (c :: rest) = some (t, rest))
    (h : Scans rest ts) : Scans (c :: rest) (t :: ts) :=
  .word (w := [c]) (by simp) (by simpa using hblank) hone h

theorem stopsNumber_cons {c : Char} {s : List Char} (h : c = ',' ∨ c = ']' ∨ c = '\x7d') :
    StopsNumber (c :: s) := by
  rintro d hd
  cases hd
  rcases h with rfl | rfl | rfl <;> decide

theorem stopsNumber_textElements (l : List Json) (s : List Char) :
    StopsNumber (textElements l ++ s) := by
  cases l with
  | nil => exact stopsNumber_cons (.inr (.inl rfl))
  | cons v l => exact stopsNumber_cons (.inl rfl)

theorem stopsNumber_textMembers (l : List (String × Json)) (s : List Char) :
    StopsNumber (textMembers l ++ s) := by
  cases l with
  | nil => exact stopsNumber_cons (.inr (.inr rfl))
  | cons e l => exact stopsNumber_cons (.inl rfl)

end Token

open Token

mutual

theorem scans_text : (v : Json) → v.EachNumber Number.Readable → {s : List Char} →
    {ts : List Token} → StopsNumber s → Scans s ts → Scans (v.text ++ s) (v.tokens ++ ts)
  | .null, _, _, _, _, h => .word (by simp [text]) (by simp [text, isBlank]) (by simp [text, scanOne]) h
  | .bool true, _, _, _, _, h =>
    .word (by simp [text]) (by simp [text, isBlank]) (by simp [text, scanOne]) h
  | .bool false, _, _, _, _, h =>
    .word (by simp [text]) (by simp [text, isBlank]) (by simp [text, scanOne]) h
  | .number n, hn, s, _, hs, h => by
    simp only [EachNumber] at hn
    exact .word hn.nonempty hn.nonblank (hn.scanned s hs) h
  | .string _, _, _, _, _, h => h.quote
  | .array [], _, s, ts, _, h => .mark rfl rfl (.mark rfl rfl h)
  | .array (v :: rest), hn, s, ts, _, h => by
    simp only [EachNumber, EachNumber.eachElement] at hn
    have hrest := scans_textElements rest hn.2 h
    have hv := scans_text v hn.1 (stopsNumber_textElements rest s) hrest
    simp only [text, tokens, List.cons_append, List.append_assoc]
    exact .mark rfl rfl hv
  | .object [], _, _, _, _, h => .mark rfl rfl (.mark rfl rfl h)
  | .object ((k, v) :: rest), hn, s, ts, _, h => by
    simp only [EachNumber, EachNumber.eachMember] at hn
    have hrest := scans_textMembers rest hn.2 h
    have hv := scans_text v hn.1 (stopsNumber_textMembers rest s) hrest
    simp only [text, tokens, List.cons_append, List.append_assoc]
    exact .mark rfl rfl (Scans.quote (.mark rfl rfl hv))

theorem scans_textElements : (l : List Json) → EachNumber.eachElement Number.Readable l →
    {s : List Char} → {ts : List Token} → Scans s ts →
    Scans (textElements l ++ s) (tokenElements l ++ ts)
  | [], _, _, _, h => .mark rfl rfl h
  | v :: rest, hn, s, ts, h => by
    simp only [EachNumber.eachElement] at hn
    have hrest := scans_textElements rest hn.2 h
    have hv := scans_text v hn.1 (stopsNumber_textElements rest s) hrest
    simp only [textElements, tokenElements, List.cons_append, List.append_assoc]
    exact .mark rfl rfl hv

theorem scans_textMembers : (l : List (String × Json)) → EachNumber.eachMember Number.Readable l →
    {s : List Char} → {ts : List Token} → Scans s ts →
    Scans (textMembers l ++ s) (tokenMembers l ++ ts)
  | [], _, _, _, h => .mark rfl rfl h
  | (k, v) :: rest, hn, s, ts, h => by
    simp only [EachNumber.eachMember] at hn
    have hrest := scans_textMembers rest hn.2 h
    have hv := scans_text v hn.1 (stopsNumber_textMembers rest s) hrest
    simp only [textMembers, tokenMembers, List.cons_append, List.append_assoc]
    exact .mark rfl rfl (Scans.quote (.mark rfl rfl hv))

end

/-! ## From tokens to values -/

namespace Reading

theorem run_cons (r : Reading) (t : Token) (ts : List Token) :
    r.run (t :: ts) = (r.step t).bind fun r => r.run ts := rfl

/-- The first element of an array is read like any value. -/
theorem run_firstElement (v : Json) (around : List Frame) (ts : List Token) :
    run (.firstElement around) (v.tokens ++ ts) =
      run (.value (.array [] :: around)) (v.tokens ++ ts) := by
  cases v with
  | array l => cases l <;> rfl
  | object l => cases l <;> rfl
  | _ => rfl

theorem step_openArray {around : List Frame} (h : around.length < maxDepth) :
    step (.value around) .openArray = some (.firstElement around) := by
  simp [step, startValue, h]

theorem step_openObject {around : List Frame} (h : around.length < maxDepth) :
    step (.value around) .openObject = some (.firstName around) := by
  simp [step, startValue, h]

mutual

theorem run_tokens : (v : Json) → (around : List Frame) → (ts : List Token) →
    v.depth + around.length ≤ maxDepth →
    run (.value around) (v.tokens ++ ts) = run (deliver v.reread around) ts
  | .null, _, _, _ => rfl
  | .bool _, _, _, _ => rfl
  | .number _, _, _, _ => rfl
  | .string _, _, _, _ => rfl
  | .array [], around, ts, h => by
    simp only [depth, depth.depths] at h
    simp only [tokens, List.cons_append, run_cons, step_openArray (show around.length < maxDepth by
      omega)]
    rfl
  | .array (v :: rest), around, ts, h => by
    simp only [depth, depth.depths] at h
    have hv := run_tokens v (.array [] :: around) (tokenElements rest ++ ts) (by
      rw [List.length_cons]
      omega)
    have hrest := run_tokenElements rest around [v.reread] ts (by omega)
    simp only [tokens, List.cons_append, List.append_assoc, run_cons,
      step_openArray (show around.length < maxDepth by omega), Option.bind_some]
    rw [run_firstElement, hv]
    exact hrest
  | .object [], around, ts, h => by
    simp only [depth, depth.memberDepths] at h
    simp only [tokens, List.cons_append, run_cons, step_openObject (show around.length < maxDepth by
      omega)]
    rfl
  | .object ((k, v) :: rest), around, ts, h => by
    simp only [depth, depth.memberDepths] at h
    have hv := run_tokens v (.object [] k :: around) (tokenMembers rest ++ ts) (by
      rw [List.length_cons]
      omega)
    have hrest := run_tokenMembers rest around (Assoc.insert k v.reread []) ts (by omega)
    simp only [tokens, List.cons_append, List.append_assoc, run_cons,
      step_openObject (show around.length < maxDepth by omega), Option.bind_some]
    exact hv.trans hrest

theorem run_tokenElements : (l : List Json) → (around : List Frame) → (elements : List Json) →
    (ts : List Token) → depth.depths l + around.length < maxDepth →
    run (.afterElement elements around) (tokenElements l ++ ts) =
      run (deliver (.array (elements.reverse ++ reread.rereadElements l)) around) ts
  | [], around, elements, ts, _ => by
    simp only [tokenElements, reread.rereadElements, List.append_nil]
    rfl
  | v :: rest, around, elements, ts, h => by
    simp only [depth.depths] at h
    have hv := run_tokens v (.array elements :: around) (tokenElements rest ++ ts) (by
      rw [List.length_cons]
      omega)
    have hrest := run_tokenElements rest around (v.reread :: elements) ts (by omega)
    rw [List.reverse_cons, List.append_assoc] at hrest
    simp only [tokenElements, List.cons_append, List.append_assoc, run_cons]
    exact hv.trans hrest

theorem run_tokenMembers : (l : List (String × Json)) → (around : List Frame) →
    (members : List (String × Json)) → (ts : List Token) →
    depth.memberDepths l + around.length < maxDepth →
    run (.afterMember members around) (tokenMembers l ++ ts) =
      run (deliver (.object ((reread.rereadMembers l).foldl
        (fun m e => Assoc.insert e.1 e.2 m) members)) around) ts
  | [], around, members, ts, _ => rfl
  | (k, v) :: rest, around, members, ts, h => by
    simp only [depth.memberDepths] at h
    have hv := run_tokens v (.object members k :: around) (tokenMembers rest ++ ts) (by
      rw [List.length_cons]
      omega)
    have hrest := run_tokenMembers rest around (Assoc.insert k v.reread members) ts
      (by omega)
    simp only [tokenMembers, List.cons_append, List.append_assoc, run_cons]
    exact hv.trans hrest

end

end Reading

/-- A value whose numbers can be read is read back from its text, if not too many containers are
open. -/
theorem parse?_render {v : Json} (hnumbers : v.EachNumber Number.Readable)
    (hdepth : v.depth ≤ Reading.maxDepth) : parse? v.render = some v.reread := by
  have hscan := (scans_text v hnumbers (s := []) (fun c hc => by cases hc) .done).scan_eq
  have hrun := Reading.run_tokens v [] [] hdepth
  rw [List.append_nil] at hscan
  unfold parse? render
  rw [String.toList_ofList, hscan]
  simp only [Option.bind_eq_bind, Option.bind_some, hrun]
  rfl

end GatewayStore.Json
