import TypedFlags.Json.Skip
/-!
# Reading JSON text

Strict JSON, with the first fault in the order of the text. `Reader.value depth outline` reads a
value whose arrays and objects are nested at most `depth` deep: it is defined by recursion on the
depth, and the loops over items and members take the reader for the next depth as an argument.

An `Outline` says which members a reading is for. A member that it does not name is passed over and
left out of the document, so nothing that stands there can be wrong but the syntax.

`Json.read` reads a whole text, nested at most `maxDepth` deep, and gives the document as written.
`Json.readOutline` gives the part of it that an outline names, and `Json.readValue` the value that it
stands for.
-/

set_option autoImplicit false

namespace TypedFlags.Json

/-- How deep arrays and objects may be nested in a text. -/
def maxDepth : Nat := 127

/-- The members that a reading is for: their names at each level of nesting, from the outermost on.
    Below the levels listed, it is for all members. -/
abbrev Outline := List (List String)

/-- Whether the outermost level of an outline names a member. -/
def Outline.wants : Outline → String → Bool
  | [], _ => true
  | names :: _, name => name ∈ names

/-! ## Arrays and objects -/

/-- Reads the items of an array from the first on, and the closing bracket. -/
def items (item : Reader Json) (text : List Char) : Except Stop (List Json × List Char) :=
  match _h : item.run text with
  | .error stop => .error stop
  | .ok (v, after) =>
    match _hd : dropBlanks after with
    | [] => .error (.over .endInList [])
    | c :: rest =>
      if c = ']' then .ok ([v], rest)
      else if c = ',' then
        match dropBlanks rest with
        | [] => .error (.over .endInValue [])
        | ']' :: tail => .error (.over .trailingComma (']' :: tail))
        | _ => (items item rest).map fun (vs, rest) => (v :: vs, rest)
      else .error (.over .expectedCommaOrBracket (c :: rest))
termination_by text.length
decreasing_by
  have h₁ := item.shorter _h
  have h₂ := dropBlanks_length after
  rw [_hd] at h₂
  simp at h₂; omega

/-- Reads an array, behind its opening bracket. -/
def arrayBody (item : Reader Json) (text : List Char) : Except Stop (List Json × List Char) :=
  match dropBlanks text with
  | [] => .error (.over .endInList [])
  | ']' :: rest => .ok ([], rest)
  | _ => items item text

/-- Reads a member of an object, behind the opening quote of its name. The value of a member that is
    not wanted is passed over, and there is no member then. -/
def member (wanted : String → Bool) (item : Reader Json) (text : List Char) :
    Except Stop (Option (String × Json) × List Char) := do
  let (name, rest) ← stringBody text
  match dropBlanks rest with
  | [] => .error (.over .endInObject [])
  | ':' :: rest =>
    if wanted (String.ofList name) then do
      let (v, rest) ← item.run rest
      .ok (some (String.ofList name, v), rest)
    else do
      let rest ← skipValue [] rest
      .ok (none, rest)
  | rest => .error (.over .expectedColon rest)

theorem member_shorter {wanted : String → Bool} {item : Reader Json} {text rest : List Char}
    {m : Option (String × Json)} (h : member wanted item text = .ok (m, rest)) :
    rest.length < text.length := by
  simp only [member, bind, Except.bind] at h
  cases hn : stringBody text with
  | error => simp [hn] at h
  | ok n =>
    simp only [hn] at h
    have l₁ := stringBody_shorter hn
    have l₂ := dropBlanks_length n.2
    split at h
    · cases h
    · next after he =>
      rw [he] at l₂
      simp only [List.length_cons] at l₂
      split at h
      · cases hv : item.run after with
        | error => simp [hv] at h
        | ok v =>
          simp only [hv] at h
          cases h
          have := item.shorter hv
          omega
      · cases hv : skipValue [] after with
        | error => simp [hv] at h
        | ok v =>
          simp only [hv] at h
          cases h
          have := skipValue_shorter hv
          omega
    · cases h

/-- Reads the members of an object from behind the opening quote of the first name on, and the
    closing brace. -/
def members (wanted : String → Bool) (item : Reader Json) (text : List Char) :
    Except Stop (List (String × Json) × List Char) :=
  match _h : member wanted item text with
  | .error stop => .error stop
  | .ok (m, after) =>
    match _hd : dropBlanks after with
    | [] => .error (.over .endInObject [])
    | c :: rest =>
      if c = '}' then .ok (m.toList, rest)
      else if c = ',' then
        match _hr : dropBlanks rest with
        | [] => .error (.over .endInValue [])
        | '"' :: tail => (members wanted item tail).map fun (ms, rest) => (m.toList ++ ms, rest)
        | '}' :: tail => .error (.over .trailingComma ('}' :: tail))
        | other => .error (.over .keyNotString other)
      else .error (.over .expectedCommaOrBrace (c :: rest))
termination_by text.length
decreasing_by
  have h₁ := member_shorter _h
  have h₂ := dropBlanks_length after
  have h₃ := dropBlanks_length rest
  rw [_hd] at h₂
  rw [_hr] at h₃
  simp at h₂ h₃; omega

/-- Reads an object, behind its opening brace. -/
def objectBody (wanted : String → Bool) (item : Reader Json) (text : List Char) :
    Except Stop (List (String × Json) × List Char) :=
  match dropBlanks text with
  | [] => .error (.over .endInObject [])
  | '}' :: rest => .ok ([], rest)
  | '"' :: rest => members wanted item rest
  | other => .error (.over .keyNotString other)

theorem items_length {item : Reader Json} {text rest : List Char} {vs : List Json}
    (h : items item text = .ok (vs, rest)) : rest.length ≤ text.length := by
  fun_induction items item text generalizing vs rest with
  | case1 | case2 | case4 | case5 | case7 => cases h
  | case3 _ v after hv close hd =>
    cases h
    have h₁ := item.shorter hv
    have h₂ := dropBlanks_length after
    rw [hd] at h₂
    simp at h₂; omega
  | case6 _ v after hv tail _ _ hd _ ih =>
    cases ht : items item tail with
    | error => simp [ht, Except.map] at h
    | ok p =>
      simp only [ht, Except.map] at h
      cases h
      have h₁ := item.shorter hv
      have h₂ := dropBlanks_length after
      have h₃ := ih ht
      rw [hd] at h₂
      simp at h₂; omega

theorem members_length {wanted : String → Bool} {item : Reader Json} {text rest : List Char}
    {ms : List (String × Json)} (h : members wanted item text = .ok (ms, rest)) :
    rest.length ≤ text.length := by
  fun_induction members wanted item text generalizing ms rest with
  | case1 | case2 | case4 | case6 | case7 | case8 => cases h
  | case3 _ m after hm close hd =>
    cases h
    have h₁ := member_shorter hm
    have h₂ := dropBlanks_length after
    rw [hd] at h₂
    simp at h₂; omega
  | case5 _ m after hm next tail hn hd _ ih =>
    cases ht : members wanted item tail with
    | error => simp [ht, Except.map] at h
    | ok p =>
      simp only [ht, Except.map] at h
      cases h
      have h₁ := member_shorter hm
      have h₂ := dropBlanks_length after
      have h₃ := dropBlanks_length next
      have h₄ := ih ht
      rw [hd] at h₂
      rw [hn] at h₃
      simp at h₂ h₃; omega

theorem arrayBody_length {item : Reader Json} {text rest : List Char} {vs : List Json}
    (h : arrayBody item text = .ok (vs, rest)) : rest.length ≤ text.length := by
  have hl := dropBlanks_length text
  unfold arrayBody at h
  split at h
  · cases h
  · next hd =>
    cases h
    rw [hd] at hl
    simp at hl; omega
  · exact items_length h

theorem objectBody_length {wanted : String → Bool} {item : Reader Json} {text rest : List Char}
    {ms : List (String × Json)} (h : objectBody wanted item text = .ok (ms, rest)) :
    rest.length ≤ text.length := by
  have hl := dropBlanks_length text
  unfold objectBody at h
  split at h
  · cases h
  · next hd =>
    cases h
    rw [hd] at hl
    simp at hl; omega
  · next hd =>
    rw [hd] at hl
    have := members_length h
    simp at hl; omega
  · cases h

/-! ## Values -/

/-- Reads a value; of an object, the members that are wanted. The values inside it are read by
    `nested`, and without one there may be none inside. -/
def valueText (wanted : String → Bool) (nested : Option (Reader Json)) (text : List Char) :
    Except Stop (Json × List Char) :=
  match dropBlanks text with
  | [] => .error (.over .endInValue [])
  | c :: rest =>
    if c = 'n' then (word ['u', 'l', 'l'] rest).map (.null, ·)
    else if c = 't' then (word ['r', 'u', 'e'] rest).map (.bool true, ·)
    else if c = 'f' then (word ['a', 'l', 's', 'e'] rest).map (.bool false, ·)
    else if c = '-' then (readNumber true rest).map fun (n, rest) => (.number n, rest)
    else if c.isDigit then (readNumber false (c :: rest)).map fun (n, rest) => (.number n, rest)
    else if c = '"' then
      (stringBody rest).map fun (cs, rest) => (.string (String.ofList cs), rest)
    else if c = '[' then
      match nested with
      | none => .error (.over .tooDeep (c :: rest))
      | some item => (arrayBody item rest).map fun (vs, rest) => (.array vs, rest)
    else if c = '{' then
      match nested with
      | none => .error (.over .tooDeep (c :: rest))
      | some item => (objectBody wanted item rest).map fun (ms, rest) => (.object ms, rest)
    else .error (.over .expectedValue (c :: rest))

/-- What is left by a reading that succeeded is what is left by the mapped reading. -/
theorem map_rest {α β : Type} {x : Except Stop (α × List Char)} {f : α → β} {b : β}
    {rest : List Char} (h : (x.map fun (a, rest) => (f a, rest)) = .ok (b, rest)) :
    ∃ a, x = .ok (a, rest) ∧ f a = b := by
  cases x with
  | error => cases h
  | ok p => cases h; exact ⟨p.1, rfl, rfl⟩

theorem valueText_shorter {wanted : String → Bool} {nested : Option (Reader Json)}
    {text rest : List Char} {v : Json} (h : valueText wanted nested text = .ok (v, rest)) :
    rest.length < text.length := by
  have hl := dropBlanks_length text
  unfold valueText at h
  split at h
  · cases h
  · next c tail hd =>
    rw [hd] at hl
    simp only [List.length_cons] at hl
    have hw {expected : List Char} {u : Json}
        (h : (word expected tail).map (u, ·) = .ok (v, rest)) : rest.length < text.length := by
      cases hw : word expected tail with
      | error => simp [hw, Except.map] at h
      | ok r =>
        simp only [hw, Except.map] at h
        cases h
        have := word_length hw
        omega
    split at h
    · exact hw h
    · split at h
      · exact hw h
      · split at h
        · exact hw h
        · split at h
          · obtain ⟨_, hx, _⟩ := map_rest h
            have := readNumber_shorter hx
            omega
          · split at h
            · obtain ⟨_, hx, _⟩ := map_rest h
              have := readNumber_shorter hx
              simp at this; omega
            · split at h
              · obtain ⟨_, hx, _⟩ := map_rest (f := fun cs => Json.string (String.ofList cs)) h
                have := stringBody_shorter hx
                omega
              · split at h
                · split at h
                  · cases h
                  · obtain ⟨_, hx, _⟩ := map_rest h
                    have := arrayBody_length hx
                    omega
                · split at h
                  · split at h
                    · cases h
                    · obtain ⟨_, hx, _⟩ := map_rest h
                      have := objectBody_length hx
                      omega
                  · cases h

/-- The reader for values nested at most `depth` deep, of which an outline says what is wanted. -/
def Reader.value : (depth : Nat) → (outline : Outline) → Reader Json
  | 0, outline => ⟨valueText outline.wants none, valueText_shorter⟩
  | depth + 1, outline =>
    ⟨valueText outline.wants (some (value depth outline.tail)), valueText_shorter⟩

/-! ## Whole texts -/

/-- Reads a whole text as one document nested at most `depth` deep. -/
def readWithin (depth : Nat) (outline : Outline) (text : List Char) : Except Stop Json := do
  let (v, rest) ← (Reader.value depth outline).run text
  match dropBlanks rest with
  | [] => .ok v
  | rest => .error (.over .trailingCharacters rest)

/-- The part of the document in a text that an outline names, with members as written. -/
def readOutline (outline : Outline) (text : String) : Except Error Json :=
  (readWithin maxDepth outline text.toList).mapError (·.locate text.toList)

/-- The document that a text writes, with members as written. -/
def read (text : String) : Except Error Json := readOutline [] text

/-- The value that a text writes. -/
def readValue (text : String) : Except Error Json :=
  (read text).map settle

end TypedFlags.Json
