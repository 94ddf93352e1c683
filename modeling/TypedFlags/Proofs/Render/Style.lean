import TypedFlags.Proofs.Render.Term
import TypedFlags.Proofs.Schema.Tree
import TypedFlags.Render.Declaration
import TypedFlags.Render.Validator
/-!
# The two styles of schemas

A type declaration is the text of a term, and so is a validator expression
(`ObjectType.toList_declaration`, `ObjectType.toList_validator`). The term is the same tree for both,
the schema's own (`ObjectType.term`), except that the two array flags that can meet at a property
become arrays in arrays, and that a reference is a leaf. **What a text leaves out of a schema is
therefore left out at its leaves**: a declaration has one word for all numbers (`declarationLeaves`),
and an expression lets references accept anything (`validatorLeaves`).

Both styles are lawful. In declarations the one leaf that could go on as something else is a type
called `Array`; in expressions it is the number, which `.int()` would make an integer.
-/

set_option autoImplicit false

namespace TypedFlags.Render

/-! ## Scalars in expressions -/

/-- What an expression asks of a value that is neither an array nor a record. -/
inductive Scalar where
  | boolean
  | number
  | integer
  | string
  | never
  | any
  deriving DecidableEq

/-- The spelling of a scalar. -/
def Scalar.text : Scalar → List Char
  | boolean => ['z', '.', 'b', 'o', 'o', 'l', 'e', 'a', 'n', '(', ')']
  | number => ['z', '.', 'n', 'u', 'm', 'b', 'e', 'r', '(', ')']
  | integer => ['z', '.', 'n', 'u', 'm', 'b', 'e', 'r', '(', ')', '.', 'i', 'n', 't', '(', ')']
  | string => ['z', '.', 's', 't', 'r', 'i', 'n', 'g', '(', ')']
  | never => ['z', '.', 'n', 'e', 'v', 'e', 'r', '(', ')']
  | any => ['z', '.', 'a', 'n', 'y', '(', ')']

/-- The leaves that a style spells for the leaves of a schema. -/
structure Leaves (α : Type) where
  primitive : Schema.Primitive → α
  reference : String → α

/-- A declaration has words for its leaves; a reference is its name. -/
def declarationLeaves : Leaves String where
  primitive := Schema.Primitive.declaration
  reference := id

/-- The scalar that a primitive kind is. Floats are numbers like all others. -/
def Scalar.ofPrimitive : Schema.Primitive → Scalar
  | .boolean => boolean
  | .integer => integer
  | .float | .number => number
  | .string => string
  | .unrecognized => never

/-- In an expression a reference accepts anything. -/
def validatorLeaves : Leaves Scalar where
  primitive := Scalar.ofPrimitive
  reference _ := .any

/-! ## Styles -/

/-- The style of type declarations. An optional field has its mark behind its name. -/
def declarationStyle : Style String where
  leaf word := word.toList
  openArray := "Array<".toList
  closeArray := ">".toList
  openRecord := "\x7b".toList
  closeRecord := "\x7d".toList
  separator := "; ".toList
  mark isOptional := if isOptional then "?: ".toList else ": ".toList
  tail _ := []

/-- The style of validator expressions. An optional field has its mark behind its type. -/
def validatorStyle : Style Scalar where
  leaf := Scalar.text
  openArray := ['z', '.', 'a', 'r', 'r', 'a', 'y', '(']
  closeArray := [')']
  openRecord := ['z', '.', 'o', 'b', 'j', 'e', 'c', 't', '(', '\x7b']
  closeRecord := ['\x7d', ')']
  separator := [',', ' ']
  mark _ := [':', ' ']
  tail isOptional := if isOptional then ['.', 'o', 'p', 't', 'i', 'o', 'n', 'a', 'l', '(', ')'] else []

/-- A leaf of a declaration is a word. -/
def IsWord (word : String) : Prop := IsWordText word.toList

/-- Behind a type in a declaration no word goes on and no argument opens. -/
def EndsType (text : List Char) : Prop := NoWord text ∧ text.head? ≠ some '<'

/-- Behind an expression no call of `.int` follows. -/
def EndsExpression (text : List Char) : Prop := ∀ rest, text ≠ '.' :: 'i' :: rest

theorem endsType_nil : EndsType [] := by simp [EndsType, NoWord]

theorem endsExpression_nil : EndsExpression [] := by simp [EndsExpression]

theorem endsType_cons {c : Char} (hc : Schema.isWordPart c = false) (hlt : c ≠ '<')
    (rest : List Char) : EndsType (c :: rest) := by
  refine ⟨?_, by simpa using hlt⟩
  intro d hd
  cases hd
  exact hc

theorem isWordText_array : IsWordText "Array".toList :=
  ⟨'A', ['r', 'r', 'a', 'y'], rfl, by decide, List.all_eq_true.1 (by decide)⟩

theorem declarationStyle_lawful : declarationStyle.Lawful IsWord EndsType where
  leaf_inj ha hb hr hs h := by
    obtain ⟨hw, hrest⟩ := word_append_inj ha hb hr.1 hs.1 h
    exact ⟨String.toList_inj.1 hw, hrest⟩
  leaf_ne_array {a r s} ha hr h := by
    have hbehind : NoWord ('<' :: s) := (by rintro c ⟨⟩; decide)
    obtain ⟨-, hrest⟩ := word_append_inj ha isWordText_array hr.1 hbehind h
    exact hr.2 (by rw [hrest]; rfl)
  leaf_ne_record {a r s} ha _ h := by
    obtain ⟨c, cs, hcs, hc, -⟩ := ha
    obtain rfl : c = '\x7b' := by
      have hhead : a.toList ++ r = '\x7b' :: s := h
      rw [hcs] at hhead
      exact (List.cons.inj hhead).1
    exact absurd hc (by decide)
  array_ne_record _ _ h := by cases h
  close_ne_blank _ _ h := by cases h
  separator_ne_blank _ _ h := by cases h
  mark_noWord o r := by
    intro c hc
    cases o <;> cases hc <;> decide
  mark_inj {o p r s} h := by
    cases o <;> cases p <;> simp [declarationStyle] at h ⊢ <;> exact h
  tail_inj _ _ h := ⟨rfl, h⟩
  optional_inj {o p} h _ := by
    cases o <;> cases p <;> simp [declarationStyle] at h ⊢
  ends_array r := endsType_cons (by decide) (by decide) r
  ends_tail _ r hr := by
    obtain ⟨rest, rfl | rfl⟩ := hr
    · exact endsType_cons (by decide) (by decide) rest
    · exact endsType_cons (by decide) (by decide) (' ' :: rest)

/-- The scalars with one text in front of another are the number and the integer. -/
theorem Scalar.text_append_inj {a b : Scalar} {r s : List Char} (hr : EndsExpression r)
    (hs : EndsExpression s) (h : a.text ++ r = b.text ++ s) : a = b ∧ r = s := by
  cases a <;> cases b <;> simp [Scalar.text] at h ⊢
  all_goals first
    | exact h
    | exact absurd h (hr _)
    | exact absurd h.symm (hs _)

theorem validatorStyle_lawful : validatorStyle.Lawful (fun _ => True) EndsExpression where
  leaf_inj _ _ hr hs h := Scalar.text_append_inj hr hs h
  leaf_ne_array {a r s} _ _ h := by cases a <;> simp [validatorStyle, Scalar.text] at h
  leaf_ne_record {a r s} _ _ h := by cases a <;> simp [validatorStyle, Scalar.text] at h
  array_ne_record _ _ h := by simp [validatorStyle] at h
  close_ne_blank _ _ h := by cases h
  separator_ne_blank _ _ h := by cases h
  mark_noWord o r := by
    intro c hc
    cases hc
    decide
  mark_inj h := ⟨rfl, List.append_cancel_left h⟩
  tail_inj {o p r s} hr hs h := by
    obtain ⟨r, rfl | rfl⟩ := hr <;> obtain ⟨s, rfl | rfl⟩ := hs <;> cases o <;> cases p <;>
      simp [validatorStyle] at h ⊢ <;> exact h
  optional_inj {o p} _ h := by
    cases o <;> cases p <;> simp [validatorStyle] at h ⊢
  ends_array r := by
    rintro rest ⟨⟩
  ends_tail o r hr := by
    obtain ⟨r, rfl | rfl⟩ := hr <;> cases o <;> rintro rest ⟨⟩

end TypedFlags.Render

namespace TypedFlags.Schema

open Render (Term TermField Leaves Style declarationStyle validatorStyle declarationLeaves
  validatorLeaves)

variable {α : Type}

/-! ## The terms of schemas -/

/-- A term, or that for arrays of what it says. -/
def arrayIf (isArray : Bool) (t : Term α) : Term α := if isArray then .array t else t

mutual

/-- What is rendered of an object type. -/
def ObjectType.term (leaves : Leaves α) : ObjectType → Term α
  | ⟨ps, isArray⟩ => arrayIf isArray (.record (Property.fields leaves ps))
termination_by structural o => o

/-- What is rendered of properties. -/
def Property.fields (leaves : Leaves α) : List Property → List (TermField α)
  | [] => []
  | p :: ps => p.field leaves :: Property.fields leaves ps
termination_by structural ps => ps

/-- What is rendered of a property. -/
def Property.field (leaves : Leaves α) : Property → TermField α
  | ⟨name, isOptional, isArray, type⟩ => ⟨name, isOptional, arrayIf isArray (type.term leaves)⟩
termination_by structural p => p

/-- What is rendered of the type of a property. -/
def PropertyType.term (leaves : Leaves α) : PropertyType → Term α
  | .primitive kind => .leaf (leaves.primitive kind)
  | .reference name => .leaf (leaves.reference name)
  | .object o => o.term leaves
termination_by structural t => t

end

variable {leaves : Leaves α}

theorem Property.fields_eq (ps : List Property) : fields leaves ps = ps.map (field leaves) := by
  induction ps with
  | nil => rfl
  | cons p ps ih => rw [fields, ih, List.map_cons]

theorem ObjectType.term_eq (o : ObjectType) :
    o.term leaves = arrayIf o.isArray (.record (o.properties.map (Property.field leaves))) := by
  cases o
  rw [ObjectType.term, Property.fields_eq]

theorem Property.field_eq (p : Property) : p.field leaves =
    ⟨p.name, p.isOptional, arrayIf p.isArray (p.type.term leaves)⟩ := by
  cases p
  rfl

/-! ## Texts -/

theorem Property.declarations_eq (ps : List Property) :
    declarations ps = ps.map Property.declaration := by
  induction ps with
  | nil => rfl
  | cons p ps ih => rw [declarations, ih, List.map_cons]

theorem Property.validators_eq (ps : List Property) :
    validators ps = ps.map Property.validator := by
  induction ps with
  | nil => rfl
  | cons p ps ih => rw [validators, ih, List.map_cons]

/-- The texts of the fields of a record with separators between them, if they are those of a
    style. -/
theorem toList_intercalate_fields (st : Style α) {text : Property → String} {separator : String}
    (hsep : separator.toList = st.separator) {p : Property} {ps : List Property}
    (h : ∀ q ∈ p :: ps, (text q).toList = st.field (q.field leaves)) :
    (separator.intercalate ((p :: ps).map text)).toList ++ ' ' :: st.closeRecord =
      st.field (p.field leaves) ++ st.behind (ps.map (Property.field leaves)) := by
  induction ps generalizing p with
  | nil => simp [Style.behind, h p List.mem_cons_self]
  | cons q ps ih =>
    obtain ⟨hp, hps⟩ := List.forall_mem_cons.1 h
    have hrest := ih hps
    rw [List.map_cons] at hrest
    rw [List.map_cons, List.map_cons, String.intercalate_cons_cons, List.map_cons, Style.behind,
      String.toList_append, String.toList_append, List.append_assoc, List.append_assoc, hrest, hp,
      hsep]

theorem toList_declareArray (isArray : Bool) {type : String} {t : Term String}
    (h : type.toList = declarationStyle.text t) :
    (declareArray isArray type).toList = declarationStyle.text (arrayIf isArray t) := by
  cases isArray with
  | false => exact h
  | true => simp [declareArray, arrayIf, Style.text, h, declarationStyle]

theorem ObjectType.toList_declaration_of {o : ObjectType}
    (h : ∀ p ∈ o.properties, p.type.declaration.toList =
      declarationStyle.text (p.type.term declarationLeaves)) :
    o.declaration.toList = declarationStyle.text (o.term declarationLeaves) := by
  have hfield : ∀ p ∈ o.properties,
      p.declaration.toList = declarationStyle.field (p.field declarationLeaves) := by
    intro p hp
    have htype := toList_declareArray p.isArray (h p hp)
    obtain ⟨name, isOptional, isArray, type⟩ := p
    rw [Property.declaration, Property.field_eq, Style.field, ← htype]
    cases isOptional <;> simp [declarationStyle]
  obtain ⟨ps, isArray⟩ := o
  rw [ObjectType.term_eq]
  cases ps with
  | nil => exact toList_declareArray isArray rfl
  | cons p ps =>
    have hsep : "; ".toList = declarationStyle.separator := rfl
    have hfields := toList_intercalate_fields declarationStyle hsep hfield
    rw [List.map_cons] at hfields
    rw [ObjectType.declaration, Property.declarations_eq]
    refine toList_declareArray isArray ?_
    rw [List.map_cons, Style.text, ← hfields]
    simp [declarationStyle]

theorem PropertyType.toList_declaration (t : PropertyType) :
    t.declaration.toList = declarationStyle.text (t.term declarationLeaves) := by
  induction t using PropertyType.induction_on_objects with
  | primitive kind => rfl
  | reference name => rfl
  | object o ih => exact ObjectType.toList_declaration_of ih

/-- **A type declaration is the text of a term.** -/
theorem ObjectType.toList_declaration (o : ObjectType) :
    o.declaration.toList = declarationStyle.text (o.term declarationLeaves) :=
  ObjectType.toList_declaration_of fun p _ => p.type.toList_declaration

theorem toList_validateArray (isArray : Bool) {expression : String} {t : Term Render.Scalar}
    (h : expression.toList = validatorStyle.text t) :
    (validateArray isArray expression).toList = validatorStyle.text (arrayIf isArray t) := by
  cases isArray with
  | false => exact h
  | true => simp [validateArray, arrayIf, Style.text, h, validatorStyle]

theorem Primitive.toList_validator (kind : Primitive) :
    kind.validator.toList = validatorStyle.leaf (validatorLeaves.primitive kind) := by
  cases kind <;> rfl

theorem ObjectType.toList_validator_of {o : ObjectType}
    (h : ∀ p ∈ o.properties, p.type.validator.toList =
      validatorStyle.text (p.type.term validatorLeaves)) :
    o.validator.toList = validatorStyle.text (o.term validatorLeaves) := by
  have hfield : ∀ p ∈ o.properties,
      p.validator.toList = validatorStyle.field (p.field validatorLeaves) := by
    intro p hp
    have htype := toList_validateArray p.isArray (h p hp)
    obtain ⟨name, isOptional, isArray, type⟩ := p
    rw [Property.validator, Property.field_eq, Style.field, ← htype]
    cases isOptional <;> simp [validatorStyle]
  obtain ⟨ps, isArray⟩ := o
  rw [ObjectType.term_eq]
  cases ps with
  | nil => exact toList_validateArray isArray rfl
  | cons p ps =>
    have hsep : ", ".toList = validatorStyle.separator := rfl
    have hfields := toList_intercalate_fields validatorStyle hsep hfield
    rw [List.map_cons] at hfields
    rw [ObjectType.validator, Property.validators_eq]
    refine toList_validateArray isArray ?_
    rw [List.map_cons, Style.text, ← hfields]
    simp [validatorStyle]

theorem PropertyType.toList_validator (t : PropertyType) :
    t.validator.toList = validatorStyle.text (t.term validatorLeaves) := by
  induction t using PropertyType.induction_on_objects with
  | primitive kind => exact kind.toList_validator
  | reference name =>
    rw [PropertyType.validator]
    rfl
  | object o ih => exact ObjectType.toList_validator_of ih

/-- **A validator expression is the text of a term.** -/
theorem ObjectType.toList_validator (o : ObjectType) :
    o.validator.toList = validatorStyle.text (o.term validatorLeaves) :=
  ObjectType.toList_validator_of fun p _ => p.type.toList_validator

end TypedFlags.Schema
