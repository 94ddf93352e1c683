import TypedFlags.Proofs.Schema.MaximalMunch
import TypedFlags.Proofs.Schema.NestingLimit
/-!
# What stands at the place of a fault

A fault is reported with a line and a column. In the text that was refused there is one place with
this line and column, and something starts there that the fault is about (`Fault.StandsAt`): the
character that no token starts with, the brace that opens one object too many, or the token that the
grammar refuses, if it is not the end of the text (`TypeSet.fault_positions`).

The three come from three stages of the reading, and each of them keeps places in its own way: cutting
as the number of characters read, the count of braces as the offset of a lexeme, and the grammar as the
number of tokens still to come.
-/

set_option autoImplicit false

namespace TypedFlags.Schema

/-- Munching a text to its end takes a token that starts `p` characters into the text. -/
def StartsAt (text : List Char) (p : Nat) (t : Token) : Prop :=
  ∃ ls, Munches text text ls [] ∧ ⟨p, t⟩ ∈ ls

/-- What a fault is about starts `p` characters into the text, or for a fault of the grammar the text
    ends there. -/
def Fault.StandsAt (text : List Char) (p : Nat) : Fault → Prop
  | .unexpectedCharacter c => StopsAt text p c
  | .tooDeep => StartsAt text p .leftBrace
  | .unexpected _ | .duplicateProperty | .ambiguousMain | .duplicateType =>
    (∃ t, StartsAt text p t) ∨ p = text.length

section
variable {text : List Char} {p : Nat}

theorem StopsAt.le {c : Char} (h : StopsAt text p c) : p ≤ text.length := by
  obtain ⟨read, ls, rest, hm, rfl, -⟩ := h
  rw [← hm.read_append, List.length_append]
  exact Nat.le_add_right _ _

theorem StartsAt.le {t : Token} (h : StartsAt text p t) : p ≤ text.length := by
  obtain ⟨ls, hm, hl⟩ := h
  have hwithin := hm.tiled.within _ hl
  exact Nat.le_trans (Nat.le_add_right _ _) hwithin

/-- A fault stands within the text or at its end. -/
theorem Fault.StandsAt.le {f : Fault} (h : f.StandsAt text p) : p ≤ text.length := by
  have hgrammar (h : (∃ t, StartsAt text p t) ∨ p = text.length) : p ≤ text.length := by
    obtain ⟨t, ht⟩ | rfl := h
    · exact ht.le
    · exact Nat.le_refl _
  cases f with
  | unexpectedCharacter c => exact StopsAt.le h
  | tooDeep => exact StartsAt.le h
  | unexpected _ | duplicateProperty | ambiguousMain | duplicateType => exact hgrammar h

theorem Fault.OfTokens.standsAt {f : Fault} (hf : f.OfTokens)
    (h : (∃ t, StartsAt text p t) ∨ p = text.length) : f.StandsAt text p := by
  cases f with
  | unexpectedCharacter _ | tooDeep => exact hf.elim
  | unexpected _ | duplicateProperty | ambiguousMain | duplicateType => exact h

/-- Wherever the tokens still to come begin, a token starts or the text ends. -/
theorem exists_placeOf {ls : List Lexeme} (hm : Munches text text ls []) (unread : Nat) :
    ∃ p, placeOf text ls unread = .atOffset text p ∧
      ((∃ t, StartsAt text p t) ∨ p = text.length) := by
  unfold placeOf
  cases hl : ls[ls.length - unread]? with
  | some l => exact ⟨l.offset, rfl, .inl ⟨l.token, ls, hm, List.mem_of_getElem? hl⟩⟩
  | none => exact ⟨text.length, by rw [Text.Position.atOffset, List.take_length], .inr rfl⟩

end

/-- Every fault is reported at a place where it stands. -/
theorem TypeSet.exists_standsAt {text : String} {e : Error} (h : TypeSet.ofText text = .error e) :
    ∃ p, e.fault.StandsAt text.toList p ∧ e.position = .atOffset text.toList p := by
  unfold TypeSet.ofText at h
  dsimp only at h
  split at h
  · next c p hl =>
    cases h
    exact ⟨p, lexemes_eq_error_iff.1 hl, rfl⟩
  · next ls hl =>
    have hm := lexemes_eq_ok_iff.1 hl
    split at h
    · next offset hd =>
      cases h
      obtain ⟨before, l, after, rfl, hbrace, rfl, -⟩ := tooDeep?_eq_some hd
      refine ⟨l.offset, ⟨_, hm, ?_⟩, rfl⟩
      rw [← hbrace]
      exact List.mem_append_right _ List.mem_cons_self
    · obtain ⟨⟨f, unread⟩, hf, rfl⟩ := mapError_eq_error_iff.1 h
      obtain ⟨p, hplace, hp⟩ := exists_placeOf hm unread
      exact ⟨p, (Draft.run_fault_ofTokens hf).standsAt hp, hplace⟩

/-- **Lines and columns name places.** They increase through a text, and of the places of a text that
    is refused exactly one has the line and the column that are reported: the place at which the fault
    stands. -/
theorem TypeSet.fault_positions (text : String) :
    StrictMonoOn (fun p => (Text.Position.atOffset text.toList p).rank)
        (Set.Iic text.toList.length) ∧
      ∀ e, TypeSet.ofText text = .error e → ∃ p ≤ text.toList.length,
        e.fault.StandsAt text.toList p ∧
          ∀ q ≤ text.toList.length, e.position = .atOffset text.toList q ↔ q = p := by
  refine ⟨Text.strictMonoOn_rank_atOffset _, fun e he => ?_⟩
  obtain ⟨p, hstands, hplace⟩ := TypeSet.exists_standsAt he
  refine ⟨p, hstands.le, hstands, fun q hq => ?_⟩
  rw [hplace, Text.atOffset_inj hstands.le hq, eq_comm]

/-- A character of two bytes, behind a carriage return and a line feed. -/
theorem TypeSet.fault_positions_accent :
    let text := "\x7b\r\n é: float \x7d"
    ∃ e p, TypeSet.ofText text = .error e ∧ e.position = ⟨2, 2⟩ ∧ p = 4 ∧
      e.fault.StandsAt text.toList p ∧
        ∀ q ≤ text.toList.length, e.position = .atOffset text.toList q ↔ q = p := by
  intro text
  have he : TypeSet.ofText text = .error ⟨.unexpectedCharacter 'é', ⟨2, 2⟩⟩ := by decide +kernel
  obtain ⟨p, hp, hstands, hiff⟩ := (TypeSet.fault_positions text).2 _ he
  have hplace : Text.Position.mk 2 2 = .atOffset text.toList 4 := by decide +kernel
  exact ⟨_, p, he, rfl, ((hiff 4 (by decide)).1 hplace).symm, hstands, hiff⟩

end TypedFlags.Schema
