import Mathlib.Data.List.Sort
import Mathlib.Data.String.Basic
import TypedFlags.Proofs.Flag.Order
import TypedFlags.Proofs.Json.Depth
import TypedFlags.Proofs.Json.Numbers
import TypedFlags.Proofs.Json.Settling
import TypedFlags.Proofs.Literal.Spare
/-!
# Reading back exported defaults

The exported defaults are an object literal, and reading it gives the defaults of the flags
(`Bundle.defaults_read_back`): one entry for each flag, in the order of the keys. What the default of
a flag is, as a value, is said by `Flag.DefaultValue`, without the text that is written for it.

The literal is strict but for the comma behind its last entry. So it is shown of the text without
that comma that it writes a document (`writeMembers_entries`), one member for each flag whatever the
kind, and the kinds are told apart in one place (`Flag.exists_defaultValue`). The document has no
repeated names because the keys differ, so it is its own value.
-/

set_option autoImplicit false

namespace TypedFlags

open Json (Writes WriteName WriteMembers Gap Ends IsText)

/-! ## Blanks in front -/

namespace Json

theorem WriteName.blank {c : Char} {name : String} {text rest : List Char} (hc : isBlank c = true)
    (h : WriteName name text rest) : WriteName name (c :: text) rest := by
  cases h with
  | intro hg h hcolon => exact .intro (.blank hc hg) h hcolon

theorem WriteItems.blank {c : Char} {items : List Json} {text rest : List Char}
    (hc : isBlank c = true) (h : WriteItems items text rest) : WriteItems items (c :: text) rest := by
  cases h with
  | last h hend => exact .last (.blank hc h) hend
  | more h hcomma hs => exact .more (.blank hc h) hcomma hs

end Json

/-! ## The defaults as values -/

/-- The default of a flag, as a value. That of an object flag is what its text is read as, and that of
    a tag flag are the given strings in order. -/
inductive Flag.DefaultValue : Flag → Json → Prop
  | boolean (b : Bool) : DefaultValue (.boolean b) (.bool b)
  | integer (n : Int64) (fits : Json.Fits n.toInt) :
      DefaultValue (.integer n) (.number (.integer n.toInt fits))
  | string (s : String) : DefaultValue (.string s) (.string s)
  | object {schema value : String} {v : Json} (h : Literal.read value = .ok v) :
      DefaultValue (.object schema value) v
  | enum (values : List String) (value : String) : DefaultValue (.enum values value) (.string value)
  | tag {values value sorted : List String} (hp : sorted.Perm value)
      (hs : sorted.Pairwise (· ≤ ·)) : DefaultValue (.tag values value) (.array (sorted.map .string))
  | abTest (variants : List String) (value : String) :
      DefaultValue (.abTest variants value) (.string value)

namespace Flag

/-- A value is written by a literal, before whatever may stand behind a value. -/
def WrittenBy (v : Json) (literal : String) : Prop :=
  ∀ rest, Ends rest → Writes v (literal.toList ++ rest) rest

theorem writtenBy_text {v : Json} (h : Json.Printable v) : WrittenBy v v.text := by
  intro rest hr
  rw [Json.text, String.toList_ofList]
  exact Json.writes_compact v h rest hr

theorem fits_toInt (n : Int64) : Json.Fits n.toInt := by
  have hlow := n.le_toInt
  have hhigh := n.toInt_lt
  constructor <;> omega

theorem toString_integer (n : Int) (fits : Json.Fits n) :
    toString n = (Json.number (.integer n fits)).text := by
  have hcompact : (Json.number (.integer n fits)).compact =
      Json.signText (decide (n < 0)) ++ Nat.toDigits 10 n.natAbs := by
    rw [Json.compact, Json.compact_integer]
  rw [← String.toList_inj, Json.text, String.toList_ofList, hcompact]
  cases n with
  | ofNat m => exact (congrArg _ Nat.repr_eq_ofList_toDigits).trans String.toList_ofList
  | negSucc m =>
    have hrepr : toString (Int.negSucc m) = "-" ++ Nat.repr (m + 1) := rfl
    simp [hrepr, Nat.repr_eq_ofList_toDigits, Json.signText, Int.negSucc_lt_zero]

theorem toList_quote (s : String) : (quote s).toList = Json.quoted s := String.toList_ofList

theorem writeItems_strings (s : String) (ss : List String) (rest : List Char) :
    Json.WriteItems ((s :: ss).map .string)
      ((", ".intercalate ((s :: ss).map quote)).toList ++ ']' :: rest) rest := by
  induction ss generalizing s with
  | nil =>
    simp only [List.map_cons, List.map_nil, String.intercalate_singleton, toList_quote]
    exact .last (Json.writes_quoted s _) (.none _)
  | cons t ss ih =>
    have hs := Json.writes_quoted s (',' :: ' ' ::
      ((", ".intercalate ((t :: ss).map quote)).toList ++ ']' :: rest))
    have hall := Json.WriteItems.more hs (.none _) (.blank rfl (ih t))
    simpa [toList_quote] using hall

/-- A list of strings is written with a comma and a blank between them. -/
theorem writtenBy_strings (strings : List String) :
    WrittenBy (.array (strings.map .string)) ("[" ++ ", ".intercalate (strings.map quote) ++ "]") := by
  intro rest _
  cases strings with
  | nil => exact .emptyArray (.none _)
  | cons s ss =>
    have h := Writes.array (writeItems_strings s ss rest)
    simpa using h

/-- The default of an object flag in order can be read. -/
theorem read_of_check {schema value : String} (h : (object schema value).check = .ok ()) :
    ∃ v, Literal.read value = .ok v := by
  rw [check] at h
  split at h
  · cases h
  · next types _ =>
    rw [mapError_eq_ok_iff, Schema.TypeSet.checkLiteral] at h
    split at h
    · cases h
    · split at h
      · cases h
      · next v hv => exact ⟨v, hv⟩

theorem settled_of_read {text : String} {v : Json} (h : Literal.read text = .ok v) : v.Settled := by
  obtain ⟨doc, -, rfl⟩ := map_eq_ok_iff.1 h
  exact Json.settled_settle doc

/-- What a flag in order has as its default, and that its literal writes it. -/
theorem exists_defaultValue {flag : Flag} (h : flag.check = .ok ())
    (hf : ∀ v x, flag.DefaultValue v → v.HasFloat x → Json.ReadsBack x) :
    ∃ v, flag.DefaultValue v ∧ v.Settled ∧ WrittenBy v flag.defaultLiteral := by
  cases flag with
  | boolean b =>
    have hb := writtenBy_text (.bool b)
    cases b <;> exact ⟨_, .boolean _, rfl, hb⟩
  | integer n =>
    refine ⟨_, .integer n (fits_toInt n), rfl, ?_⟩
    rw [defaultLiteral, toString_integer _ (fits_toInt n)]
    exact writtenBy_text (.number (Json.numberText_integer _ _))
  | string s => exact ⟨_, .string s, rfl, writtenBy_text (.string s)⟩
  | object schema value =>
    obtain ⟨v, hv⟩ := read_of_check h
    refine ⟨v, .object hv, settled_of_read hv, ?_⟩
    rw [defaultLiteral, hv]
    exact writtenBy_text (Json.printable_of_readsBack v fun x => hf v x (.object hv))
  | enum values value => exact ⟨_, .enum values value, rfl, writtenBy_text (.string value)⟩
  | tag values value =>
    refine ⟨_, .tag (List.mergeSort_perm _ _) (List.pairwise_mergeSort' (· ≤ ·) value), ?_,
      writtenBy_strings _⟩
    refine Json.settled_array (List.forall_mem_map.2 fun s _ => rfl)
  | abTest variants value => exact ⟨_, .abTest variants value, rfl, writtenBy_text (.string value)⟩

end Flag

/-! ## A literal with a float -/

/-- One half. -/
def Binary64.half : Binary64 := ⟨false, 0x10000000000000, -53, by decide⟩

theorem Json.numberText_half : Json.NumberText ['0', '.', '5'] (.float .half) := by
  have hvalue : (Json.Numeral.mk ['0'] ['5'] none).value false [] = .ok (.float .half) :=
    toOption_eq_some_iff.1 (by decide +kernel)
  have hfive : Json.IsDigits ['5'] := ⟨by decide, List.forall_mem_singleton.2 (by decide)⟩
  exact .intro false .zero (.digits hfive) .none hvalue

theorem Json.readsBack_half : Json.ReadsBack .half := by
  have htext : (Json.number (.float .half)).text.toList = ['0', '.', '5'] := by decide +kernel
  have hend : Ends [] := by
    rintro c ⟨⟩
  exact Json.IsText.readValue ⟨[], by rw [htext]; exact .number numberText_half hend, .none _⟩
    (Nat.zero_le _)

/-- The literal has a bare key and a spare comma besides. -/
theorem Literal.read_half :
    Literal.read "\x7b x: 0.5, \x7d" = .ok (.object [("x", .number (.float .half))]) := by
  have hnormal : Literal.normalize "\x7b x: 0.5, \x7d".toList =
      "\x7b \"x\": 0.5 \x7d".toList := by decide +kernel
  have hend : Ends [' ', '}'] := by
    rintro c ⟨⟩
    exact .inl rfl
  have htext : IsText (.object [("x", .number (.float .half))])
      (String.ofList "\x7b \"x\": 0.5 \x7d".toList).toList :=
    ⟨[], .object (.last ((Json.writeName_quoted "x" _).blank rfl)
      (.blank rfl (.number Json.numberText_half hend)) (.blank rfl (.none _))), .none _⟩
  rw [Literal.read, hnormal]
  exact htext.readValue (by decide)

namespace Bundle

/-! ## The literal -/

/-- The entry of a flag among the defaults, without what stands behind it. -/
def entry (f : KeyedFlag) : List Char :=
  ' ' :: ' ' :: (Json.quoted f.key ++ ':' :: ' ' :: f.flag.defaultLiteral.toList)

/-- The entries of flags, with a comma and a line end between them. -/
def entries : List KeyedFlag → List Char
  | [] => []
  | [f] => entry f
  | f :: fs => entry f ++ ',' :: '\n' :: entries fs

theorem toList_defaultLine (f : KeyedFlag) :
    (defaultLine f).toList = entry f ++ [',', '\n'] := by
  simp [defaultLine, entry, Flag.toList_quote]

theorem toList_defaultLines (f : KeyedFlag) (fs : List KeyedFlag) :
    (String.join ((f :: fs).map defaultLine)).toList = entries (f :: fs) ++ [',', '\n'] := by
  induction fs generalizing f with
  | nil => simp [toList_defaultLine, entries]
  | cons g fs ih =>
    rw [List.map_cons, String.join_cons, String.toList_append, ih, toList_defaultLine]
    simp [entries]

/-- A flag and a member that its entry writes. -/
structure Writing (f : KeyedFlag) (m : String × Json) : Prop where
  name : m.1 = f.key
  value : f.flag.DefaultValue m.2
  settled : m.2.Settled
  written : Flag.WrittenBy m.2 f.flag.defaultLiteral

/-- An entry writes a member. -/
theorem Writing.member {f : KeyedFlag} {m : String × Json} (h : Writing f m) {rest : List Char}
    (hr : Ends rest) : ∃ value, WriteName m.1 ('\n' :: (entry f ++ rest)) value ∧
      Writes m.2 value rest := by
  refine ⟨' ' :: (f.flag.defaultLiteral.toList ++ rest), ?_, .blank rfl (h.written rest hr)⟩
  have hname := Json.writeName_quoted f.key (' ' :: (f.flag.defaultLiteral.toList ++ rest))
  rw [h.name]
  simpa [entry] using ((hname.blank (c := ' ') rfl).blank (c := ' ') rfl).blank (c := '\n') rfl

/-- The entries of flags write their members. -/
theorem writeMembers_entries {f : KeyedFlag} {fs : List KeyedFlag} {ms : List (String × Json)}
    (h : List.Forall₂ Writing (f :: fs) ms) (rest : List Char) :
    WriteMembers ms ('\n' :: (entries (f :: fs) ++ '\n' :: '}' :: rest)) rest := by
  induction fs generalizing f ms with
  | nil =>
    cases h with
    | cons hm hs =>
      cases hs
      have hr : Ends ('\n' :: '}' :: rest) := by
        rintro c ⟨⟩
        exact .inl rfl
      obtain ⟨value, hname, hvalue⟩ := hm.member hr
      exact .last hname hvalue (.blank rfl (.none _))
  | cons g fs ih =>
    cases h with
    | @cons _ m _ ms hm hs =>
      have hr : Ends (',' :: '\n' :: (entries (g :: fs) ++ '\n' :: '}' :: rest)) :=
        Json.ends_cons (.inl rfl)
      obtain ⟨value, hname, hvalue⟩ := hm.member hr
      have hall := WriteMembers.more hname hvalue (.none _) (ih hs)
      simpa [entries] using hall

/-- Members of flags whose keys differ are those of a settled object. -/
theorem settledMembers {fs : List KeyedFlag} {ms : List (String × Json)}
    (h : List.Forall₂ Writing fs ms) (hkeys : (fs.map (·.key)).Nodup) : Json.SettledMembers ms := by
  have hnames : ms.map (·.1) = fs.map (·.key) := by
    induction h with
    | nil => rfl
    | cons hm _ ih => rw [List.map_cons, List.map_cons, hm.name, ih (List.nodup_cons.1 hkeys).2]
  refine ⟨hnames ▸ hkeys, ?_⟩
  clear hkeys hnames
  induction h with
  | nil => simp
  | cons hm _ ih => exact List.forall_mem_cons.2 ⟨hm.settled, ih⟩

/-! ## What is in it is strict -/

theorem strict_entry {f : KeyedFlag} {m : String × Json} (h : Writing f m)
    (hd : m.2.depth ≤ Json.maxDepth) : Literal.Strict (entry f) := by
  have hends : Ends [] := by
    rintro c ⟨⟩
  have hvalue : IsText m.2 f.flag.defaultLiteral.toList :=
    ⟨[], by simpa using h.written [] hends, .none _⟩
  have hkey : IsText (.string f.key) (Json.quoted f.key) :=
    ⟨[], by simpa using Json.writes_quoted f.key [], .none _⟩
  have hliteral := Literal.strict_of_isText hvalue hd
  have hname := Literal.strict_of_isText hkey (Nat.zero_le _)
  exact ((hname.append ((hliteral.cons (by decide)).cons (by decide))).cons (by decide)).cons
    (by decide)

theorem strict_entries {fs : List KeyedFlag} {ms : List (String × Json)}
    (h : List.Forall₂ Writing fs ms) (hd : ∀ m ∈ ms, m.2.depth ≤ Json.maxDepth) :
    Literal.Strict (entries fs) := by
  induction h with
  | nil => exact Literal.strict_nil
  | @cons f m fs ms hm hs ih =>
    rw [List.forall_mem_cons] at hd
    have hentry := strict_entry hm hd.1
    cases fs with
    | nil => exact hentry
    | cons g fs => exact hentry.append (((ih hd.2).cons (by decide)).cons (by decide))

/-! ## Reading it back -/

/-- The literal of the defaults. -/
def literal (fs : List KeyedFlag) : String :=
  "\x7b\n" ++ String.join (fs.map defaultLine) ++ "\x7d"

theorem defaults_eq (flags : List KeyedFlag) :
    (ofFlags flags).defaults = "export const defaults = " ++ literal (inOrder flags) ++ ";\n" := by
  rw [← String.toList_inj]
  simp [ofFlags, literal]

/-- The keys of flags in order increase if they differ. -/
theorem pairwise_inOrder {flags : List KeyedFlag} (h : ((inOrder flags).map (·.key)).Nodup) :
    (inOrder flags).Pairwise (·.key < ·.key) := by
  have hne : (inOrder flags).Pairwise fun f g => f.key ≠ g.key := List.pairwise_map.1 h
  exact ((inKeyOrder_inOrder flags).increasing.and hne).imp fun h => lt_of_le_of_ne h.1 h.2

theorem read_literal_nil : Literal.read (literal []) = .ok (.object []) := by
  have hnormal : Literal.normalize (literal []).toList = ['{', '\n', '}'] := by decide +kernel
  have htext : IsText (.object []) (String.ofList ['{', '\n', '}']).toList :=
    ⟨[], .emptyObject (.blank rfl (.none _)), .none _⟩
  rw [Literal.read, hnormal]
  exact htext.readValue (Nat.le_add_left 1 126)

theorem read_literal {fs : List KeyedFlag} {ms : List (String × Json)}
    (h : List.Forall₂ Writing fs ms) (hkeys : (fs.map (·.key)).Nodup)
    (hd : ∀ m ∈ ms, m.2.depth ≤ 126) : Literal.read (literal fs) = .ok (.object ms) := by
  cases fs with
  | nil =>
    cases h
    exact read_literal_nil
  | cons f fs =>
    have hsettled : (Json.object ms).Settled := (settledMembers h hkeys).settled
    have hdepth : (Json.object ms).depth ≤ Json.maxDepth :=
      Nat.succ_le_succ (Json.depthMembers_le_iff.2 hd)
    have hstrict : Literal.Strict ('{' :: '\n' :: entries (f :: fs)) :=
      ((strict_entries h fun m hm => Nat.le_succ_of_le (hd m hm)).cons (by decide)).cons (by decide)
    have hdoc : IsText (.object ms) ('{' :: '\n' :: entries (f :: fs) ++ (['\n'] ++ ['}'])) :=
      ⟨[], by simpa using Writes.object (writeMembers_entries h []), .none _⟩
    have hread := Literal.read_spare hstrict (List.forall_mem_singleton.2 rfl) (.inl rfl) hdoc hdepth
    rw [hsettled] at hread
    have htext : literal (f :: fs) = String.ofList
        ('{' :: '\n' :: entries (f :: fs) ++ ',' :: (['\n'] ++ ['}'])) := by
      rw [← String.toList_inj, literal, String.toList_append, String.toList_append,
        toList_defaultLines, String.toList_ofList]
      simp
    rw [htext, hread]

/-- **The exported defaults read back as the defaults of the flags.** If the keys of the flags differ,
    all flags are in order, and their defaults are not too deep and hold only floats that are read
    back, then the text behind `export const defaults =` is read as an object that has one entry for
    each flag, in the order of the keys, with the flag's default. -/
theorem defaults_read_back {flags : List KeyedFlag} (hkeys : (flags.map (·.key)).Nodup)
    (hcheck : ∀ f ∈ flags, f.flag.check = .ok ())
    (hdepth : ∀ f ∈ flags, ∀ v, f.flag.DefaultValue v → v.depth ≤ 126)
    (hfloats : ∀ f ∈ flags, ∀ v x, f.flag.DefaultValue v → v.HasFloat x → Json.ReadsBack x) :
    ∃ (literal : String) (sorted : List KeyedFlag) (entries : List (String × Json)),
      (ofFlags flags).defaults = "export const defaults = " ++ literal ++ ";\n" ∧
      Literal.read literal = .ok (.object entries) ∧
      sorted.Perm flags ∧ sorted.Pairwise (·.key < ·.key) ∧
      List.Forall₂ (fun f e => e.1 = f.key ∧ f.flag.DefaultValue e.2) sorted entries := by
  have hperm := inOrder_perm flags
  have hnodup : ((inOrder flags).map (·.key)).Nodup := (hperm.map _).nodup_iff.2 hkeys
  have hmember : ∀ f ∈ inOrder flags, ∃ m, Writing f m := by
    intro f hm
    have hf := hperm.mem_iff.1 hm
    obtain ⟨v, hv, hs, hw⟩ := Flag.exists_defaultValue (hcheck f hf) (hfloats f hf)
    exact ⟨(f.key, v), rfl, hv, hs, hw⟩
  have : Nonempty (String × Json) := ⟨("", .null)⟩
  choose! member hwriting using hmember
  have hall : List.Forall₂ Writing (inOrder flags) ((inOrder flags).map member) :=
    List.forall₂_map_right_iff.2 (List.forall₂_same.2 hwriting)
  have hshallow : ∀ m ∈ (inOrder flags).map member, m.2.depth ≤ 126 := by
    rw [List.forall_mem_map]
    exact fun f hm => hdepth f (hperm.mem_iff.1 hm) _ (hwriting f hm).value
  exact ⟨literal (inOrder flags), inOrder flags, _, defaults_eq flags,
    read_literal hall hnodup hshallow, hperm, pairwise_inOrder hnodup,
    hall.imp fun f m h => ⟨h.name, h.value⟩⟩

/-- An object default with a bare key, a spare comma and a float, and keys out of order. -/
theorem defaults_read_back_half :
    let flags : List KeyedFlag := [⟨"on", .boolean true⟩,
      ⟨"a\n", .object "\x7b x: float \x7d" "\x7b x: 0.5, \x7d"⟩]
    ∃ (literal : String) (sorted : List KeyedFlag) (entries : List (String × Json)),
      (ofFlags flags).defaults = "export const defaults = " ++ literal ++ ";\n" ∧
      Literal.read literal = .ok (.object entries) ∧
      sorted.Perm flags ∧ sorted.Pairwise (·.key < ·.key) ∧
      List.Forall₂ (fun f e => e.1 = f.key ∧ f.flag.DefaultValue e.2) sorted entries := by
  intro flags
  let doc : Json := .object [("x", .number (.float .half))]
  have hvalues : ∀ f ∈ flags, ∀ v, f.flag.DefaultValue v → v = .bool true ∨ v = doc := by
    intro f hf v hv
    obtain rfl | rfl : f = _ ∨ f = _ := by simpa [flags] using hf
    · cases hv
      exact .inl rfl
    · cases hv with
      | object h =>
        rw [Literal.read_half] at h
        cases h
        exact .inr rfl
  refine defaults_read_back (by decide) ?_ ?_ ?_
  · intro f hf
    obtain rfl | rfl : f = _ ∨ f = _ := by simpa [flags] using hf
    · rfl
    · exact toOption_eq_some_iff.1 (by decide +kernel)
  · intro f hf v hv
    rcases hvalues f hf v hv with rfl | rfl <;> decide
  · intro f hf v x hv hx
    rcases hvalues f hf v hv with rfl | rfl
    · cases hx
    · have hx : Json.HasFloat x (.object [("x", .number (.float .half))]) := hx
      cases hx with
      | member hm hx =>
        obtain rfl := List.mem_singleton.1 hm
        cases hx
        exact Json.readsBack_half

end Bundle

end TypedFlags
