import Mathlib.Data.Set.Function
import Weaver.Proofs.Descriptor.Reading

/-!
# The grammar of descriptors

Reading and printing are inverse to each other: a text is read as a value exactly if the value is
well-formed and the text is its descriptor.
-/

namespace Weaver

namespace Signature

/-- The descriptors of several parameters. -/
def paramsText (params : List Ty) : String := String.join (params.map Ty.text)

theorem paramsText_cons (ty : Ty) (rest : List Ty) :
    paramsText (ty :: rest) = ty.text ++ paramsText rest := by
  rw [paramsText, List.map_cons, String.join_cons]
  rfl

/-- The slots of several parameters. -/
def slotsOf (params : List Ty) : Nat := params.foldr (fun ty slots => ty.slots + slots) 0

theorem slotsOf_cons (ty : Ty) (rest : List Ty) :
    slotsOf (ty :: rest) = ty.slots + slotsOf rest := rfl

end Signature

namespace Descriptor.Cursor

open Signature

variable {source : String} {position room : Nat} {chars : List Char} {params : List Ty}
  {signature : Signature} {after : Cursor}

/-- What a reader of parameters comes to if it succeeds: it finds the texts of well-formed parameters
that have room, and the cursor stands behind the parenthesis that closes them. -/
def TakesParams (source : String) (position : Nat) (chars : List Char) (room : Nat)
    (params : List Ty) (after : Cursor) : Prop :=
  (∀ ty ∈ params, ty.WellFormed ∧ ty ≠ .void) ∧ slotsOf params ≤ room ∧
    ∃ tail, chars = (paramsText params).toList ++ ')' :: tail ∧
      after = whole source (position + (paramsText params).utf8ByteSize + 1) tail

theorem atClose_whole_iff :
    (whole source position chars).atClose = true ↔ ∃ tail, chars = ')' :: tail := by
  cases chars with
  | nil => simp [atClose, whole]
  | cons c tail => simp [atClose, whole]

theorem takesParams_close_iff {tail : List Char} :
    TakesParams source position (')' :: tail) room params after ↔
      params = [] ∧ after = whole source (position + 1) tail := by
  cases params with
  | nil =>
      constructor
      · rintro ⟨_, _, rest, same, rfl⟩
        cases same
        exact ⟨rfl, rfl⟩
      · rintro ⟨_, rfl⟩
        exact ⟨List.forall_mem_nil _, Nat.zero_le _, tail, rfl, rfl⟩
  | cons ty rest =>
      constructor
      · rintro ⟨_, _, behind, same, _⟩
        obtain ⟨first, more, textEq, noClose, _⟩ := ty.exists_text_eq_cons
        rw [paramsText_cons, String.toList_append, textEq] at same
        exact absurd (List.cons.inj same).1.symm noClose
      · rintro ⟨none, _⟩
        cases none

/-- Otherwise a parameter is read, and the others behind it with the room that it leaves. -/
theorem takesParams_further_iff (further : ¬ ∃ tail, chars = ')' :: tail) :
    TakesParams source position chars room params after ↔
      ∃ ty rest behind tail, params = ty :: rest ∧
        Takes source position chars ty (whole source behind tail) ∧ ty ≠ .void ∧
        ty.slots ≤ room ∧ TakesParams source behind tail (room - ty.slots) rest after := by
  cases params with
  | nil =>
      constructor
      · rintro ⟨_, _, tail, rfl, _⟩
        exact absurd ⟨tail, rfl⟩ further
      · rintro ⟨_, _, _, _, none, _⟩
        cases none
  | cons ty rest =>
      constructor
      · rintro ⟨each, fits, tail, rfl, rfl⟩
        obtain ⟨⟨wellFormed, filled⟩, others⟩ := List.forall_mem_cons.mp each
        rw [slotsOf_cons] at fits
        rw [paramsText_cons, String.toList_append, String.utf8ByteSize_append, List.append_assoc,
          ← Nat.add_assoc position]
        exact ⟨ty, rest, _, _, rfl, ⟨wellFormed, _, rfl, rfl⟩, filled, by omega, others, by omega,
          tail, rfl, rfl⟩
      · rintro ⟨_, _, _, _, ⟨⟩, ⟨wellFormed, behind, rfl, ⟨⟩⟩, filled, fits, others, fitsRest, tail,
          rfl, rfl⟩
        refine ⟨List.forall_mem_cons.mpr ⟨⟨wellFormed, filled⟩, others⟩, ?_, tail, ?_, ?_⟩
        · rw [slotsOf_cons]
          omega
        · rw [paramsText_cons, String.toList_append, List.append_assoc]
        · rw [paramsText_cons, String.utf8ByteSize_append, ← Nat.add_assoc position]

/-- Parameters are read where their texts and the closing parenthesis begin, if they have room. -/
theorem readParams_eq_ok_iff :
    (whole source position chars).readParams room = (.ok params, after) ↔
      TakesParams source position chars room params after := by
  induction room using Nat.strong_induction_on generalizing position chars params after with
  | _ room ih =>
      unfold readParams
      by_cases closed : ∃ tail, chars = ')' :: tail
      · rw [if_pos (atClose_whole_iff.mpr closed)]
        obtain ⟨tail, rfl⟩ := closed
        rw [takesParams_close_iff]
        constructor
        · rintro ⟨⟩
          exact ⟨rfl, rfl⟩
        · rintro ⟨rfl, rfl⟩
          rfl
      · rw [if_neg (mt atClose_whole_iff.mp closed), takesParams_further_iff closed]
        constructor
        · intro read
          split at read
          · cases read
          · rename_i ty next readEq
            obtain ⟨wellFormed, tail, parts, rfl⟩ := readType_eq_ok_iff.mp readEq
            split at read
            · cases read
            · rename_i filled
              split at read
              · cases read
              · rename_i fits
                have less : room - ty.slots < room := by omega
                split at read
                · cases read
                · rename_i rest last restEq
                  cases read
                  exact ⟨ty, rest, _, tail, rfl, ⟨wellFormed, tail, parts, rfl⟩,
                    mt Ty.slots_eq_zero_iff.mpr filled, Nat.le_of_not_lt fits,
                    (ih _ less).mp restEq⟩
        · rintro ⟨ty, rest, behind, tail, rfl, takes, filled, fits, takesRest⟩
          have some : ty.slots ≠ 0 := mt Ty.slots_eq_zero_iff.mp filled
          have less : room - ty.slots < room := by omega
          rw [readType_eq_ok_iff.mpr takes]
          dsimp only
          rw [if_neg some, if_neg (Nat.not_lt_of_le fits), (ih _ less).mpr takesRest]

/-- What is left of a method descriptor behind its opening parenthesis. -/
theorem toList_text_signature (signature : Signature) :
    signature.text.toList =
      '(' :: ((paramsText signature.params).toList ++ ')' :: signature.ret.text.toList) := by
  rw [text, String.toList_append, String.toList_append, String.toList_append]
  simp [paramsText]

theorem utf8ByteSize_text_signature (signature : Signature) :
    signature.text.utf8ByteSize =
      1 + (paramsText signature.params).utf8ByteSize + 1 + signature.ret.text.utf8ByteSize := by
  rw [text, String.utf8ByteSize_append, String.utf8ByteSize_append, String.utf8ByteSize_append]
  rfl

theorem readMethod_open :
    (whole source position ('(' :: chars)).readMethod =
      match (whole source (position + 1) chars).readParams maxParameterSlots with
      | (.error fault, after) => (.error fault, after)
      | (.ok params, closed) =>
          match closed.readType with
          | (.error fault, after) => (.error fault, after)
          | (.ok ret, after) => (.ok ⟨params, ret⟩, after) := by
  unfold readMethod
  rw [next?_whole_ascii (by decide)]
  rfl

theorem readMethod_refuses (source : String) (position : Nat) {c : Char} (other : c ≠ '(') :
    ∃ fault after, (whole source position (c :: chars)).readMethod = (.error fault, after) := by
  unfold readMethod
  rcases Nat.lt_or_ge 127 c.toNat with wide | ascii
  · obtain ⟨tag, behind, next, large⟩ := next?_whole_wide source position chars wide
    have differs : tag ≠ '('.toUInt8 := by
      rintro rfl
      exact absurd large (by decide)
    rw [next]
    dsimp only
    rw [if_pos differs]
    exact ⟨_, _, rfl⟩
  · have differs : UInt8.ofNat c.toNat ≠ '('.toUInt8 := by
      intro same
      apply other
      rw [← ofNat_tag ascii, same]
      rfl
    rw [next?_whole_ascii ascii]
    dsimp only
    rw [if_pos differs]
    exact ⟨_, _, rfl⟩

/-- A method descriptor is read where its text begins. -/
theorem readMethod_eq_ok_iff :
    (whole source position chars).readMethod = (.ok signature, after) ↔
      signature.WellFormed ∧ ∃ tail, chars = signature.text.toList ++ tail ∧
        after = whole source (position + signature.text.utf8ByteSize) tail := by
  rw [toList_text_signature, utf8ByteSize_text_signature]
  constructor
  · intro read
    cases chars with
    | nil => cases read
    | cons c rest =>
        by_cases opens : c = '('
        · subst opens
          rw [readMethod_open] at read
          split at read
          · cases read
          · rename_i params closed paramsEq
            obtain ⟨each, fits, behind, rfl, rfl⟩ := readParams_eq_ok_iff.mp paramsEq
            split at read
            · cases read
            · rename_i ret last retEq
              obtain ⟨wellFormed, tail, rfl, rfl⟩ := readType_eq_ok_iff.mp retEq
              cases read
              refine ⟨⟨each, fits, wellFormed⟩, tail, ?_, ?_⟩
              · simp
              · dsimp only
                congr 1
                omega
        · obtain ⟨fault, behind, refused⟩ := readMethod_refuses source position opens
          rw [refused] at read
          cases read
  · rintro ⟨⟨each, fits, wellFormed⟩, tail, rfl, rfl⟩
    have params : (whole source (position + 1) ((paramsText signature.params).toList ++
        ')' :: (signature.ret.text.toList ++ tail))).readParams maxParameterSlots = _ :=
      readParams_eq_ok_iff.mpr ⟨each, fits, _, rfl, rfl⟩
    rw [List.cons_append, List.append_assoc, List.cons_append, readMethod_open, params]
    dsimp only
    rw [readType_text source _ tail wellFormed]
    simp only [Nat.add_assoc]

theorem eq_nil_of_hasMore {tail : List Char}
    (done : (whole source position tail).hasMore = false) : tail = [] := by
  cases tail with
  | nil => rfl
  | cons c rest => cases done

/-- A reader that takes exactly the texts of proper values leaves nothing behind exactly if the source
is such a text. -/
theorem reads_all_iff {α : Type} {value : α}
    {read : Descriptor.Cursor → Except Fault α × Descriptor.Cursor} {Proper : α → Prop}
    {text : α → String}
    (exacts : ∀ {chars after}, read (whole source 0 chars) = (.ok value, after) ↔
      Proper value ∧ ∃ tail, chars = (text value).toList ++ tail ∧
        after = whole source (0 + (text value).utf8ByteSize) tail) :
    (∃ after, read (.ofString source) = (.ok value, after) ∧ after.hasMore = false) ↔
      Proper value ∧ text value = source := by
  have start : Descriptor.Cursor.ofString source = whole source 0 source.toList := rfl
  rw [start]
  constructor
  · rintro ⟨after, readEq, done⟩
    obtain ⟨proper, tail, parts, rfl⟩ := exacts.mp readEq
    obtain rfl := eq_nil_of_hasMore done
    rw [List.append_nil] at parts
    exact ⟨proper, String.toList_inj.mp parts.symm⟩
  · rintro ⟨proper, rfl⟩
    exact ⟨_, exacts.mpr ⟨proper, [], (List.append_nil _).symm, rfl⟩, rfl⟩

end Descriptor.Cursor

open Descriptor.Cursor

/-- A text is read as a type exactly if it is the descriptor of a well-formed type. -/
theorem Ty.parse_eq_ok_iff {source : String} {ty : Ty} :
    Ty.parse source = .ok ty ↔ ty.WellFormed ∧ ty.text = source := by
  rw [← reads_all_iff readType_eq_ok_iff, Ty.parse]
  rcases (Descriptor.Cursor.ofString source).readType with ⟨fault | found, after⟩
  · simp
  · cases more : after.hasMore <;> simp [more]

/-- A text is read as a signature exactly if it is the descriptor of a well-formed signature. -/
theorem Signature.parse_eq_ok_iff {source : String} {signature : Signature} :
    Signature.parse source = .ok signature ↔ signature.WellFormed ∧ signature.text = source := by
  rw [← reads_all_iff readMethod_eq_ok_iff, Signature.parse]
  rcases (Descriptor.Cursor.ofString source).readMethod with ⟨fault | found, after⟩
  · simp
  · cases more : after.hasMore <;> simp [more]

namespace Descriptor

/-- What is read by an exact reader is refused exactly if it is no text of a proper value, and no two
proper values have the same text. -/
theorem exact_of_parse_iff {α : Type} {parse : String → Except Fault α} {text : α → String}
    {Proper : α → Prop}
    (exacts : ∀ source value, parse source = .ok value ↔ Proper value ∧ text value = source) :
    (∀ source, (∃ fault, parse source = .error fault) ↔
      ¬ ∃ value, Proper value ∧ text value = source) ∧
    Set.InjOn text {value | Proper value} := by
  refine ⟨?_, ?_⟩
  · intro source
    cases parsed : parse source with
    | error fault =>
        refine iff_of_true ⟨fault, rfl⟩ ?_
        rintro ⟨value, proper⟩
        rw [(exacts source value).mpr proper] at parsed
        cases parsed
    | ok value =>
        refine iff_of_false ?_ (not_not_intro ⟨value, (exacts source value).mp parsed⟩)
        rintro ⟨fault, ⟨⟩⟩
  · intro first firstProper second secondProper same
    have one := (exacts _ first).mpr ⟨firstProper, rfl⟩
    rw [(exacts _ second).mpr ⟨secondProper, same.symm⟩] at one
    exact (Except.ok.inj one).symm

/-- Reading and printing descriptors are exact inverses.  A text is read as a type exactly if it is the
text of that type and the type is well-formed, and any other text is refused; the same holds of
signatures; and no two well-formed types or signatures have the same text. -/
theorem parse_inverts_text :
    (∀ source ty, Ty.parse source = .ok ty ↔ ty.WellFormed ∧ ty.text = source) ∧
    (∀ source signature, Signature.parse source = .ok signature ↔
      signature.WellFormed ∧ signature.text = source) ∧
    (∀ source, (∃ fault, Ty.parse source = .error fault) ↔
      ¬ ∃ ty : Ty, ty.WellFormed ∧ ty.text = source) ∧
    (∀ source, (∃ fault, Signature.parse source = .error fault) ↔
      ¬ ∃ signature : Signature, signature.WellFormed ∧ signature.text = source) ∧
    Set.InjOn Ty.text {ty | ty.WellFormed} ∧
    Set.InjOn Signature.text {signature | signature.WellFormed} := by
  have types := exact_of_parse_iff fun _ _ => Ty.parse_eq_ok_iff
  have signatures := exact_of_parse_iff fun _ _ => Signature.parse_eq_ok_iff
  exact ⟨fun _ _ => Ty.parse_eq_ok_iff, fun _ _ => Signature.parse_eq_ok_iff, types.1,
    signatures.1, types.2, signatures.2⟩

end Descriptor

end Weaver
