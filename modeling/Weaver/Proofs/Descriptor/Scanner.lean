import Weaver.Proofs.Descriptor.Grammar
import Weaver.Proofs.Text.Bytes

/-!
# Reading descriptors by byte offsets

A `Scanner` is a byte offset into a text.  Its readers look at single bytes and cut class names out of
the text by the offsets of their ends; they come to nothing where such a cut is off the boundaries of
characters.  A cursor `Stands` if its parts fit together, as they do at the start of a text and behind
every read, failed ones included.  Where it stands the scanner of its position comes to the same
result, and stops at the position of the cursor behind it.
-/

namespace Weaver.Descriptor

open Text

/-- A byte offset into a text. -/
structure Scanner where
  source : String
  position : Nat
  deriving DecidableEq

namespace Scanner

/-- The bytes that are left. -/
def left (scanner : Scanner) : List UInt8 := (bytes scanner.source).drop scanner.position

/-- The scanner some bytes further on. -/
def advance (scanner : Scanner) (count : Nat) : Scanner :=
  { scanner with position := scanner.position + count }

/-- Cut out a class name up to its semicolon; `start` is the position of the tag before it. -/
def readClass (scanner : Scanner) (start : Nat) : Option (Except Fault Ty × Scanner) :=
  if (bytes scanner.source).length < scanner.position then none
  else
    match scanner.left.idxOf? ';'.toUInt8 with
    | none => some (.error (.unterminatedClass scanner.source start), scanner)
    | some length =>
        if length = 0 then some (.error (.emptyClass scanner.source start), scanner)
        else
          (slice? scanner.source scanner.position (scanner.position + length)).map fun name =>
            (.ok (.object name), scanner.advance (length + 1))

/-- Read the type that a tag begins, if that is no bracket. -/
def readElement (scanner : Scanner) (tag : UInt8) : Option (Except Fault Ty × Scanner) :=
  match Cursor.letter? tag with
  | some ty => some (.ok ty, scanner.advance 1)
  | none =>
      if tag = 'L'.toUInt8 then (scanner.advance 1).readClass scanner.position
      else some (.error (.invalidTag tag scanner.source scanner.position), scanner.advance 1)

/-- Read the type that is left behind some opening brackets. -/
def readType (scanner : Scanner) (dimensions : Nat) : Option (Except Fault Ty × Scanner) :=
  match scanner.left with
  | [] => some (.error (.endOfInput scanner.source), scanner)
  | tag :: _ =>
      if tag = '['.toUInt8 then
        if Ty.maxDimensions < dimensions + 1 then
          some (.error (.tooManyDimensions scanner.source), scanner.advance 1)
        else (scanner.advance 1).readType (dimensions + 1)
      else
        match scanner.readElement tag with
        | none => none
        | some (.error fault, after) => some (.error fault, after)
        | some (.ok element, after) =>
            if 0 < dimensions ∧ element = .void then
              some (.error (.arrayOfVoid scanner.source), after)
            else some (.ok (element.wrap dimensions), after)
termination_by Ty.maxDimensions - dimensions
decreasing_by omega

/-- Read the parameters that are left behind some that take `slots` slots. -/
def readParams (scanner : Scanner) (slots : Nat) : Option (Except Fault (List Ty) × Scanner) :=
  if scanner.left.head? = some ')'.toUInt8 then some (.ok [], scanner.advance 1)
  else
    match scanner.readType 0 with
    | none => none
    | some (.error fault, after) => some (.error fault, after)
    | some (.ok ty, after) =>
        if ty = .void then some (.error (.voidParameter scanner.source), after)
        else if Signature.maxParameterSlots < slots + ty.slots then
          some (.error (.tooManySlots scanner.source), after)
        else
          match after.readParams (slots + ty.slots) with
          | none => none
          | some (.error fault, last) => some (.error fault, last)
          | some (.ok rest, last) => some (.ok (ty :: rest), last)
termination_by Signature.maxParameterSlots - slots
decreasing_by
  rename_i some fits
  have := mt Ty.slots_eq_zero_iff.mp some
  omega

/-- Read one method descriptor. -/
def readMethod (scanner : Scanner) : Option (Except Fault Signature × Scanner) :=
  match scanner.left with
  | [] => some (.error (.endOfInput scanner.source), scanner)
  | tag :: _ =>
      if tag ≠ '('.toUInt8 then
        some (.error (.missingParenthesis scanner.source), scanner.advance 1)
      else
        match (scanner.advance 1).readParams 0 with
        | none => none
        | some (.error fault, after) => some (.error fault, after)
        | some (.ok params, closed) =>
            match closed.readType 0 with
            | none => none
            | some (.error fault, after) => some (.error fault, after)
            | some (.ok ret, after) => some (.ok ⟨params, ret⟩, after)

end Scanner

namespace Cursor

/-- The scanner of the cursor's position. -/
def scanner (cursor : Cursor) : Scanner := ⟨cursor.source, cursor.position⟩

/-- The parts of the cursor fit together: what it has passed, the bytes that are left of a character
and the characters that are left make up the source. -/
def Stands (cursor : Cursor) : Prop :=
  ∃ front passed, cursor.source.toList = front ++ cursor.rest ∧
    encoded front = passed ++ cursor.pending ∧ passed.length = cursor.position ∧
    ∀ byte ∈ cursor.pending, 127 < byte.toNat

/-- A cursor further on in the same source. -/
structure Follows (cursor after : Cursor) : Prop where
  source : after.source = cursor.source
  position : cursor.position ≤ after.position
  stands : after.Stands

variable {cursor next after : Cursor} {source : String} {position dimensions room : Nat}
  {chars tail : List Char} {c : Char} {tag : UInt8}

theorem Follows.trans (first : cursor.Follows next) (second : next.Follows after) :
    cursor.Follows after :=
  ⟨second.source.trans first.source, first.position.trans second.position, second.stands⟩

theorem Stands.follows (stands : cursor.Stands) : cursor.Follows cursor :=
  ⟨rfl, Nat.le_refl _, stands⟩

theorem stands_ofString (source : String) : (ofString source).Stands :=
  ⟨[], [], rfl, rfl, rfl, List.forall_mem_nil _⟩

theorem Stands.left_scanner (stands : cursor.Stands) :
    cursor.scanner.left = cursor.pending ++ encoded cursor.rest := by
  obtain ⟨front, passed, parts, behind, count, _⟩ := stands
  rw [Scanner.left, scanner, bytes_eq, parts, encoded_append, behind, List.append_assoc]
  exact List.drop_left' count

theorem Stands.position_le (stands : cursor.Stands) : cursor.position ≤ cursor.source.utf8ByteSize := by
  obtain ⟨front, passed, parts, behind, count, _⟩ := stands
  rw [← length_bytes, bytes_eq, parts, encoded_append, behind]
  simp only [List.length_append]
  omega

theorem stands_whole_iff :
    (whole source position chars).Stands ↔
      ∃ front : String, source = front ++ String.ofList chars ∧ position = front.utf8ByteSize := by
  constructor
  · rintro ⟨front, passed, parts, behind, count, _⟩
    refine ⟨String.ofList front, ?_, ?_⟩
    · rw [← String.toList_inj, String.toList_append, String.toList_ofList, String.toList_ofList]
      exact parts
    · rw [whole, List.append_nil] at behind
      rw [← length_encoded, behind]
      exact count.symm
  · rintro ⟨front, rfl, rfl⟩
    refine ⟨front.toList, encoded front.toList, ?_, (List.append_nil _).symm, ?_,
      List.forall_mem_nil _⟩
    · rw [whole, String.toList_append, String.toList_ofList]
    · rw [length_encoded, String.ofList_toList]
      rfl

theorem Stands.pass (stands : (whole source position (chars ++ tail)).Stands) :
    (whole source position (chars ++ tail)).Follows
      (whole source (position + (String.ofList chars).utf8ByteSize) tail) := by
  obtain ⟨front, parts, rfl⟩ := stands_whole_iff.mp stands
  refine ⟨rfl, Nat.le_add_right _ _, stands_whole_iff.mpr ⟨front ++ String.ofList chars, ?_, ?_⟩⟩
  · rw [parts, String.ofList_append, String.append_assoc]
  · rw [String.utf8ByteSize_append]

theorem Stands.pass_ascii (stands : (whole source position (c :: tail)).Stands)
    (ascii : c.toNat ≤ 127) :
    (whole source position (c :: tail)).Follows (whole source (position + 1) tail) := by
  have one : (String.ofList [c]).utf8ByteSize = 1 := by
    rw [← length_encoded, encoded, List.flatMap_singleton, encode_ascii ascii]
    rfl
  have split : (whole source position ([c] ++ tail)).Stands := stands
  rw [← one]
  exact split.pass

/-- A cursor that stands is at the end of the source, at an ASCII character, or at a byte that is not
ASCII. -/
theorem Stands.cases (stands : cursor.Stands) :
    (∃ source position, cursor = whole source position []) ∨
    (∃ source position c tail, c.toNat ≤ 127 ∧ cursor = whole source position (c :: tail)) ∨
    (∃ tag after, 127 < tag.toNat ∧ cursor.next? = some (tag, after) ∧ cursor.brackets = 0 ∧
      cursor.atClose = false ∧ after.scanner = cursor.scanner.advance 1 ∧ cursor.Follows after) := by
  obtain ⟨source, position, pending, rest⟩ := cursor
  obtain ⟨front, passed, parts, behind, count, wide⟩ := stands
  dsimp only at parts behind count wide
  cases pending with
  | cons byte pending =>
      obtain ⟨large, others⟩ := List.forall_mem_cons.mp wide
      refine .inr (.inr ⟨byte, ⟨source, position + 1, pending, rest⟩, large, rfl, rfl, rfl, rfl, rfl,
        Nat.le_succ _, front, passed ++ [byte], parts, ?_, ?_, others⟩)
      · rw [behind, List.append_assoc]
        rfl
      · rw [List.length_append, count]
        rfl
  | nil =>
      cases rest with
      | nil => exact .inl ⟨source, position, rfl⟩
      | cons c tail =>
          rcases Nat.lt_or_ge 127 c.toNat with large | ascii
          · obtain ⟨byte, pending, encodeEq, first, wideRest⟩ := exists_encode_wide large
            have noBracket : c ≠ '[' := by rintro rfl; exact absurd large (by decide)
            have noClose : c ≠ ')' := by rintro rfl; exact absurd large (by decide)
            refine .inr (.inr ⟨byte, ⟨source, position + 1, pending, tail⟩, first, ?_, ?_, ?_, rfl, rfl,
              Nat.le_succ _, front ++ [c], passed ++ [byte], ?_, ?_, ?_, wideRest⟩)
            · rw [next?]
              dsimp only
              rw [encodeEq]
            · simp [brackets, noBracket]
            · simp [atClose, noClose]
            · rw [parts, List.append_assoc]
              rfl
            · rw [encoded_append, behind, encoded, List.flatMap_singleton, encodeEq]
              simp
            · rw [List.length_append, count]
              rfl
          · exact .inr (.inl ⟨source, position, c, tail, ascii, rfl⟩)

theorem Stands.left_of_next? (stands : cursor.Stands) (found : cursor.next? = some (tag, after)) :
    ∃ behind, cursor.scanner.left = tag :: behind := by
  rw [stands.left_scanner]
  obtain ⟨source, position, pending, rest⟩ := cursor
  cases pending with
  | cons byte pending =>
      cases found
      exact ⟨_, rfl⟩
  | nil =>
      cases rest with
      | nil => cases found
      | cons c tail =>
          obtain ⟨byte, pending, encodeEq, _⟩ := exists_encode_eq_cons c
          rw [next?] at found
          dsimp only at found
          rw [encodeEq] at found
          cases found
          exact ⟨pending ++ encoded tail, by rw [encoded, List.flatMap_cons, encodeEq]; rfl⟩

theorem Stands.left_ascii (stands : (whole source position (c :: tail)).Stands)
    (ascii : c.toNat ≤ 127) :
    ∃ behind, (whole source position (c :: tail)).scanner.left = UInt8.ofNat c.toNat :: behind :=
  stands.left_of_next? (next?_whole_ascii ascii)

/-- A read of the cursor and one of the scanner come to the same, and the cursor stands behind it. -/
structure Agrees {α : Type} (cursor : Cursor) (read : Except Fault α × Cursor)
    (scanned : Option (Except Fault α × Scanner)) : Prop where
  follows : cursor.Follows read.2
  scanned : scanned = some (read.1, read.2.scanner)

theorem Agrees.cases {α : Type} {read : Except Fault α × Cursor}
    {scanned : Option (Except Fault α × Scanner)} (agrees : Agrees cursor read scanned) :
    (∃ fault after, read = (.error fault, after) ∧ scanned = some (.error fault, after.scanner) ∧
      cursor.Follows after) ∨
    (∃ value after, read = (.ok value, after) ∧ scanned = some (.ok value, after.scanner) ∧
      cursor.Follows after) := by
  obtain ⟨follows, rfl⟩ := agrees
  obtain ⟨fault | value, after⟩ := read
  · exact .inl ⟨fault, after, rfl, rfl, follows⟩
  · exact .inr ⟨value, after, rfl, rfl, follows⟩

theorem readClass_open {start : Nat} (absent : ';' ∉ chars) :
    (whole source position chars).readClass start =
      (.error (.unterminatedClass source start), whole source position chars) := by
  have none : chars.dropWhile (· ≠ ';') = [] := by
    rw [List.dropWhile_eq_nil_iff]
    intro c member
    exact decide_eq_true fun same => absent (same ▸ member)
  rw [readClass, whole]
  dsimp only
  rw [none]

/-- A class name up to the first semicolon. -/
theorem readClass_closed {start : Nat} {name : List Char} (absent : ';' ∉ name) :
    (whole source position (name ++ ';' :: tail)).readClass start =
      if name = [] then
        (.error (.emptyClass source start), whole source position (name ++ ';' :: tail))
      else
        (.ok (.object (String.ofList name)),
          whole source (position + (String.ofList name).utf8ByteSize + 1) tail) := by
  have other : ∀ c ∈ name, decide (c ≠ ';') = true :=
    fun c member => decide_eq_true fun same => absent (same ▸ member)
  have emptyIff : String.ofList name = "" ↔ name = [] := by
    rw [← String.ofList_nil, String.ofList_inj]
  rw [readClass, whole]
  dsimp only
  rw [List.takeWhile_append_of_pos other, List.dropWhile_append_of_pos other]
  simp [emptyIff, whole]

/-- A class name is cut out between characters. -/
theorem Stands.agrees_readClass (stands : (whole source position chars).Stands) (start : Nat) :
    Agrees (whole source position chars) ((whole source position chars).readClass start)
      ((whole source position chars).scanner.readClass start) := by
  have inside : ¬ (bytes (whole source position chars).scanner.source).length <
      (whole source position chars).scanner.position := by
    rw [length_bytes]
    exact Nat.not_lt_of_le stands.position_le
  have left : (whole source position chars).scanner.left = encoded chars := stands.left_scanner
  rw [Scanner.readClass, if_neg inside, left]
  by_cases closed : ';' ∈ chars
  · obtain ⟨name, tail, rfl, absent⟩ := List.eq_append_cons_of_mem closed
    have semicolon : (encoded (name ++ ';' :: tail)).idxOf? ';'.toUInt8 =
        some (encoded name).length := idxOf?_encoded_append (by decide) absent
    rw [semicolon, readClass_closed absent]
    dsimp only
    by_cases empty : name = []
    · subst empty
      exact ⟨stands.follows, rfl⟩
    · obtain ⟨front, parts, rfl⟩ := stands_whole_iff.mp stands
      have filled : (encoded name).length ≠ 0 := by
        cases name with
        | nil => exact absurd rfl empty
        | cons c name =>
            obtain ⟨byte, others, encodeEq, _⟩ := exists_encode_eq_cons c
            rw [encoded, List.flatMap_cons, encodeEq]
            exact Nat.succ_ne_zero _
      have cut : slice? source front.utf8ByteSize
          (front.utf8ByteSize + (encoded name).length) = some (String.ofList name) := by
        rw [parts, String.ofList_append, ← String.append_assoc, length_encoded]
        exact slice?_append _ _ _
      rw [if_neg empty, if_neg filled, whole, scanner]
      dsimp only
      rw [cut]
      have behind := Stands.pass stands
      refine ⟨behind.trans (behind.stands.pass_ascii (by decide)), ?_⟩
      rw [length_encoded]
      rfl
  · have absent : UInt8.ofNat ';'.toNat ∉ encoded chars := not_mem_encoded (by decide) closed
    have none : (encoded chars).idxOf? ';'.toUInt8 = none := List.idxOf?_eq_none_iff.mpr absent
    rw [none, readClass_open closed]
    exact ⟨stands.follows, rfl⟩

theorem readElement_wide (found : cursor.next? = some (tag, after)) (wide : 127 < tag.toNat) :
    cursor.readElement = (.error (.invalidTag tag cursor.source cursor.position), after) := by
  have differs : tag ≠ 'L'.toUInt8 := by
    rintro rfl
    exact absurd wide (by decide)
  rw [readElement, found]
  dsimp only
  rw [letter?_eq_none wide, if_neg differs]

theorem Stands.agrees_readElement (stands : cursor.Stands)
    (found : cursor.next? = some (tag, after)) :
    Agrees cursor cursor.readElement (cursor.scanner.readElement tag) := by
  rcases stands.cases with ⟨source, position, rfl⟩ | ⟨source, position, c, tail, ascii, rfl⟩ |
    ⟨other, behind, wide, next, -, -, moved, follows⟩
  · cases found
  · have passes := stands.pass_ascii ascii
    rw [next?_whole_ascii ascii] at found
    cases found
    rw [readElement, Scanner.readElement, next?_whole_ascii ascii]
    dsimp only
    cases letter : letter? (UInt8.ofNat c.toNat) with
    | some ty => exact ⟨passes, rfl⟩
    | none =>
        dsimp only
        split
        · obtain ⟨further, scanned⟩ := passes.stands.agrees_readClass position
          exact ⟨passes.trans further, scanned⟩
        · exact ⟨passes, rfl⟩
  · rw [next] at found
    cases found
    have differs : tag ≠ 'L'.toUInt8 := by
      rintro rfl
      exact absurd wide (by decide)
    rw [readElement_wide next wide, Scanner.readElement, letter?_eq_none wide]
    dsimp only
    rw [if_neg differs, ← moved]
    exact ⟨follows, rfl⟩

/-- Read the type that is left behind some opening brackets. -/
def readBehind (cursor : Cursor) (dimensions : Nat) : Except Fault Ty × Cursor :=
  if Ty.maxDimensions < dimensions + cursor.brackets then
    (.error (.tooManyDimensions cursor.source), cursor.skip (Ty.maxDimensions + 1 - dimensions))
  else
    match (cursor.skip cursor.brackets).readElement with
    | (.error fault, after) => (.error fault, after)
    | (.ok element, after) =>
        if 0 < dimensions + cursor.brackets ∧ element = .void then
          (.error (.arrayOfVoid cursor.source), after)
        else (.ok (element.wrap (dimensions + cursor.brackets)), after)

theorem readBehind_zero (cursor : Cursor) : cursor.readBehind 0 = cursor.readType := by
  rw [readBehind, readType, Nat.zero_add]
  rfl

theorem skip_cons (source : String) (position : Nat) (c : Char) (tail : List Char) (count : Nat) :
    (whole source position (c :: tail)).skip (count + 1) =
      (whole source (position + 1) tail).skip count := by
  rw [skip_whole, skip_whole, List.drop_succ_cons, Nat.add_assoc, Nat.add_comm 1]

/-- A bracket is counted, up to the largest number of dimensions. -/
theorem readBehind_bracket (few : dimensions ≤ Ty.maxDimensions) :
    (whole source position ('[' :: tail)).readBehind dimensions =
      if Ty.maxDimensions < dimensions + 1 then
        (.error (.tooManyDimensions source), whole source (position + 1) tail)
      else (whole source (position + 1) tail).readBehind (dimensions + 1) := by
  have more : (whole source position ('[' :: tail)).brackets =
      (whole source (position + 1) tail).brackets + 1 := rfl
  have count : ∀ brackets, dimensions + (brackets + 1) = dimensions + 1 + brackets := by omega
  have further : Ty.maxDimensions + 1 - dimensions = Ty.maxDimensions - dimensions + 1 := by omega
  rw [readBehind, more, count, further, skip_cons, skip_cons]
  split
  · rename_i many
    split
    · rename_i full
      rw [show Ty.maxDimensions - dimensions = 0 by omega]
      rfl
    · rw [readBehind, if_pos many, Nat.add_sub_add_right]
      rfl
  · rename_i fits
    rw [if_neg (by omega), readBehind, if_neg fits]
    rfl

/-- A type that begins with no bracket is an element in the dimensions that were counted. -/
theorem readBehind_plain (few : dimensions ≤ Ty.maxDimensions) (plain : cursor.brackets = 0) :
    cursor.readBehind dimensions =
      match cursor.readElement with
      | (.error fault, after) => (.error fault, after)
      | (.ok element, after) =>
          if 0 < dimensions ∧ element = .void then (.error (.arrayOfVoid cursor.source), after)
          else (.ok (element.wrap dimensions), after) := by
  have same : cursor.skip 0 = cursor := rfl
  rw [readBehind, plain, Nat.add_zero, if_neg (Nat.not_lt_of_le few), same]

theorem Stands.agrees_readBehind_plain (stands : cursor.Stands)
    (few : dimensions ≤ Ty.maxDimensions) (plain : cursor.brackets = 0)
    (found : cursor.next? = some (tag, after)) (noBracket : tag ≠ '['.toUInt8) :
    Agrees cursor (cursor.readBehind dimensions) (cursor.scanner.readType dimensions) := by
  obtain ⟨behind, left⟩ := stands.left_of_next? found
  rw [readBehind_plain few plain, Scanner.readType, left]
  dsimp only
  rw [if_neg noBracket]
  rcases (stands.agrees_readElement found).cases with
    ⟨fault, last, readEq, scanned, follows⟩ | ⟨element, last, readEq, scanned, follows⟩
  · rw [readEq, scanned]
    exact ⟨follows, rfl⟩
  · rw [readEq, scanned]
    dsimp only
    split
    · exact ⟨follows, rfl⟩
    · exact ⟨follows, rfl⟩

theorem Stands.agrees_readBehind (stands : cursor.Stands) (few : dimensions ≤ Ty.maxDimensions) :
    Agrees cursor (cursor.readBehind dimensions) (cursor.scanner.readType dimensions) := by
  induction room : Ty.maxDimensions - dimensions using Nat.strong_induction_on
    generalizing cursor dimensions with
  | _ room ih =>
      rcases stands.cases with ⟨source, position, rfl⟩ | ⟨source, position, c, tail, ascii, rfl⟩ |
        ⟨tag, after, wide, next, plain, -, -, -⟩
      · have left : (whole source position []).scanner.left = [] := stands.left_scanner
        rw [readBehind_plain few rfl, Scanner.readType, left]
        exact ⟨stands.follows, rfl⟩
      · by_cases opens : c = '['
        · subst opens
          have passes := stands.pass_ascii ascii
          obtain ⟨behind, left⟩ := stands.left_ascii ascii
          have bracket : UInt8.ofNat '['.toNat = '['.toUInt8 := rfl
          rw [readBehind_bracket few, Scanner.readType, left]
          dsimp only
          rw [if_pos bracket]
          split
          · exact ⟨passes, rfl⟩
          · obtain ⟨further, scanned⟩ := ih (Ty.maxDimensions - (dimensions + 1)) (by omega)
              passes.stands (by omega) rfl
            exact ⟨passes.trans further, scanned⟩
        · have plain : (whole source position (c :: tail)).brackets = 0 := by
            simp [brackets, whole, opens]
          refine stands.agrees_readBehind_plain few plain (next?_whole_ascii ascii) ?_
          intro same
          apply opens
          rw [← ofNat_tag ascii, same]
          rfl
      · refine stands.agrees_readBehind_plain few plain next ?_
        rintro rfl
        exact absurd wide (by decide)

theorem Stands.agrees_readType (stands : cursor.Stands) :
    Agrees cursor cursor.readType (cursor.scanner.readType 0) := by
  rw [← readBehind_zero]
  exact stands.agrees_readBehind (Nat.zero_le _)

theorem Stands.atClose_iff (stands : cursor.Stands) :
    cursor.scanner.left.head? = some ')'.toUInt8 ↔ cursor.atClose = true := by
  rcases stands.cases with ⟨source, position, rfl⟩ | ⟨source, position, c, tail, ascii, rfl⟩ |
    ⟨tag, after, wide, next, -, notClose, -, -⟩
  · have left : (whole source position []).scanner.left = [] := stands.left_scanner
    rw [left]
    exact iff_of_false (by rintro ⟨⟩) (by rintro ⟨⟩)
  · obtain ⟨behind, left⟩ := stands.left_ascii ascii
    rw [left, atClose_whole_iff]
    constructor
    · intro same
      refine ⟨tail, ?_⟩
      rw [← ofNat_tag ascii, Option.some.inj same]
      rfl
    · rintro ⟨rest, ⟨⟩⟩
      rfl
  · obtain ⟨behind, left⟩ := stands.left_of_next? next
    rw [left, notClose]
    refine iff_of_false ?_ (by rintro ⟨⟩)
    rintro ⟨⟩
    exact absurd wide (by decide)

/-- Parameters are read at the same bytes, with the room that the slots before them leave. -/
theorem Stands.agrees_readParams {slots : Nat} (stands : cursor.Stands)
    (fits : slots + room = Signature.maxParameterSlots) :
    Agrees cursor (cursor.readParams room) (cursor.scanner.readParams slots) := by
  induction room using Nat.strong_induction_on generalizing cursor slots with
  | _ room ih =>
      rw [readParams, Scanner.readParams]
      by_cases closed : cursor.atClose = true
      · rw [if_pos closed, if_pos (stands.atClose_iff.mpr closed)]
        rcases stands.cases with ⟨source, position, rfl⟩ | ⟨source, position, c, tail, ascii, rfl⟩ |
          ⟨_, _, _, _, _, notClose, _, _⟩
        · cases closed
        · exact ⟨stands.pass_ascii ascii, rfl⟩
        · rw [notClose] at closed
          cases closed
      · rw [if_neg closed, if_neg (mt stands.atClose_iff.mp closed)]
        rcases stands.agrees_readType.cases with
          ⟨fault, next, readEq, scanned, follows⟩ | ⟨ty, next, readEq, scanned, follows⟩
        · rw [readEq, scanned]
          exact ⟨follows, rfl⟩
        rw [readEq, scanned]
        dsimp only
        by_cases void : ty = .void
        · rw [if_pos void, if_pos (Ty.slots_eq_zero_iff.mpr void)]
          exact ⟨follows, rfl⟩
        have filled := mt Ty.slots_eq_zero_iff.mp void
        rw [if_neg void, if_neg filled]
        by_cases tight : room < ty.slots
        · rw [if_pos tight, if_pos (by omega)]
          exact ⟨follows, rfl⟩
        rw [if_neg tight, if_neg (by omega)]
        have left : slots + ty.slots + (room - ty.slots) = Signature.maxParameterSlots := by omega
        rcases (ih (room - ty.slots) (by omega) follows.stands left).cases with
          ⟨fault, last, readEq, scanned, further⟩ | ⟨rest, last, readEq, scanned, further⟩
        · rw [readEq, scanned]
          exact ⟨follows.trans further, rfl⟩
        · rw [readEq, scanned]
          exact ⟨follows.trans further, rfl⟩

theorem readMethod_wide (found : cursor.next? = some (tag, after)) (wide : 127 < tag.toNat) :
    cursor.readMethod = (.error (.missingParenthesis cursor.source), after) := by
  have differs : tag ≠ '('.toUInt8 := by
    rintro rfl
    exact absurd wide (by decide)
  rw [readMethod, found]
  dsimp only
  rw [if_pos differs]

theorem Stands.agrees_readMethod (stands : cursor.Stands) :
    Agrees cursor cursor.readMethod cursor.scanner.readMethod := by
  rcases stands.cases with ⟨source, position, rfl⟩ | ⟨source, position, c, tail, ascii, rfl⟩ |
    ⟨tag, after, wide, next, -, -, moved, follows⟩
  · have left : (whole source position []).scanner.left = [] := stands.left_scanner
    rw [Scanner.readMethod, left]
    exact ⟨stands.follows, rfl⟩
  · obtain ⟨behind, left⟩ := stands.left_ascii ascii
    have passes := stands.pass_ascii ascii
    have start : (whole source position (c :: tail)).scanner.advance 1 =
        (whole source (position + 1) tail).scanner := rfl
    rw [readMethod, Scanner.readMethod, next?_whole_ascii ascii, left]
    dsimp only
    rw [start]
    split
    · exact ⟨passes, rfl⟩
    rcases (passes.stands.agrees_readParams (Nat.zero_add _)).cases with
      ⟨fault, closed, readEq, scanned, further⟩ | ⟨params, closed, readEq, scanned, further⟩
    · rw [readEq, scanned]
      exact ⟨passes.trans further, rfl⟩
    rw [readEq, scanned]
    dsimp only
    rcases further.stands.agrees_readType.cases with
      ⟨fault, last, readEq, scanned, least⟩ | ⟨ret, last, readEq, scanned, least⟩
    · rw [readEq, scanned]
      exact ⟨(passes.trans further).trans least, rfl⟩
    · rw [readEq, scanned]
      exact ⟨(passes.trans further).trans least, rfl⟩
  · obtain ⟨behind, left⟩ := stands.left_of_next? next
    have differs : tag ≠ '('.toUInt8 := by
      rintro rfl
      exact absurd wide (by decide)
    rw [readMethod_wide next wide, Scanner.readMethod, left]
    dsimp only
    rw [if_pos differs, ← moved]
    exact ⟨follows, rfl⟩

end Cursor

end Weaver.Descriptor
