import Weaver.Signature
import Weaver.Descriptor.Fault

/-!
# Reading descriptors

A `Cursor` stands at a byte of its source.  `Cursor.readType` and `Cursor.readMethod` read one
descriptor from there and leave the cursor where reading stopped, after a fault as well, so that a
cursor can be used again.  All of a descriptor but its class names is ASCII; a character of several
bytes is only ever entered when its first byte is refused as a tag, and its other bytes are then
`pending`.
-/

namespace Weaver.Descriptor

/-- A position in a text. -/
structure Cursor where
  source : String
  /-- The number of bytes before the cursor. -/
  position : Nat
  /-- The bytes that are left of a character whose first byte was read. -/
  pending : List UInt8
  /-- The characters that are left whole. -/
  rest : List Char
  deriving DecidableEq

namespace Cursor

/-- The cursor at the start of a text. -/
def ofString (source : String) : Cursor := ⟨source, 0, [], source.toList⟩

/-- Whether anything is left to read. -/
def hasMore (cursor : Cursor) : Bool := !cursor.pending.isEmpty || !cursor.rest.isEmpty

/-- The next byte, and the cursor behind it. -/
def next? (cursor : Cursor) : Option (UInt8 × Cursor) :=
  match cursor.pending, cursor.rest with
  | byte :: pending, _ =>
      some (byte, { cursor with position := cursor.position + 1, pending })
  | [], c :: rest =>
      match String.utf8EncodeChar c with
      | byte :: pending =>
          some (byte, { cursor with position := cursor.position + 1, pending, rest })
      | [] => none
  | [], [] => none

/-- The cursor behind the next `count` characters, which must be ASCII. -/
def skip (cursor : Cursor) (count : Nat) : Cursor :=
  { cursor with position := cursor.position + count, rest := cursor.rest.drop count }

/-- The number of opening brackets at the cursor. -/
def brackets (cursor : Cursor) : Nat :=
  if cursor.pending.isEmpty then (cursor.rest.takeWhile (· = '[')).length else 0

/-- The type of one letter that a tag stands for. -/
def letter? (tag : UInt8) : Option Ty :=
  match Char.ofNat tag.toNat with
  | 'V' => some .void
  | 'Z' => some .boolean
  | 'B' => some .byte
  | 'C' => some .char
  | 'S' => some .short
  | 'I' => some .int
  | 'J' => some .long
  | 'F' => some .float
  | 'D' => some .double
  | _ => none

/-- Read a class name up to its semicolon; `start` is the position of the tag before it. -/
def readClass (cursor : Cursor) (start : Nat) : Except Fault Ty × Cursor :=
  let name := String.ofList (cursor.rest.takeWhile (· ≠ ';'))
  match cursor.rest.dropWhile (· ≠ ';') with
  | [] => (.error (.unterminatedClass cursor.source start), cursor)
  | _ :: rest =>
      if name = "" then (.error (.emptyClass cursor.source start), cursor)
      else
        (.ok (.object name),
          { cursor with position := cursor.position + name.utf8ByteSize + 1, rest })

/-- Read a type that is no array. -/
def readElement (cursor : Cursor) : Except Fault Ty × Cursor :=
  match cursor.next? with
  | none => (.error (.endOfInput cursor.source), cursor)
  | some (tag, after) =>
      match letter? tag with
      | some ty => (.ok ty, after)
      | none =>
          if tag = 'L'.toUInt8 then after.readClass cursor.position
          else (.error (.invalidTag tag cursor.source cursor.position), after)

/-- Read one type, void included. -/
def readType (cursor : Cursor) : Except Fault Ty × Cursor :=
  let dimensions := cursor.brackets
  if Ty.maxDimensions < dimensions then
    (.error (.tooManyDimensions cursor.source), cursor.skip (Ty.maxDimensions + 1))
  else
    match (cursor.skip dimensions).readElement with
    | (.error fault, after) => (.error fault, after)
    | (.ok element, after) =>
        if 0 < dimensions ∧ element = .void then (.error (.arrayOfVoid cursor.source), after)
        else (.ok (element.wrap dimensions), after)

/-- Whether the parameter list ends at the cursor. -/
def atClose (cursor : Cursor) : Bool :=
  cursor.pending.isEmpty && cursor.rest.head? == some ')'

/-- Read parameters up to the closing parenthesis; they may take at most `room` slots. -/
def readParams (cursor : Cursor) (room : Nat) : Except Fault (List Ty) × Cursor :=
  if cursor.atClose then (.ok [], cursor.skip 1)
  else
    match cursor.readType with
    | (.error fault, after) => (.error fault, after)
    | (.ok ty, after) =>
        if ty.slots = 0 then (.error (.voidParameter cursor.source), after)
        else if room < ty.slots then (.error (.tooManySlots cursor.source), after)
        else
          match after.readParams (room - ty.slots) with
          | (.error fault, last) => (.error fault, last)
          | (.ok rest, last) => (.ok (ty :: rest), last)
termination_by room
decreasing_by omega

/-- The parameters that were read take no more room than there was. -/
theorem slots_le_of_readParams {cursor after : Cursor} {room : Nat} {params : List Ty}
    (h : cursor.readParams room = (.ok params, after)) :
    params.foldr (fun ty slots => ty.slots + slots) 0 ≤ room := by
  induction room using Nat.strongRecOn generalizing cursor params with
  | ind room ih =>
    unfold readParams at h
    split at h
    · cases h
      exact Nat.zero_le _
    · split at h
      · cases h
      · rename_i ty behind _
        split at h
        · cases h
        · split at h
          · cases h
          · split at h
            · cases h
            · rename_i rest last read
              cases h
              have later := ih (room - ty.slots) (by omega) read
              rw [List.foldr_cons]
              omega

/-- Read one method descriptor. -/
def readMethod (cursor : Cursor) : Except Fault Signature × Cursor :=
  match cursor.next? with
  | none => (.error (.endOfInput cursor.source), cursor)
  | some (tag, opened) =>
      if tag ≠ '('.toUInt8 then (.error (.missingParenthesis cursor.source), opened)
      else
        match opened.readParams Signature.maxParameterSlots with
        | (.error fault, after) => (.error fault, after)
        | (.ok params, closed) =>
            match closed.readType with
            | (.error fault, after) => (.error fault, after)
            | (.ok ret, after) => (.ok ⟨params, ret⟩, after)

end Cursor

end Weaver.Descriptor

namespace Weaver

/-- Read a text that is one type descriptor and nothing else. -/
def Ty.parse (source : String) : Except Descriptor.Fault Ty :=
  match (Descriptor.Cursor.ofString source).readType with
  | (.error fault, _) => .error fault
  | (.ok ty, after) =>
      if after.hasMore then .error (.afterType source after.position) else .ok ty

/-- Read a text that is one method descriptor and nothing else. -/
def Signature.parse (source : String) : Except Descriptor.Fault Signature :=
  match (Descriptor.Cursor.ofString source).readMethod with
  | (.error fault, _) => .error fault
  | (.ok signature, after) =>
      if after.hasMore then .error (.afterMethod source after.position) else .ok signature

/-- The parameters of a signature that was read are limited. -/
theorem Signature.totalSlots_le_of_parse {source : String} {signature : Signature}
    (h : Signature.parse source = .ok signature) : signature.totalSlots ≤ maxParameterSlots := by
  unfold Signature.parse at h
  split at h
  · cases h
  · rename_i read after found
    split at h
    · cases h
    · cases h
      unfold Descriptor.Cursor.readMethod at found
      split at found
      · cases found
      · split at found
        · cases found
        · split at found
          · cases found
          · rename_i params closed readAll
            split at found
            · cases found
            · cases found
              exact Descriptor.Cursor.slots_le_of_readParams readAll

end Weaver
