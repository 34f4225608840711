import Weaver.Proofs.Descriptor.Scanner

/-!
# Reading on after any outcome

A cursor may be called again after a success and after a fault, in any order.  The main statement,
`call_resumes`, is about any text and any calls made before: a further call moves the cursor forward
within the text, cuts the text between characters only, and if it succeeds has passed the text of what
it read, which it reads in the same way wherever a text goes on with those bytes.
-/

namespace Weaver.Descriptor

open Text

/-- The readers of a cursor. -/
inductive Call where
  | type
  | method
  deriving DecidableEq

/-- What a reader gives. -/
inductive Reading where
  | type (ty : Ty)
  | method (signature : Signature)
  deriving DecidableEq

/-- The descriptor of what was read. -/
def Reading.text : Reading → String
  | .type ty => ty.text
  | .method signature => signature.text

/-- Call a reader. -/
def Cursor.call (cursor : Cursor) : Call → Except Fault Reading × Cursor
  | .type => (cursor.readType.1.map .type, cursor.readType.2)
  | .method => (cursor.readMethod.1.map .method, cursor.readMethod.2)

/-- The cursor behind several calls, whatever comes of them. -/
def Cursor.callAll (cursor : Cursor) (calls : List Call) : Cursor :=
  calls.foldl (fun cursor call => (cursor.call call).2) cursor

/-- Call a reader by byte offsets. -/
def Scanner.call (scanner : Scanner) : Call → Option (Except Fault Reading × Scanner)
  | .type => (scanner.readType 0).map fun read => (read.1.map .type, read.2)
  | .method => scanner.readMethod.map fun read => (read.1.map .method, read.2)

theorem exists_text_eq_ascii (reading : Reading) :
    ∃ c rest, reading.text.toList = c :: rest ∧ c.toNat ≤ 127 := by
  cases reading with
  | type ty =>
      cases ty with
      | object name =>
          refine ⟨'L', name.toList ++ [';'], ?_, by decide⟩
          rw [Reading.text, Ty.text, String.toList_append, String.toList_append]
          rfl
      | array element =>
          refine ⟨'[', element.text.toList, ?_, by decide⟩
          rw [Reading.text, Ty.text, String.toList_append]
          rfl
      | _ => exact ⟨_, [], rfl, by decide⟩
  | method signature => exact ⟨'(', _, Cursor.toList_text_signature signature, by decide⟩

namespace Cursor

variable {cursor after : Cursor} {source : String} {position : Nat} {chars : List Char} {call : Call}
  {reading : Reading}

theorem Agrees.map {α β : Type} {read : Except Fault α × Cursor}
    {scanned : Option (Except Fault α × Scanner)} (agrees : Agrees cursor read scanned)
    (f : α → β) :
    Agrees cursor (read.1.map f, read.2) (scanned.map fun read => (read.1.map f, read.2)) := by
  obtain ⟨follows, rfl⟩ := agrees
  exact ⟨follows, rfl⟩

/-- Both readers come to the same by characters and by byte offsets. -/
theorem Stands.agrees_call (stands : cursor.Stands) (call : Call) :
    Agrees cursor (cursor.call call) (cursor.scanner.call call) := by
  cases call with
  | type => exact stands.agrees_readType.map Reading.type
  | method => exact stands.agrees_readMethod.map Reading.method

/-- A cursor stands behind any calls. -/
theorem Stands.follows_callAll (stands : cursor.Stands) (calls : List Call) :
    cursor.Follows (cursor.callAll calls) := by
  induction calls generalizing cursor with
  | nil => exact stands.follows
  | cons call calls ih =>
      have follows := (stands.agrees_call call).follows
      exact follows.trans (ih follows.stands)

/-- No reader succeeds inside a character. -/
theorem Stands.exists_whole_of_call (stands : cursor.Stands)
    (read : cursor.call call = (.ok reading, after)) :
    ∃ source position chars, cursor = whole source position chars := by
  rcases stands.cases with ⟨source, position, rfl⟩ | ⟨source, position, c, tail, _, rfl⟩ |
    ⟨tag, behind, wide, next, plain, -, -, -⟩
  · exact ⟨source, position, [], rfl⟩
  · exact ⟨source, position, c :: tail, rfl⟩
  · cases call with
    | type =>
        rw [Cursor.call, ← readBehind_zero, readBehind_plain (Nat.zero_le _) plain,
          readElement_wide next wide] at read
        cases read
    | method =>
        rw [Cursor.call, readMethod_wide next wide] at read
        cases read

/-- A reader succeeds if the text of a proper value stands at the cursor, and only then. -/
theorem call_whole_eq_ok (read : (whole source position chars).call call = (.ok reading, after)) :
    (∃ tail, chars = reading.text.toList ++ tail ∧
      after = whole source (position + reading.text.utf8ByteSize) tail) ∧
    ∀ source position tail, (whole source position (reading.text.toList ++ tail)).call call =
      (.ok reading, whole source (position + reading.text.utf8ByteSize) tail) := by
  cases call with
  | type =>
      rw [Cursor.call] at read
      rcases outcome : (whole source position chars).readType with ⟨fault | ty, behind⟩
      · rw [outcome] at read
        cases read
      · rw [outcome] at read
        cases read
        obtain ⟨wellFormed, tail, parts, rfl⟩ := readType_eq_ok_iff.mp outcome
        refine ⟨⟨tail, parts, rfl⟩, fun source position tail => ?_⟩
        rw [Cursor.call, Reading.text, readType_text source position tail wellFormed]
        rfl
  | method =>
      rw [Cursor.call] at read
      rcases outcome : (whole source position chars).readMethod with ⟨fault | signature, behind⟩
      · rw [outcome] at read
        cases read
      · rw [outcome] at read
        cases read
        obtain ⟨wellFormed, tail, parts, rfl⟩ := readMethod_eq_ok_iff.mp outcome
        refine ⟨⟨tail, parts, rfl⟩, fun source position tail => ?_⟩
        rw [Cursor.call, Reading.text, readMethod_eq_ok_iff.mpr ⟨wellFormed, tail, rfl, rfl⟩]
        rfl

theorem Stands.exists_whole_of_isPrefix (stands : cursor.Stands)
    (starts : bytes reading.text <+: cursor.scanner.left) :
    ∃ tail, cursor = whole cursor.source cursor.position (reading.text.toList ++ tail) := by
  obtain ⟨c, rest, textEq, ascii⟩ := exists_text_eq_ascii reading
  obtain ⟨source, position, pending, chars⟩ := cursor
  rw [stands.left_scanner, bytes_eq] at starts
  dsimp only at starts ⊢
  cases pending with
  | nil =>
      obtain ⟨tail, rfl⟩ := isPrefix_of_encoded starts
      exact ⟨tail, rfl⟩
  | cons byte pending =>
      obtain ⟨_, _, _, _, _, wide⟩ := stands
      have large : 127 < byte.toNat := wide byte List.mem_cons_self
      rw [textEq, encoded, List.flatMap_cons, encode_ascii ascii, List.singleton_append,
        List.cons_append, List.cons_prefix_cons] at starts
      rw [← starts.1, UInt8.toNat_ofNat', Nat.mod_eq_of_lt (by omega)] at large
      omega

/-- A descriptor that is read at one cursor is read at any other where its bytes are left. -/
theorem Stands.call_of_isPrefix {other : Cursor} (stands : cursor.Stands)
    (read : cursor.call call = (.ok reading, after)) (otherStands : other.Stands)
    (starts : bytes reading.text <+: other.scanner.left) :
    ∃ behind, other.call call = (.ok reading, behind) ∧
      behind.scanner = other.scanner.advance reading.text.utf8ByteSize := by
  obtain ⟨source, position, chars, rfl⟩ := stands.exists_whole_of_call read
  obtain ⟨tail, standsAt⟩ := otherStands.exists_whole_of_isPrefix starts
  have again := (call_whole_eq_ok read).2 other.source other.position tail
  rw [← standsAt] at again
  exact ⟨_, again, rfl⟩

theorem position_le_of_isPrefix (starts : bytes reading.text <+: (Scanner.mk source position).left) :
    position ≤ source.utf8ByteSize := by
  obtain ⟨c, rest, textEq, ascii⟩ := exists_text_eq_ascii reading
  rw [← length_bytes]
  by_contra beyond
  have nothing : (Scanner.mk source position).left = [] :=
    List.drop_eq_nil_of_le (Nat.le_of_not_le beyond)
  rw [nothing, List.prefix_nil, bytes_eq, textEq, encoded, List.flatMap_cons, encode_ascii ascii]
    at starts
  cases starts

theorem exists_stands (source : String) (inside : position ≤ source.utf8ByteSize) :
    ∃ cursor : Cursor, cursor.Stands ∧ cursor.scanner = ⟨source, position⟩ := by
  induction position with
  | zero => exact ⟨ofString source, stands_ofString source, rfl⟩
  | succ position ih =>
      obtain ⟨cursor, stands, same⟩ := ih (Nat.le_of_succ_le inside)
      rcases stands.cases with ⟨text, place, rfl⟩ | ⟨_, _, c, tail, ascii, rfl⟩ |
        ⟨tag, behind, -, -, -, -, moved, follows⟩
      · cases same
        have nothing : (whole text place []).scanner.left = [] := stands.left_scanner
        have passed := List.drop_eq_nil_iff.mp nothing
        rw [length_bytes] at passed
        exact absurd passed (Nat.not_le_of_lt inside)
      · cases same
        exact ⟨_, (stands.pass_ascii ascii).stands, rfl⟩
      · rw [same] at moved
        exact ⟨behind, follows.stands, moved⟩

/-- What a further call at a cursor is like, whatever comes of it. -/
structure Resumes (cursor : Cursor) (call : Call) : Prop where
  /-- The position does not decrease. -/
  ordered : cursor.position ≤ (cursor.call call).2.position
  /-- The position does not go beyond the end of the text. -/
  inside : (cursor.call call).2.position ≤ cursor.source.utf8ByteSize
  /-- By byte offsets, where a cut off the boundaries of characters comes to nothing, the call ends with
  the same result at the same position. -/
  scanned : cursor.scanner.call call = some ((cursor.call call).1, (cursor.call call).2.scanner)
  /-- If the call succeeds it has passed the bytes of the descriptor of what it read. -/
  consumed : ∀ reading, (cursor.call call).1 = .ok reading →
    (cursor.call call).2.position = cursor.position + reading.text.utf8ByteSize ∧
    cursor.scanner.left = bytes reading.text ++ (cursor.call call).2.scanner.left
  /-- If the call succeeds it does so in any text, behind any calls, where those bytes come next. -/
  again : ∀ reading, (cursor.call call).1 = .ok reading → ∀ source calls,
    bytes reading.text <+: ((ofString source).callAll calls).scanner.left →
    (((ofString source).callAll calls).call call).1 = .ok reading ∧
    (((ofString source).callAll calls).call call).2.position =
      ((ofString source).callAll calls).position + reading.text.utf8ByteSize
  /-- The same holds at any byte offset of any text. -/
  elsewhere : ∀ reading, (cursor.call call).1 = .ok reading → ∀ other : Scanner,
    bytes reading.text <+: other.left →
    other.call call = some (.ok reading, other.advance reading.text.utf8ByteSize)

theorem Stands.resumes (stands : cursor.Stands) (call : Call) : cursor.Resumes call := by
  obtain ⟨follows, scanned⟩ := stands.agrees_call call
  rcases outcome : cursor.call call with ⟨result, after⟩
  rw [outcome] at follows scanned
  have read : ∀ {reading}, result = .ok reading → cursor.call call = (.ok reading, after) := by
    rintro reading rfl
    exact outcome
  refine ⟨?_, ?_, ?_, ?_, ?_, ?_⟩
  all_goals rw [outcome]
  · exact follows.position
  · exact follows.source ▸ follows.stands.position_le
  · exact scanned
  · intro reading succeeded
    obtain ⟨source, position, chars, rfl⟩ := stands.exists_whole_of_call (read succeeded)
    obtain ⟨⟨tail, rfl, rfl⟩, -⟩ := call_whole_eq_ok (read succeeded)
    refine ⟨rfl, ?_⟩
    rw [stands.left_scanner, follows.stands.left_scanner, bytes_eq]
    exact encoded_append _ _
  · intro reading succeeded source calls starts
    have standsAt := (stands_ofString source).follows_callAll calls
    obtain ⟨behind, againEq, moved⟩ :=
      stands.call_of_isPrefix (read succeeded) standsAt.stands starts
    rw [againEq]
    exact ⟨rfl, congrArg Scanner.position moved⟩
  · intro reading succeeded other starts
    obtain ⟨source, position⟩ := other
    obtain ⟨place, placeStands, same⟩ := exists_stands source (position_le_of_isPrefix starts)
    rw [← same] at starts ⊢
    obtain ⟨behind, againEq, moved⟩ := stands.call_of_isPrefix (read succeeded) placeStands starts
    rw [(placeStands.agrees_call call).scanned, againEq, ← moved]

/-- Calls of the readers may follow each other in any order and with any outcome.  Behind any calls a
further call ends with a result, never moves back and never leaves the text, cuts the text between
characters only, and if it succeeds has passed exactly the descriptor of what it read, which is read
in the same way wherever its bytes come next. -/
theorem call_resumes (source : String) (calls : List Call) (call : Call) :
    ((ofString source).callAll calls).source = source ∧
      ((ofString source).callAll calls).Resumes call := by
  have follows := (stands_ofString source).follows_callAll calls
  exact ⟨follows.source, follows.stands.resumes call⟩

/-- Two calls that fail inside a character are followed by one that succeeds behind it. -/
example :
    let cursor := (ofString "é(I)V").callAll [.method, .type]
    cursor.position = 2 ∧ (cursor.call .method).1 = .ok (.method ⟨[.int], .void⟩) := by
  cbv

end Cursor

end Weaver.Descriptor
