import Mathlib.Data.List.TakeWhile

/-!
# The bytes of a text

A text is also a list of bytes, in which a character takes one byte if it is ASCII and else several
bytes that are all not ASCII.  `Text.slice?` cuts a text by byte offsets, where there is a character
at both ends of the cut.
-/

namespace Weaver.Text

/-- The bytes of a text. -/
def bytes (source : String) : List UInt8 := source.toByteArray.data.toList

/-- The bytes of some characters. -/
def encoded (chars : List Char) : List UInt8 := chars.flatMap String.utf8EncodeChar

/-- The part of a text between two byte offsets.  There is none if one of them lies inside a character
or behind the end of the text, or if they stand in the wrong order. -/
def slice? (source : String) (first last : Nat) : Option String :=
  if inside : first ≤ last ∧ String.Pos.Raw.IsValid source ⟨first⟩ ∧
      String.Pos.Raw.IsValid source ⟨last⟩ then
    some (String.extract ⟨⟨first⟩, inside.2.1⟩ ⟨⟨last⟩, inside.2.2⟩)
  else none

section

variable {source : String} {chars front rest : List Char} {c : Char} {byte : UInt8}

theorem bytes_eq (source : String) : bytes source = encoded source.toList := by
  have whole : source.toByteArray = source.toList.utf8Encode := by
    rw [← String.toByteArray_ofList, String.ofList_toList]
  rw [bytes, whole, List.utf8Encode, List.data_toByteArray]
  rfl

theorem length_bytes (source : String) : (bytes source).length = source.utf8ByteSize := by
  rw [← String.size_toByteArray]
  exact Array.length_toList

theorem encoded_append (front rest : List Char) :
    encoded (front ++ rest) = encoded front ++ encoded rest :=
  List.flatMap_append

theorem length_encoded (chars : List Char) :
    (encoded chars).length = (String.ofList chars).utf8ByteSize := by
  rw [← length_bytes, bytes_eq, String.toList_ofList]

theorem encode_ascii (ascii : c.toNat ≤ 127) : String.utf8EncodeChar c = [UInt8.ofNat c.toNat] :=
  if_pos ascii

theorem lt_toNat_of_mem_encode (wide : 127 < c.toNat) (member : byte ∈ String.utf8EncodeChar c) :
    127 < byte.toNat := by
  have number : c.val.toNat = c.toNat := rfl
  unfold String.utf8EncodeChar at member
  dsimp only at member
  rw [number, if_neg (Nat.not_le_of_lt wide)] at member
  split at member
  · simp only [List.mem_cons, List.not_mem_nil, or_false] at member
    rcases member with rfl | rfl <;> · rw [UInt8.toNat_ofNat']; omega
  · split at member
    · simp only [List.mem_cons, List.not_mem_nil, or_false] at member
      rcases member with rfl | rfl | rfl <;> · rw [UInt8.toNat_ofNat']; omega
    · simp only [List.mem_cons, List.not_mem_nil, or_false] at member
      rcases member with rfl | rfl | rfl | rfl <;> · rw [UInt8.toNat_ofNat']; omega

/-- A character that is not ASCII begins with a byte that is not, like those behind it. -/
theorem exists_encode_wide (wide : 127 < c.toNat) :
    ∃ byte others, String.utf8EncodeChar c = byte :: others ∧ 127 < byte.toNat ∧
      ∀ other ∈ others, 127 < other.toNat := by
  cases bytesEq : String.utf8EncodeChar c with
  | nil =>
      have some := c.utf8Size_pos
      rw [← String.length_utf8EncodeChar, bytesEq] at some
      cases some
  | cons byte others =>
      have all : ∀ other ∈ byte :: others, 127 < other.toNat := by
        intro other member
        rw [← bytesEq] at member
        exact lt_toNat_of_mem_encode wide member
      exact ⟨byte, others, rfl, List.forall_mem_cons.mp all⟩

/-- A character begins with a byte, and if that byte is ASCII there is no other. -/
theorem exists_encode_eq_cons (c : Char) :
    ∃ byte others, String.utf8EncodeChar c = byte :: others ∧
      (∀ other ∈ others, 127 < other.toNat) ∧
      (byte.toNat ≤ 127 → others = [] ∧ c.toNat = byte.toNat) := by
  rcases Nat.lt_or_ge 127 c.toNat with wide | ascii
  · obtain ⟨byte, others, bytesEq, first, more⟩ := exists_encode_wide wide
    exact ⟨byte, others, bytesEq, more, fun small => absurd first (Nat.not_lt_of_le small)⟩
  · refine ⟨_, [], encode_ascii ascii, List.forall_mem_nil _, fun _ => ⟨rfl, ?_⟩⟩
    rw [UInt8.toNat_ofNat', Nat.mod_eq_of_lt (by omega)]

theorem not_mem_encoded (ascii : c.toNat ≤ 127) (absent : c ∉ chars) :
    UInt8.ofNat c.toNat ∉ encoded chars := by
  have number : (UInt8.ofNat c.toNat).toNat = c.toNat := by
    rw [UInt8.toNat_ofNat', Nat.mod_eq_of_lt (by omega)]
  intro member
  obtain ⟨other, otherMember, byteMember⟩ := List.mem_flatMap.mp member
  obtain ⟨byte, others, encodeEq, wide, single⟩ := exists_encode_eq_cons other
  rw [encodeEq, List.mem_cons] at byteMember
  rcases byteMember with same | behind
  · have equal : other.toNat = c.toNat := by
      rw [← number, same]
      exact (single (by rw [← same, number]; exact ascii)).2
    have : other = c := Char.toNat_inj.mp equal
    exact absent (this ▸ otherMember)
  · have large := wide _ behind
    omega

theorem idxOf?_encoded_append (ascii : c.toNat ≤ 127) (absent : c ∉ front) :
    (encoded (front ++ c :: rest)).idxOf? (UInt8.ofNat c.toNat) = some (encoded front).length := by
  have before : (encoded front).findIdx? (· == UInt8.ofNat c.toNat) = none :=
    List.idxOf?_eq_none_iff.mpr (not_mem_encoded ascii absent)
  have behind : encoded (c :: rest) = UInt8.ofNat c.toNat :: encoded rest := by
    rw [encoded, List.flatMap_cons, encode_ascii ascii]
    rfl
  rw [List.idxOf?, encoded_append, List.findIdx?_append, before, behind, List.findIdx?_cons,
    if_pos BEq.rfl]
  exact congrArg some (Nat.zero_add _)

theorem isPrefix_of_encoded (starts : encoded front <+: encoded chars) : front <+: chars := by
  obtain ⟨back, parts⟩ := starts
  apply List.isPrefix_of_utf8Encode_append_eq_utf8Encode back.toByteArray
  rw [List.utf8Encode, List.utf8Encode, ← List.toByteArray_append]
  exact congrArg List.toByteArray parts

/-- The part of a text behind some characters is cut out by the offsets of its two ends. -/
theorem slice?_append (front middle back : String) :
    slice? (front ++ middle ++ back) front.utf8ByteSize
      (front.utf8ByteSize + middle.utf8ByteSize) = some middle := by
  have first : String.Pos.Raw.IsValid (front ++ middle ++ back) ⟨front.utf8ByteSize⟩ :=
    String.Pos.Raw.isValid_iff_exists_append.mpr ⟨front, middle ++ back, String.append_assoc, rfl⟩
  have last : String.Pos.Raw.IsValid (front ++ middle ++ back)
      ⟨front.utf8ByteSize + middle.utf8ByteSize⟩ := by
    refine String.Pos.Raw.isValid_iff_exists_append.mpr ⟨front ++ middle, back, rfl, ?_⟩
    rw [String.Pos.Raw.ext_iff, String.byteIdx_rawEndPos, String.utf8ByteSize_append]
  rw [slice?, dif_pos ⟨Nat.le_add_right _ _, first, last⟩]
  apply congrArg some
  rw [← String.toByteArray_inj, String.toByteArray_extract, String.toByteArray_append,
    String.toByteArray_append]
  have behind := ByteArray.extract_append_size_add (a := front.toByteArray)
    (b := middle.toByteArray ++ back.toByteArray) (i := 0) (j := middle.toByteArray.size)
  rw [ByteArray.extract_append_eq_left rfl, ← ByteArray.append_assoc] at behind
  exact behind

end

end Weaver.Text
