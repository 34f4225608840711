import Mathlib.Data.List.TakeWhile
import Weaver.Descriptor.Cursor
import Weaver.Proofs.Text.Bytes

/-!
# What a cursor reads

Each reader succeeds exactly where the text of a well-formed value begins, gives that value, and stops
behind its text.  Only whole characters are read that way: a character of several bytes is refused by
its first byte.
-/

namespace Weaver

namespace Ty

variable {ty element : Ty}

theorem dimensions_innermost (ty : Ty) : ty.innermost.dimensions = 0 := by
  induction ty with
  | array element ih => exact ih
  | _ => rfl

theorem wrap_innermost (ty : Ty) : ty.innermost.wrap ty.dimensions = ty := by
  induction ty with
  | array element ih => exact congrArg Ty.array ih
  | _ => rfl

theorem dimensions_wrap (bare : element.dimensions = 0) (count : Nat) :
    (element.wrap count).dimensions = count := by
  induction count with
  | zero => exact bare
  | succ count ih => exact congrArg (· + 1) ih

theorem innermost_wrap (bare : element.dimensions = 0) (count : Nat) :
    (element.wrap count).innermost = element := by
  induction count with
  | zero => cases element <;> first | rfl | cases bare
  | succ count ih => exact ih

theorem toList_text_wrap (element : Ty) (count : Nat) :
    (element.wrap count).text.toList = List.replicate count '[' ++ element.text.toList := by
  induction count with
  | zero => rfl
  | succ count ih =>
      rw [wrap, text, String.toList_append, ih]
      rfl

theorem utf8ByteSize_text_wrap (element : Ty) (count : Nat) :
    (element.wrap count).text.utf8ByteSize = count + element.text.utf8ByteSize := by
  induction count with
  | zero => exact (Nat.zero_add _).symm
  | succ count ih =>
      rw [wrap, text, String.utf8ByteSize_append, ih]
      have one : "[".utf8ByteSize = 1 := rfl
      omega

theorem toList_text_eq (ty : Ty) :
    ty.text.toList = List.replicate ty.dimensions '[' ++ ty.innermost.text.toList := by
  rw [← toList_text_wrap, wrap_innermost]

theorem utf8ByteSize_text_eq (ty : Ty) :
    ty.text.utf8ByteSize = ty.dimensions + ty.innermost.text.utf8ByteSize := by
  rw [← utf8ByteSize_text_wrap, wrap_innermost]

/-- A well-formed type is an array of few dimensions over a well-formed type that is no array. -/
theorem wellFormed_wrap_iff (bare : element.dimensions = 0) (count : Nat) :
    (element.wrap count).WellFormed ↔
      element.WellFormed ∧ count ≤ maxDimensions ∧ (0 < count → element ≠ .void) := by
  have innermostEq : element.innermost = element := innermost_wrap bare 0
  unfold WellFormed
  rw [dimensions_wrap bare, innermost_wrap bare, bare, innermostEq]
  constructor
  · rintro ⟨few, filled, named⟩
    exact ⟨⟨Nat.zero_le _, fun some => absurd some (Nat.lt_irrefl 0), named⟩, few, filled⟩
  · rintro ⟨⟨_, _, named⟩, few, filled⟩
    exact ⟨few, filled, named⟩

/-- A descriptor begins with a bracket only if it is that of an array, and never with a parenthesis. -/
theorem exists_text_eq_cons (ty : Ty) :
    ∃ first rest, ty.text.toList = first :: rest ∧ first ≠ ')' ∧
      (ty.dimensions = 0 → first ≠ '[') := by
  cases ty with
  | object name =>
      refine ⟨'L', name.toList ++ [';'], ?_, by decide, fun _ => by decide⟩
      rw [text, String.toList_append, String.toList_append]
      rfl
  | array element =>
      refine ⟨'[', element.text.toList, ?_, by decide, fun bare => absurd bare (Nat.succ_ne_zero _)⟩
      rw [text, String.toList_append]
      rfl
  | _ => exact ⟨_, [], rfl, by decide, fun _ => by decide⟩

end Ty

namespace Descriptor.Cursor

variable {source : String} {position room : Nat} {chars : List Char} {tag : UInt8} {ty : Ty}
  {params : List Ty} {after : Cursor}

/-- A cursor that stands at a whole character. -/
def whole (source : String) (position : Nat) (chars : List Char) : Cursor :=
  ⟨source, position, [], chars⟩

theorem next?_whole_ascii {c : Char} (ascii : c.toNat ≤ 127) :
    (whole source position (c :: chars)).next? =
      some (UInt8.ofNat c.toNat, whole source (position + 1) chars) := by
  rw [next?, whole]
  dsimp only
  rw [Text.encode_ascii ascii]
  rfl

/-- Any other character shows a byte that is not ASCII. -/
theorem next?_whole_wide (source : String) (position : Nat) (chars : List Char) {c : Char}
    (wide : 127 < c.toNat) :
    ∃ tag after, (whole source position (c :: chars)).next? = some (tag, after) ∧
      127 < tag.toNat := by
  obtain ⟨tag, pending, encoded, large, _⟩ := Text.exists_encode_wide wide
  refine ⟨tag, ⟨source, position + 1, pending, chars⟩, ?_, large⟩
  rw [next?, whole]
  dsimp only
  rw [encoded]

/-- A tag stands for a type exactly if it is the whole descriptor of that type. -/
theorem letter?_eq_some_iff :
    letter? tag = some ty ↔ ty.text.toList = [Char.ofNat tag.toNat] := by
  unfold letter?
  constructor
  · intro found
    split at found
    all_goals
      first
      | (rename_i letter
         cases found
         rw [letter]
         rfl)
      | cases found
  · intro alone
    cases ty with
    | object name =>
        have longer := congrArg List.length alone
        rw [Ty.text, String.toList_append, String.toList_append, List.length_append,
          List.length_append] at longer
        have one : "L".toList.length = 1 ∧ ";".toList.length = 1 := ⟨rfl, rfl⟩
        rw [one.1, one.2, List.length_singleton] at longer
        omega
    | array element =>
        obtain ⟨first, rest, textEq, _⟩ := element.exists_text_eq_cons
        rw [Ty.text, String.toList_append, textEq] at alone
        have longer := congrArg List.length alone
        rw [List.length_append, List.length_cons, List.length_singleton] at longer
        have one : "[".toList.length = 1 := rfl
        omega
    | _ =>
        simp only [Ty.text, String.reduceToList, List.cons.injEq, and_true] at alone
        rw [← alone]
        rfl

theorem ofNat_tag {c : Char} (ascii : c.toNat ≤ 127) :
    Char.ofNat (UInt8.ofNat c.toNat).toNat = c := by
  rw [UInt8.toNat_ofNat', Nat.mod_eq_of_lt (by omega), Char.ofNat_toNat]

theorem letter?_eq_none (large : 127 < tag.toNat) : letter? tag = none := by
  have number : (Char.ofNat tag.toNat).toNat = tag.toNat := by
    have below := tag.toNat_lt
    have valid : tag.toNat.isValidChar := .inl (by omega)
    rw [Char.ofNat, dif_pos valid]
    rfl
  unfold letter?
  split
  all_goals
    first
    | (rename_i letter
       rw [letter] at number
       have ascii : tag.toNat ≤ 127 := by rw [← number]; decide
       omega)
    | rfl

/-- A class name is read up to the first semicolon, and must not be empty. -/
theorem readClass_eq_ok_iff {start : Nat} :
    (whole source position chars).readClass start = (.ok ty, after) ↔
      ∃ name tail, ty = .object name ∧ name ≠ "" ∧ ';' ∉ name.toList ∧
        chars = name.toList ++ ';' :: tail ∧
        after = whole source (position + name.utf8ByteSize + 1) tail := by
  have parts := List.takeWhile_append_dropWhile (p := (· ≠ ';')) (l := chars)
  unfold readClass whole
  dsimp only
  constructor
  · intro read
    cases behind : chars.dropWhile (· ≠ ';') with
    | nil =>
        rw [behind] at read
        cases read
    | cons c tail =>
        obtain rfl : c = ';' := by
          have first := List.head?_dropWhile_not (· ≠ ';') chars
          rw [behind] at first
          simpa using first
        rw [behind] at read parts
        dsimp only at read
        split at read
        · cases read
        · rename_i filled
          cases read
          refine ⟨_, tail, rfl, filled, ?_, ?_, rfl⟩
          · rw [String.toList_ofList]
            intro member
            simpa using List.mem_takeWhile_imp member
          · rw [String.toList_ofList]
            exact parts.symm
  · rintro ⟨name, tail, rfl, filled, plain, rfl, rfl⟩
    have other : ∀ c ∈ name.toList, (decide (c ≠ ';')) = true := by
      intro c member
      apply decide_eq_true
      rintro rfl
      exact plain member
    rw [List.takeWhile_append_of_pos other, List.dropWhile_append_of_pos other]
    simp [filled]

/-- What a reader of types comes to if it succeeds: it finds the text of a well-formed type, and the
cursor stands behind it. -/
def Takes (source : String) (position : Nat) (chars : List Char) (ty : Ty) (after : Cursor) : Prop :=
  ty.WellFormed ∧ ∃ tail, chars = ty.text.toList ++ tail ∧
    after = whole source (position + ty.text.utf8ByteSize) tail

/-- A descriptor of one character is that of a type without a name, and of no array. -/
theorem takes_letter {c : Char} (letter : ty.text.toList = [c]) :
    ty.dimensions = 0 ∧ Takes source position (c :: chars) ty
      (whole source (position + 1) chars) := by
  have single : ty.text.toList.length = 1 := congrArg List.length letter
  cases ty with
  | object name =>
      rw [Ty.text, String.toList_append, String.toList_append, List.length_append,
        List.length_append] at single
      have one : "L".toList.length = 1 ∧ ";".toList.length = 1 := ⟨rfl, rfl⟩
      omega
  | array element =>
      obtain ⟨first, rest, textEq, _⟩ := element.exists_text_eq_cons
      rw [Ty.text, String.toList_append, List.length_append, textEq, List.length_cons] at single
      have one : "[".toList.length = 1 := rfl
      omega
  | _ =>
      refine ⟨rfl, ⟨Nat.zero_le _, ?_, ?_⟩, chars, ?_, rfl⟩
      · exact fun some => absurd some (Nat.lt_irrefl 0)
      · rintro name ⟨⟩
      · rw [letter]
        rfl

theorem takes_object_iff {name : String} :
    Takes source position ('L' :: chars) (.object name) after ↔
      name ≠ "" ∧ ';' ∉ name.toList ∧ ∃ tail, chars = name.toList ++ ';' :: tail ∧
        after = whole source (position + 1 + name.utf8ByteSize + 1) tail := by
  have textEq : (Ty.object name).text.toList = 'L' :: (name.toList ++ [';']) := by
    rw [Ty.text, String.toList_append, String.toList_append]
    rfl
  have size : position + (Ty.object name).text.utf8ByteSize =
      position + 1 + name.utf8ByteSize + 1 := by
    rw [Ty.text, String.utf8ByteSize_append, String.utf8ByteSize_append]
    have one : "L".utf8ByteSize = 1 ∧ ";".utf8ByteSize = 1 := ⟨rfl, rfl⟩
    omega
  have wellFormed : (Ty.object name).WellFormed ↔ name ≠ "" ∧ ';' ∉ name.toList := by
    constructor
    · exact fun whole => whole.2.2 name rfl
    · rintro plain
      refine ⟨Nat.zero_le _, fun some => absurd some (Nat.lt_irrefl 0), ?_⟩
      rintro other ⟨⟩
      exact plain
  rw [Takes, wellFormed, and_assoc, size, textEq]
  simp only [List.cons_append, List.append_assoc, List.cons.injEq, true_and, List.nil_append]

/-- A type without a name is read by its letter. -/
theorem readElement_letter {c : Char} (ascii : c.toNat ≤ 127) (letter : ty.text.toList = [c]) :
    (whole source position (c :: chars)).readElement =
      (.ok ty, whole source (position + 1) chars) := by
  have found : letter? (UInt8.ofNat c.toNat) = some ty := by
    rw [letter?_eq_some_iff, ofNat_tag ascii]
    exact letter
  unfold readElement
  rw [next?_whole_ascii ascii]
  dsimp only
  rw [found]

theorem readElement_object :
    (whole source position ('L' :: chars)).readElement =
      (whole source (position + 1) chars).readClass position := by
  unfold readElement
  rw [next?_whole_ascii (by decide)]
  rfl

/-- A character that is no letter and does not open a class is refused. -/
theorem readElement_refuses (source : String) (position : Nat) (chars : List Char) {c : Char}
    (noLetter : ∀ ty : Ty, c.toNat ≤ 127 → ty.text.toList ≠ [c]) (noClass : c ≠ 'L') :
    ∃ fault after, (whole source position (c :: chars)).readElement = (.error fault, after) := by
  unfold readElement
  rcases Nat.lt_or_ge 127 c.toNat with wide | ascii
  · obtain ⟨tag, behind, next, large⟩ :=
      next?_whole_wide source position chars wide
    have differs : tag ≠ 'L'.toUInt8 := by
      rintro rfl
      exact absurd large (by decide)
    rw [next]
    dsimp only
    rw [letter?_eq_none large, if_neg differs]
    exact ⟨_, _, rfl⟩
  · have differs : UInt8.ofNat c.toNat ≠ 'L'.toUInt8 := by
      intro same
      apply noClass
      rw [← ofNat_tag ascii, same]
      rfl
    have unknown : letter? (UInt8.ofNat c.toNat) = none := by
      apply Option.eq_none_iff_forall_ne_some.mpr
      intro ty found
      rw [letter?_eq_some_iff, ofNat_tag ascii] at found
      exact noLetter ty ascii found
    rw [next?_whole_ascii ascii]
    dsimp only
    rw [unknown, if_neg differs]
    exact ⟨_, _, rfl⟩

/-- A type that is no array is read where its text begins. -/
theorem readElement_eq_ok_iff :
    (whole source position chars).readElement = (.ok ty, after) ↔
      ty.dimensions = 0 ∧ Takes source position chars ty after := by
  constructor
  · intro read
    cases chars with
    | nil => cases read
    | cons c tail =>
        by_cases letter : ∃ known : Ty, c.toNat ≤ 127 ∧ known.text.toList = [c]
        · obtain ⟨known, ascii, textEq⟩ := letter
          rw [readElement_letter ascii textEq] at read
          cases read
          exact takes_letter textEq
        · by_cases opens : c = 'L'
          · subst opens
            rw [readElement_object] at read
            obtain ⟨name, rest, rfl, filled, plain, parts, afterEq⟩ := readClass_eq_ok_iff.mp read
            exact ⟨rfl, takes_object_iff.mpr ⟨filled, plain, rest, parts, afterEq⟩⟩
          · have noLetter : ∀ known : Ty, c.toNat ≤ 127 → known.text.toList ≠ [c] :=
              fun known ascii textEq => letter ⟨known, ascii, textEq⟩
            obtain ⟨fault, behind, refused⟩ :=
              readElement_refuses source position tail noLetter opens
            rw [refused] at read
            cases read
  · rintro ⟨bare, takes⟩
    obtain ⟨wellFormed, tail, rfl, rfl⟩ := takes
    cases ty with
    | object name =>
        have takes : Takes source position ((Ty.object name).text.toList ++ tail) (.object name) _ :=
          ⟨wellFormed, tail, rfl, rfl⟩
        have opens : (Ty.object name).text.toList ++ tail = 'L' :: (name.toList ++ ';' :: tail) := by
          rw [Ty.text, String.toList_append, String.toList_append]
          simp
        rw [opens] at takes ⊢
        obtain ⟨filled, plain, rest, parts, afterEq⟩ := takes_object_iff.mp takes
        rw [readElement_object, readClass_eq_ok_iff]
        exact ⟨name, rest, rfl, filled, plain, parts, afterEq⟩
    | array element => cases bare
    | _ => exact readElement_letter (by decide) rfl

theorem skip_whole (count : Nat) :
    (whole source position chars).skip count = whole source (position + count) (chars.drop count) :=
  rfl

theorem brackets_whole : (whole source position chars).brackets = (chars.takeWhile (· = '[')).length :=
  rfl

/-- The brackets at the cursor are all that begin the rest of the text. -/
theorem replicate_brackets :
    chars = List.replicate (whole source position chars).brackets '[' ++
      chars.drop (whole source position chars).brackets := by
  have parts := List.takeWhile_append_dropWhile (p := (· = '[')) (l := chars)
  have all : chars.takeWhile (· = '[') =
      List.replicate (whole source position chars).brackets '[' := by
    rw [List.eq_replicate_iff]
    refine ⟨rfl, ?_⟩
    intro c member
    simpa using List.mem_takeWhile_imp member
  rw [all] at parts
  have dropped := congrArg (List.drop (whole source position chars).brackets) parts
  rw [List.drop_left' List.length_replicate] at dropped
  rw [← dropped]
  exact parts.symm

theorem brackets_text (ty : Ty) (tail : List Char) :
    (whole source position (ty.text.toList ++ tail)).brackets = ty.dimensions := by
  obtain ⟨first, rest, textEq, _, plain⟩ := ty.innermost.exists_text_eq_cons
  have brackets : ∀ c ∈ List.replicate ty.dimensions '[', decide (c = '[') = true :=
    fun c member => decide_eq_true (List.eq_of_mem_replicate member)
  rw [brackets_whole, ty.toList_text_eq, textEq, List.append_assoc,
    List.takeWhile_append_of_pos brackets, List.cons_append, List.takeWhile_cons,
    if_neg (by simpa using plain ty.dimensions_innermost), List.append_nil, List.length_replicate]

/-- A type is read where its text begins. -/
theorem readType_eq_ok_iff :
    (whole source position chars).readType = (.ok ty, after) ↔
      Takes source position chars ty after := by
  constructor
  · intro read
    unfold readType at read
    dsimp only at read
    split at read
    · cases read
    · rename_i few
      rw [skip_whole] at read
      split at read
      · cases read
      · rename_i element behind readEq
        obtain ⟨bare, wellFormed, tail, parts, rfl⟩ := readElement_eq_ok_iff.mp readEq
        split at read
        · cases read
        · rename_i filled
          cases read
          refine ⟨(Ty.wellFormed_wrap_iff bare _).mpr ⟨wellFormed, Nat.le_of_not_lt few, ?_⟩, tail,
            ?_, ?_⟩
          · exact fun some void => filled ⟨some, void⟩
          · rw [Ty.toList_text_wrap, List.append_assoc, ← parts]
            exact replicate_brackets
          · rw [Ty.utf8ByteSize_text_wrap, Nat.add_assoc]
  · rintro ⟨wellFormed, tail, rfl, rfl⟩
    have bare := ty.dimensions_innermost
    rw [← ty.wrap_innermost, Ty.wellFormed_wrap_iff bare] at wellFormed
    obtain ⟨innermost, few, filled⟩ := wellFormed
    have element : (whole source (position + ty.dimensions)
        ((ty.text.toList ++ tail).drop ty.dimensions)).readElement =
        (.ok ty.innermost, whole source (position + ty.text.utf8ByteSize) tail) := by
      rw [readElement_eq_ok_iff]
      refine ⟨bare, innermost, tail, ?_, ?_⟩
      · rw [ty.toList_text_eq, List.append_assoc, List.drop_left' List.length_replicate]
      · rw [ty.utf8ByteSize_text_eq, Nat.add_assoc]
    unfold readType
    dsimp only
    rw [brackets_text, if_neg (Nat.not_lt_of_le few), skip_whole, element]
    dsimp only
    rw [if_neg fun both => filled both.1 both.2, ty.wrap_innermost]

/-- The descriptor of a well-formed type is read, whatever stands behind it. -/
theorem readType_text (source : String) (position : Nat) (tail : List Char)
    (wellFormed : ty.WellFormed) :
    (whole source position (ty.text.toList ++ tail)).readType =
      (.ok ty, whole source (position + ty.text.utf8ByteSize) tail) :=
  readType_eq_ok_iff.mpr ⟨wellFormed, tail, rfl, rfl⟩

end Descriptor.Cursor

end Weaver
