import MoveText.Proofs.Argument.Reading
import MoveText.Proofs.Token.Pieces

/-!
# Which texts are arguments

`Argument.IsLiteral` lists the literals, each with its value: decimal digits with a width or without
one, the two truth values, address literals, and byte strings of characters or of digits. A text is
an argument exactly if it is such a literal with any white space around it, and then its value is
that of the literal (`Argument.parse_accepts_literals`). A literal is one word, so it cannot have
white space inside, except in a byte string of characters, and nothing can stand beside it.
-/

namespace MoveText

/-! ### White space at the ends -/

namespace Text

/-- The text without white space at its ends. -/
def trimBlanks (s : Text) : Text := ((s.dropWhile isBlank).reverse.dropWhile isBlank).reverse

/-- A text is what is left of it, with white space around it. -/
private theorem exists_trimBlanks (s : Text) :
    ∃ before after, s = before ++ (s.trimBlanks ++ after) ∧ (∀ c ∈ before, isBlank c) ∧
      ∀ c ∈ after, isBlank c := by
  refine ⟨s.takeWhile isBlank, ((s.dropWhile isBlank).reverse.takeWhile isBlank).reverse, ?_,
    fun c => List.mem_takeWhile_imp, fun c hc => List.mem_takeWhile_imp (List.mem_reverse.mp hc)⟩
  rw [trimBlanks, ← List.reverse_append, List.takeWhile_append_dropWhile, List.reverse_reverse,
    List.takeWhile_append_dropWhile]

/-- White space around a text that neither starts nor ends with any is what is taken off. -/
private theorem trimBlanks_append {before word after : Text} (hbefore : ∀ c ∈ before, isBlank c)
    (hafter : ∀ c ∈ after, isBlank c) (hne : word ≠ []) (hstart : startsIn isBlank word = false)
    (hend : startsIn isBlank word.reverse = false) :
    trimBlanks (before ++ (word ++ after)) = word := by
  have hrest : startsIn isBlank (word ++ after) = false := by rwa [startsIn_append hne]
  have hafter' : ∀ c ∈ after.reverse, isBlank c := fun c hc => hafter c (List.mem_reverse.mp hc)
  rw [trimBlanks, dropWhile_run hbefore hrest, List.reverse_append, dropWhile_run hafter' hend,
    List.reverse_reverse]

/-- The digits of seven-bit characters are those of their codes. -/
private theorem hexOfCodes_eq {s : Text} (hs : ∀ c ∈ s, isAscii c) :
    hexOfCodes s = hexOfBytes (s.map fun c => UInt8.ofNat c.toNat) := by
  induction s with
  | nil => rfl
  | cons c s ih =>
    obtain ⟨hc, hs⟩ := List.forall_mem_cons.mp hs
    have hbyte : (UInt8.ofNat c.toNat).toNat = c.toNat :=
      toNat_ofNat_of_lt (Nat.lt_trans (isAscii_iff.mp hc) (by decide))
    rw [List.map_cons, hexOfBytes_cons, hbyte, ← ih hs]
    rfl

end Text

/-- The bits of a width. -/
def Width.bits : Width → Nat
  | u8 => 8
  | u64 => 64
  | u128 => 128

private theorem Width.max_lt_iff {width : Width} {n : Nat} :
    width.max < n ↔ 2 ^ width.bits ≤ n := by
  have hmax : width.max + 1 = 2 ^ width.bits := by cases width <;> rfl
  omega

namespace Argument

/-- **The literals and their values**: decimal numbers that fit their width, truth values,
addresses, and byte strings of ASCII characters or of hexadecimal digits in pairs. -/
inductive IsLiteral : Text → Argument → Prop
  | number {digits : Text} (hne : digits ≠ []) (hdigits : ∀ c ∈ digits, c.isDigit)
      (hfits : Nat.ofDigitChars 10 digits 0 < 2 ^ Width.u64.bits) :
      IsLiteral digits (.integer .u64 (Nat.ofDigitChars 10 digits 0))
  | sizedNumber {width : Width} {digits : Text} (hne : digits ≠ [])
      (hdigits : ∀ c ∈ digits, c.isDigit)
      (hfits : Nat.ofDigitChars 10 digits 0 < 2 ^ width.bits) :
      IsLiteral (digits ++ width.label) (.integer width (Nat.ofDigitChars 10 digits 0))
  | true : IsLiteral "true".toList (.bool true)
  | false : IsLiteral "false".toList (.bool false)
  | address {marker : Char} {digits : Text} (hmarker : marker = 'x' ∨ marker = 'X')
      (hne : digits ≠ []) (hdigits : ∀ c ∈ digits, Text.isHexDigit c)
      (hlength : digits.length ≤ 64) :
      IsLiteral ('0' :: marker :: digits) (.address ('0' :: 'x' ::
        (List.replicate (64 - digits.length) '0' ++ digits.map Char.toLower)))
  | asciiBytes {body : Text} (hbody : ∀ c ∈ body, Text.isAscii c ∧ c ≠ '"') :
      IsLiteral ('b' :: '"' :: (body ++ ['"'])) (.bytes (body.map fun c => UInt8.ofNat c.toNat))
  | hexBytes {digits : Text} {bytes : Bytes} (hdigits : ∀ c ∈ digits, Text.isHexDigit c)
      (hbytes : Text.hexOfBytes bytes = digits.map Char.toLower) :
      IsLiteral ('x' :: '"' :: (digits ++ ['"'])) (.bytes bytes)

/-! ### What spells a literal -/

/-- A number stands for its value, if that fits the width. -/
private theorem ofToken_integer {width : Width} {digits : Text} (hne : digits ≠ [])
    (hdigits : ∀ c ∈ digits, c.isDigit) :
    ofToken ⟨.integer width, some digits⟩ =
      if 2 ^ width.bits ≤ Nat.ofDigitChars 10 digits 0 then .error (.overflow width digits)
      else .ok (integer width (Nat.ofDigitChars 10 digits 0)) := by
  have hnumeral : ofToken ⟨.integer width, some digits⟩ = ofNumeral width digits := rfl
  rw [hnumeral, ofNumeral_of_isDigit width hne hdigits, Text.digitsValue_of_isDigit hdigits]
  simp only [Width.max_lt_iff]

/-- The digits of a byte string stand for its bytes, if they go in pairs. -/
private theorem ofToken_bytes {digits : Text} (hdigits : ∀ c ∈ digits, Text.isHexDigit c) :
    ofToken ⟨.bytes, some digits⟩ =
      if digits.length % 2 ≠ 0 then .error (.oddBytes digits)
      else .ok (bytes (Text.bytesOfHex digits)) := by
  have hhex : ofToken ⟨.bytes, some digits⟩ = ofHex digits := rfl
  rw [hhex, ofHex_of_isHexDigit hdigits]

/-- **The spellings of tokens that stand for an argument** are the literals with its value. -/
theorem exists_spells_iff {word : Text} {a : Argument} :
    (∃ t : Token, t.Spells word ∧ ofToken t = .ok a) ↔ IsLiteral word a := by
  constructor
  · rintro ⟨t, hspells, ht⟩
    cases hspells with
    | number hne hdigits =>
      rw [ofToken_integer hne hdigits] at ht
      split_ifs at ht with hgreat
      cases ht
      exact .number hne hdigits (Nat.lt_of_not_le hgreat)
    | sizedNumber hne hdigits =>
      rw [ofToken_integer hne hdigits] at ht
      split_ifs at ht with hgreat
      cases ht
      exact .sizedNumber hne hdigits (Nat.lt_of_not_le hgreat)
    | keyword k =>
      cases k with
      | truth value =>
        cases ht
        cases value
        · exact .false
        · exact .true
      | _ => cases ht
    | address hmarker hne hdigits =>
      rw [ofToken_address hne hdigits] at ht
      split_ifs at ht with hlong
      cases ht
      exact .address hmarker hne hdigits (Nat.le_of_not_lt hlong)
    | @asciiBytes body hbody =>
      have hascii : ∀ c ∈ body, Text.isAscii c := fun c hc => (hbody c hc).1
      rw [ofToken_bytes fun d => Text.isHexDigit_of_mem_hexOfCodes hascii] at ht
      split_ifs at ht
      rw [Text.hexOfCodes_eq hascii, Text.bytesOfHex_hexOfBytes] at ht
      cases ht
      exact .asciiBytes hbody
    | @hexBytes digits hdigits =>
      rw [ofToken_bytes hdigits] at ht
      split_ifs at ht with hodd
      cases ht
      exact .hexBytes hdigits ((Text.bytesOfHex_eq_iff hdigits (by omega)).mp rfl)
    | _ => cases ht
  · intro h
    cases h with
    | number hne hdigits hfits =>
      refine ⟨_, .number hne hdigits, ?_⟩
      rw [ofToken_integer hne hdigits, if_neg (Nat.not_le_of_lt hfits)]
    | sizedNumber hne hdigits hfits =>
      refine ⟨_, .sizedNumber hne hdigits, ?_⟩
      rw [ofToken_integer hne hdigits, if_neg (Nat.not_le_of_lt hfits)]
    | true => exact ⟨_, .keyword (.truth true), rfl⟩
    | false => exact ⟨_, .keyword (.truth false), rfl⟩
    | @address marker digits hmarker hne hdigits hlength =>
      refine ⟨_, .address hmarker hne hdigits, ?_⟩
      rw [ofToken_address hne hdigits, if_neg (Nat.not_lt_of_le hlength)]
      rfl
    | @asciiBytes body hbody =>
      have hascii : ∀ c ∈ body, Text.isAscii c := fun c hc => (hbody c hc).1
      have heven : (Text.hexOfCodes body).length % 2 = 0 := by
        rw [Text.hexOfCodes_eq hascii, Text.length_hexOfBytes]
        omega
      refine ⟨_, .asciiBytes hbody, ?_⟩
      rw [ofToken_bytes fun d => Text.isHexDigit_of_mem_hexOfCodes hascii, if_neg (by omega),
        Text.hexOfCodes_eq hascii, Text.bytesOfHex_hexOfBytes]
    | @hexBytes digits bytes hdigits hbytes =>
      have heven : digits.length % 2 = 0 := by
        have hlength := congrArg List.length hbytes
        rw [Text.length_hexOfBytes, List.length_map] at hlength
        omega
      refine ⟨_, .hexBytes hdigits, ?_⟩
      rw [ofToken_bytes hdigits, if_neg (by omega),
        (Text.bytesOfHex_eq_iff hdigits heven).mpr hbytes]

/-! ### Whole texts -/

variable {input : Text} {a : Argument}

/-- A token that stands for an argument is no white space. -/
private theorem kind_ne_whitespace_of_ofToken {t : Token} (h : ofToken t = .ok a) :
    t.kind ≠ .whitespace := by
  intro hkind
  rw [ofToken, hkind] at h
  cases h

/-- The text without white space at its ends is what spells its only word. -/
private theorem hasWords_iff_spells_trimBlanks {t : Token} (ht : t.kind ≠ .whitespace) :
    input.HasWords [t] ↔ t.Spells input.trimBlanks := by
  have hwhite : t.isWhitespace = false := by simpa [Token.isWhitespace] using ht
  rw [Text.hasWords_singleton_iff hwhite]
  constructor
  · rintro ⟨before, word, after, rfl, hbefore, hspells, hafter⟩
    rwa [Text.trimBlanks_append hbefore hafter hspells.ne_nil (hspells.startsIn_isBlank hwhite)
      (hspells.startsIn_isBlank_reverse ht)]
  · intro hspells
    obtain ⟨before, after, hinput, hbefore, hafter⟩ := input.exists_trimBlanks
    exact ⟨before, _, after, hinput, hbefore, hspells, hafter⟩

/-- A text is an argument exactly if it is a literal but for white space at its ends. -/
theorem parse_eq_ok_iff : (parse input).result = .ok a ↔ IsLiteral input.trimBlanks a := by
  rw [parse, Outcome.ofReader_result_eq_ok_iff, takes_read.readText_eq_ok_iff, ← exists_spells_iff]
  constructor
  · rintro ⟨_, hwords, t, rfl, ht⟩
    exact ⟨t, (hasWords_iff_spells_trimBlanks (kind_ne_whitespace_of_ofToken ht)).mp hwords, ht⟩
  · rintro ⟨t, hspells, ht⟩
    exact ⟨[t], (hasWords_iff_spells_trimBlanks (kind_ne_whitespace_of_ofToken ht)).mpr hspells, t,
      rfl, ht⟩

/-- A number that does not fit its width is turned down. -/
private theorem parse_of_overflow {width : Width} {digits : Text} (hne : digits ≠ [])
    (hdigits : ∀ c ∈ digits, c.isDigit)
    (hspells : Token.Spells ⟨.integer width, some digits⟩ input.trimBlanks)
    (hgreat : 2 ^ width.bits ≤ Nat.ofDigitChars 10 digits 0) :
    (parse input).result = .error (.rejected (.overflow width digits)) := by
  have hwords := (hasWords_iff_spells_trimBlanks (by simp)).mpr hspells
  have hread : read ([⟨.integer width, some digits⟩] ++ [.eof]) =
      (.error (.overflow width digits), [.eof]) := by
    have hstop := (ofToken_integer hne hdigits).trans (if_pos hgreat)
    exact Prod.ext hstop rfl
  rw [parse, Outcome.ofReader, TokenReader.readText_of_error hwords hread]

/-- **The parser of arguments accepts exactly the literals**, with any white space around them, and
gives each its value. Digits that denote more than their width holds, with a suffix or, for the
width `u64`, without one, are turned down for this reason, in words that quote the digits. -/
theorem parse_accepts_literals (input : Text) :
    (∀ a, (parse input).result = .ok a ↔ IsLiteral input.trimBlanks a) ∧
    ∀ (width : Width) (digits : Text), digits ≠ [] → (∀ c ∈ digits, c.isDigit) →
      (input.trimBlanks = digits ++ width.label ∨ width = .u64 ∧ input.trimBlanks = digits) →
      2 ^ width.bits ≤ Nat.ofDigitChars 10 digits 0 →
      ∃ failure, (parse input).result = .error failure ∧ failure.label = "SemanticError".toList ∧
        failure.message =
          "number too large to fit in ".toList ++ width.label ++ ": ".toList ++ digits := by
  refine ⟨fun a => parse_eq_ok_iff, fun width digits hne hdigits hinput hgreat => ?_⟩
  have hspells : Token.Spells ⟨.integer width, some digits⟩ input.trimBlanks := by
    rcases hinput with hinput | ⟨rfl, hinput⟩ <;> rw [hinput]
    · exact .sizedNumber hne hdigits
    · exact .number hne hdigits
  exact ⟨_, parse_of_overflow hne hdigits hspells hgreat, rfl, rfl⟩

/-- A byte string of characters with blanks in it and around it, and a number too large by one. -/
theorem parse_accepts_literals_blanks :
    (parse "\t b\"a b\" ".toList).result = .ok (.bytes [97, 32, 98]) ∧
    ("0256".toList ≠ [] ∧ (∀ c ∈ "0256".toList, c.isDigit) ∧
      2 ^ Width.u8.bits ≤ Nat.ofDigitChars 10 "0256".toList 0) ∧
    ∃ failure, (parse " 0256u8".toList).result = .error failure ∧
      failure.message = "number too large to fit in u8: 0256".toList := by
  have hdigits : ∀ c ∈ "0256".toList, c.isDigit := List.all_eq_true.mp (by decide)
  have hgreat : 2 ^ Width.u8.bits ≤ Nat.ofDigitChars 10 "0256".toList 0 := by decide
  have hliteral := (parse_accepts_literals "\t b\"a b\" ".toList).1 (.bytes [97, 32, 98])
  obtain ⟨failure, hfailure, -, hmessage⟩ := (parse_accepts_literals " 0256u8".toList).2 .u8
    "0256".toList (by decide) hdigits (.inl rfl) hgreat
  refine ⟨hliteral.mpr ?_, ⟨by decide, hdigits, hgreat⟩, failure, hfailure, hmessage⟩
  have hbody : ∀ c ∈ "a b".toList, Text.isAscii c ∧ c ≠ '"' := by
    simpa using by decide
  exact .asciiBytes hbody

end Argument

end MoveText
