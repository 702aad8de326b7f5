import MoveText.Proofs.Token.Items
import MoveText.Proofs.TypeTag.Derivation

/-!
# What the reader of type tags accepts

On the tokens of a text, `TypeTag.readAbove` takes exactly what `TypeTag.Derives` derives: what is
read was derived (`derives_of_readAbove`), and what is derived is read, unless a bracket opens
behind it (`readAbove_of_derives`). The tokens have to be those of a text, since only there an
address token holds a literal and a name token an identifier; `Token.Occurs` says so.

`TypeTag.parse_accepts_grammar` puts this together for whole texts.
-/

namespace MoveText

open TokenReader

/-- A literal and two identifiers make a name, if the literal is not too long. -/
theorem StructName.create_marked {digits moduleName typeName : Text} (hne : digits ≠ [])
    (hdigits : ∀ c ∈ digits, Text.isHexDigit c) (hmodule : Identifier.isValid moduleName)
    (htype : Identifier.isValid typeName) :
    create ('0' :: 'x' :: digits) (some moduleName) (some typeName) =
      if 64 < digits.length then .error (.longAddress ('0' :: 'x' :: digits))
      else .ok ⟨Address.padded digits, moduleName, typeName⟩ := by
  have hcheck : ∀ {s}, Identifier.isValid s → Identifier.checkGiven (some s) = .ok s := fun hs => by
    rw [Identifier.checkGiven, Identifier.check, if_pos hs]
  rw [create, Address.ofLiteral_marked hne hdigits, hcheck hmodule, hcheck htype,
    Address.digitCount]
  split_ifs <;> rfl

theorem StructName.create_eq_ok_iff {digits moduleName typeName : Text} (hne : digits ≠ [])
    (hdigits : ∀ c ∈ digits, Text.isHexDigit c) (hmodule : Identifier.isValid moduleName)
    (htype : Identifier.isValid typeName) {name : StructName} :
    create ('0' :: 'x' :: digits) (some moduleName) (some typeName) = .ok name ↔
      digits.length ≤ 64 ∧ ⟨Address.padded digits, moduleName, typeName⟩ = name := by
  rw [create_marked hne hdigits hmodule htype]
  split_ifs with hlong
  · have hnot : ¬ digits.length ≤ 64 := Nat.not_le_of_lt hlong
    simp [hnot]
  · simp [Nat.le_of_not_lt hlong]

namespace TypeTag

/-! ### One level of the reader -/

variable {limit : Int} {levels : Nat} {tokens rest : List Token} {tag : TypeTag}

theorem readParams_eq_ok_iff {param : TokenReader TypeTag} (hparam : Advances param)
    {params : List TypeTag} :
    readParams param tokens = (.ok params, rest) ↔
      (tokens.head? ≠ some .lt ∧ params = [] ∧ rest = tokens) ∨
        ∃ mid, tokens = .lt :: mid ∧ ((mid = .gt :: rest ∧ params = []) ∨
          (mid.head? ≠ some .gt ∧ Items param .gt true mid params (.gt :: rest))) := by
  rw [readParams, bind_eq_ok_iff]
  constructor
  · rintro ⟨opens, _, hopens, h⟩
    obtain ⟨rfl, rfl⟩ := nextIs_eq_ok_iff.mp hopens
    split_ifs at h with hlt
    · obtain ⟨_, mid, hmid, h⟩ := bind_eq_ok_iff.mp h
      obtain ⟨found, _, hlist, h⟩ := bind_eq_ok_iff.mp h
      obtain ⟨_, _, hgt, h⟩ := bind_eq_ok_iff.mp h
      obtain ⟨rfl, rfl⟩ := pure_eq_ok_iff.mp h
      obtain rfl := expect_eq_ok_iff.mp hgt
      refine .inr ⟨mid, expect_eq_ok_iff.mp hmid, ?_⟩
      rcases (commaList_eq_ok_iff hparam (by decide)).mp hlist with ⟨-, hnone, hrest⟩ | hitems
      · exact .inl ⟨hrest.symm, hnone⟩
      · exact .inr hitems
    · obtain ⟨rfl, rfl⟩ := pure_eq_ok_iff.mp h
      exact .inl ⟨by simpa using hlt, rfl, rfl⟩
  · rintro (⟨hhead, rfl, rfl⟩ | ⟨mid, rfl, hmid⟩)
    · exact ⟨false, rest, by simpa using hhead, pure_eq_ok_iff.mpr ⟨rfl, rfl⟩⟩
    · have hlist : commaList param .gt true mid = (.ok params, .gt :: rest) := by
        refine (commaList_eq_ok_iff hparam (by decide)).mpr ?_
        rcases hmid with ⟨rfl, rfl⟩ | hitems
        · exact .inl ⟨rfl, rfl, rfl⟩
        · exact .inr hitems
      refine ⟨true, .lt :: mid, by simp, bind_eq_ok_iff.mpr ⟨(), mid, by simp, ?_⟩⟩
      exact bind_eq_ok_iff.mpr ⟨params, _, hlist, bind_eq_ok_iff.mpr ⟨(), rest, by simp, by simp⟩⟩

theorem readAbove_primitive_eq_ok_iff {type : Primitive} {value : Option Text} :
    readAbove limit (levels + 1) (⟨.keyword (.primitive type), value⟩ :: tokens) = (.ok tag, rest) ↔
      primitive type = tag ∧ tokens = rest := by
  change (pure (primitive type) : TokenReader TypeTag) tokens = _ ↔ _
  exact pure_eq_ok_iff

theorem readAbove_vector_eq_ok_iff {value : Option Text} :
    readAbove limit (levels + 1) (⟨.keyword .vector, value⟩ :: tokens) = (.ok tag, rest) ↔
      ∃ mid element, tokens = .lt :: mid ∧
        readAbove limit levels mid = (.ok element, .gt :: rest) ∧ vector element = tag := by
  change (do
    expect .lt
    let element ← readAbove limit levels
    expect .gt
    return vector element : TokenReader TypeTag) tokens = _ ↔ _
  simp only [bind_eq_ok_iff, expect_eq_ok_iff, pure_eq_ok_iff]
  constructor
  · rintro ⟨_, mid, rfl, element, _, helement, _, _, rfl, htag, rfl⟩
    exact ⟨mid, element, rfl, helement, htag⟩
  · rintro ⟨mid, element, rfl, helement, htag⟩
    exact ⟨(), mid, rfl, element, _, helement, (), rest, rfl, htag, rfl⟩

theorem readAbove_address_eq_ok_iff {literal : Text} :
    readAbove limit (levels + 1) (⟨.address, some literal⟩ :: tokens) = (.ok tag, rest) ↔
      ∃ moduleName typeName mid params name,
        tokens = .colonColon :: ⟨.name, moduleName⟩ :: .colonColon :: ⟨.name, typeName⟩ :: mid ∧
        readParams (readAbove limit levels) mid = (.ok params, rest) ∧
        StructName.create literal moduleName typeName = .ok name ∧ struct name params = tag := by
  change (do
    expect .colonColon
    let moduleName ← structPart
    expect .colonColon
    let typeName ← structPart
    let params ← readParams (readAbove limit levels)
    let address ← ofExcept (textOf ⟨.address, some literal⟩)
    let name ← ofExcept (StructName.create address moduleName typeName)
    return struct name params : TokenReader TypeTag) tokens = _ ↔ _
  simp only [bind_eq_ok_iff, expect_eq_ok_iff, structPart_eq_ok_iff, ofExcept_eq_ok_iff,
    pure_eq_ok_iff, textOf]
  constructor
  · rintro ⟨_, _, rfl, moduleName, _, rfl, _, _, rfl, typeName, mid, rfl, params, _, hparams, _, _,
      ⟨⟨⟩, rfl⟩, name, _, ⟨hname, rfl⟩, htag, rfl⟩
    exact ⟨moduleName, typeName, mid, params, name, rfl, hparams, hname, htag⟩
  · rintro ⟨moduleName, typeName, mid, params, name, rfl, hparams, hname, htag⟩
    exact ⟨(), _, rfl, moduleName, _, rfl, (), _, rfl, typeName, mid, rfl, params, rest, hparams,
      literal, rest, ⟨rfl, rfl⟩, name, rest, ⟨hname, rfl⟩, htag, rfl⟩

/-- A tag starts with a word for a type or with an address. -/
private theorem exists_of_readAbove {token : Token}
    (h : readAbove limit (levels + 1) (token :: tokens) = (.ok tag, rest)) :
    (∃ type, token.kind = .keyword (.primitive type)) ∨ token.kind = .keyword .vector ∨
      token.kind = .address := by
  obtain ⟨kind, value⟩ := token
  have hother : ¬ (fail (.unexpected .typeTag ⟨kind, value⟩) : TokenReader TypeTag) tokens =
      (.ok tag, rest) := by simp
  cases kind with
  | keyword word =>
    rcases word with type | _ | truth
    · exact .inl ⟨type, rfl⟩
    · exact .inr (.inl rfl)
    · exact absurd h hother
  | address => exact .inr (.inr rfl)
  | _ => exact absurd h hother

theorem advances_readParams {param : TokenReader TypeTag} (hparam : Advances param) :
    Advances (readParams param) :=
  (advances_nextIs .lt).bind fun opens => by
    split_ifs
    · exact (advances_expect .lt).bind fun _ => (advances_commaList hparam .gt true).bind fun _ =>
        (advances_expect .gt).bind fun _ => advances_pure _
    · exact advances_pure _

theorem advances_readAbove (limit : Int) (levels : Nat) : Advances (readAbove limit levels) := by
  induction levels with
  | zero => exact advances_fail _
  | succ levels ih =>
    refine advances_next.bind fun token => ?_
    split
    · exact advances_pure _
    · exact (advances_expect .lt).bind fun _ => ih.bind fun _ =>
        (advances_expect .gt).bind fun _ => advances_pure _
    · exact (advances_expect .colonColon).bind fun _ => advances_structPart.bind fun _ =>
        (advances_expect .colonColon).bind fun _ => advances_structPart.bind fun _ =>
        (advances_readParams ih).bind fun _ => (advances_ofExcept _).bind fun _ =>
        (advances_ofExcept _).bind fun _ => advances_pure _
    · exact advances_fail _

theorem read_eq_readAbove {limit : Nat} (hlimit : 0 < limit) :
    read 0 limit = readAbove limit limit := by
  have hle : ¬ (limit : Int) ≤ 0 := by omega
  rw [read, if_neg hle, Int.sub_zero, Int.toNat_natCast]

/-! ### What is read was derived -/

/-- Type parameters that are read stand in brackets, if what reads one of them takes a stretch of
which `R` is known. -/
private theorem exists_bracketed_of_readParams {param : TokenReader TypeTag}
    {R : List Token → TypeTag → Prop} (hparam : Advances param)
    (hread : ∀ tokens tag rest, (∀ t ∈ tokens, t.Occurs) → param tokens = (.ok tag, rest) →
      ∃ words, tokens = words ++ rest ∧ R words tag)
    {params : List TypeTag} (htokens : ∀ t ∈ tokens, t.Occurs)
    (h : readParams param tokens = (.ok params, rest)) :
    ∃ (parts : List (List Token × TypeTag)) (brackets : List Token),
      Token.Bracketed (parts.map Prod.fst) brackets ∧ (∀ part ∈ parts, R part.1 part.2) ∧
        tokens = brackets ++ rest ∧ params = parts.map Prod.snd := by
  rcases (readParams_eq_ok_iff hparam).mp h with ⟨-, rfl, rfl⟩ | ⟨_, rfl, ⟨rfl, rfl⟩ | ⟨-, hitems⟩⟩
  · exact ⟨[], [], .absent, by simp, rfl, rfl⟩
  · exact ⟨[], [.lt, .gt], .empty, by simp, rfl, rfl⟩
  · obtain ⟨parts, extra, hne, hparts, rfl, -, rfl, -⟩ :=
      hitems.exists_parts hread fun t ht => htokens t (List.mem_cons_of_mem _ ht)
    exact ⟨parts, _, .listed (by simpa using hne) extra, hparts, by simp, rfl⟩

/-- **What is read was derived**: the reader takes the tokens of one tag, in their order, and leaves
the rest. -/
theorem derives_of_readAbove {limit levels depth : Nat} {tokens rest : List Token} {tag : TypeTag}
    (hlevels : depth + levels = limit) (htokens : ∀ t ∈ tokens, t.Occurs)
    (h : readAbove limit levels tokens = (.ok tag, rest)) :
    ∃ words, tokens = words ++ rest ∧ Derives limit depth words tag := by
  induction levels generalizing depth tokens rest tag with
  | zero => exact (fail_eq_ok_iff.mp h).elim
  | succ levels ih =>
    have hdepth : depth < limit := by omega
    cases tokens with
    | nil => cases h
    | cons token tokens =>
      obtain ⟨kind, value⟩ := token
      obtain ⟨htoken, hothers⟩ := List.forall_mem_cons.mp htokens
      rcases exists_of_readAbove h with ⟨type, hkind⟩ | hkind | hkind <;>
        (dsimp only at hkind; subst hkind)
      · obtain ⟨rfl, rfl⟩ := readAbove_primitive_eq_ok_iff.mp h
        obtain rfl := htoken.keyword_value
        exact ⟨_, rfl, .primitive hdepth type⟩
      · obtain ⟨mid, element, rfl, helement, rfl⟩ := readAbove_vector_eq_ok_iff.mp h
        obtain rfl := htoken.keyword_value
        obtain ⟨words, rfl, hwords⟩ := ih (by omega : depth + 1 + levels = limit)
          (fun t ht => hothers t (List.mem_cons_of_mem _ ht)) helement
        exact ⟨_, by simp, .vector hdepth hwords⟩
      · obtain ⟨digits, rfl, hne, hdigits⟩ := htoken.address_value
        obtain ⟨moduleValue, typeValue, mid, params, name, rfl, hparams, hname, rfl⟩ :=
          readAbove_address_eq_ok_iff.mp h
        simp only [List.forall_mem_cons] at hothers
        obtain ⟨-, hmoduleToken, -, htypeToken, hmid⟩ := hothers
        obtain ⟨moduleName, rfl, hmodule⟩ := hmoduleToken.name_value
        obtain ⟨typeName, rfl, htype⟩ := htypeToken.name_value
        obtain ⟨hlength, rfl⟩ :=
          (StructName.create_eq_ok_iff hne hdigits hmodule htype).mp hname
        -- each parameter is read one level deeper, where the induction gives its derivation
        obtain ⟨parts, brackets, hbrackets, hparts, rfl, rfl⟩ :=
          exists_bracketed_of_readParams (R := Derives limit (depth + 1))
            (advances_readAbove limit levels)
            (fun _ _ _ hoccur hread => ih (by omega) hoccur hread) hmid hparams
        exact ⟨_, rfl, .struct hdepth hne hdigits hlength hbrackets hparts⟩

/-! ### What is derived is read -/

/-- **What is derived is read**, unless a bracket opens behind it. -/
theorem readAbove_of_derives {limit levels depth : Nat} {words tail : List Token} {tag : TypeTag}
    {closing : Token} (h : Derives limit depth words tag) (hlevels : depth + levels = limit)
    (hwords : ∀ t ∈ words, t.Occurs) (hclosing : closing ≠ .lt) :
    readAbove limit levels (words ++ closing :: tail) = (.ok tag, closing :: tail) := by
  induction h generalizing levels closing tail with
  | primitive hdepth type =>
    obtain ⟨levels, rfl⟩ : ∃ n, levels = n + 1 := ⟨levels - 1, by omega⟩
    exact readAbove_primitive_eq_ok_iff.mpr ⟨rfl, rfl⟩
  | @vector depth words element hdepth helement ih =>
    obtain ⟨levels, rfl⟩ : ∃ n, levels = n + 1 := ⟨levels - 1, by omega⟩
    have hread : readAbove limit levels (words ++ .gt :: closing :: tail) =
        (.ok element, .gt :: closing :: tail) :=
      ih (by omega) (fun t ht => hwords t (by simp [ht])) (by decide)
    exact readAbove_vector_eq_ok_iff.mpr ⟨_, element, by simp, hread, rfl⟩
  | @struct depth digits moduleName typeName parts brackets hdepth hne hdigits hlength hbrackets
      hparts ih =>
    obtain ⟨levels, rfl⟩ : ∃ n, levels = n + 1 := ⟨levels - 1, by omega⟩
    simp only [List.forall_mem_cons] at hwords
    obtain ⟨-, -, hmoduleToken, -, htypeToken, hwords⟩ := hwords
    obtain ⟨_, ⟨⟩, hmodule⟩ := hmoduleToken.name_value
    obtain ⟨_, ⟨⟩, htype⟩ := htypeToken.name_value
    have hname := (StructName.create_eq_ok_iff hne hdigits hmodule htype).mpr ⟨hlength, rfl⟩
    have hparams : readParams (readAbove limit levels) (brackets ++ closing :: tail) =
        (.ok (parts.map Prod.snd), closing :: tail) := by
      refine (readParams_eq_ok_iff (advances_readAbove limit levels)).mpr ?_
      -- one token ahead tells whether there are brackets, and a second one whether they are empty
      generalize hs : parts.map Prod.fst = stretches at hbrackets
      rcases hbrackets with _ | _ | ⟨hsome, extra⟩
      · obtain rfl := List.map_eq_nil_iff.mp hs
        exact .inl ⟨by simpa using hclosing, rfl, rfl⟩
      · obtain rfl := List.map_eq_nil_iff.mp hs
        exact .inr ⟨_, rfl, .inl ⟨rfl, rfl⟩⟩
      · subst hs
        have hhead : ∀ p ∈ parts, ∃ t words, p.1 = t :: words ∧ t ≠ .gt :=
          fun p hp => (hparts p hp).exists_cons (.inl rfl)
        have hitems : Items (readAbove limit levels) .gt true
            (Token.listed (parts.map Prod.fst) extra ++ .gt :: closing :: tail)
            (parts.map Prod.snd) (.gt :: closing :: tail) := by
          refine items_listed (by simpa using hsome) (fun _ => rfl) hhead
            fun p hp t others ht => ih p hp (by omega) (fun s hs => hwords s ?_)
              (Token.ne_lt_of_closes (by decide) ht)
          have hmem : s ∈ Token.listed (parts.map Prod.fst) extra :=
            Token.mem_listed (List.mem_map_of_mem hp) hs
          simp [hmem]
        have hfirst : (Token.listed (parts.map Prod.fst) extra ++ .gt :: closing :: tail).head? ≠
            some .gt := Token.head?_listed_ne hsome (by simpa using hhead) _
        exact .inr ⟨_, by simp, .inr ⟨hfirst, hitems⟩⟩
    exact readAbove_address_eq_ok_iff.mpr
      ⟨_, _, _, _, _, rfl, hparams, hname, rfl⟩

/-! ### Whole texts -/

theorem advances_read {limit : Nat} (hlimit : 0 < limit) : Advances (read 0 limit) := by
  rw [read_eq_readAbove hlimit]
  exact advances_readAbove limit limit

/-- **The reader of tags takes the tokens that derive a tag.** -/
theorem takes_read {limit : Nat} (hlimit : 0 < limit) : Takes (read 0 limit) (Derives limit 0) where
  advances := advances_read hlimit
  sound hoccur hread := by
    rw [read_eq_readAbove hlimit] at hread
    exact derives_of_readAbove (Nat.zero_add limit) hoccur hread
  complete hderives hoccur hclosing := by
    rw [read_eq_readAbove hlimit]
    exact readAbove_of_derives hderives (Nat.zero_add limit) hoccur hclosing
  starts hderives := hderives.exists_cons (.inr rfl)

theorem parse_ofLimit {limit : Nat} (hleast : 1 ≤ limit) (hgreatest : limit ≤ 255) (input : Text) :
    parse (some (Options.ofLimit limit)) input = Outcome.ofReader (read 0 limit) input :=
  Outcome.underOptions_ofLimit hleast hgreatest _

/-- A text that is parsed is parsed under a limit from 1 to 255. -/
theorem exists_limit_of_parse {options : Option Value} {input : Text} {tag : TypeTag}
    (h : (parse options input).result = .ok tag) : ∃ limit : Nat, 1 ≤ limit ∧ limit ≤ 255 ∧
      (parse (some (Options.ofLimit limit)) input).result = .ok tag := by
  cases hresolve : Options.resolve options with
  | error fault =>
    rw [parse, Outcome.underOptions, hresolve] at h
    cases h
  | ok resolved =>
    obtain ⟨hleast, hgreatest⟩ := Options.bounds_of_resolve hresolve
    refine ⟨resolved.maxNesting, hleast, hgreatest, ?_⟩
    rw [parse, Outcome.underOptions_ofLimit hleast hgreatest]
    rwa [parse, Outcome.underOptions, hresolve] at h

theorem parseList_ofLimit {limit : Nat} (hleast : 1 ≤ limit) (hgreatest : limit ≤ 255)
    (input : Text) : parseList (some (Options.ofLimit limit)) input =
      Outcome.ofReader (commaList (read 0 limit) .eof true) input :=
  Outcome.underOptions_ofLimit hleast hgreatest _

/-- Tokens that list tags: stretches each of which derives its tag, with commas between them, and
perhaps one more comma behind the last. -/
def DerivesList (limit : Nat) (words : List Token) (tags : List TypeTag) : Prop :=
  ∃ (parts : List (List Token × TypeTag)) (extra : Bool), (parts = [] → extra = false) ∧
    (∀ part ∈ parts, Derives limit 0 part.1 part.2) ∧
    words = Token.listed (parts.map Prod.fst) extra ∧ tags = parts.map Prod.snd

/-- A text is a tag exactly if its tokens but for white space derive that tag. -/
theorem parse_eq_ok_iff {limit : Nat} (hleast : 1 ≤ limit) (hgreatest : limit ≤ 255)
    {input : Text} {tag : TypeTag} :
    (parse (some (Options.ofLimit limit)) input).result = .ok tag ↔
      ∃ tokens, Token.ofText input = .ok tokens ∧
        Derives limit 0 (tokens.filter fun t => !t.isWhitespace) tag := by
  rw [parse_ofLimit hleast hgreatest, Outcome.ofReader_result_eq_ok_iff,
    readText_eq_ok_iff (advances_read hleast)]
  refine exists_congr fun tokens => and_congr_right fun htokens => ?_
  exact (takes_read hleast).eq_ok_iff (Token.occurs_of_ofText htokens)

/-- A text lists tags exactly if its tokens but for white space do. -/
theorem parseList_eq_ok_iff {limit : Nat} (hleast : 1 ≤ limit) (hgreatest : limit ≤ 255)
    {input : Text} {tags : List TypeTag} :
    (parseList (some (Options.ofLimit limit)) input).result = .ok tags ↔
      ∃ tokens, Token.ofText input = .ok tokens ∧
        DerivesList limit (tokens.filter fun t => !t.isWhitespace) tags := by
  rw [parseList_ofLimit hleast hgreatest, Outcome.ofReader_result_eq_ok_iff,
    readText_eq_ok_iff (advances_commaList (advances_read hleast) .eof true)]
  refine exists_congr fun tokens => and_congr_right fun htokens => ?_
  exact (takes_read hleast).commaList_eq_ok_iff (Token.occurs_of_ofText htokens)

/-- **The parser of type tags accepts exactly its grammar.** At every limit that can be set, a text
is a tag exactly if its tokens but for white space derive that tag, and no list of tokens derives
two tags. On success the reader has taken each token once, and nothing is left but the end. -/
theorem parse_accepts_grammar {limit : Nat} (hleast : 1 ≤ limit) (hgreatest : limit ≤ 255) :
    (∀ input tag, (parse (some (Options.ofLimit limit)) input).result = .ok tag ↔
      ∃ tokens, Token.ofText input = .ok tokens ∧
        Derives limit 0 (tokens.filter fun t => !t.isWhitespace) tag) ∧
    (∀ depth words tag tag', Derives limit depth words tag → Derives limit depth words tag' →
      tag = tag') ∧
    (∀ input tag, (parse (some (Options.ofLimit limit)) input).result = .ok tag →
      ∃ words, Token.wordsOfText input = .ok (words ++ [.eof]) ∧
        read 0 limit (words ++ [.eof]) = (.ok tag, [.eof]) ∧ Derives limit 0 words tag) := by
  refine ⟨fun _ _ => parse_eq_ok_iff hleast hgreatest, fun _ _ _ _ h h' => h.tag_unique h',
    fun input tag h => ?_⟩
  obtain ⟨tokens, htokens, hderives⟩ := (parse_eq_ok_iff hleast hgreatest).mp h
  have hread := ((takes_read hleast).eq_ok_iff (Token.occurs_of_ofText htokens)).mpr hderives
  refine ⟨_, ?_, hread, hderives⟩
  rw [Token.wordsOfText, htokens]

/-- A struct type with two parameters, blanks and a comma behind the last one, below a limit of
three. -/
theorem parse_accepts_grammar_struct :
    (1 ≤ 3 ∧ 3 ≤ 255) ∧
      (parse (some (Options.ofLimit 3)) "0xA::M::T< u8,vector<bool>, >".toList).result =
        .ok (.struct ⟨Address.padded ['A'], ['M'], ['T']⟩
          [.primitive .u8, .vector (.primitive .bool)]) := by
  have hu8 : Derives 3 1 [⟨.keyword (.primitive .u8), none⟩] (.primitive .u8) :=
    .primitive (by decide) .u8
  have hvector : Derives 3 1
      [⟨.keyword .vector, none⟩, .lt, ⟨.keyword (.primitive .bool), none⟩, .gt]
      (.vector (.primitive .bool)) := .vector (by decide) (.primitive (by decide) .bool)
  have hparts : ∀ part ∈ [(_, .primitive .u8), (_, .vector (.primitive .bool))],
      Derives 3 1 part.1 part.2 :=
    List.forall_mem_cons.mpr ⟨hu8, List.forall_mem_singleton.mpr hvector⟩
  have hderives : Derives 3 0 _ (.struct ⟨Address.padded ['A'], ['M'], ['T']⟩ _) :=
    .struct (by decide) (List.cons_ne_nil 'A' []) (List.all_eq_true.mp (by decide)) (by decide)
      (.listed (by simp) true) hparts
  exact ⟨by decide, ((parse_accepts_grammar (by decide) (by decide)).1 _ _).mpr ⟨_, rfl, hderives⟩⟩

end TypeTag

end MoveText
