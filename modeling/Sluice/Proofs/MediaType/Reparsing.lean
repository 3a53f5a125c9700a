import Sluice.MediaType
import Sluice.Proofs.Conduit
import Sluice.Proofs.Text.Trimming

/-! Media types written out and read again. The type itself comes back, and so does the charset, unless its
name belongs to another one. There is one such charset: the web's encoding of UTF-8 goes by the name of the
built-in charset. -/
namespace Sluice

private theorem WebEncoding.mem_all (encoding : WebEncoding) : encoding ∈ all := by
  cases encoding with
  | _ => decide

namespace Charset

/-- The charset that the name of a charset asks for. -/
def named : Charset → Charset
  | web .utf8 => utf8
  | charset => charset

private theorem named_eq_self_iff (charset : Charset) : charset.named = charset ↔ charset ≠ web .utf8 := by
  unfold named
  split
  · decide
  next other => exact iff_of_true rfl other

@[simp] theorem named_named (charset : Charset) : charset.named.named = charset.named := by
  by_cases shared : charset = web .utf8
  · rw [shared]
    rfl
  · rw [(named_eq_self_iff charset).mpr shared, (named_eq_self_iff charset).mpr shared]

/-- A name is a label, of its own charset but for the one that shares it. -/
theorem ofLabel?_name (charset : Charset) : ofLabel? charset.name.toList = some charset.named := by
  have ofWeb : ∀ encoding ∈ WebEncoding.all,
      ofLabel? (web encoding).name.toList = some (web encoding).named := by decide +kernel
  cases charset with
  | web encoding => exact ofWeb encoding encoding.mem_all
  | _ => decide

private theorem semicolon_not_mem_name (charset : Charset) : ';' ∉ charset.name.toList := by
  have ofWeb : ∀ encoding ∈ WebEncoding.all, ';' ∉ (web encoding).name.toList := by decide +kernel
  cases charset with
  | web encoding => exact ofWeb encoding encoding.mem_all
  | _ => decide

private theorem builtIn?_ne_web (s : String) (encoding : WebEncoding) : builtIn? s ≠ some (web encoding) := by
  unfold builtIn?
  split
  all_goals nofun

/-- A label of UTF-8 on the web names a built-in charset only if it is one of two words, with nothing around
it. -/
theorem builtIn?_eq_none {bare : List Char}
    (known : String.ofList (Text.trimBy WebEncoding.isLabelBlank bare) ∈ WebEncoding.utf8.labels)
    (other : String.ofList bare ∉ ["utf-8", "utf8"]) : builtIn? (String.ofList bare) = none := by
  have spelled : ∀ {s : String}, String.ofList bare = s → bare = s.toList := by
    rintro s rfl
    exact String.toList_ofList.symm
  unfold builtIn?
  split
  all_goals first
    | rfl
    | next word =>
      obtain rfl := spelled word
      revert known other
      decide

/-- The web's encoding of UTF-8 is reached by its labels, with the blanks of the web around them, but not by
the two words that are labels of the built-in charset. -/
theorem ofLabel?_eq_web_utf8_iff (label : List Char) : ofLabel? label = some (web .utf8) ↔
    String.ofList (Text.trimBy WebEncoding.isLabelBlank (bareLabel label)) ∈ WebEncoding.utf8.labels ∧
      String.ofList (bareLabel label) ∉ ["utf-8", "utf8"] := by
  constructor
  · intro found
    unfold ofLabel? at found
    split at found
    next charset builtIn => exact absurd (builtIn.trans found) (builtIn?_ne_web _ _)
    next none =>
      obtain ⟨encoding, ofWeb, same⟩ := Option.map_eq_some_iff.mp found
      obtain rfl : encoding = .utf8 := Charset.web.inj same
      rw [WebEncoding.ofLabel?] at ofWeb
      have listed := List.find?_some ofWeb
      refine ⟨List.contains_iff_mem.mp listed, fun word => ?_⟩
      rcases List.mem_pair.mp word with word | word
      · rw [word] at none
        cases none
      · rw [word] at none
        cases none
  · rintro ⟨known, other⟩
    have ofWeb : WebEncoding.ofLabel? (bareLabel label) = some .utf8 := by
      have first : ∀ word ∈ WebEncoding.utf8.labels,
          WebEncoding.all.find? (fun encoding => encoding.labels.contains word) = some .utf8 := by decide +kernel
      rw [WebEncoding.ofLabel?]
      exact first _ known
    simp only [ofLabel?, builtIn?_eq_none known other, ofWeb]
    rfl

end Charset

namespace MediaType

/-- What is made of the pieces of a header value. -/
theorem parse_of_pieces {value first : List Char} {parameters : List (List Char)}
    (cut : Text.pieces ';' value = first :: parameters) : parse value =
      if '/' ∈ Text.trim first then (readParameters none parameters).map (ofMime (Text.trim first))
      else .error (parse.invalid value) := by
  simp only [parse, cut, List.contains_iff_mem]

/-- A media type as it is kept: in lower case, with a slash, and with nothing around it or behind it. -/
structure Normal (type : MediaType) : Prop where
  slash : '/' ∈ type.mime.toList
  whole : ';' ∉ type.mime.toList
  trimmed : Text.trim type.mime.toList = type.mime.toList
  lowered : Text.lower type.mime.toList = type.mime.toList

private theorem normal_ofMime {mime : List Char} (slash : '/' ∈ Text.trim mime) (whole : ';' ∉ mime)
    (charset : Option Charset) : (ofMime (Text.trim mime) charset).Normal := by
  have kept : (ofMime (Text.trim mime) charset).mime.toList = Text.lower (Text.trim mime) := String.toList_ofList
  constructor
  · rw [kept, Text.mem_lower (by decide) (by decide)]
    exact slash
  · rw [kept, Text.mem_lower (by decide) (by decide)]
    exact fun inside => whole (Text.mem_of_mem_trimBy inside)
  · rw [kept, Text.trim_lower, Text.trim_trim]
  · rw [kept, Text.lower_lower]

private theorem normal_of_parse {value : List Char} {type : MediaType} (parsed : parse value = .ok type) :
    type.Normal := by
  rcases cut : Text.pieces ';' value with - | ⟨first, parameters⟩
  · rw [parse, cut] at parsed
    cases parsed
  · rw [parse_of_pieces cut] at parsed
    split at parsed
    next slash =>
      obtain ⟨charset, _, rfl⟩ := ok_of_map parsed
      exact normal_ofMime slash (Text.not_mem_of_mem_pieces (cut ▸ List.mem_cons_self)) charset
    · cases parsed

private theorem readParameters_charset (charset : Charset) :
    readParameters none [" charset=".toList ++ charset.name.toList] = .ok (some charset.named) := by
  have cut : Text.cut? '=' (" charset=".toList ++ charset.name.toList) =
      some (" charset".toList, charset.name.toList) := by
    have named : " charset=".toList = " charset".toList ++ ['='] := by decide
    rw [named, List.append_assoc]
    exact Text.cut?_append (by decide) _
  have asks : isCharsetName " charset".toList = true := by decide
  simp only [readParameters, readParameter, cut, asks, Charset.parse, charset.ofLabel?_name]
  rfl

/-- A normal type is read from its text, with the charset that the name of its charset asks for. -/
theorem Normal.parse_text {type : MediaType} (h : type.Normal) :
    parse type.text.toList = .ok { type with charset := type.charset.map Charset.named } := by
  have mime : ∀ charset, ofMime type.mime.toList charset = ⟨type.mime, charset⟩ := by
    intro charset
    rw [ofMime, h.lowered, String.ofList_toList]
  cases given : type.charset with
  | none =>
    have cut : Text.pieces ';' type.text.toList = [type.mime.toList] := by
      rw [text, given]
      exact Text.pieces_of_not_mem h.whole
    rw [parse_of_pieces cut, h.trimmed, if_pos h.slash]
    exact congrArg Except.ok (mime none)
  | some charset =>
    have cut : Text.pieces ';' type.text.toList =
        [type.mime.toList, " charset=".toList ++ charset.name.toList] := by
      have behind : ';' ∉ " charset=".toList ++ charset.name.toList := by
        rw [List.mem_append]
        rintro (inside | inside)
        · revert inside
          decide
        · exact charset.semicolon_not_mem_name inside
      have written : type.text.toList = type.mime.toList ++ ';' :: (" charset=".toList ++ charset.name.toList) := by
        have lead : "; charset=".toList = ';' :: " charset=".toList := by decide
        rw [text, given]
        dsimp only
        rw [String.toList_append, String.toList_append, lead, List.append_assoc, List.cons_append]
      rw [written, Text.pieces_append, Text.pieces_of_not_mem h.whole, Text.pieces_of_not_mem behind]
      rfl
    rw [parse_of_pieces cut, h.trimmed, if_pos h.slash, readParameters_charset]
    exact congrArg Except.ok (mime (some charset.named))

private theorem renamed_eq_self_iff (type : MediaType) :
    { type with charset := type.charset.map Charset.named } = type ↔ type.charset ≠ some (.web .utf8) := by
  obtain ⟨mime, charset⟩ := type
  cases charset with
  | none => exact iff_of_true rfl nofun
  | some charset => simp [charset.named_eq_self_iff]

end MediaType

/-- A media type that was read is written so that it is read again, as the same type with a charset of the same
name, and that no longer changes. It is the same charset unless it is the web's encoding of UTF-8, whose name
belongs to the built-in charset. Labels lead to that encoding too, all but the two that are built in. -/
theorem reparsed_up_to_name (value : List Char) (type : MediaType) (parsed : MediaType.parse value = .ok type) :
    let again : MediaType := { type with charset := type.charset.map Charset.named }
    MediaType.parse type.text.toList = .ok again ∧ MediaType.parse again.text.toList = .ok again ∧
    (MediaType.parse type.text.toList = .ok type ↔ type.charset ≠ some (.web .utf8)) ∧
    ∀ label charset, Charset.ofLabel? label = some charset →
      (Charset.ofLabel? charset.name.toList = some charset ↔ charset ≠ .web .utf8) ∧
      (charset = .web .utf8 ↔
        String.ofList (Text.trimBy WebEncoding.isLabelBlank (Charset.bareLabel label)) ∈ WebEncoding.utf8.labels ∧
          String.ofList (Charset.bareLabel label) ∉ ["utf-8", "utf8"]) := by
  intro again
  have normal := MediaType.normal_of_parse parsed
  have normal' : again.Normal := ⟨normal.slash, normal.whole, normal.trimmed, normal.lowered⟩
  have reread : MediaType.parse type.text.toList = .ok again := normal.parse_text
  refine ⟨reread, ?_, ?_, fun label charset known => ⟨?_, ?_⟩⟩
  · rw [normal'.parse_text]
    simp [again, Function.comp_def]
  · rw [reread, Except.ok.injEq]
    exact type.renamed_eq_self_iff
  · rw [charset.ofLabel?_name, Option.some.injEq, charset.named_eq_self_iff]
  · rw [← Charset.ofLabel?_eq_web_utf8_iff, known, Option.some.injEq]

/-- A label in quotes, of a charset with a name of its own. -/
theorem reparsed_up_to_name_latin2 :
    let value := "Text/Plain ; charset=\"Latin2\"".toList
    let type : MediaType := ⟨"text/plain", some (.web .iso8859x2)⟩
    MediaType.parse value = .ok type ∧ MediaType.parse type.text.toList = .ok type ∧
      Charset.ofLabel? "Latin2".toList = some (.web .iso8859x2) ∧
      Charset.ofLabel? (Charset.web .iso8859x2).name.toList = some (.web .iso8859x2) := by
  intro value type
  have parsed : MediaType.parse value = .ok type := by decide +kernel
  have known : Charset.ofLabel? "Latin2".toList = some (.web .iso8859x2) := by decide +kernel
  obtain ⟨_, _, same, labels⟩ := reparsed_up_to_name value type parsed
  exact ⟨parsed, same.mpr nofun, known, (labels _ _ known).1.mpr nofun⟩

/-- A label of UTF-8 that is not built in. The text of the type it is read in asks for another charset. -/
theorem shared_name_changes_charset :
    let value := "text/plain; charset=unicode-1-1-utf-8".toList
    let type : MediaType := ⟨"text/plain", some (.web .utf8)⟩
    MediaType.parse value = .ok type ∧ type.text = "text/plain; charset=UTF-8" ∧
      MediaType.parse type.text.toList = .ok ⟨"text/plain", some .utf8⟩ ∧
      MediaType.parse type.text.toList ≠ .ok type ∧
      Charset.ofLabel? "unicode-1-1-utf-8".toList = some (.web .utf8) ∧
      Charset.ofLabel? (Charset.web .utf8).name.toList ≠ some (.web .utf8) := by
  decide +kernel

end Sluice
