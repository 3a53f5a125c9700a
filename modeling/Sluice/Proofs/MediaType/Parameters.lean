import Sluice.Http.Header
import Sluice.Proofs.MediaType.Reparsing

/-! Header values with parameters as a sender writes them. The reader cuts at every semicolon, those in quotes
included, so what follows one inside a quoted value counts as a parameter of its own. -/
namespace Sluice

namespace Http

variable {c : Char}

private theorem ne_of_isTokenChar {d : Char} (h : isTokenChar c) (other : isTokenChar d = false) : c ≠ d := by
  rintro rfl
  rw [h] at other
  cases other

private theorem isBlank_of_isTokenChar (h : isTokenChar c) : Text.isBlank c = false := by
  rw [isTokenChar, Bool.or_eq_true] at h
  rcases h with letter | sign
  · have alphanum : c.isAlphanum = ((decide (65 ≤ c.val ∧ c.val ≤ 90) || (97 ≤ c.val && c.val ≤ 122)) ||
        (48 ≤ c.val && c.val ≤ 57)) := rfl
    have number : c.toNat = c.val.toNat := rfl
    simp only [alphanum, Bool.or_eq_true, Bool.and_eq_true, decide_eq_true_eq, UInt32.le_iff_toNat_le] at letter
    simp only [Text.isBlank, number]
    simp at letter ⊢
    omega
  · have listed : "!#$%&'*+-.^_\x60|~".toList.all (fun c => !Text.isBlank c) = true := by decide
    simpa using List.all_eq_true.mp listed c (List.contains_iff_mem.mp sign)

end Http

namespace MediaType

/-- What a parameter is set to: a token, or any text in quotes. -/
inductive ParameterValue
  | token (text : List Char) (some : text ≠ []) (allowed : text.all Http.isTokenChar)
  | quoted (text : List Char) (plain : '"' ∉ text ∧ '\\' ∉ text)

namespace ParameterValue

def text : ParameterValue → List Char
  | token text _ _ => text
  | quoted text _ => text

def written : ParameterValue → List Char
  | token text _ _ => text
  | quoted text _ => '"' :: text ++ ['"']

end ParameterValue

/-- A parameter: blanks, a name of token characters, and its value. -/
structure Parameter where
  gap : List Char
  blank : gap.all Text.isBlank
  name : List Char
  allowed : name.all Http.isTokenChar
  value : ParameterValue

namespace Parameter

def text (p : Parameter) : List Char := p.gap ++ p.name ++ '=' :: p.value.written

def isCharset (p : Parameter) : Bool := Text.lower p.name == "charset".toList

end Parameter

def header (mime : List Char) (parameters : List Parameter) : List Char :=
  mime ++ parameters.flatMap fun p => ';' :: p.text

/-- The label in a piece of a header, if the piece asks for a charset. -/
def askedBy (piece : List Char) : Option (List Char) :=
  match Text.cut? '=' piece with
  | none => none
  | some (name, value) => if isCharsetName name then some value else none

private theorem readParameter_eq (charset : Option Charset) (piece : List Char) :
    readParameter charset piece = match askedBy piece with
      | none => .ok charset
      | some label => (Charset.parse label).map some := by
  unfold readParameter askedBy
  cases Text.cut? '=' piece with
  | none => rfl
  | some cut =>
    obtain ⟨name, value⟩ := cut
    dsimp only
    split
    · rfl
    · rfl

private theorem readParameters_eq (charset : Option Charset) (pieces : List (List Char)) :
    readParameters charset pieces =
      ((pieces.filterMap askedBy).mapM Charset.parse).map fun charsets => charsets.getLast?.or charset := by
  induction pieces generalizing charset with
  | nil => rfl
  | cons piece pieces ih =>
    rw [readParameters, readParameter_eq, List.filterMap_cons]
    cases askedBy piece with
    | none => exact ih charset
    | some label =>
      dsimp only
      rw [List.mapM_cons]
      cases Charset.parse label with
      | error fault => rfl
      | ok asked =>
        change readParameters (some asked) pieces = _
        rw [ih]
        cases (pieces.filterMap askedBy).mapM Charset.parse with
        | error fault => rfl
        | ok charsets =>
          have last : (asked :: charsets).getLast?.or charset = charsets.getLast?.or (some asked) := by
            rw [List.getLast?_cons]
            cases charsets.getLast? with
            | none => rfl
            | some _ => rfl
          exact congrArg Except.ok last.symm

private theorem pieces_flatMap (s : List Char) (parameters : List Parameter) :
    Text.pieces ';' (s ++ parameters.flatMap fun p => ';' :: p.text) =
      Text.pieces ';' s ++ parameters.flatMap fun p => Text.pieces ';' p.text := by
  induction parameters generalizing s with
  | nil => simp
  | cons p parameters ih =>
    rw [List.flatMap_cons, List.flatMap_cons, ← List.append_assoc, ih, Text.pieces_append, List.append_assoc]

namespace ParameterValue

/-- The value up to the first semicolon in it. -/
def front (value : ParameterValue) : List Char := (Text.pieces ';' value.written).headD []

/-- The labels that the text behind the first semicolon asks for. -/
def hidden (value : ParameterValue) : List (List Char) := (Text.pieces ';' value.written).tail.filterMap askedBy

private theorem pieces_written (value : ParameterValue) :
    Text.pieces ';' value.written = value.front :: (Text.pieces ';' value.written).tail := by
  cases cut : Text.pieces ';' value.written with
  | nil => exact absurd cut (Text.pieces_ne_nil _ _)
  | cons first rest => rw [front, cut]; rfl

private theorem front_of_not_mem {value : ParameterValue} (whole : ';' ∉ value.written) :
    value.front = value.written ∧ value.hidden = [] := by
  rw [front, hidden, Text.pieces_of_not_mem whole]
  exact ⟨rfl, rfl⟩

private theorem not_mem_written {value : ParameterValue} (visible : ';' ∉ value.text) : ';' ∉ value.written := by
  cases value with
  | token => exact visible
  | quoted text plain =>
    rw [written, List.mem_append, not_or]
    exact ⟨List.not_mem_cons_of_ne_of_not_mem (by decide) visible, by decide⟩

private theorem ofLabel?_written {value : ParameterValue} (trimmed : Text.trim value.text = value.text) :
    Charset.ofLabel? value.written = Charset.ofLabel? value.text := by
  cases value with
  | token => rfl
  | quoted text plain =>
    have outer : Text.trim ('"' :: text ++ ['"']) = '"' :: text ++ ['"'] := by
      refine Text.trimBy_eq_self ?_ ?_
      · rintro _ ⟨⟩
        decide
      · rw [List.getLast?_concat]
        rintro _ ⟨⟩
        decide
    have inner : Text.trimBy (· == '"') ('"' :: text ++ ['"']) = Text.trimBy (· == '"') text := by
      rw [Text.trimBy_append_right (by simp)]
      exact Text.trimBy_append_left (s := ['"']) (by simp) text
    have bare : Charset.bareLabel (written (quoted text plain)) = Charset.bareLabel text := by
      change Text.trim text = text at trimmed
      rw [Charset.bareLabel, written, outer, inner, Charset.bareLabel, trimmed]
    rw [Charset.ofLabel?, bare, Charset.ofLabel?]
    rfl

end ParameterValue

namespace Parameter

/-- The labels that a parameter asks for. -/
def asked (p : Parameter) : List (List Char) :=
  (if p.isCharset then [p.value.front] else []) ++ p.value.hidden

private theorem isCharsetName_name (p : Parameter) : isCharsetName (p.gap ++ p.name) = p.isCharset := by
  have bare : Text.trim (p.gap ++ p.name) = p.name := by
    have visible : ∀ c ∈ p.name, Text.isBlank c = false :=
      fun c member => Http.isBlank_of_isTokenChar (List.all_eq_true.mp p.allowed c member)
    rw [Text.trim, Text.trimBy_append_left (List.all_eq_true.mp p.blank)]
    exact Text.trimBy_eq_self (fun c first => visible c (List.mem_of_mem_head? first))
      (fun c last => visible c (List.mem_of_getLast? last))
  rw [isCharsetName, bare, isCharset]

private theorem filterMap_askedBy (p : Parameter) : (Text.pieces ';' p.text).filterMap askedBy = p.asked := by
  have absent : ∀ {c}, Text.isBlank c = false → Http.isTokenChar c = false → c ∉ p.gap ++ p.name := by
    intro c visible other inside
    rcases List.mem_append.mp inside with gap | name
    · have blank := List.all_eq_true.mp p.blank c gap
      rw [visible] at blank
      cases blank
    · exact Http.ne_of_isTokenChar (List.all_eq_true.mp p.allowed c name) other rfl
  have lead : ';' ∉ p.gap ++ p.name ++ ['='] := by
    rw [List.mem_append, not_or]
    exact ⟨absent (by decide) (by decide), by decide⟩
  have cut : Text.pieces ';' p.text =
      (p.gap ++ p.name ++ '=' :: p.value.front) :: (Text.pieces ';' p.value.written).tail := by
    have together : p.text = (p.gap ++ p.name ++ ['=']) ++ p.value.written := by
      simp [text]
    rw [together, Text.pieces_append_left lead p.value.pieces_written]
    simp
  have name : askedBy (p.gap ++ p.name ++ '=' :: p.value.front) =
      if p.isCharset then some p.value.front else none := by
    rw [askedBy, Text.cut?_append (absent (by decide) (by decide))]
    dsimp only
    rw [isCharsetName_name]
  rw [cut, List.filterMap_cons, name, asked, ParameterValue.hidden]
  cases p.isCharset with
  | true => rfl
  | false => rfl

end Parameter

/-- A header with parameters is read by the labels they ask for, in quotes or not. -/
theorem parse_header {mime : List Char} (whole : ';' ∉ mime) (parameters : List Parameter) :
    parse (header mime parameters) =
      if '/' ∈ mime then
        ((parameters.flatMap Parameter.asked).mapM Charset.parse).map fun charsets =>
          ofMime (Text.trim mime) charsets.getLast?
      else .error (parse.invalid (header mime parameters)) := by
  have cut : Text.pieces ';' (header mime parameters) =
      mime :: parameters.flatMap fun p => Text.pieces ';' p.text := by
    rw [header, pieces_flatMap, Text.pieces_of_not_mem whole]
    rfl
  have asked : (parameters.flatMap fun p => Text.pieces ';' p.text).filterMap askedBy =
      parameters.flatMap Parameter.asked := by
    rw [List.filterMap_flatMap]
    exact congrArg (List.flatMap · parameters) (funext Parameter.filterMap_askedBy)
  have slash : '/' ∈ Text.trim mime ↔ '/' ∈ mime := Text.mem_trimBy (by decide)
  rw [parse_of_pieces cut, readParameters_eq, asked]
  simp only [slash, Option.or_none]
  split
  · cases (parameters.flatMap Parameter.asked).mapM Charset.parse with
    | error fault => rfl
    | ok charsets => rfl
  · rfl

private theorem flatMap_asked {parameters : List Parameter} (plain : ∀ p ∈ parameters, p.value.hidden = [])
    (seen : ∀ p ∈ parameters, p.isCharset → ';' ∉ p.value.written) :
    parameters.flatMap Parameter.asked = (parameters.filter Parameter.isCharset).map (·.value.written) := by
  induction parameters with
  | nil => rfl
  | cons p parameters ih =>
    obtain ⟨nothing, plain⟩ := List.forall_mem_cons.mp plain
    obtain ⟨whole, seen⟩ := List.forall_mem_cons.mp seen
    rw [List.flatMap_cons, ih plain seen, Parameter.asked, nothing, List.append_nil, List.filter_cons]
    split
    next charset =>
      rw [(ParameterValue.front_of_not_mem (whole charset)).1]
      rfl
    · rfl

/-- A header with at most one charset, and nothing hidden, is read by that charset alone. -/
theorem parse_header_once {mime : List Char} {parameters : List Parameter} (whole : ';' ∉ mime)
    (plain : ∀ p ∈ parameters, p.value.hidden = [])
    (seen : ∀ p ∈ parameters, p.isCharset → ';' ∉ p.value.written)
    (once : (parameters.filter Parameter.isCharset).length ≤ 1) :
    parse (header mime parameters) =
      if '/' ∈ mime then
        match parameters.find? Parameter.isCharset with
        | none => .ok (ofMime (Text.trim mime) none)
        | some p => (Charset.parse p.value.written).map fun charset => ofMime (Text.trim mime) (some charset)
      else .error (parse.invalid (header mime parameters)) := by
  rw [parse_header whole, flatMap_asked plain seen, ← List.head?_filter]
  rcases given : parameters.filter Parameter.isCharset with - | ⟨p, more⟩
  · rfl
  · rw [given] at once
    obtain rfl : more = [] := List.length_eq_zero_iff.mp (Nat.le_zero.mp (Nat.le_of_succ_le_succ once))
    simp only [List.map_cons, List.map_nil, List.mapM_cons, List.mapM_nil, List.head?_cons]
    cases Charset.parse p.value.written with
    | error fault => rfl
    | ok charset => rfl

private theorem eq_nil_of_settled {labels : List (List Char)} {charsets : List Charset}
    (settled : labels.mapM Charset.parse = .ok charsets) (nothing : charsets.getLast? = none) : labels = [] := by
  cases labels with
  | nil => rfl
  | cons label labels =>
    rw [List.mapM_cons] at settled
    obtain rfl := List.getLast?_eq_none_iff.mp nothing
    cases first : Charset.parse label with
    | error fault =>
      rw [first] at settled
      cases settled
    | ok charset =>
      cases rest : labels.mapM Charset.parse with
      | error fault =>
        rw [first, rest] at settled
        cases settled
      | ok others =>
        rw [first, rest] at settled
        cases settled

/-- A parameter of another name matters to no header if it hides nothing. If it does, it matters to the header
that has no other parameter. -/
theorem ignored_iff {mime : List Char} (whole : ';' ∉ mime) (slash : '/' ∈ mime) {p : Parameter}
    (other : p.isCharset = false) :
    (∀ before after, parse (header mime (before ++ p :: after)) = parse (header mime (before ++ after))) ↔
      p.value.hidden = [] := by
  have asked : p.asked = p.value.hidden := by
    rw [Parameter.asked, other]
    rfl
  constructor
  · intro ignored
    have same := ignored [] []
    simp only [List.nil_append, parse_header whole, if_pos slash, List.flatMap_cons, List.flatMap_nil,
      List.append_nil, asked] at same
    obtain ⟨charsets, settled, type⟩ := ok_of_map (same : _ = Except.ok (ofMime (Text.trim mime) none))
    exact eq_nil_of_settled settled (congrArg charset type).symm
  · intro nothing before after
    simp only [parse_header whole, if_pos slash, List.flatMap_append, List.flatMap_cons, asked, nothing,
      List.nil_append]

end MediaType

open MediaType

/-- A header with parameters is read by the labels that its pieces ask for, in quotes or not, and the last one
counts. With at most one charset, that is the charset it is set to, so long as no value hides a label behind a
semicolon. Quotes around a charset do not count, unless there are blanks in them. A parameter of another name
makes no difference anywhere exactly when its value hides nothing. -/
theorem charset_alone_unless_hidden (mime : List Char) (whole : ';' ∉ mime) :
    (∀ parameters : List Parameter, parse (header mime parameters) =
      if '/' ∈ mime then
        ((parameters.flatMap Parameter.asked).mapM Charset.parse).map fun charsets =>
          ofMime (Text.trim mime) charsets.getLast?
      else .error (parse.invalid (header mime parameters))) ∧
    (∀ parameters : List Parameter, (∀ p ∈ parameters, p.value.hidden = []) →
      (∀ p ∈ parameters, p.isCharset → ';' ∉ p.value.written) →
      (parameters.filter Parameter.isCharset).length ≤ 1 → parse (header mime parameters) =
        if '/' ∈ mime then
          match parameters.find? Parameter.isCharset with
          | none => .ok (ofMime (Text.trim mime) none)
          | some p => (Charset.parse p.value.written).map fun charset => ofMime (Text.trim mime) (some charset)
        else .error (parse.invalid (header mime parameters))) ∧
    (∀ value : ParameterValue, (Text.trim value.text = value.text →
        Charset.ofLabel? value.written = Charset.ofLabel? value.text) ∧
      (';' ∉ value.text → value.hidden = [])) ∧
    ('/' ∈ mime → ∀ p : Parameter, p.isCharset = false →
      ((∀ before after, parse (header mime (before ++ p :: after)) = parse (header mime (before ++ after))) ↔
        p.value.hidden = [])) := by
  refine ⟨parse_header whole, fun parameters => parse_header_once whole, fun value => ⟨?_, ?_⟩, ?_⟩
  · exact ParameterValue.ofLabel?_written
  · intro visible
    exact (ParameterValue.front_of_not_mem (value.not_mem_written visible)).2
  · exact fun slash p => ignored_iff whole slash

/-- A title with a semicolon in it, and a charset in quotes. -/
theorem charset_alone_unless_hidden_title :
    let title : Parameter := ⟨" ".toList, by decide, "title".toList, by decide, .quoted "a; b".toList (by decide)⟩
    let charset : Parameter := ⟨[], by decide, "Charset".toList, by decide, .quoted "L1".toList (by decide)⟩
    ';' ∉ "Text/Plain".toList ∧
      header "Text/Plain".toList [title, charset] = "Text/Plain; title=\"a; b\";Charset=\"L1\"".toList ∧
      parse (header "Text/Plain".toList [title, charset]) = .ok ⟨"text/plain", some .latin1⟩ := by
  intro title charset
  have whole : ';' ∉ "Text/Plain".toList := by decide
  obtain ⟨_, once, _, _⟩ := charset_alone_unless_hidden "Text/Plain".toList whole
  have read := once [title, charset] (by decide) (by decide) (by decide)
  refine ⟨whole, by decide, read.trans ?_⟩
  decide +kernel

/-- A title that is read as a charset, and one that is taken for a charset in place of the one that is given. -/
theorem title_read_as_charset :
    let refused : Parameter :=
      ⟨" ".toList, by decide, "title".toList, by decide, .quoted "a; charset=klingon".toList (by decide)⟩
    let mistaken : Parameter :=
      ⟨" ".toList, by decide, "title".toList, by decide, .quoted "a; charset=l1".toList (by decide)⟩
    let charset : Parameter :=
      ⟨" ".toList, by decide, "charset".toList, by decide, .token "utf-8".toList (by decide) (by decide)⟩
    refused.isCharset = false ∧ mistaken.isCharset = false ∧
      header "multipart/mixed".toList [refused] = "multipart/mixed; title=\"a; charset=klingon\"".toList ∧
      parse (header "multipart/mixed".toList []) = .ok ⟨"multipart/mixed", none⟩ ∧
      parse (header "multipart/mixed".toList [refused]) = .error (.encoding "unsupported charset: klingon\"") ∧
      parse (header "text/plain".toList [charset]) = .ok ⟨"text/plain", some .utf8⟩ ∧
      parse (header "text/plain".toList [charset, mistaken]) = .ok ⟨"text/plain", some .latin1⟩ := by
  decide +kernel

end Sluice
