import Mathlib.Data.List.DropRight
import Sluice.Proofs.Json.Grammar

/-! Every JSON value is skipped as a whole, whatever is in it and however deep it goes. Only the text behind a number
matters: it must not go on with the number. -/
namespace Sluice.Json

variable {s t rest : List Char}

theorem skipBlanks_append {blanks : List Char} (h : Blanks blanks) (s : List Char) :
    skipBlanks (blanks ++ s) = skipBlanks s :=
  List.dropWhile_append_of_pos h

theorem skipBlanks_cons {c : Char} (visible : isBlank c = false) (s : List Char) : skipBlanks (c :: s) = c :: s :=
  List.dropWhile_cons_of_neg (Bool.eq_false_iff.mp visible)

@[simp] theorem skipBlanks_skipBlanks (s : List Char) : skipBlanks (skipBlanks s) = skipBlanks s :=
  List.dropWhile_idempotent _ _

section Numbers

/-- What cannot go on with a number. -/
def NumberEnds (rest : List Char) : Prop :=
  ∀ c ∈ rest.head?, c.isDigit = false ∧ c ≠ '.' ∧ c ≠ 'e' ∧ c ≠ 'E'

private theorem skipDigits_append {ds : List Char} (digits : AreDigits ds)
    (ends : ∀ c ∈ rest.head?, c.isDigit = false) :
    skipDigits (ds ++ rest) = rest := by
  rw [skipDigits, List.dropWhile_append_of_pos digits]
  cases rest with
  | nil => rfl
  | cons c rest => exact List.dropWhile_cons_of_neg (Bool.eq_false_iff.mp (ends c rfl))

private theorem exponentSign_append {sign : List Char} (signed : sign = [] ∨ sign = ['+'] ∨ sign = ['-'])
    (numeral : Numeral s) (rest : List Char) : (exponentSign (sign ++ (s ++ rest))).2 = s ++ rest := by
  obtain ⟨digit, more⟩ := numeral
  rcases signed with rfl | rfl | rfl
  · rw [List.nil_append, List.cons_append]
    unfold exponentSign
    split
    next first =>
      obtain ⟨rfl, rfl⟩ := List.cons.inj first
      cases digit
    next first =>
      obtain ⟨rfl, rfl⟩ := List.cons.inj first
      cases digit
    · rfl
  · rfl
  · rfl

private theorem skipExponent_append {sign : List Char} (signed : sign = [] ∨ sign = ['+'] ∨ sign = ['-'])
    (numeral : Numeral s) (ends : NumberEnds rest) : skipExponent (sign ++ (s ++ rest)) = .ok rest := by
  rw [skipExponent, exponentSign_append signed numeral]
  obtain ⟨digit, more⟩ := numeral
  rw [List.cons_append]
  dsimp only
  rw [if_pos digit, skipDigits_append more fun c first => (ends c first).1]

private theorem skipAfterWhole_ends (ends : NumberEnds rest) : skipAfterWhole rest = .ok rest := by
  unfold skipAfterWhole
  split
  · exact absurd rfl (ends _ rfl).2.1
  · exact absurd rfl (ends _ rfl).2.2.1
  · exact absurd rfl (ends _ rfl).2.2.2
  · rfl

private theorem skipAfterWhole_exponent {exponent : List Char} (third : ExponentPart exponent)
    (ends : NumberEnds rest) :
    skipAfterWhole (exponent ++ rest) = .ok rest := by
  cases third with
  | none => exact skipAfterWhole_ends ends
  | digits letter signed numeral =>
    rw [List.cons_append, List.append_assoc]
    rcases letter with rfl | rfl
    · exact skipExponent_append signed numeral ends
    · exact skipExponent_append signed numeral ends

private theorem exponent_ends {exponent : List Char} (third : ExponentPart exponent) (ends : NumberEnds rest) :
    ∀ c ∈ (exponent ++ rest).head?, c.isDigit = false := by
  cases third with
  | none => exact fun c first => (ends c first).1
  | digits letter signed numeral =>
    rintro _ ⟨⟩
    rcases letter with rfl | rfl
    · rfl
    · rfl

private theorem skipFraction_append {exponent : List Char} (numeral : Numeral s) (third : ExponentPart exponent)
    (ends : NumberEnds rest) : skipFraction (s ++ (exponent ++ rest)) = .ok rest := by
  cases numeral with
  | @digits d ds digit more =>
    rw [List.cons_append, skipFraction, if_pos digit, skipDigits_append more (exponent_ends third ends)]
    cases third with
    | none =>
      rw [List.nil_append]
      split
      · exact absurd rfl (ends _ rfl).2.2.1
      · exact absurd rfl (ends _ rfl).2.2.2
      · rfl
    | digits letter signed numeral =>
      rw [List.cons_append, List.append_assoc]
      rcases letter with rfl | rfl
      · exact skipExponent_append signed numeral ends
      · exact skipExponent_append signed numeral ends

private theorem skipAfterWhole_append {fraction exponent : List Char} (second : FractionPart fraction)
    (third : ExponentPart exponent) (ends : NumberEnds rest) :
    skipAfterWhole (fraction ++ (exponent ++ rest)) = .ok rest := by
  cases second with
  | none => exact skipAfterWhole_exponent third ends
  | digits numeral => exact skipFraction_append numeral third ends

private theorem fraction_ends {fraction exponent : List Char} (second : FractionPart fraction)
    (third : ExponentPart exponent) (ends : NumberEnds rest) :
    ∀ c ∈ (fraction ++ (exponent ++ rest)).head?, c.isDigit = false := by
  cases second with
  | none =>
    rw [List.nil_append]
    exact exponent_ends third ends
  | digits numeral =>
    rintro _ ⟨⟩
    rfl

private theorem skipNumber_append {whole fraction exponent : List Char} (first : WholePart whole)
    (second : FractionPart fraction) (third : ExponentPart exponent) (ends : NumberEnds rest) :
    skipNumber (whole ++ (fraction ++ (exponent ++ rest))) = .ok rest := by
  have behind := skipAfterWhole_append second third ends
  have other := fraction_ends second third ends
  generalize fraction ++ (exponent ++ rest) = tail at behind other
  cases first with
  | zero =>
    cases tail with
    | nil => exact behind
    | cons c tail =>
      rw [List.singleton_append, skipNumber.eq_def]
      dsimp only
      rw [if_pos rfl, if_neg (Bool.eq_false_iff.mp (other c rfl))]
      exact behind
  | digits digit nonzero more =>
    rw [List.cons_append, skipNumber.eq_def]
    dsimp only
    rw [if_neg nonzero, if_pos digit, skipDigits_append more other]
    exact behind

end Numbers

section Strings

variable {u : List Char} {n : Nat}

private theorem scanString_hex {c : Char} {d missing : Nat} (hex : hexDigit? c = some d)
    (more : 1 < missing) (strict : Bool)
    (high : Option Nat) (value : Nat) (acc s : List Char) : scanString strict (.unit high missing value) acc (c :: s) =
      scanString strict (.unit high (missing - 1) (value * 16 + d)) acc s := by
  rw [scanString, hex]
  exact if_pos more

/-- Four hexadecimal digits make a unit, which counts for what it means if half pairs matter. -/
theorem scanString_unit (strict : Bool) (high : Option Nat) (acc : List Char) (unit : HexUnit u n) (s : List Char) :
    scanString strict (.unit high 4 0) acc (u ++ s) =
      if strict then
        match unitMeaning high n with
        | .char c => scanString strict .plain (c :: acc) s
        | .half h => scanString strict (.backslashFor h) acc s
        | .unpaired => .error .malformed
      else scanString strict .plain acc s := by
  obtain ⟨first, second, third, fourth⟩ := unit
  simp only [List.cons_append, List.nil_append]
  rw [scanString_hex first (by decide), scanString_hex second (by decide), scanString_hex third (by decide), scanString,
    fourth, Nat.zero_mul, Nat.zero_add]
  exact if_neg (by decide)

theorem unit_whole (unit : HexUnit u n) (s : List Char) : ¬ Text.utf8Length ((u ++ s).take 4) < 4 := by
  cases unit with
  | @digits a b c d =>
    have first := a.utf8Size_pos
    have second := b.utf8Size_pos
    have third := c.utf8Size_pos
    have fourth := d.utf8Size_pos
    simp only [List.cons_append, List.take_succ_cons, List.take_zero, Text.utf8Length]
    omega

private theorem scanString_text (text : StringText s) (acc rest : List Char) :
    ∃ chars, scanString false .plain acc (s ++ '"' :: rest) = .ok (chars, rest) := by
  induction text generalizing acc with
  | nil => exact ⟨_, rfl⟩
  | @plain c s plain _ ih =>
    obtain ⟨visible, quote, backslash⟩ := plain
    rw [List.cons_append, scanString, if_neg quote, if_neg backslash, if_neg (Nat.not_lt.mpr visible)]
    exact ih _
  | @short e c s means _ ih =>
    have noUnit : e ≠ 'u' := by
      rintro rfl
      cases means
    rw [List.cons_append, List.cons_append, scanString, if_neg (by decide), if_pos rfl, scanString, if_neg noUnit,
      means]
    exact ih _
  | @unit u s n unit _ ih =>
    rw [List.cons_append, List.cons_append, List.append_assoc, scanString, if_neg (by decide), if_pos rfl, scanString,
      if_pos rfl, if_neg (unit_whole unit _), scanString_unit false none acc unit]
    exact ih _

private theorem skipString_append (text : StringText s) (rest : List Char) :
    skipString (s ++ '"' :: rest) = .ok rest := by
  obtain ⟨chars, scanned⟩ := scanString_text text [] rest
  rw [skipString, scanned]
  rfl

end Strings

section Scalars

private theorem ne_of_isDigit {c d : Char} (digit : c.isDigit = true) (other : d.isDigit = false) : c ≠ d := by
  rintro rfl
  rw [digit] at other
  cases other

theorem isBlank_of_isDigit {c : Char} (digit : c.isDigit = true) : isBlank c = false := by
  have space := ne_of_isDigit digit (d := ' ') rfl
  have line := ne_of_isDigit digit (d := '\n') rfl
  have tab := ne_of_isDigit digit (d := '\t') rfl
  have back := ne_of_isDigit digit (d := '\r') rfl
  simp [isBlank, space, line, tab, back]

theorem WholePart.head {whole : List Char} (h : WholePart whole) : ∃ d ds, whole = d :: ds ∧ d.isDigit = true := by
  cases h with
  | zero => exact ⟨'0', [], rfl, rfl⟩
  | digits digit _ _ => exact ⟨_, _, rfl, digit⟩

private theorem skipScalar_digit {c : Char} (digit : c.isDigit = true) (s : List Char) :
    skipScalar (c :: s) = skipNumber (c :: s) := by
  unfold skipScalar
  split
  next none => cases none
  next first =>
    obtain ⟨rfl, _⟩ := List.cons.inj first
    cases digit
  next first =>
    obtain ⟨rfl, _⟩ := List.cons.inj first
    cases digit
  next first =>
    obtain ⟨rfl, _⟩ := List.cons.inj first
    cases digit
  next first =>
    obtain ⟨rfl, _⟩ := List.cons.inj first
    cases digit
  next first =>
    obtain ⟨rfl, _⟩ := List.cons.inj first
    cases digit
  next first =>
    obtain ⟨rfl, rfl⟩ := List.cons.inj first
    exact if_pos digit

/-- A value that is no list and no object is skipped at once. -/
theorem skipScalar_append (scalar : ScalarText s) (ends : NumberEnds rest) : skipScalar (s ++ rest) = .ok rest := by
  cases scalar with
  | null => rfl
  | true => rfl
  | false => rfl
  | number number =>
    obtain ⟨signed, first, second, third⟩ := number
    have skipped := skipNumber_append first second third ends
    rcases signed with rfl | rfl
    · obtain ⟨d, ds, rfl, digit⟩ := first.head
      simpa only [List.nil_append, List.cons_append, List.append_assoc, skipScalar_digit digit] using skipped
    · simpa only [List.append_assoc, List.singleton_append, List.cons_append, List.nil_append, skipScalar] using skipped
  | string text =>
    rw [List.cons_append, List.append_assoc]
    exact skipString_append text rest

/-- The first character of a value. It is no blank and closes no bracket. -/
def Opens (c : Char) : Prop := isBlank c = false ∧ ∀ bracket : Bracket, c ≠ bracket.closing

private theorem ScalarText.head (h : ScalarText s) : ∃ c t, s = c :: t ∧ Opens c ∧ c ≠ '[' ∧ c ≠ '\x7b' := by
  have letter : ∀ c ∈ ['n', 't', 'f', '"', '-'], Opens c ∧ c ≠ '[' ∧ c ≠ '\x7b' := by
    intro c member
    simp only [List.mem_cons, List.not_mem_nil, or_false] at member
    rcases member with rfl | rfl | rfl | rfl | rfl
    all_goals
      refine ⟨⟨by decide, fun bracket => ?_⟩, by decide, by decide⟩
      cases bracket with
      | list => decide
      | object => decide
  cases h with
  | null => exact ⟨_, _, rfl, letter _ (by decide)⟩
  | true => exact ⟨_, _, rfl, letter _ (by decide)⟩
  | false => exact ⟨_, _, rfl, letter _ (by decide)⟩
  | number number =>
    obtain ⟨signed, first, second, third⟩ := number
    rcases signed with rfl | rfl
    · obtain ⟨d, ds, rfl, digit⟩ := first.head
      have visible := isBlank_of_isDigit digit
      refine ⟨d, _, rfl, ⟨visible, fun bracket => ?_⟩, ne_of_isDigit digit rfl, ne_of_isDigit digit rfl⟩
      cases bracket with
      | list => exact ne_of_isDigit digit rfl
      | object => exact ne_of_isDigit digit rfl
    · exact ⟨_, _, rfl, letter _ (by decide)⟩
  | string text => exact ⟨_, _, rfl, letter _ (by decide)⟩

end Scalars

section Steps

variable {opened opened' outer : List Bracket} {expecting expecting' : Expecting} {steps : Nat}

/-- What the skipper expects behind an opening bracket. -/
def Bracket.first : Bracket → Expecting
  | list => .valueOrEnd
  | object => .nameOrEnd

private theorem skipWithin_succ (going : opened = [] → expecting ≠ .next) (steps : Nat) (s : List Char) :
    skipWithin (steps + 1) opened expecting s = match skipStep opened expecting (skipBlanks s) with
      | .error flaw => .error flaw
      | .ok (opened, expecting, s) => skipWithin steps opened expecting s := by
  cases opened with
  | nil =>
    cases expecting with
    | next => exact absurd rfl (going rfl)
    | _ => rfl
  | cons => rfl

private theorem skipWithin_skipBlanks (going : opened = [] → expecting ≠ .next) (steps : Nat) (s : List Char) :
    skipWithin steps opened expecting (skipBlanks s) = skipWithin steps opened expecting s := by
  cases steps with
  | zero =>
    rw [skipWithin, skipWithin]
    · exact going
    · exact going
  | succ steps => rw [skipWithin_succ going, skipWithin_succ going, skipBlanks_skipBlanks]

private theorem skipWithin_blanks {blanks : List Char} (h : Blanks blanks) (going : opened = [] → expecting ≠ .next)
    (steps : Nat) (s : List Char) :
    skipWithin steps opened expecting (blanks ++ s) = skipWithin steps opened expecting s := by
  rw [← skipWithin_skipBlanks going, skipBlanks_append h, skipWithin_skipBlanks going]

private theorem skipWithin_step (going : opened = [] → expecting ≠ .next)
    (step : skipStep opened expecting (skipBlanks s) = .ok (opened', expecting', t)) :
    skipWithin (steps + 1) opened expecting s = skipWithin steps opened' expecting' t := by
  rw [skipWithin_succ going, step]

variable (opened outer) (bracket : Bracket)

private theorem isBlank_opening : isBlank bracket.opening = false := by
  cases bracket with
  | list => rfl
  | object => rfl

private theorem isBlank_closing : isBlank bracket.closing = false := by
  cases bracket with
  | list => rfl
  | object => rfl

private theorem skipWithin_opening (steps : Nat) (s : List Char) :
    skipWithin (steps + 1) opened .value (bracket.opening :: s) =
      skipWithin steps (bracket :: opened) bracket.first s := by
  refine skipWithin_step (by nofun) ?_
  rw [skipBlanks_cons (isBlank_opening bracket)]
  cases bracket with
  | list => rfl
  | object => rfl

private theorem skipWithin_empty {a : List Char} (blanks : Blanks a) (steps : Nat) (s : List Char) :
    skipWithin (steps + 1) (bracket :: outer) bracket.first (a ++ bracket.closing :: s) =
      skipWithin steps outer .next s := by
  refine skipWithin_step (by nofun) ?_
  rw [skipBlanks_append blanks, skipBlanks_cons (isBlank_closing bracket)]
  cases bracket with
  | list => rfl
  | object => rfl

private theorem skipWithin_first {a : List Char} {c : Char} (blanks : Blanks a) (opens : Opens c) (steps : Nat)
    (s : List Char) : skipWithin (steps + 1) (bracket :: outer) bracket.first (a ++ c :: s) =
      skipWithin steps (bracket :: outer) bracket.member (a ++ c :: s) := by
  have begun : skipStep (bracket :: outer) bracket.first (c :: s) = .ok (bracket :: outer, bracket.member, c :: s) := by
    cases bracket with
    | list =>
      refine skipStep.eq_5 _ (c :: s) fun _ _ _ _ closes => ?_
      exact opens.2 .list (List.cons.inj closes).1
    | object =>
      refine skipStep.eq_7 _ (c :: s) fun _ _ _ _ closes => ?_
      exact opens.2 .object (List.cons.inj closes).1
  have visible : skipBlanks (a ++ c :: s) = c :: s := by
    rw [skipBlanks_append blanks, skipBlanks_cons opens.1]
  rw [skipWithin_step (by nofun) (visible ▸ begun), ← visible, skipWithin_skipBlanks (by nofun)]

private theorem skipWithin_comma (steps : Nat) (s : List Char) :
    skipWithin (steps + 1) (bracket :: outer) .next (',' :: s) = skipWithin steps (bracket :: outer) bracket.member s :=
  skipWithin_step (by nofun) (by rw [skipBlanks_cons rfl]; rfl)

private theorem skipWithin_closing (steps : Nat) (s : List Char) :
    skipWithin (steps + 1) (bracket :: outer) .next (bracket.closing :: s) = skipWithin steps outer .next s := by
  refine skipWithin_step (by nofun) ?_
  rw [skipBlanks_cons (isBlank_closing bracket)]
  cases bracket with
  | list => rfl
  | object => rfl

private theorem skipWithin_scalar (scalar : ScalarText s) (ends : NumberEnds rest) (steps : Nat) :
    skipWithin (steps + 1) opened .value (s ++ rest) = skipWithin steps opened .next rest := by
  obtain ⟨c, t, whole, opens, noList, noObject⟩ := scalar.head
  have visible : skipBlanks (s ++ rest) = s ++ rest := by
    rw [whole]
    exact skipBlanks_cons opens.1 _
  refine skipWithin_step (by nofun) ?_
  rw [visible, skipStep, skipScalar_append scalar ends]
  · rfl
  · intro s' opens
    rw [whole] at opens
    exact noList (List.cons.inj opens).1
  · intro s' opens
    rw [whole] at opens
    exact noObject (List.cons.inj opens).1

private theorem skipWithin_name {name b : List Char} (named : StringText name) (colon : Blanks b) (steps : Nat)
    (s : List Char) : skipWithin (steps + 1) opened .name ('"' :: (name ++ '"' :: (b ++ ':' :: s))) =
      skipWithin steps opened .value s := by
  refine skipWithin_step (by nofun) ?_
  rw [skipBlanks_cons rfl, skipStep, skipName, skipString_append named]
  dsimp only
  rw [skipBlanks_append colon, skipBlanks_cons (by decide)]
  rfl

end Steps

section Phrases

/-- What comes behind an item: a comma, or the closing bracket. -/
def Bracket.Follows (bracket : Bracket) (c : Char) : Prop := c = ',' ∨ c = bracket.closing

theorem Bracket.Follows.ends {bracket : Bracket} {c : Char} (h : bracket.Follows c) (s : List Char) :
    NumberEnds (c :: s) := by
  rintro _ ⟨⟩
  rcases h with rfl | rfl
  · decide
  · cases bracket with
    | list => decide
    | object => decide

theorem NumberEnds.behind {blanks : List Char} (h : Blanks blanks) (ends : NumberEnds rest) :
    NumberEnds (blanks ++ rest) := by
  cases blanks with
  | nil => exact ends
  | cons c blanks =>
    rintro _ ⟨⟩
    have blank := h c List.mem_cons_self
    refine ⟨Bool.eq_false_iff.mpr fun digit => ?_, ?_, ?_, ?_⟩
    · rw [isBlank_of_isDigit digit] at blank
      cases blank
    all_goals
      rintro rfl
      cases blank

private theorem Bracket.opens_opening (bracket : Bracket) : Opens bracket.opening := by
  refine ⟨isBlank_opening bracket, fun other => ?_⟩
  cases bracket with
  | list => cases other with
    | list => decide
    | object => decide
  | object => cases other with
    | list => decide
    | object => decide

private theorem opens_quote : Opens '"' := by
  refine ⟨rfl, fun bracket => ?_⟩
  cases bracket with
  | list => decide
  | object => decide

private theorem Phrase.Text.head (h : Phrase.value.Text s) : ∃ c t, s = c :: t ∧ Opens c := by
  cases h with
  | scalar scalar =>
    obtain ⟨c, t, whole, opens, _⟩ := scalar.head
    exact ⟨c, t, whole, opens⟩
  | empty bracket blanks => exact ⟨_, _, rfl, bracket.opens_opening⟩
  | @bracketed bracket _ inside => exact ⟨_, _, rfl, bracket.opens_opening⟩

private theorem Phrase.Text.first {phrase : Phrase} (h : phrase.Text s) (inside : phrase ≠ .value) :
    ∃ a c t, Blanks a ∧ s = a ++ c :: t ∧ Opens c := by
  induction h with
  | scalar scalar => exact absurd rfl inside
  | empty bracket blanks => exact absurd rfl inside
  | bracketed _ _ => exact absurd rfl inside
  | element before value after _ =>
    obtain ⟨c, t, rfl, opens⟩ := value.head
    exact ⟨_, c, _, before, rfl, opens⟩
  | member before named colon space value after _ => exact ⟨_, '"', _, before, rfl, opens_quote⟩
  | one only ih => exact ih nofun
  | more first rest ih _ =>
    obtain ⟨a, c, t, before, rfl, opens⟩ := ih nofun
    exact ⟨a, c, _, before, List.append_assoc _ _ _, opens⟩

/-- The skipper gets behind a phrase in a number of steps, at most twice its length. Behind a value or an item it
looks for what comes next. -/
def Phrase.Skips : Phrase → List Char → Prop
  | value, s => ∃ used ≤ 2 * s.length, ∀ steps opened rest, NumberEnds rest →
      skipWithin (steps + used) opened .value (s ++ rest) = skipWithin steps opened .next rest
  | item bracket, s | items bracket, s => ∃ used ≤ 2 * s.length, ∀ steps outer c rest, bracket.Follows c →
      skipWithin (steps + used) (bracket :: outer) bracket.member (s ++ c :: rest) =
        skipWithin steps (bracket :: outer) .next (c :: rest)

namespace Phrase

private theorem skips_scalar (scalar : ScalarText s) : value.Skips s := by
  obtain ⟨c, t, whole, _⟩ := scalar.head
  refine ⟨1, ?_, fun steps opened rest ends => skipWithin_scalar opened scalar ends steps⟩
  rw [whole, List.length_cons]
  omega

private theorem skips_empty (bracket : Bracket) {a : List Char} (blanks : Blanks a) :
    value.Skips (bracket.opening :: (a ++ [bracket.closing])) := by
  refine ⟨2, ?_, fun steps opened rest ends => ?_⟩
  · simp only [List.length_cons, List.length_append, List.length_nil]
    omega
  · rw [List.cons_append, List.append_assoc, List.singleton_append, skipWithin_opening]
    exact skipWithin_empty opened bracket blanks steps rest

private theorem skips_bracketed {bracket : Bracket} (inside : (items bracket).Text s)
    (skips : (items bracket).Skips s) :
    value.Skips (bracket.opening :: (s ++ [bracket.closing])) := by
  obtain ⟨used, bound, skips⟩ := skips
  obtain ⟨a, c, t, before, rfl, opens⟩ := inside.first nofun
  refine ⟨used + 3, ?_, fun steps opened rest ends => ?_⟩
  · simp only [List.length_cons, List.length_append, List.length_nil] at bound ⊢
    omega
  · have spread : steps + (used + 3) = steps + 1 + used + 1 + 1 := by omega
    have begun := skipWithin_first opened bracket before opens (steps + 1 + used) (t ++ bracket.closing :: rest)
    have items := skips (steps + 1) opened bracket.closing rest (.inr rfl)
    rw [List.append_assoc, List.cons_append] at items
    rw [List.cons_append, List.append_assoc, List.append_assoc, List.cons_append, List.singleton_append, spread,
      skipWithin_opening, begun, items]
    exact skipWithin_closing opened bracket steps rest

private theorem skips_element {a v b : List Char} (before : Blanks a) (skips : value.Skips v) (after : Blanks b) :
    (item .list).Skips (a ++ (v ++ b)) := by
  obtain ⟨used, bound, skips⟩ := skips
  refine ⟨used, ?_, fun steps outer c rest follows => ?_⟩
  · simp only [List.length_append]
    omega
  · rw [List.append_assoc, skipWithin_blanks before (by nofun), List.append_assoc]
    exact (skips steps _ _ ((follows.ends rest).behind after)).trans (skipWithin_blanks after (by nofun) _ _)

private theorem skips_member {a name b c v d : List Char} (before : Blanks a)
    (named : StringText name) (colon : Blanks b)
    (space : Blanks c) (skips : value.Skips v) (after : Blanks d) :
    (item .object).Skips (a ++ '"' :: (name ++ '"' :: (b ++ ':' :: (c ++ (v ++ d))))) := by
  obtain ⟨used, bound, skips⟩ := skips
  refine ⟨used + 1, ?_, fun steps outer e rest follows => ?_⟩
  · simp only [List.length_append, List.length_cons]
    omega
  · have within := skips steps (.object :: outer) _ ((follows.ends rest).behind after)
    simp only [List.append_assoc, List.cons_append]
    rw [skipWithin_blanks before (by nofun)]
    calc _ = skipWithin (steps + used) (.object :: outer) .value (c ++ (v ++ (d ++ e :: rest))) :=
          skipWithin_name _ named colon _ _
      _ = skipWithin (steps + used) (.object :: outer) .value (v ++ (d ++ e :: rest)) :=
          skipWithin_blanks space (by nofun) _ _
      _ = skipWithin steps (.object :: outer) .next (d ++ e :: rest) := within
      _ = _ := skipWithin_blanks after (by nofun) _ _

private theorem skips_more {bracket : Bracket} {t : List Char} (first : (item bracket).Skips s)
    (others : (items bracket).Skips t) : (items bracket).Skips (s ++ ',' :: t) := by
  obtain ⟨used, bound, skips⟩ := first
  obtain ⟨used', bound', skips'⟩ := others
  refine ⟨used + used' + 1, ?_, fun steps outer c rest follows => ?_⟩
  · simp only [List.length_append, List.length_cons]
    omega
  · have spread : steps + (used + used' + 1) = steps + used' + 1 + used := by omega
    rw [List.append_assoc, spread]
    calc _ = skipWithin (steps + used' + 1) (bracket :: outer) .next (',' :: (t ++ c :: rest)) :=
          skips (steps + used' + 1) outer ',' _ (.inl rfl)
      _ = skipWithin (steps + used') (bracket :: outer) bracket.member (t ++ c :: rest) :=
          skipWithin_comma outer bracket _ _
      _ = _ := skips' steps outer c rest follows

private theorem Text.skips {phrase : Phrase} (h : phrase.Text s) : phrase.Skips s := by
  induction h with
  | scalar scalar => exact skips_scalar scalar
  | empty bracket blanks => exact skips_empty bracket blanks
  | bracketed inside ih => exact skips_bracketed inside ih
  | element before _ after ih => exact skips_element before ih after
  | member before named colon space _ after ih => exact skips_member before named colon space ih after
  | one _ ih => exact ih
  | more _ _ ih ih' => exact skips_more ih ih'

end Phrase

/-- A value is skipped with the blanks before it. -/
theorem skipValue_append {blanks : List Char} (before : Blanks blanks) (value : Phrase.value.Text s)
    (ends : NumberEnds rest) : skipValue (blanks ++ (s ++ rest)) = .ok rest := by
  obtain ⟨used, bound, skips⟩ := value.skips
  have enough : ∃ steps, 2 * (blanks ++ (s ++ rest)).length + 1 = steps + used := by
    refine ⟨2 * (blanks ++ (s ++ rest)).length + 1 - used, ?_⟩
    simp only [List.length_append]
    omega
  obtain ⟨steps, enough⟩ := enough
  rw [skipValue, enough, skipWithin_blanks before (by nofun), skips steps [] rest ends, skipWithin]

end Phrases

end Sluice.Json
