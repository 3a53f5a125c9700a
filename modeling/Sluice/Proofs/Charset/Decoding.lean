import Sluice.Proofs.Charset.Windows

/-! Strict decoders for the built-in charsets. Each accepts exactly what the encoding of its charset produces, so
that a text comes back from its bytes, and bytes come from no other text. -/
namespace Sluice

/-- An order for the two bytes of a code unit. -/
structure ByteOrder where
  unit : UInt8 → UInt8 → Nat
  bytes : Nat → List UInt8
  bytes_unit : ∀ first second, bytes (unit first second) = [first, second]
  unit_bytes : ∀ u < 0x10000, ∃ first second, bytes u = [first, second] ∧ unit first second = u

namespace ByteOrder

private theorem upper_lower (high low : UInt8) :
    UInt8.ofNat ((high.toNat * 256 + low.toNat) / 256) = high ∧
      UInt8.ofNat ((high.toNat * 256 + low.toNat) % 256) = low := by
  have below := low.toNat_lt
  have upper : (high.toNat * 256 + low.toNat) / 256 = high.toNat := by omega
  have lower : (high.toNat * 256 + low.toNat) % 256 = low.toNat := by omega
  rw [upper, lower]
  exact ⟨UInt8.ofNat_toNat, UInt8.ofNat_toNat⟩

private theorem joined {u : Nat} (small : u < 0x10000) :
    (UInt8.ofNat (u / 256)).toNat * 256 + (UInt8.ofNat (u % 256)).toNat = u := by
  rw [UInt8.toNat_ofNat', UInt8.toNat_ofNat']
  omega

def big : ByteOrder where
  unit high low := high.toNat * 256 + low.toNat
  bytes := bigEndian
  bytes_unit high low := by rw [bigEndian, (upper_lower high low).1, (upper_lower high low).2]
  unit_bytes _ small := ⟨_, _, rfl, joined small⟩

def little : ByteOrder where
  unit low high := high.toNat * 256 + low.toNat
  bytes := littleEndian
  bytes_unit low high := by rw [littleEndian, (upper_lower high low).1, (upper_lower high low).2]
  unit_bytes _ small := ⟨_, _, rfl, joined small⟩

/-- The code units of some bytes, of which none may be left over. -/
def units (order : ByteOrder) : List UInt8 → Option (List Nat)
  | [] => some []
  | [_] => none
  | first :: second :: bytes => (order.units bytes).map (order.unit first second :: ·)

private theorem units_eq_some_iff (order : ByteOrder) {bytes : List UInt8} {units : List Nat}
    (small : ∀ u ∈ units, u < 0x10000) : order.units bytes = some units ↔ units.flatMap order.bytes = bytes := by
  constructor
  · intro read
    fun_induction order.units bytes generalizing units with
    | case1 =>
      obtain rfl := Option.some.inj read
      rfl
    | case2 => cases read
    | case3 first second bytes ih =>
      obtain ⟨more, later, rfl⟩ := Option.map_eq_some_iff.mp read
      rw [List.flatMap_cons, order.bytes_unit, ih (fun u there => small u (List.mem_cons_of_mem _ there)) later]
      rfl
  · rintro rfl
    induction units with
    | nil => rfl
    | cons u units ih =>
      obtain ⟨first, second, spelled, whole⟩ := order.unit_bytes u (small u List.mem_cons_self)
      rw [List.flatMap_cons, spelled, List.cons_append, List.singleton_append, ByteOrder.units,
        ih fun v there => small v (List.mem_cons_of_mem _ there), whole]
      rfl

end ByteOrder

namespace Charset

/-- Whether a charset is built in and has bytes for a character. -/
def covers (charset : Charset) (c : Char) : Bool :=
  match charset with
  | usAscii => c.toNat < 0x80
  | latin1 => c.toNat < 0x100
  | utf8 | utf16be | utf16le | utf16 => true
  | web _ => false

/-- A byte stands for the character of its number, which has to be below a limit. -/
def ofOneByte (limit : Nat) (bytes : List UInt8) : Option (List Char) :=
  if bytes.all (·.toNat < limit) then some (bytes.map fun byte => Char.ofNat byte.toNat) else none

/-- The characters of code units. A unit that is no surrogate is a character, a high surrogate is one together with
the low surrogate behind it, and a surrogate cannot stand in any other place. -/
def ofUnits : List Nat → Option (List Char)
  | [] => some []
  | high :: units =>
    if high < 0xD800 ∨ 0xE000 ≤ high ∧ high < 0x10000 then (ofUnits units).map (Char.ofNat high :: ·)
    else match units with
      | [] => none
      | low :: units =>
        if 0xD800 ≤ high ∧ high < 0xDC00 ∧ 0xDC00 ≤ low ∧ low < 0xE000 then
          (ofUnits units).map (Char.ofNat (0x10000 + (high - 0xD800) * 0x400 + (low - 0xDC00)) :: ·)
        else none

def ofUtf16 (order : ByteOrder) (bytes : List UInt8) : Option (List Char) := (order.units bytes).bind ofUnits

/-- The bytes behind a mark. Without a mark there are none, and nor is there a mark without bytes behind it. -/
def behindMark (bytes : List UInt8) : Option (List UInt8) :=
  if bytes = [] then some []
  else if bytes.take 2 = byteOrderMark ∧ bytes.drop 2 ≠ [] then some (bytes.drop 2)
  else none

/-- The text of some bytes, if there is one. -/
def decode (charset : Charset) (bytes : List UInt8) : Option (List Char) :=
  match charset with
  | usAscii => ofOneByte 0x80 bytes
  | latin1 => ofOneByte 0x100 bytes
  | utf8 => bytes.toByteArray.utf8Decode?.map Array.toList
  | utf16be => ofUtf16 .big bytes
  | utf16le => ofUtf16 .little bytes
  | utf16 => (behindMark bytes).bind (ofUtf16 .big)
  | web _ => none

private theorem scalar_cases (c : Char) : c.toNat < 0xD800 ∨ 0xE000 ≤ c.toNat ∧ c.toNat < 0x110000 := by
  have valid := c.valid
  simp only [UInt32.isValidChar, Nat.isValidChar] at valid
  change c.val.toNat < _ ∨ _ ≤ c.val.toNat ∧ c.val.toNat < _
  omega

private theorem toNat_ofNat {n : Nat} (scalar : n < 0xD800 ∨ 0xE000 ≤ n ∧ n < 0x110000) : (Char.ofNat n).toNat = n := by
  have valid : n.isValidChar := by
    simp only [Nat.isValidChar]
    omega
  rw [Char.ofNat, dif_pos valid]
  rfl

private theorem oneByte_eq_some_iff {limit : Nat} {text : List Char} {bytes : List UInt8} :
    oneByte limit text = some bytes ↔
      (∀ c ∈ text, c.toNat < limit) ∧ text.map (fun c => UInt8.ofNat c.toNat) = bytes := by
  simp only [oneByte, Option.ite_none_right_eq_some, List.all_eq_true, decide_eq_true_eq, Option.some.injEq]

private theorem ofOneByte_eq_some_iff {limit : Nat} (small : limit ≤ 0x100) {bytes : List UInt8} {text : List Char} :
    ofOneByte limit bytes = some text ↔ oneByte limit text = some bytes := by
  have back : ∀ byte : UInt8, (Char.ofNat byte.toNat).toNat = byte.toNat := by
    intro byte
    have below := byte.toNat_lt
    exact toNat_ofNat (.inl (by omega))
  have forth : ∀ c : Char, c.toNat < limit → (UInt8.ofNat c.toNat).toNat = c.toNat := by
    intro c below
    rw [UInt8.toNat_ofNat']
    exact Nat.mod_eq_of_lt (by omega)
  rw [oneByte_eq_some_iff]
  simp only [ofOneByte, Option.ite_none_right_eq_some, List.all_eq_true, decide_eq_true_eq, Option.some.injEq]
  constructor
  · rintro ⟨below, rfl⟩
    refine ⟨by simpa [back] using below, ?_⟩
    rw [List.map_map]
    refine List.map_id'' (fun byte => ?_) bytes
    rw [Function.comp_apply, back, UInt8.ofNat_toNat]
  · rintro ⟨below, rfl⟩
    refine ⟨fun byte there => ?_, ?_⟩
    · obtain ⟨c, here, rfl⟩ := List.mem_map.mp there
      rw [forth c (below c here)]
      exact below c here
    · rw [List.map_map]
      refine (List.map_congr_left fun c here => ?_).trans (List.map_id' text)
      rw [Function.comp_apply, forth c (below c here), Char.ofNat_toNat]

private theorem utf8Decode_eq_some_iff {bytes : List UInt8} {text : List Char} :
    bytes.toByteArray.utf8Decode?.map Array.toList = some text ↔
      (String.ofList text).toUTF8.data.toList = bytes := by
  rw [Option.map_eq_some_iff]
  constructor
  · rintro ⟨chars, decoded, rfl⟩
    have spelled : chars.toList.utf8Encode = bytes.toByteArray := by
      have encoded := ByteArray.utf8Encode_get_utf8Decode? (b := bytes.toByteArray) (h := by rw [decoded]; rfl)
      simpa only [decoded, Option.get_some] using encoded
    simp [spelled]
  · rintro rfl
    have same : (String.ofList text).toUTF8.data.toList.toByteArray = text.utf8Encode := ByteArray.ext (by simp)
    exact ⟨text.toArray, by rw [same, List.utf8Decode?_utf8Encode], rfl⟩

private theorem codeUnits_lt {text : List Char} {unit : Nat} (there : unit ∈ codeUnits text) : unit < 0x10000 := by
  induction text with
  | nil => cases there
  | cons c text ih =>
    rw [codeUnits_cons, List.mem_append] at there
    rcases there with here | later
    · have scalar := scalar_cases c
      simp only [utf16Units] at here
      split at here
      · obtain rfl := List.mem_singleton.mp here
        assumption
      · simp only [List.mem_cons, List.not_mem_nil, or_false] at here
        omega
    · exact ih later

private theorem ofUnits_eq_some_iff {units : List Nat} {text : List Char} :
    ofUnits units = some text ↔ codeUnits text = units := by
  constructor
  · intro decoded
    fun_induction ofUnits units generalizing text with
    | case1 =>
      obtain rfl := Option.some.inj decoded
      rfl
    | case2 unit units plain ih =>
      obtain ⟨text, later, rfl⟩ := Option.map_eq_some_iff.mp decoded
      rw [codeUnits_cons, ih later, utf16Units, toNat_ofNat (by omega)]
      rw [if_pos (by omega), List.singleton_append]
    | case3 => cases decoded
    | case4 high _ low units pair ih =>
      obtain ⟨text, later, rfl⟩ := Option.map_eq_some_iff.mp decoded
      -- what the two surrogates carry is what is split between them again
      have upper : 0xD800 + (0x10000 + (high - 0xD800) * 0x400 + (low - 0xDC00) - 0x10000) / 1024 = high := by omega
      have lower : 0xDC00 + (0x10000 + (high - 0xD800) * 0x400 + (low - 0xDC00) - 0x10000) % 1024 = low := by omega
      rw [codeUnits_cons, ih later, utf16Units, toNat_ofNat (by omega)]
      rw [if_neg (by omega), upper, lower, List.cons_append, List.singleton_append]
    | case5 => cases decoded
  · rintro rfl
    induction text with
    | nil => rfl
    | cons c text ih =>
      have scalar := scalar_cases c
      rw [codeUnits_cons, utf16Units]
      split
      next plain =>
        rw [List.singleton_append, ofUnits.eq_def]
        dsimp only
        rw [if_pos (by omega), ih, Option.map_some, Char.ofNat_toNat]
      next outside =>
        have number : 0x10000 + (0xD800 + (c.toNat - 0x10000) / 1024 - 0xD800) * 0x400 +
            (0xDC00 + (c.toNat - 0x10000) % 1024 - 0xDC00) = c.toNat := by omega
        rw [List.cons_append, List.singleton_append, ofUnits, if_neg (by omega), if_pos (by omega), ih,
          Option.map_some, number, Char.ofNat_toNat]

private theorem ofUtf16_eq_some_iff {order : ByteOrder} {bytes : List UInt8} {text : List Char} :
    ofUtf16 order bytes = some text ↔ (codeUnits text).flatMap order.bytes = bytes := by
  rw [ofUtf16, Option.bind_eq_some_iff, ← order.units_eq_some_iff fun _ => codeUnits_lt]
  constructor
  · rintro ⟨units, read, decoded⟩
    obtain rfl := ofUnits_eq_some_iff.mp decoded
    exact read
  · intro read
    exact ⟨codeUnits text, read, ofUnits_eq_some_iff.mpr rfl⟩

private theorem behindMark_eq_some_iff {bytes rest : List UInt8} :
    behindMark bytes = some rest ↔ bytes = if rest = [] then [] else byteOrderMark ++ rest := by
  constructor
  · intro read
    simp only [behindMark] at read
    split at read
    next none =>
      obtain rfl := Option.some.inj read
      exact none
    next =>
      split at read
      next marked =>
        obtain rfl := Option.some.inj read
        rw [if_neg marked.2, ← marked.1, List.take_append_drop]
      next => cases read
  · rintro rfl
    split
    next none => rw [behindMark, if_pos rfl, none]
    next some => simp [behindMark, byteOrderMark, some]

private theorem bytes_big (text : List Char) :
    (codeUnits text).flatMap (fun unit => [UInt8.ofNat (unit >>> 8), UInt8.ofNat (unit &&& 0xFF)]) =
      (codeUnits text).flatMap ByteOrder.big.bytes := by
  simp only [bits_eq_div]
  rfl

private theorem bytes_little (text : List Char) :
    (codeUnits text).flatMap (fun unit => [UInt8.ofNat (unit &&& 0xFF), UInt8.ofNat (unit >>> 8)]) =
      (codeUnits text).flatMap ByteOrder.little.bytes := by
  simp only [bits_eq_div]
  rfl

private theorem bytes_big_eq_nil {text : List Char} :
    (codeUnits text).flatMap ByteOrder.big.bytes = [] ↔ text = [] := by
  cases text with
  | nil => exact iff_of_true rfl rfl
  | cons c text =>
    rw [codeUnits_cons, utf16Units]
    split <;> simp [ByteOrder.big, bigEndian]

private theorem utf16_decode_eq_some_iff {bytes : List UInt8} {text : List Char} :
    utf16.decode bytes = some text ↔
      behindMark bytes = some ((codeUnits text).flatMap ByteOrder.big.bytes) := by
  rw [decode, Option.bind_eq_some_iff]
  simp only [ofUtf16_eq_some_iff]
  constructor
  · rintro ⟨rest, read, rfl⟩
    exact read
  · intro read
    exact ⟨_, read, rfl⟩

/-- Bytes have a text if and only if they are its encoding. -/
theorem decode_eq_some_iff {charset : Charset} (builtIn : ∀ e, charset ≠ .web e) {bytes : List UInt8}
    {text : List Char} : charset.decode bytes = some text ↔ charset.reference text = some bytes := by
  cases charset with
  | web e => exact absurd rfl (builtIn e)
  | usAscii => exact ofOneByte_eq_some_iff (by decide)
  | latin1 => exact ofOneByte_eq_some_iff (by decide)
  | utf8 =>
    rw [decode, utf8Decode_eq_some_iff]
    simp [reference, unmarked]
  | utf16be =>
    rw [decode, ofUtf16_eq_some_iff, ← bytes_big]
    simp [reference, unmarked]
  | utf16le =>
    rw [decode, ofUtf16_eq_some_iff, ← bytes_little]
    simp [reference, unmarked]
  | utf16 =>
    rw [utf16_decode_eq_some_iff, behindMark_eq_some_iff, reference_eq, unmarked, bytes_big, Option.map_some,
      Option.some.injEq, eq_comm]
    simp only [bytes_big_eq_nil]
    cases text with
    | nil => simp [markOf, codeUnits]
    | cons c text => simp [markOf]

variable {charset : Charset}

private theorem covers_iff {c : Char} : charset.covers c = true ↔ ∃ own, charset.bytes c = .ok own := by
  cases charset with
  | usAscii => by_cases below : c.toNat < 0x80 <;> simp [covers, bytes, below]
  | latin1 => by_cases below : c.toNat < 0x100 <;> simp [covers, bytes, below]
  | utf8 => simp [covers, bytes]
  | utf16be => simp [covers, bytes]
  | utf16le => simp [covers, bytes]
  | utf16 => simp [covers, bytes]
  | web e => simp [covers, bytes]

private theorem unmarked_covers (builtIn : ∀ e, charset ≠ .web e) {text : List Char} {own : List UInt8}
    (spelled : charset.unmarked text = some own) : ∀ c ∈ text, charset.covers c = true := by
  intro c there
  obtain ⟨before, after, rfl⟩ := List.append_of_mem there
  obtain ⟨_, _, _, late⟩ := unmarked_parts builtIn spelled
  rw [unmarked_cons] at late
  split at late
  · cases late
  next letter => exact covers_iff.mpr ⟨_, letter⟩

private theorem utf16Units_cases (c : Char) :
    (∃ unit, utf16Units c = [unit]) ∨ ∃ high low, utf16Units c = [high, low] := by
  simp only [utf16Units]
  split
  · exact .inl ⟨_, rfl⟩
  · exact .inr ⟨_, _, rfl⟩

private theorem length_bytes_le {c : Char} {own : List UInt8}
    (letter : charset.bytes c = .ok own) : own.length ≤ 4 := by
  have units : ∀ spell : Nat → List UInt8, (∀ unit, (spell unit).length = 2) →
      ((utf16Units c).flatMap spell).length ≤ 4 := by
    intro spell two
    rcases utf16Units_cases c with ⟨unit, single⟩ | ⟨high, low, pair⟩
    · simp [single, two]
    · simp [pair, two]
  cases charset with
  | usAscii =>
    simp only [bytes] at letter
    split at letter <;> cases letter
    simp
  | latin1 =>
    simp only [bytes] at letter
    split at letter <;> cases letter
    simp
  | utf8 =>
    cases letter
    rw [String.length_utf8EncodeChar]
    exact c.utf8Size_le_four
  | utf16be =>
    cases letter
    exact units bigEndian fun _ => rfl
  | utf16le =>
    cases letter
    exact units littleEndian fun _ => rfl
  | utf16 =>
    cases letter
    exact units bigEndian fun _ => rfl
  | web e => cases letter

private theorem length_unmarked_le (builtIn : ∀ e, charset ≠ .web e) {text : List Char} {own : List UInt8}
    (spelled : charset.unmarked text = some own) : own.length ≤ 4 * text.length := by
  induction text generalizing own with
  | nil =>
    obtain rfl := Option.some.inj ((unmarked_nil builtIn).symm.trans spelled)
    exact Nat.le_refl _
  | cons c text ih =>
    rw [unmarked_cons] at spelled
    split at spelled
    · cases spelled
    next letter =>
      obtain ⟨more, later, rfl⟩ := Option.map_eq_some_iff.mp spelled
      have first := length_bytes_le letter
      have rest := ih later
      rw [List.length_append, List.length_cons]
      omega

end Charset

private theorem length_markOf_le (owed : Bool) (text : List Char) : (markOf owed text).length ≤ 2 := by
  simp only [markOf]
  split <;> simp [byteOrderMark]

/-- With room for four bytes with each character, and for the mark, only a character that is not covered keeps an
encoder from writing all of a text. -/
theorem encode_covered_or {charset : Charset} (builtIn : ∀ e, charset ≠ .web e) {text : List Char} {room : Nat}
    (enough : 4 * text.length + 2 ≤ room) (last : Bool) :
    let result := (Encoder.encode (BuiltInEncoder.ofCharset charset) text room last).1
    (text.find? (!charset.covers ·) = none ∧ ∃ encoded, charset.reference text = some encoded ∧
      result = .ok ⟨.inputUsed, Text.utf8Length text, encoded⟩) ∨
    ∃ c, text.find? (!charset.covers ·) = some c ∧ result = .error (.unmappable c charset.name) := by
  obtain ⟨front, rest, own, rfl, spelled, _, halts, _⟩ :=
    BuiltInEncoder.encodeChars_proceeds builtIn (charset = .utf16) room text
  have covered := Charset.unmarked_covers builtIn spelled
  simp only [Encoder.encode, BuiltInEncoder.ofCharset]
  generalize BuiltInEncoder.encodeChars charset (charset = .utf16) room (front ++ rest) = outcome at halts
  obtain ⟨result, owed⟩ := outcome
  cases halts with
  | used =>
    rw [List.append_nil]
    refine .inl ⟨?_, _, ?_, rfl⟩
    · rw [List.find?_eq_none]
      intro c there
      simp [covered c there]
    · rw [Charset.reference_eq, spelled, Option.map_some]
  | @full c after single letter tight =>
    -- four bytes for each character of the front and for the next one
    have most := Charset.length_unmarked_le builtIn spelled
    have next := Charset.length_bytes_le letter
    have mark := length_markOf_le (charset = .utf16) (front ++ [c])
    rw [markOf_append] at mark
    simp only [List.length_append, List.length_cons] at tight enough mark
    omega
  | @unmappable c after fault silent =>
    refine .inr ⟨c, ?_, ?_⟩
    · rw [List.find?_eq_some_iff_append]
      refine ⟨?_, front, after, rfl, fun d there => by simp [covered d there]⟩
      rw [Bool.not_eq_true', Bool.eq_false_iff, ne_eq, Charset.covers_iff, silent]
      simp
    · rw [Charset.bytes_error builtIn silent]

/-- Bytes that have a text are what a new encoder writes for it. -/
theorem encode_decoded {charset : Charset} (builtIn : ∀ e, charset ≠ .web e) {bytes : List UInt8} {text : List Char}
    (decoded : charset.decode bytes = some text) {room : Nat} (within : bytes.length ≤ room) (last : Bool) :
    (Encoder.encode (BuiltInEncoder.ofCharset charset) text room last).1 =
      .ok ⟨.inputUsed, Text.utf8Length text, bytes⟩ := by
  rw [BuiltInEncoder.encode_whole builtIn ((Charset.decode_eq_some_iff builtIn).mp decoded) within]

/-- A new encoder of a built-in charset that has room for four bytes with each character, and for the mark, writes
all of a text if and only if the charset covers its characters, and then the text comes back from the bytes. If it
fails, then over the first character that is not covered. The decoder is strict: bytes that have a text are what the
encoder writes for it. -/
theorem decode_encoded (charset : Charset) (builtIn : ∀ e, charset ≠ .web e) (text : List Char) (room : Nat)
    (enough : 4 * text.length + 2 ≤ room) (last : Bool) :
    let result := (Encoder.encode (BuiltInEncoder.ofCharset charset) text room last).1
    ((∃ e, result = .ok e ∧ e.stop = .inputUsed) ↔ ∀ c ∈ text, charset.covers c = true) ∧
    (∀ e, result = .ok e →
      e.stop = .inputUsed ∧ e.read = Text.utf8Length text ∧ charset.decode e.bytes = some text) ∧
    (∀ fault, result = .error fault ↔
      ∃ c, text.find? (!charset.covers ·) = some c ∧ fault = .unmappable c charset.name) ∧
    ∀ bytes other, charset.decode bytes = some other → ∀ space, bytes.length ≤ space →
      (Encoder.encode (BuiltInEncoder.ofCharset charset) other space last).1 =
        .ok ⟨.inputUsed, Text.utf8Length other, bytes⟩ := by
  intro result
  rcases encode_covered_or builtIn enough last with ⟨none, encoded, spelled, ran⟩ | ⟨c, first, ran⟩
  · change result = _ at ran
    rw [ran, none]
    refine ⟨iff_of_true ⟨_, rfl, rfl⟩ fun c there => ?_, ?_, fun fault => iff_of_false nofun nofun, ?_⟩
    · simpa using List.find?_eq_none.mp none c there
    · intro e ok
      cases ok
      exact ⟨rfl, rfl, (Charset.decode_eq_some_iff builtIn).mpr spelled⟩
    · exact fun _ _ decoded _ within => encode_decoded builtIn decoded within last
  · change result = _ at ran
    rw [ran, first]
    refine ⟨iff_of_false nofun fun covered => ?_, nofun, fun fault => ⟨?_, ?_⟩, ?_⟩
    · have there := List.mem_of_find?_eq_some first
      simpa [covered c there] using List.find?_some first
    · intro failed
      cases failed
      exact ⟨c, rfl, rfl⟩
    · rintro ⟨d, same, rfl⟩
      cases same
      rfl
    · exact fun _ _ decoded _ within => encode_decoded builtIn decoded within last

/-- A letter outside the basic plane comes back from UTF-16 with a mark, and has no bytes in ISO-8859-1. -/
theorem decode_encoded_outside :
    (∀ e, Charset.utf16 ≠ .web e) ∧ (∀ e, Charset.latin1 ≠ .web e) ∧ 4 * ['é', '😀'].length + 2 ≤ 10 ∧
    Charset.utf16.decode [0xFE, 0xFF, 0, 0xE9, 0xD8, 0x3D, 0xDE, 0] = some ['é', '😀'] ∧
    (Encoder.encode (BuiltInEncoder.ofCharset .utf16) ['é', '😀'] 10 true).1 =
      .ok ⟨.inputUsed, 6, [0xFE, 0xFF, 0, 0xE9, 0xD8, 0x3D, 0xDE, 0]⟩ ∧
    (Encoder.encode (BuiltInEncoder.ofCharset .latin1) ['é', '😀'] 10 true).1 =
      .error (.unmappable '😀' "ISO-8859-1") := by
  obtain ⟨_, back, _, _⟩ := decode_encoded .utf16 nofun ['é', '😀'] 10 (by decide) true
  obtain ⟨_, _, fails, _⟩ := decode_encoded .latin1 nofun ['é', '😀'] 10 (by decide) true
  have written : (Encoder.encode (BuiltInEncoder.ofCharset .utf16) ['é', '😀'] 10 true).1 =
      .ok ⟨.inputUsed, 6, [0xFE, 0xFF, 0, 0xE9, 0xD8, 0x3D, 0xDE, 0]⟩ := rfl
  exact ⟨nofun, nofun, by decide, (back _ written).2.2, written, (fails _).mpr ⟨'😀', by decide +kernel, rfl⟩⟩

end Sluice
