/-
  JSON texts.

  `parse` is a recursive-descent reader of the kind of rapidjson's: a text ends at
  its first zero byte, bytes outside ASCII are copied, and a number is an integer
  if it has neither a fraction nor an exponent and fits in 64 bits.  Which other
  numbers are accepted is a parameter.  `write` is the writer without blanks.

  `Reads j t`: the reader finds `j` in `t`, whatever stands behind `t`.  The rules
  `reads_quoted`, `reads_decimal`, `ReadsMembers.cons`, ... follow the grammar,
  with blanks where the grammar allows them; `reads_write` says that the reader
  inverts the writer.  `parse_length` bounds the strings that are read.
-/
import TorrentNode.Lib.Wire

open Wire

/-- A JSON value; of a number that is not a 64-bit integer the text is kept. -/
inductive Json where
  | null
  | bool (b : Bool)
  | int (n : ℤ)
  | double (text : Bytes)
  | str (s : Bytes)
  | arr (elems : List Json)
  | obj (members : List (Bytes × Json))

namespace Json

/-! ## Characters -/

/-- A byte that stands for itself in a text. -/
def ch (c : Char) : UInt8 := c.toUInt8

def isWs (c : UInt8) : Bool := c == ch ' ' || c == ch '\n' || c == ch '\r' || c == ch '\t'

def isDigit (c : UInt8) : Bool := ch '0' ≤ c && c ≤ ch '9'

def skipWs (bs : Bytes) : Bytes := bs.dropWhile isWs

def hexValue (c : UInt8) : Option ℕ :=
  if isDigit c then some (c - ch '0').toNat
  else if ch 'A' ≤ c && c ≤ ch 'F' then some ((c - ch 'A').toNat + 10)
  else if ch 'a' ≤ c && c ≤ ch 'f' then some ((c - ch 'a').toNat + 10)
  else none

/-- UTF-8. -/
def encodeUtf8 (codepoint : ℕ) : Bytes :=
  if codepoint ≤ 0x7F then [UInt8.ofNat codepoint]
  else if codepoint ≤ 0x7FF then
    [UInt8.ofNat (0xC0 + codepoint / 64), UInt8.ofNat (0x80 + codepoint % 64)]
  else if codepoint ≤ 0xFFFF then
    [UInt8.ofNat (0xE0 + codepoint / 4096), UInt8.ofNat (0x80 + codepoint / 64 % 64),
      UInt8.ofNat (0x80 + codepoint % 64)]
  else
    [UInt8.ofNat (0xF0 + codepoint / 262144), UInt8.ofNat (0x80 + codepoint / 4096 % 64),
      UInt8.ofNat (0x80 + codepoint / 64 % 64), UInt8.ofNat (0x80 + codepoint % 64)]

/-! ## Reader -/

/-- Four hexadecimal digits. -/
def parseHex4 : Bytes → Option (ℕ × Bytes)
  | a :: b :: c :: d :: bs => do
    let a ← hexValue a
    let b ← hexValue b
    let c ← hexValue c
    let d ← hexValue d
    return (((a * 16 + b) * 16 + c) * 16 + d, bs)
  | _ => none

/-- The character behind a backslash. -/
def simpleEscape (c : UInt8) : Option UInt8 :=
  if c = ch '"' then some (ch '"')
  else if c = ch '/' then some (ch '/')
  else if c = ch '\\' then some (ch '\\')
  else if c = ch 'b' then some 8
  else if c = ch 'f' then some 12
  else if c = ch 'n' then some 10
  else if c = ch 'r' then some 13
  else if c = ch 't' then some 9
  else none

/-- What stands behind a backslash: the bytes it means, and the rest. -/
def parseEscape : Bytes → Option (Bytes × Bytes)
  | [] => none
  | c :: bs =>
    match simpleEscape c with
    | some b => some ([b], bs)
    | none =>
      if c ≠ ch 'u' then none
      else do
        let (codepoint, bs) ← parseHex4 bs
        if 0xD800 ≤ codepoint ∧ codepoint ≤ 0xDBFF then
          if bs.take 2 ≠ [ch '\\', ch 'u'] then none
          else
            let (codepoint2, bs) ← parseHex4 (bs.drop 2)
            if 0xDC00 ≤ codepoint2 ∧ codepoint2 ≤ 0xDFFF then
              return (encodeUtf8 ((codepoint - 0xD800) * 1024 + (codepoint2 - 0xDC00) + 0x10000), bs)
            else none
        else return (encodeUtf8 codepoint, bs)

/-- A string, behind its opening quotation mark. -/
def parseString : ℕ → Bytes → Option (Bytes × Bytes)
  | 0, _ => none
  | _ + 1, [] => none
  | fuel + 1, c :: bs =>
    if c = ch '"' then some ([], bs)
    else if c = ch '\\' then do
      let (s, bs) ← parseEscape bs
      let (t, bs) ← parseString fuel bs
      return (s ++ t, bs)
    else if c < 0x20 then none
    else do
      let (t, bs) ← parseString fuel bs
      return (c :: t, bs)

/-- The number written by decimal digits. -/
def decimalValue (ds : Bytes) : ℕ := ds.foldl (fun val c => val * 10 + (c - ch '0').toNat) 0

/-- A part of a number that is there if a certain character is: a sign, and at least one digit. -/
def parseDigits (bs : Bytes) : Option Bytes :=
  if bs.takeWhile isDigit = [] then none else some (bs.dropWhile isDigit)

section
variable (isDouble : Bytes → Bool)

/-- A number. -/
def parseNumber (bs : Bytes) : Option (Json × Bytes) := do
  let minus := bs.head? = some (ch '-')
  let bs₁ := if minus then bs.tail else bs
  let digits := if bs₁.head? = some (ch '0') then [ch '0'] else bs₁.takeWhile isDigit
  if digits = [] then none
  else
    let bs₂ := bs₁.drop digits.length
    let bs₃ ← if bs₂.head? = some (ch '.') then parseDigits bs₂.tail else some bs₂
    let bs₄ ←
      if bs₃.head? = some (ch 'e') ∨ bs₃.head? = some (ch 'E') then
        let signed := bs₃.tail
        parseDigits (if signed.head? = some (ch '+') ∨ signed.head? = some (ch '-') then signed.tail
          else signed)
      else some bs₃
    let n := decimalValue digits
    if bs₄.length = bs₂.length ∧ minus ∧ n ≤ 2 ^ 63 then return (.int (-n), bs₄)
    else if bs₄.length = bs₂.length ∧ ¬ minus ∧ n < 2 ^ 64 then return (.int n, bs₄)
    else
      let text := bs.take (bs.length - bs₄.length)
      if isDouble text then return (.double text, bs₄) else none

mutual

/-- A value; blanks in front of it have been skipped. -/
def parseValue : ℕ → Bytes → Option (Json × Bytes)
  | 0, _ => none
  | _ + 1, [] => none
  | fuel + 1, c :: bs =>
    if c = ch 'n' then
      if bs.take 3 = ascii ['u', 'l', 'l'] then some (.null, bs.drop 3) else none
    else if c = ch 't' then
      if bs.take 3 = ascii ['r', 'u', 'e'] then some (.bool true, bs.drop 3) else none
    else if c = ch 'f' then
      if bs.take 4 = ascii ['a', 'l', 's', 'e'] then some (.bool false, bs.drop 4) else none
    else if c = ch '"' then
      (parseString fuel bs).map fun r => (.str r.1, r.2)
    else if c = ch '{' then
      let bs := skipWs bs
      if bs.head? = some (ch '}') then some (.obj [], bs.tail)
      else (parseMembers fuel bs).map fun r => (.obj r.1, r.2)
    else if c = ch '[' then
      let bs := skipWs bs
      if bs.head? = some (ch ']') then some (.arr [], bs.tail)
      else (parseElements fuel bs).map fun r => (.arr r.1, r.2)
    else parseNumber isDouble (c :: bs)

/-- The members of an object, up to the closing brace. -/
def parseMembers : ℕ → Bytes → Option (List (Bytes × Json) × Bytes)
  | 0, _ => none
  | fuel + 1, bs =>
    if bs.head? ≠ some (ch '"') then none
    else do
      let (name, bs) ← parseString fuel bs.tail
      let bs := skipWs bs
      if bs.head? ≠ some (ch ':') then none
      else
        let (value, bs) ← parseValue fuel (skipWs bs.tail)
        let bs := skipWs bs
        if bs.head? = some (ch ',') then
          let (members, bs) ← parseMembers fuel (skipWs bs.tail)
          return ((name, value) :: members, bs)
        else if bs.head? = some (ch '}') then return ([(name, value)], bs.tail)
        else none

/-- The elements of an array, up to the closing bracket. -/
def parseElements : ℕ → Bytes → Option (List Json × Bytes)
  | 0, _ => none
  | fuel + 1, bs => do
    let (value, bs) ← parseValue fuel bs
    let bs := skipWs bs
    if bs.head? = some (ch ',') then
      let (values, bs) ← parseElements fuel (skipWs bs.tail)
      return (value :: values, bs)
    else if bs.head? = some (ch ']') then return ([value], bs.tail)
    else none

end

/-- A document: the text up to the first zero byte holds one value and blanks. -/
def parse (text : Bytes) : Option Json := do
  let bs := skipWs (text.takeWhile (· ≠ 0))
  let (value, bs) ← parseValue isDouble (bs.length + 1) bs
  if skipWs bs = [] then return value else none

end

/-! ## Writer -/

/-- A decimal digit. -/
def digit (d : ℕ) : UInt8 := UInt8.ofNat (48 + d)

def decimalAux : ℕ → ℕ → Bytes
  | 0, _ => []
  | fuel + 1, n => if n < 10 then [digit n] else decimalAux fuel (n / 10) ++ [digit (n % 10)]

/-- The decimal digits of a number. -/
def decimal (n : ℕ) : Bytes := decimalAux (n + 1) n

/-- A hexadecimal digit. -/
def hexDigitUpper (d : ℕ) : UInt8 := if d < 10 then UInt8.ofNat (48 + d) else UInt8.ofNat (55 + d)

/-- A byte of a string. -/
def escapeByte (c : UInt8) : Bytes :=
  if c = ch '"' ∨ c = ch '\\' then [ch '\\', c]
  else if c = 8 then [ch '\\', ch 'b']
  else if c = 9 then [ch '\\', ch 't']
  else if c = 10 then [ch '\\', ch 'n']
  else if c = 12 then [ch '\\', ch 'f']
  else if c = 13 then [ch '\\', ch 'r']
  else if c < 0x20 then
    [ch '\\', ch 'u', ch '0', ch '0', hexDigitUpper (c.toNat / 16), hexDigitUpper (c.toNat % 16)]
  else [c]

/-- A string in quotation marks. -/
def quoted (s : Bytes) : Bytes := ch '"' :: (s.flatMap escapeByte ++ [ch '"'])

mutual

/-- The text of a value. -/
def write : Json → Bytes
  | .null => ascii ['n', 'u', 'l', 'l']
  | .bool true => ascii ['t', 'r', 'u', 'e']
  | .bool false => ascii ['f', 'a', 'l', 's', 'e']
  | .int n => if n < 0 then ch '-' :: decimal n.natAbs else decimal n.natAbs
  | .double text => text
  | .str s => quoted s
  | .arr [] => [ch '[', ch ']']
  | .arr (e :: es) => ch '[' :: (write e ++ writeElements es)
  | .obj [] => [ch '{', ch '}']
  | .obj ((name, e) :: ms) => ch '{' :: (quoted name ++ ch ':' :: (write e ++ writeMembers ms))

/-- The elements behind the first one, and the closing bracket. -/
def writeElements : List Json → Bytes
  | [] => [ch ']']
  | e :: es => ch ',' :: (write e ++ writeElements es)

/-- The members behind the first one, and the closing brace. -/
def writeMembers : List (Bytes × Json) → Bytes
  | [] => [ch '}']
  | (name, e) :: ms => ch ',' :: (quoted name ++ ch ':' :: (write e ++ writeMembers ms))

end

/-! ## Access -/

/-- The first member of this name. -/
def find (name : Bytes) (members : List (Bytes × Json)) : Option Json :=
  (members.find? (·.1 = name)).map (·.2)

@[simp] theorem find_nil (name : Bytes) : find name [] = none := rfl

theorem find_cons (name name' : Bytes) (j : Json) (members : List (Bytes × Json)) :
    find name ((name', j) :: members) = if name' = name then some j else find name members := by
  by_cases h : name' = name <;> simp [find, h]

/-! ## Blanks and strings -/

/-- The text consists of blanks. -/
def Blank (ws : Bytes) : Prop := ∀ c ∈ ws, isWs c = true

theorem blank_nil : Blank [] := by simp [Blank]

theorem blank_space : Blank [ch ' '] := by simp [Blank, isWs]

theorem skipWs_append {ws : Bytes} (h : Blank ws) (bs : Bytes) : skipWs (ws ++ bs) = skipWs bs :=
  List.dropWhile_append_of_pos h

theorem skipWs_cons {c : UInt8} (h : isWs c = false) (cs : Bytes) : skipWs (c :: cs) = c :: cs := by
  simp [skipWs, h]

theorem ne_zero_of_isWs {c : UInt8} (h : isWs c = true) : c ≠ 0 := by
  rintro rfl
  exact absurd h (by decide)

theorem hexValue_hexDigitUpper : ∀ d, d < 16 → hexValue (hexDigitUpper d) = some d := by decide

theorem parseHex4_control (c : UInt8) (bs : Bytes) :
    parseHex4 (ch '0' :: ch '0' :: hexDigitUpper (c.toNat / 16) :: hexDigitUpper (c.toNat % 16) :: bs) =
      some (c.toNat, bs) := by
  have hlt := c.toNat_lt
  have hzero : hexValue (ch '0') = some 0 := by decide
  simp only [parseHex4, hzero, hexValue_hexDigitUpper _ (show c.toNat / 16 < 16 by omega),
    hexValue_hexDigitUpper _ (show c.toNat % 16 < 16 by omega), Option.bind_eq_bind, Option.bind_some,
    Option.pure_def]
  congr 2
  omega

theorem parseString_backslash {fuel : ℕ} {bs bs' s : Bytes} (h : parseEscape bs = some (s, bs')) :
    parseString (fuel + 1) (ch '\\' :: bs) =
      (parseString fuel bs').map fun r => (s ++ r.1, r.2) := by
  rw [parseString, if_neg (by decide), if_pos rfl, h]
  cases hr : parseString fuel bs' <;> simp [hr]

theorem parseEscape_simple {x c : UInt8} (h : simpleEscape x = some c) (bs : Bytes) :
    parseEscape (x :: bs) = some ([c], bs) := by
  simp only [parseEscape, h]

theorem parseEscape_control {c : UInt8} (h : c < 0x20) (bs : Bytes) :
    parseEscape (ch 'u' :: ch '0' :: ch '0' :: hexDigitUpper (c.toNat / 16) ::
      hexDigitUpper (c.toNat % 16) :: bs) = some ([c], bs) := by
  have hu : simpleEscape (ch 'u') = none := by decide
  have hlt : c.toNat < 32 := UInt8.lt_iff_toNat_lt.1 h
  have hutf : encodeUtf8 c.toNat = [c] := by
    rw [encodeUtf8, if_pos (by omega), UInt8.ofNat_toNat]
  rw [parseEscape, hu]
  dsimp only
  rw [if_neg (by simp), parseHex4_control, Option.bind_eq_bind, Option.bind_some]
  dsimp only
  rw [if_neg (by omega), hutf]
  rfl

/-- The reader takes an escaped byte in one step. -/
theorem parseString_escapeByte (fuel : ℕ) (c : UInt8) (bs : Bytes) :
    parseString (fuel + 1) (escapeByte c ++ bs) =
      (parseString fuel bs).map fun r => (c :: r.1, r.2) := by
  unfold escapeByte
  split_ifs with h1 h2 h3 h4 h5 h6 h7
  · rcases h1 with rfl | rfl
    · exact parseString_backslash (parseEscape_simple (by decide) bs)
    · exact parseString_backslash (parseEscape_simple (by decide) bs)
  · subst h2
    exact parseString_backslash (parseEscape_simple (by decide) bs)
  · subst h3
    exact parseString_backslash (parseEscape_simple (by decide) bs)
  · subst h4
    exact parseString_backslash (parseEscape_simple (by decide) bs)
  · subst h5
    exact parseString_backslash (parseEscape_simple (by decide) bs)
  · subst h6
    exact parseString_backslash (parseEscape_simple (by decide) bs)
  · exact parseString_backslash (parseEscape_control h7 bs)
  · rw [not_or] at h1
    rw [List.singleton_append, parseString, if_neg h1.1, if_neg h1.2, if_neg h7]
    cases parseString fuel bs <;> simp

theorem parseString_quoted {fuel : ℕ} (s rest : Bytes) (h : s.length < fuel) :
    parseString fuel (s.flatMap escapeByte ++ ch '"' :: rest) = some (s, rest) := by
  induction s generalizing fuel with
  | nil =>
    obtain ⟨fuel, rfl⟩ := Nat.exists_eq_succ_of_ne_zero (Nat.ne_of_gt h)
    rfl
  | cons c s ih =>
    obtain ⟨fuel, rfl⟩ := Nat.exists_eq_succ_of_ne_zero (Nat.ne_of_gt (Nat.zero_lt_of_lt h))
    rw [List.flatMap_cons, List.append_assoc, parseString_escapeByte,
      ih (by simpa using h), Option.map_some]

/-- A text that is written as it is. -/
def Plain (s : Bytes) : Prop := ∀ c ∈ s, escapeByte c = [c]

instance (s : Bytes) : Decidable (Plain s) := inferInstanceAs (Decidable (∀ c ∈ s, _))

theorem quoted_plain {s : Bytes} (h : Plain s) : quoted s = ch '"' :: (s ++ [ch '"']) := by
  have hs : s.flatMap escapeByte = s := by
    induction s with
    | nil => rfl
    | cons c s ih =>
      rw [List.flatMap_cons, h c List.mem_cons_self, ih fun c hc => h c (List.mem_cons_of_mem _ hc)]
      rfl
  rw [quoted, hs]

theorem escapeByte_length (c : UInt8) : 0 < (escapeByte c).length := by
  unfold escapeByte
  split_ifs <;> simp

theorem hexDigitUpper_ne_zero : ∀ d, d < 16 → hexDigitUpper d ≠ 0 := by decide

theorem escapeByte_ne_zero (c : UInt8) : ∀ x ∈ escapeByte c, x ≠ 0 := by
  have hlt := c.toNat_lt
  have hhigh := hexDigitUpper_ne_zero (c.toNat / 16) (by omega)
  have hlow := hexDigitUpper_ne_zero (c.toNat % 16) (by omega)
  have hch : ch '\\' ≠ 0 ∧ ch 'b' ≠ 0 ∧ ch 't' ≠ 0 ∧ ch 'n' ≠ 0 ∧ ch 'f' ≠ 0 ∧ ch 'r' ≠ 0 ∧
    ch 'u' ≠ 0 ∧ ch '0' ≠ 0 ∧ ch '"' ≠ 0 := by decide
  unfold escapeByte
  split_ifs with h1 h2 h3 h4 h5 h6 h7
  · rcases h1 with rfl | rfl <;> simp [hch]
  · simp [hch]
  · simp [hch]
  · simp [hch]
  · simp [hch]
  · simp [hch]
  · simp [hch, hhigh, hlow]
  · rw [List.forall_mem_singleton]
    rintro rfl
    exact h7 (by decide)

theorem quoted_ne_zero (s : Bytes) : ∀ c ∈ quoted s, c ≠ 0 := by
  intro c hc
  have hq : ch '"' ≠ 0 := by decide
  rcases List.mem_cons.1 hc with rfl | hc
  · exact hq
  rcases List.mem_append.1 hc with hc | hc
  · obtain ⟨b, -, hb⟩ := List.mem_flatMap.1 hc
    exact escapeByte_ne_zero b c hb
  · rw [List.mem_singleton.1 hc]
    exact hq

theorem quoted_length (s : Bytes) : s.length + 2 ≤ (quoted s).length := by
  have h : s.length ≤ (s.flatMap escapeByte).length := by
    induction s with
    | nil => simp
    | cons c s ih =>
      have := escapeByte_length c
      rw [List.flatMap_cons, List.length_append, List.length_cons]
      omega
  simp only [quoted, List.length_cons, List.length_append, List.length_nil]
  omega

/-! ## Numbers -/

theorem digit_spec : ∀ d, d < 10 → isDigit (digit d) = true ∧ (digit d - ch '0').toNat = d ∧
    (digit d = ch '0' ↔ d = 0) := by decide

theorem decimalValue_append (ds : Bytes) (c : UInt8) :
    decimalValue (ds ++ [c]) = decimalValue ds * 10 + (c - ch '0').toNat := by
  simp [decimalValue]

/-- The digits of a number: its value, and no leading zero. -/
theorem decimalAux_spec {fuel n : ℕ} (h : n < fuel) :
    (∀ c ∈ decimalAux fuel n, isDigit c = true) ∧ decimalValue (decimalAux fuel n) = n ∧
      decimalAux fuel n ≠ [] ∧ ((decimalAux fuel n).head? = some (ch '0') → n = 0) := by
  induction fuel generalizing n with
  | zero => omega
  | succ fuel ih =>
    rw [decimalAux]
    split_ifs with hn
    · obtain ⟨h1, h2, h3⟩ := digit_spec n hn
      refine ⟨by simpa using h1, ?_, by simp, by simpa using h3.1⟩
      simpa [decimalValue] using h2
    · obtain ⟨h1, h2, h3⟩ := digit_spec (n % 10) (by omega)
      obtain ⟨i1, i2, i3, i4⟩ := ih (show n / 10 < fuel by omega)
      refine ⟨?_, ?_, by simp, ?_⟩
      · intro c hc
        rcases List.mem_append.1 hc with hc | hc
        · exact i1 c hc
        · rw [List.mem_singleton.1 hc]
          exact h1
      · rw [decimalValue_append, i2, h2]
        omega
      · intro hhead
        rw [List.head?_append_of_ne_nil _ i3] at hhead
        have := i4 hhead
        omega

theorem decimal_spec (n : ℕ) : (∀ c ∈ decimal n, isDigit c = true) ∧ decimalValue (decimal n) = n ∧
    decimal n ≠ [] ∧ ((decimal n).head? = some (ch '0') → n = 0) :=
  decimalAux_spec (Nat.lt_succ_self n)

/-- No number goes on with this character. -/
def Delimits (c : UInt8) : Prop := isDigit c = false ∧ c ≠ ch '.' ∧ c ≠ ch 'e' ∧ c ≠ ch 'E'

instance (c : UInt8) : Decidable (Delimits c) := inferInstanceAs (Decidable (_ ∧ _))

/-- No number goes on here. -/
def Delimited (rest : Bytes) : Prop := ∀ c, rest.head? = some c → Delimits c

theorem delimited_nil : Delimited [] := nofun

theorem delimited_blank {ws rest : Bytes} (h : Blank ws) (hrest : Delimited rest) :
    Delimited (ws ++ rest) := by
  cases ws with
  | nil => exact hrest
  | cons w ws =>
    intro c hc
    obtain rfl : w = c := by simpa using hc
    have hw := h w List.mem_cons_self
    simp only [isWs, Bool.or_eq_true, beq_iff_eq] at hw
    rcases hw with ((rfl | rfl) | rfl) | rfl <;> decide

theorem Delimited.takeWhile {rest : Bytes} (h : Delimited rest) {ds : Bytes}
    (hds : ∀ c ∈ ds, isDigit c = true) : (ds ++ rest).takeWhile isDigit = ds := by
  rw [List.takeWhile_append_of_pos hds]
  cases rest with
  | nil => simp
  | cons c rest => simp [(h c rfl).1]

theorem Delimited.head_ne {rest : Bytes} (h : Delimited rest) : rest.head? ≠ some (ch '.') ∧
    rest.head? ≠ some (ch 'e') ∧ rest.head? ≠ some (ch 'E') :=
  ⟨fun hc => (h _ hc).2.1 rfl, fun hc => (h _ hc).2.2.1 rfl, fun hc => (h _ hc).2.2.2 rfl⟩

section
variable (isDouble : Bytes → Bool)

/-- The digits the reader takes are those of the number. -/
theorem digits_decimal (n : ℕ) {rest : Bytes} (h : Delimited rest) :
    (if (decimal n ++ rest).head? = some (ch '0') then [ch '0']
      else (decimal n ++ rest).takeWhile isDigit) = decimal n := by
  obtain ⟨h1, h2, h3, h4⟩ := decimal_spec n
  rw [List.head?_append_of_ne_nil _ h3]
  split_ifs with hzero
  · rw [h4 hzero]
    rfl
  · exact h.takeWhile h1

theorem parseNumber_decimal {n : ℕ} (hn : n < 2 ^ 64) {rest : Bytes} (h : Delimited rest) :
    parseNumber isDouble (decimal n ++ rest) = some (.int n, rest) := by
  obtain ⟨h1, h2, h3, h4⟩ := decimal_spec n
  obtain ⟨e1, e2, e3⟩ := h.head_ne
  have hminus : (decimal n ++ rest).head? ≠ some (ch '-') := by
    rw [List.head?_append_of_ne_nil _ h3]
    intro hc
    have := h1 _ (List.mem_of_mem_head? hc)
    exact absurd this (by decide)
  simp only [parseNumber, hminus, if_false, digits_decimal n h, h3, List.drop_left, e1, e2, e3,
    or_self, Option.bind_eq_bind, Option.bind_some, h2, false_and, and_false, not_false_eq_true,
    true_and, hn, if_true, Option.pure_def]

theorem parseNumber_minus {n : ℕ} (hn : n ≤ 2 ^ 63) {rest : Bytes} (h : Delimited rest) :
    parseNumber isDouble (ch '-' :: (decimal n ++ rest)) = some (.int (-n), rest) := by
  obtain ⟨h1, h2, h3, h4⟩ := decimal_spec n
  obtain ⟨e1, e2, e3⟩ := h.head_ne
  simp only [parseNumber, List.head?_cons, if_true, List.tail_cons, digits_decimal n h, h3, if_false,
    List.drop_left, e1, e2, e3, or_self, Option.bind_eq_bind, Option.bind_some, h2, true_and, hn,
    Option.pure_def]

/-! ## Values -/

/-- The reader finds the value `j` in `t`, whatever stands behind `t`. -/
structure Reads (j : Json) (t : Bytes) : Prop where
  head : ∃ c cs, t = c :: cs ∧ isWs c = false ∧ c ≠ ch ']'
  ne_zero : ∀ c ∈ t, c ≠ 0
  value : ∀ {fuel rest}, t.length < fuel → Delimited rest →
    parseValue isDouble fuel (t ++ rest) = some (j, rest)

variable {isDouble}

theorem Reads.skipWs_eq {j : Json} {t : Bytes} (h : Reads isDouble j t) (rest : Bytes) :
    skipWs (t ++ rest) = t ++ rest := by
  obtain ⟨c, cs, rfl, hc, -⟩ := h.head
  exact skipWs_cons hc _

/-- A document, with blanks around it. -/
theorem Reads.parse_eq {j : Json} {t : Bytes} (h : Reads isDouble j t) {ws ws' : Bytes}
    (hws : Blank ws) (hws' : Blank ws') : parse isDouble (ws ++ (t ++ ws')) = some j := by
  have hne : ∀ c ∈ ws ++ (t ++ ws'), decide (c ≠ 0) = true := by
    intro c hc
    rw [decide_eq_true_iff]
    rcases List.mem_append.1 hc with hc | hc
    · exact ne_zero_of_isWs (hws c hc)
    rcases List.mem_append.1 hc with hc | hc
    · exact h.ne_zero c hc
    · exact ne_zero_of_isWs (hws' c hc)
  have hdelimited : Delimited ws' := by
    have hend := delimited_blank hws' delimited_nil
    rwa [List.append_nil] at hend
  have hblank : skipWs ws' = [] := by
    have := skipWs_append hws' []
    rwa [List.append_nil] at this
  rw [parse, List.takeWhile_eq_self_iff.2 hne, skipWs_append hws, h.skipWs_eq,
    h.value (by rw [List.length_append]; omega) hdelimited]
  simp [hblank]

theorem reads_quoted (s : Bytes) : Reads isDouble (.str s) (quoted s) where
  head := ⟨_, _, rfl, by decide⟩
  ne_zero := quoted_ne_zero s
  value {fuel rest} hfuel _ := by
    have hlen := quoted_length s
    obtain ⟨fuel, rfl⟩ := Nat.exists_eq_succ_of_ne_zero (Nat.ne_of_gt (Nat.zero_lt_of_lt hfuel))
    rw [quoted, List.cons_append, List.append_assoc, List.singleton_append, parseValue,
      if_neg (by decide), if_neg (by decide), if_neg (by decide), if_pos rfl,
      parseString_quoted s rest (by omega), Option.map_some]

/-- A text without characters that have to be escaped. -/
theorem reads_plain {s : Bytes} (h : Plain s) :
    Reads isDouble (.str s) (ch '"' :: (s ++ [ch '"'])) := by
  rw [← quoted_plain h]
  exact reads_quoted s

theorem reads_null : Reads isDouble .null (ascii ['n', 'u', 'l', 'l']) where
  head := ⟨_, _, rfl, by decide⟩
  ne_zero := by decide +kernel
  value {fuel rest} hfuel _ := by
    obtain ⟨fuel, rfl⟩ := Nat.exists_eq_succ_of_ne_zero (Nat.ne_of_gt (Nat.zero_lt_of_lt hfuel))
    rfl

theorem reads_bool (b : Bool) : Reads isDouble (.bool b)
    (if b then ascii ['t', 'r', 'u', 'e'] else ascii ['f', 'a', 'l', 's', 'e']) where
  head := by cases b <;> exact ⟨_, _, rfl, by decide⟩
  ne_zero := by cases b <;> decide +kernel
  value {fuel rest} hfuel _ := by
    obtain ⟨fuel, rfl⟩ := Nat.exists_eq_succ_of_ne_zero (Nat.ne_of_gt (Nat.zero_lt_of_lt hfuel))
    cases b <;> rfl

/-- What begins with a digit or a sign is read as a number. -/
theorem parseValue_number {c : UInt8} (h : isDigit c = true ∨ c = ch '-') (fuel : ℕ) (bs : Bytes) :
    parseValue isDouble (fuel + 1) (c :: bs) = parseNumber isDouble (c :: bs) := by
  have hne : c ≠ ch 'n' ∧ c ≠ ch 't' ∧ c ≠ ch 'f' ∧ c ≠ ch '"' ∧ c ≠ ch '{' ∧ c ≠ ch '[' := by
    refine ⟨?_, ?_, ?_, ?_, ?_, ?_⟩ <;> (rintro rfl; revert h; decide)
  obtain ⟨h1, h2, h3, h4, h5, h6⟩ := hne
  rw [parseValue, if_neg h1, if_neg h2, if_neg h3, if_neg h4, if_neg h5, if_neg h6]

theorem isDigit_spec {c : UInt8} (h : isDigit c = true) : isWs c = false ∧ c ≠ ch ']' ∧ c ≠ 0 := by
  refine ⟨?_, ?_, ?_⟩
  · rw [Bool.eq_false_iff]
    intro hw
    simp only [isWs, Bool.or_eq_true, beq_iff_eq] at hw
    rcases hw with ((rfl | rfl) | rfl) | rfl <;> revert h <;> decide
  · rintro rfl
    revert h
    decide
  · rintro rfl
    revert h
    decide

theorem decimal_cons (n : ℕ) : ∃ c cs, decimal n = c :: cs ∧ isDigit c = true := by
  obtain ⟨h1, -, h3, -⟩ := decimal_spec n
  obtain ⟨c, cs, h⟩ := List.exists_cons_of_ne_nil h3
  exact ⟨c, cs, h, h1 c (h ▸ List.mem_cons_self)⟩

theorem reads_decimal {n : ℕ} (hn : n < 2 ^ 64) : Reads isDouble (.int n) (decimal n) where
  head := by
    obtain ⟨c, cs, h, hc⟩ := decimal_cons n
    exact ⟨c, cs, h, (isDigit_spec hc).1, (isDigit_spec hc).2.1⟩
  ne_zero c hc := (isDigit_spec ((decimal_spec n).1 c hc)).2.2
  value {fuel rest} hfuel hrest := by
    obtain ⟨fuel, rfl⟩ := Nat.exists_eq_succ_of_ne_zero (Nat.ne_of_gt (Nat.zero_lt_of_lt hfuel))
    obtain ⟨c, cs, h, hc⟩ := decimal_cons n
    have hread := parseNumber_decimal isDouble hn hrest
    rw [h, List.cons_append] at hread ⊢
    rw [parseValue_number (Or.inl hc), hread]

theorem reads_minus {n : ℕ} (hn : n ≤ 2 ^ 63) : Reads isDouble (.int (-n)) (ch '-' :: decimal n) where
  head := ⟨_, _, rfl, by decide⟩
  ne_zero c hc := by
    rcases List.mem_cons.1 hc with rfl | hc
    · decide
    · exact (isDigit_spec ((decimal_spec n).1 c hc)).2.2
  value {fuel rest} hfuel hrest := by
    obtain ⟨fuel, rfl⟩ := Nat.exists_eq_succ_of_ne_zero (Nat.ne_of_gt (Nat.zero_lt_of_lt hfuel))
    rw [List.cons_append, parseValue_number (Or.inr rfl), parseNumber_minus isDouble hn hrest]

/-! ## Objects and arrays -/

/-- A member of an object, with blanks around the colon and behind the value. -/
def memberText (name ws₁ ws₂ v ws₃ : Bytes) : Bytes :=
  quoted name ++ (ws₁ ++ ch ':' :: (ws₂ ++ (v ++ ws₃)))

/-- The reader finds these members in `t`, which ends with the brace. -/
structure ReadsMembers (isDouble : Bytes → Bool) (ms : List (Bytes × Json)) (t : Bytes) : Prop where
  head : ∃ cs, t = ch '"' :: cs
  ne_zero : ∀ c ∈ t, c ≠ 0
  members : ∀ {fuel rest}, t.length < fuel →
    parseMembers isDouble fuel (t ++ rest) = some (ms, rest)

/-- The reader finds these elements in `t`, which ends with the bracket. -/
structure ReadsElements (isDouble : Bytes → Bool) (es : List Json) (t : Bytes) : Prop where
  head : ∃ c cs, t = c :: cs ∧ isWs c = false ∧ c ≠ ch ']'
  ne_zero : ∀ c ∈ t, c ≠ 0
  elements : ∀ {fuel rest}, t.length < fuel →
    parseElements isDouble fuel (t ++ rest) = some (es, rest)

section
variable (name : Bytes) {ws₁ ws₂ ws₃ v : Bytes} {j : Json} (h : Reads isDouble j v) (hws₁ : Blank ws₁)
  (hws₂ : Blank ws₂) (hws₃ : Blank ws₃)
include h hws₁ hws₂ hws₃

theorem memberText_ne_zero : ∀ c ∈ memberText name ws₁ ws₂ v ws₃, c ≠ 0 := by
  intro c hc
  simp only [memberText, List.mem_append, List.mem_cons] at hc
  rcases hc with hc | hc | rfl | hc | hc | hc
  · exact quoted_ne_zero name c hc
  · exact ne_zero_of_isWs (hws₁ c hc)
  · decide
  · exact ne_zero_of_isWs (hws₂ c hc)
  · exact h.ne_zero c hc
  · exact ne_zero_of_isWs (hws₃ c hc)

/-- One member, and the character behind it. -/
theorem parseMembers_memberText {fuel : ℕ} (hfuel : (memberText name ws₁ ws₂ v ws₃).length ≤ fuel)
    {x : UInt8} (hx : isWs x = false) (hdel : Delimits x) (rest : Bytes) :
    parseMembers isDouble (fuel + 1) (memberText name ws₁ ws₂ v ws₃ ++ x :: rest) =
      if x = ch ',' then
        (parseMembers isDouble fuel (skipWs rest)).map fun r => ((name, j) :: r.1, r.2)
      else if x = ch '}' then some ([(name, j)], rest)
      else none := by
  have hlen : (memberText name ws₁ ws₂ v ws₃).length =
      (quoted name).length + ws₁.length + 1 + ws₂.length + v.length + ws₃.length := by
    simp only [memberText, List.length_append, List.length_cons]
    omega
  have hname := quoted_length name
  have hvalue : parseValue isDouble fuel (v ++ (ws₃ ++ x :: rest)) = some (j, ws₃ ++ x :: rest) := by
    refine h.value (by omega) (delimited_blank hws₃ ?_)
    intro c hc
    obtain rfl : x = c := by simpa using hc
    exact hdel
  have htext : memberText name ws₁ ws₂ v ws₃ ++ x :: rest =
      ch '"' :: (name.flatMap escapeByte ++ ch '"' ::
        (ws₁ ++ ch ':' :: (ws₂ ++ (v ++ (ws₃ ++ x :: rest))))) := by
    simp [memberText, quoted]
  rw [htext, parseMembers, if_neg (by simp), List.tail_cons, parseString_quoted name _ (by omega)]
  simp only [Option.bind_eq_bind, Option.bind_some, skipWs_append hws₁,
    skipWs_cons (show isWs (ch ':') = false by decide), List.head?_cons, ne_eq, not_true, if_false,
    List.tail_cons, skipWs_append hws₂, h.skipWs_eq, hvalue, skipWs_append hws₃, skipWs_cons hx,
    Option.some.injEq, Option.pure_def]
  split_ifs
  · cases parseMembers isDouble fuel (skipWs rest) <;> rfl
  · rfl
  · rfl

theorem ReadsMembers.last :
    ReadsMembers isDouble [(name, j)] (memberText name ws₁ ws₂ v ws₃ ++ [ch '}']) where
  head := ⟨_, rfl⟩
  ne_zero c hc := by
    rcases List.mem_append.1 hc with hc | hc
    · exact memberText_ne_zero name h hws₁ hws₂ hws₃ c hc
    · rw [List.mem_singleton.1 hc]
      decide
  members {fuel rest} hfuel := by
    obtain ⟨fuel, rfl⟩ := Nat.exists_eq_succ_of_ne_zero (Nat.ne_of_gt (Nat.zero_lt_of_lt hfuel))
    rw [List.length_append, List.length_singleton] at hfuel
    rw [List.append_assoc, List.singleton_append, parseMembers_memberText name h hws₁ hws₂ hws₃ (by omega)
      (by decide) (by decide), if_neg (by decide), if_pos rfl]

theorem ReadsMembers.cons {ws₄ t : Bytes} {ms : List (Bytes × Json)} (hws₄ : Blank ws₄)
    (ht : ReadsMembers isDouble ms t) : ReadsMembers isDouble ((name, j) :: ms)
      (memberText name ws₁ ws₂ v ws₃ ++ ch ',' :: (ws₄ ++ t)) where
  head := ⟨_, rfl⟩
  ne_zero c hc := by
    rcases List.mem_append.1 hc with hc | hc
    · exact memberText_ne_zero name h hws₁ hws₂ hws₃ c hc
    rcases List.mem_cons.1 hc with rfl | hc
    · decide
    rcases List.mem_append.1 hc with hc | hc
    · exact ne_zero_of_isWs (hws₄ c hc)
    · exact ht.ne_zero c hc
  members {fuel rest} hfuel := by
    obtain ⟨fuel, rfl⟩ := Nat.exists_eq_succ_of_ne_zero (Nat.ne_of_gt (Nat.zero_lt_of_lt hfuel))
    rw [List.length_append, List.length_cons, List.length_append] at hfuel
    obtain ⟨cs, hcs⟩ := ht.head
    have hskip : skipWs (t ++ rest) = t ++ rest := by
      rw [hcs]
      exact skipWs_cons (by decide) _
    rw [List.append_assoc, List.cons_append, List.append_assoc,
      parseMembers_memberText name h hws₁ hws₂ hws₃ (by omega) (by decide) (by decide), if_pos rfl,
      skipWs_append hws₄, hskip, ht.members (by omega), Option.map_some]

end

theorem ReadsMembers.obj {ms : List (Bytes × Json)} {ws t : Bytes} (hws : Blank ws)
    (ht : ReadsMembers isDouble ms t) : Reads isDouble (.obj ms) (ch '{' :: (ws ++ t)) where
  head := ⟨_, _, rfl, by decide⟩
  ne_zero c hc := by
    rcases List.mem_cons.1 hc with rfl | hc
    · decide
    rcases List.mem_append.1 hc with hc | hc
    · exact ne_zero_of_isWs (hws c hc)
    · exact ht.ne_zero c hc
  value {fuel rest} hfuel _ := by
    obtain ⟨fuel, rfl⟩ := Nat.exists_eq_succ_of_ne_zero (Nat.ne_of_gt (Nat.zero_lt_of_lt hfuel))
    rw [List.length_cons, List.length_append] at hfuel
    obtain ⟨cs, hcs⟩ := ht.head
    have hskip : skipWs (ws ++ (t ++ rest)) = t ++ rest := by
      rw [skipWs_append hws, hcs]
      exact skipWs_cons (by decide) _
    have hbrace : (t ++ rest).head? ≠ some (ch '}') := by
      rw [hcs]
      simp [ch]
      decide
    rw [List.cons_append, List.append_assoc, parseValue, if_neg (by decide), if_neg (by decide),
      if_neg (by decide), if_neg (by decide), if_pos rfl]
    dsimp only
    rw [hskip, if_neg hbrace, ht.members (by omega), Option.map_some]

theorem reads_obj_nil : Reads isDouble (.obj []) [ch '{', ch '}'] where
  head := ⟨_, _, rfl, by decide⟩
  ne_zero := by decide +kernel
  value {fuel rest} hfuel _ := by
    obtain ⟨fuel, rfl⟩ := Nat.exists_eq_succ_of_ne_zero (Nat.ne_of_gt (Nat.zero_lt_of_lt hfuel))
    rfl

theorem reads_arr_nil : Reads isDouble (.arr []) [ch '[', ch ']'] where
  head := ⟨_, _, rfl, by decide⟩
  ne_zero := by decide +kernel
  value {fuel rest} hfuel _ := by
    obtain ⟨fuel, rfl⟩ := Nat.exists_eq_succ_of_ne_zero (Nat.ne_of_gt (Nat.zero_lt_of_lt hfuel))
    rfl

section
variable {ws₁ v : Bytes} {j : Json} (h : Reads isDouble j v) (hws₁ : Blank ws₁)
include h hws₁

/-- One element, and the character behind it. -/
theorem parseElements_value {fuel : ℕ} (hfuel : v.length < fuel) {x : UInt8} (hx : isWs x = false)
    (hdel : Delimits x) (rest : Bytes) :
    parseElements isDouble (fuel + 1) (v ++ (ws₁ ++ x :: rest)) =
      if x = ch ',' then
        (parseElements isDouble fuel (skipWs rest)).map fun r => (j :: r.1, r.2)
      else if x = ch ']' then some ([j], rest)
      else none := by
  have hvalue : parseValue isDouble fuel (v ++ (ws₁ ++ x :: rest)) = some (j, ws₁ ++ x :: rest) := by
    refine h.value hfuel (delimited_blank hws₁ ?_)
    intro c hc
    obtain rfl : x = c := by simpa using hc
    exact hdel
  rw [parseElements, hvalue]
  simp only [Option.bind_eq_bind, Option.bind_some, skipWs_append hws₁, skipWs_cons hx,
    List.head?_cons, Option.some.injEq, List.tail_cons, Option.pure_def]
  split_ifs
  · cases parseElements isDouble fuel (skipWs rest) <;> rfl
  · rfl
  · rfl

theorem ReadsElements.last : ReadsElements isDouble [j] (v ++ (ws₁ ++ [ch ']'])) where
  head := by
    obtain ⟨c, cs, rfl, hc⟩ := h.head
    exact ⟨c, _, rfl, hc⟩
  ne_zero c hc := by
    rcases List.mem_append.1 hc with hc | hc
    · exact h.ne_zero c hc
    rcases List.mem_append.1 hc with hc | hc
    · exact ne_zero_of_isWs (hws₁ c hc)
    · rw [List.mem_singleton.1 hc]
      decide
  elements {fuel rest} hfuel := by
    obtain ⟨fuel, rfl⟩ := Nat.exists_eq_succ_of_ne_zero (Nat.ne_of_gt (Nat.zero_lt_of_lt hfuel))
    simp only [List.length_append, List.length_singleton] at hfuel
    rw [List.append_assoc, List.append_assoc, List.singleton_append,
      parseElements_value h hws₁ (by omega) (by decide) (by decide), if_neg (by decide), if_pos rfl]

theorem ReadsElements.cons {ws₂ t : Bytes} {es : List Json} (hws₂ : Blank ws₂)
    (ht : ReadsElements isDouble es t) :
    ReadsElements isDouble (j :: es) (v ++ (ws₁ ++ ch ',' :: (ws₂ ++ t))) where
  head := by
    obtain ⟨c, cs, rfl, hc⟩ := h.head
    exact ⟨c, _, rfl, hc⟩
  ne_zero c hc := by
    simp only [List.mem_append, List.mem_cons] at hc
    rcases hc with hc | hc | rfl | hc | hc
    · exact h.ne_zero c hc
    · exact ne_zero_of_isWs (hws₁ c hc)
    · decide
    · exact ne_zero_of_isWs (hws₂ c hc)
    · exact ht.ne_zero c hc
  elements {fuel rest} hfuel := by
    obtain ⟨fuel, rfl⟩ := Nat.exists_eq_succ_of_ne_zero (Nat.ne_of_gt (Nat.zero_lt_of_lt hfuel))
    simp only [List.length_append, List.length_cons] at hfuel
    obtain ⟨c, cs, hcs, hc, -⟩ := ht.head
    have hskip : skipWs (t ++ rest) = t ++ rest := by
      rw [hcs]
      exact skipWs_cons hc _
    rw [List.append_assoc, List.append_assoc, List.cons_append, List.append_assoc,
      parseElements_value h hws₁ (by omega) (by decide) (by decide), if_pos rfl,
      skipWs_append hws₂, hskip, ht.elements (by omega), Option.map_some]

end

theorem ReadsElements.arr {es : List Json} {ws t : Bytes} (hws : Blank ws)
    (ht : ReadsElements isDouble es t) : Reads isDouble (.arr es) (ch '[' :: (ws ++ t)) where
  head := ⟨_, _, rfl, by decide⟩
  ne_zero c hc := by
    rcases List.mem_cons.1 hc with rfl | hc
    · decide
    rcases List.mem_append.1 hc with hc | hc
    · exact ne_zero_of_isWs (hws c hc)
    · exact ht.ne_zero c hc
  value {fuel rest} hfuel _ := by
    obtain ⟨fuel, rfl⟩ := Nat.exists_eq_succ_of_ne_zero (Nat.ne_of_gt (Nat.zero_lt_of_lt hfuel))
    rw [List.length_cons, List.length_append] at hfuel
    obtain ⟨c, cs, hcs, hc, hbracket⟩ := ht.head
    have hskip : skipWs (ws ++ (t ++ rest)) = t ++ rest := by
      rw [skipWs_append hws, hcs]
      exact skipWs_cons hc _
    have hhead : (t ++ rest).head? ≠ some (ch ']') := by
      rw [hcs]
      simpa using hbracket
    rw [List.cons_append, List.append_assoc, parseValue, if_neg (by decide), if_neg (by decide),
      if_neg (by decide), if_neg (by decide), if_neg (by decide), if_pos rfl]
    dsimp only
    rw [hskip, if_neg hhead, ht.elements (by omega), Option.map_some]

/-! ## The writer -/

mutual

/-- Every number in the value is a 64-bit integer. -/
def Integral : Json → Prop
  | .int n => -2 ^ 63 ≤ n ∧ n < 2 ^ 64
  | .double _ => False
  | .arr es => IntegralElements es
  | .obj ms => IntegralMembers ms
  | _ => True

def IntegralElements : List Json → Prop
  | [] => True
  | e :: es => Integral e ∧ IntegralElements es

def IntegralMembers : List (Bytes × Json) → Prop
  | [] => True
  | m :: ms => Integral m.2 ∧ IntegralMembers ms

end

mutual

/-- **The reader inverts the writer.** -/
theorem reads_write : ∀ j : Json, Integral j → Reads isDouble j (write j)
  | .null, _ => reads_null
  | .bool true, _ => reads_bool true
  | .bool false, _ => reads_bool false
  | .int n, h => by
    rw [write]
    split_ifs with hn
    · have hneg : Json.int n = .int (-(n.natAbs : ℤ)) := by congr 1; omega
      rw [hneg]
      exact reads_minus (by have := h.1; omega)
    · have hpos : Json.int n = .int (n.natAbs : ℤ) := by congr 1; omega
      rw [hpos]
      exact reads_decimal (by have := h.2; omega)
  | .str s, _ => reads_quoted s
  | .arr [], _ => reads_arr_nil
  | .arr (e :: es), h => by
    have hread := (reads_writeElements es h.2 (reads_write e h.1)).arr blank_nil
    rw [write]
    exact hread
  | .obj [], _ => reads_obj_nil
  | .obj ((name, e) :: ms), h => by
    have hread := (reads_writeMembers ms h.2 name (reads_write e h.1)).obj blank_nil
    rw [write]
    exact hread

theorem reads_writeElements : ∀ es : List Json, IntegralElements es → ∀ {e : Json} {v : Bytes},
    Reads isDouble e v → ReadsElements isDouble (e :: es) (v ++ writeElements es)
  | [], _, e, v, h => by
    have hread := ReadsElements.last h blank_nil
    rw [writeElements]
    exact hread
  | e' :: es, hes, e, v, h => by
    have hread := ReadsElements.cons h blank_nil blank_nil
      (reads_writeElements es hes.2 (reads_write e' hes.1))
    rw [writeElements]
    exact hread

theorem reads_writeMembers : ∀ ms : List (Bytes × Json), IntegralMembers ms → ∀ (name : Bytes)
    {e : Json} {v : Bytes}, Reads isDouble e v → ReadsMembers isDouble ((name, e) :: ms)
      (quoted name ++ ch ':' :: (v ++ writeMembers ms))
  | [], _, name, e, v, h => by
    have hread := ReadsMembers.last name h blank_nil blank_nil blank_nil
    simpa [memberText, writeMembers] using hread
  | (name', e') :: ms, hms, name, e, v, h => by
    have hread := ReadsMembers.cons name h blank_nil blank_nil blank_nil blank_nil
      (reads_writeMembers ms hms.2 name' (reads_write e' hms.1))
    simpa [memberText, writeMembers] using hread

end

end

/-! ## The sizes of the strings

What the strings of a value have together is bounded by the size of its text. -/

mutual

/-- The number of bytes in the strings of a value, the names of members apart. -/
def stringSize : Json → ℕ
  | .str s => s.length
  | .arr es => stringSizeElements es
  | .obj ms => stringSizeMembers ms
  | _ => 0

def stringSizeElements : List Json → ℕ
  | [] => 0
  | e :: es => stringSize e + stringSizeElements es

def stringSizeMembers : List (Bytes × Json) → ℕ
  | [] => 0
  | m :: ms => stringSize m.2 + stringSizeMembers ms

end

theorem stringSize_find {name : Bytes} {ms : List (Bytes × Json)} {j : Json}
    (h : find name ms = some j) : stringSize j ≤ stringSizeMembers ms := by
  induction ms with
  | nil => cases h
  | cons m ms ih =>
    rw [find_cons] at h
    rw [stringSizeMembers]
    split_ifs at h with hname
    · cases h
      exact Nat.le_add_right _ _
    · exact (ih h).trans (Nat.le_add_left _ _)

theorem skipWs_length_le (bs : Bytes) : (skipWs bs).length ≤ bs.length :=
  List.length_dropWhile_le _ _

theorem encodeUtf8_length_le (codepoint : ℕ) : (encodeUtf8 codepoint).length ≤ 4 := by
  rw [encodeUtf8]
  split_ifs <;> simp

theorem parseHex4_length {bs rest : Bytes} {n : ℕ} (h : parseHex4 bs = some (n, rest)) :
    rest.length + 4 = bs.length := by
  match bs with
  | [] | [_] | [_, _] | [_, _, _] => cases h
  | _ :: _ :: _ :: _ :: bs =>
    simp only [parseHex4, Option.bind_eq_bind, Option.bind_eq_some_iff, Option.pure_def,
      Option.some.injEq, Prod.mk.injEq] at h
    obtain ⟨_, -, _, -, _, -, _, -, -, rfl⟩ := h
    rfl

theorem parseEscape_length {bs rest s : Bytes} (h : parseEscape bs = some (s, rest)) :
    s.length + rest.length ≤ bs.length := by
  cases bs with
  | nil => cases h
  | cons c bs =>
    rw [parseEscape] at h
    rw [List.length_cons]
    split at h
    · cases h
      rw [List.length_singleton]; omega
    split_ifs at h with hu
    obtain ⟨⟨codepoint, bs₁⟩, hhex, h⟩ := Option.bind_eq_some_iff.1 h
    have h₁ := parseHex4_length hhex
    dsimp only at h
    split_ifs at h
    · obtain ⟨⟨codepoint2, bs₂⟩, hhex₂, h⟩ := Option.bind_eq_some_iff.1 h
      have h₂ := parseHex4_length hhex₂
      rw [List.length_drop] at h₂
      dsimp only at h
      split_ifs at h
      obtain ⟨rfl, rfl⟩ := Prod.mk.inj (Option.some.inj h)
      have := encodeUtf8_length_le ((codepoint - 0xD800) * 1024 + (codepoint2 - 0xDC00) + 0x10000)
      omega
    · cases h
      have := encodeUtf8_length_le codepoint
      omega

theorem parseString_length {fuel : ℕ} {bs rest s : Bytes}
    (h : parseString fuel bs = some (s, rest)) : s.length + rest.length < bs.length := by
  induction fuel generalizing bs s with
  | zero => cases h
  | succ fuel ih =>
    cases bs with
    | nil => cases h
    | cons c bs =>
      rw [parseString] at h
      rw [List.length_cons]
      split_ifs at h
      · cases h
        simp
      · obtain ⟨⟨s₁, bs₁⟩, hescape, h⟩ := Option.bind_eq_some_iff.1 h
        obtain ⟨⟨t, bs₂⟩, htail, h⟩ := Option.bind_eq_some_iff.1 h
        cases h
        have h₁ := parseEscape_length hescape
        have h₂ := ih htail
        rw [List.length_append]; omega
      · obtain ⟨⟨t, bs₂⟩, htail, h⟩ := Option.bind_eq_some_iff.1 h
        cases h
        have h₂ := ih htail
        rw [List.length_cons]; omega

theorem parseDigits_length {bs rest : Bytes} (h : parseDigits bs = some rest) :
    rest.length ≤ bs.length := by
  rw [parseDigits] at h
  split_ifs at h
  cases h
  exact List.length_dropWhile_le _ _

section
variable {isDouble : Bytes → Bool}

/-- The last step of `parseNumber`. -/
def numberEnd (isDouble : Bytes → Bool) (bs bs₂ digits bs₄ : Bytes) : Option (Json × Bytes) :=
  if bs₄.length = bs₂.length ∧ bs.head? = some (ch '-') ∧ decimalValue digits ≤ 2 ^ 63 then
    some (.int (-decimalValue digits), bs₄)
  else if bs₄.length = bs₂.length ∧ ¬ bs.head? = some (ch '-') ∧ decimalValue digits < 2 ^ 64 then
    some (.int (decimalValue digits), bs₄)
  else if isDouble (bs.take (bs.length - bs₄.length)) then
    some (.double (bs.take (bs.length - bs₄.length)), bs₄)
  else none

theorem numberEnd_length {bs bs₂ digits bs₄ rest : Bytes} {j : Json} (hle : bs₄.length ≤ bs.length)
    (h : numberEnd isDouble bs bs₂ digits bs₄ = some (j, rest)) :
    stringSize j + rest.length ≤ bs.length := by
  have hj : stringSize j = 0 ∧ rest = bs₄ := by
    rw [numberEnd] at h
    split_ifs at h <;> · cases h; exact ⟨rfl, rfl⟩
  rw [hj.1, hj.2, Nat.zero_add]; exact hle

theorem parseNumber_length {bs rest : Bytes} {j : Json}
    (h : parseNumber isDouble bs = some (j, rest)) : stringSize j + rest.length ≤ bs.length := by
  rw [parseNumber] at h
  dsimp only at h
  have h₁ : (if bs.head? = some (ch '-') then bs.tail else bs).length ≤ bs.length := by
    split_ifs <;> simp
  generalize (if bs.head? = some (ch '-') then bs.tail else bs) = bs₁ at h h₁
  generalize (if bs₁.head? = some (ch '0') then [ch '0'] else bs₁.takeWhile isDigit) = digits at h
  have h₂ : (bs₁.drop digits.length).length ≤ bs.length := by
    rw [List.length_drop]; omega
  generalize bs₁.drop digits.length = bs₂ at h h₂
  by_cases hdigits : digits = []
  · rw [if_pos hdigits] at h; cases h
  rw [if_neg hdigits] at h
  -- the fraction
  have h₃ : ∃ bs₃ : Bytes, bs₃.length ≤ bs.length ∧
      (if bs₃.head? = some (ch 'e') ∨ bs₃.head? = some (ch 'E') then
        parseDigits (if bs₃.tail.head? = some (ch '+') ∨ bs₃.tail.head? = some (ch '-') then
          bs₃.tail.tail else bs₃.tail) >>= numberEnd isDouble bs bs₂ digits
      else numberEnd isDouble bs bs₂ digits bs₃) = some (j, rest) := by
    by_cases hdot : bs₂.head? = some (ch '.')
    · rw [if_pos hdot] at h
      obtain ⟨bs₃, h₃, h⟩ := Option.bind_eq_some_iff.1 h
      refine ⟨bs₃, ?_, h⟩
      have := parseDigits_length h₃
      rw [List.length_tail] at this; omega
    · rw [if_neg hdot] at h
      exact ⟨bs₂, h₂, h⟩
  obtain ⟨bs₃, h₃, h⟩ := h₃
  by_cases hexp : bs₃.head? = some (ch 'e') ∨ bs₃.head? = some (ch 'E')
  · rw [if_pos hexp] at h
    obtain ⟨bs₄, h₄, h⟩ := Option.bind_eq_some_iff.1 h
    refine numberEnd_length ?_ h
    have := parseDigits_length h₄
    split_ifs at this <;> · simp only [List.length_tail] at this; omega
  · rw [if_neg hexp] at h
    exact numberEnd_length h₃ h

/-- The reader takes at least the bytes of the strings from the text. -/
theorem parse_length (fuel : ℕ) :
    (∀ {bs rest : Bytes} {j : Json}, parseValue isDouble fuel bs = some (j, rest) →
      stringSize j + rest.length ≤ bs.length) ∧
    (∀ {bs rest : Bytes} {ms : List (Bytes × Json)}, parseMembers isDouble fuel bs = some (ms, rest) →
      stringSizeMembers ms + rest.length ≤ bs.length) ∧
    (∀ {bs rest : Bytes} {es : List Json}, parseElements isDouble fuel bs = some (es, rest) →
      stringSizeElements es + rest.length ≤ bs.length) := by
  induction fuel with
  | zero => exact ⟨nofun, nofun, nofun⟩
  | succ fuel ih =>
    obtain ⟨ihValue, ihMembers, ihElements⟩ := ih
    refine ⟨?_, ?_, ?_⟩
    · intro bs rest j h
      cases bs with
      | nil => cases h
      | cons c bs =>
        rw [parseValue] at h
        rw [List.length_cons]
        have hskip := skipWs_length_le bs
        dsimp only at h
        split_ifs at h
        · cases h
          simp only [stringSize, List.length_drop]; omega
        · cases h
          simp only [stringSize, List.length_drop]; omega
        · cases h
          simp only [stringSize, List.length_drop]; omega
        · obtain ⟨⟨s, bs₁⟩, hs, h⟩ := Option.map_eq_some_iff.1 h
          cases h
          have := parseString_length hs
          rw [stringSize]; dsimp only; omega
        · cases h
          rw [stringSize, stringSizeMembers, List.length_tail]; omega
        · obtain ⟨⟨ms, bs₁⟩, hms, h⟩ := Option.map_eq_some_iff.1 h
          cases h
          have := ihMembers hms
          rw [stringSize]; dsimp only; omega
        · cases h
          rw [stringSize, stringSizeElements, List.length_tail]; omega
        · obtain ⟨⟨es, bs₁⟩, hes, h⟩ := Option.map_eq_some_iff.1 h
          cases h
          have := ihElements hes
          rw [stringSize]; dsimp only; omega
        · exact parseNumber_length h
    · intro bs rest ms h
      rw [parseMembers] at h
      split_ifs at h
      obtain ⟨⟨name, bs₁⟩, hname, h⟩ := Option.bind_eq_some_iff.1 h
      dsimp only at h
      split_ifs at h
      obtain ⟨⟨value, bs₂⟩, hvalue, h⟩ := Option.bind_eq_some_iff.1 h
      have h₁ := parseString_length hname
      have h₂ := ihValue hvalue
      have h₃ := skipWs_length_le (skipWs bs₁).tail
      have h₄ := skipWs_length_le bs₁
      have h₅ := skipWs_length_le bs₂
      rw [List.length_tail] at h₁ h₃
      dsimp only at h
      split_ifs at h
      · obtain ⟨⟨members, bs₃⟩, hmembers, h⟩ := Option.bind_eq_some_iff.1 h
        cases h
        have h₆ := ihMembers hmembers
        have h₇ := skipWs_length_le (skipWs bs₂).tail
        rw [List.length_tail] at h₇
        rw [stringSizeMembers]; dsimp only; omega
      · cases h
        rw [stringSizeMembers, stringSizeMembers, List.length_tail]; dsimp only; omega
    · intro bs rest es h
      rw [parseElements] at h
      obtain ⟨⟨value, bs₁⟩, hvalue, h⟩ := Option.bind_eq_some_iff.1 h
      have h₁ := ihValue hvalue
      have h₂ := skipWs_length_le bs₁
      dsimp only at h
      split_ifs at h
      · obtain ⟨⟨values, bs₃⟩, hvalues, h⟩ := Option.bind_eq_some_iff.1 h
        cases h
        have h₃ := ihElements hvalues
        have h₄ := skipWs_length_le (skipWs bs₁).tail
        rw [List.length_tail] at h₄
        rw [stringSizeElements]; dsimp only; omega
      · cases h
        rw [stringSizeElements, stringSizeElements, List.length_tail]; omega

/-- A text that begins with a brace holds an object, and its strings are shorter than the text. -/
theorem parse_obj_length {text : Bytes} {doc : Json} (hhead : text.head? = some (ch '{'))
    (h : parse isDouble text = some doc) :
    ∃ ms, doc = .obj ms ∧ stringSizeMembers ms < text.length := by
  cases text with
  | nil => cases hhead
  | cons c bs =>
    obtain rfl : c = ch '{' := Option.some.inj hhead
    rw [parse, List.takeWhile_cons_of_pos (by decide), skipWs_cons (by decide)] at h
    obtain ⟨⟨value, bs₁⟩, hvalue, h⟩ := Option.bind_eq_some_iff.1 h
    dsimp only at h
    split_ifs at h
    cases h
    rw [parseValue, if_neg (by decide), if_neg (by decide), if_neg (by decide),
      if_neg (by decide), if_pos rfl] at hvalue
    have hskip := (skipWs_length_le (bs.takeWhile (· ≠ 0))).trans (List.takeWhile_sublist _).length_le
    rw [List.length_cons]
    dsimp only at hvalue
    split_ifs at hvalue
    · cases hvalue
      exact ⟨[], rfl, Nat.succ_pos _⟩
    · obtain ⟨⟨ms, bs₂⟩, hms, h⟩ := Option.map_eq_some_iff.1 hvalue
      cases h
      have := (parse_length _).2.1 hms
      exact ⟨ms, rfl, by omega⟩

/-- A member needs its quotation marks, a colon and what ends it. -/
theorem four_le_of_parseMembers {fuel : ℕ} {bs rest : Bytes} {ms : List (Bytes × Json)}
    (h : parseMembers isDouble fuel bs = some (ms, rest)) : 4 ≤ bs.length := by
  cases fuel with
  | zero => cases h
  | succ fuel =>
    rw [parseMembers] at h
    split_ifs at h
    obtain ⟨⟨name, bs₁⟩, hname, h⟩ := Option.bind_eq_some_iff.1 h
    dsimp only at h
    split_ifs at h
    obtain ⟨⟨value, bs₂⟩, hvalue, h⟩ := Option.bind_eq_some_iff.1 h
    have h₁ := parseString_length hname
    have h₂ := (parse_length _).1 hvalue
    have h₃ := skipWs_length_le (skipWs bs₁).tail
    have h₄ := skipWs_length_le bs₁
    have h₅ := skipWs_length_le bs₂
    have h₆ : skipWs bs₂ ≠ [] := by
      intro hnil
      rw [hnil] at h
      cases h
    have h₇ := List.length_pos_of_ne_nil h₆
    rw [List.length_tail] at h₁ h₃
    omega

/-- A short text that begins with a brace holds no member. -/
theorem parse_obj_of_short {text : Bytes} {doc : Json} (hhead : text.head? = some (ch '{'))
    (hshort : (text.takeWhile (· ≠ 0)).length ≤ 4) (h : parse isDouble text = some doc) :
    doc = .obj [] := by
  cases text with
  | nil => cases hhead
  | cons c bs =>
    obtain rfl : c = ch '{' := Option.some.inj hhead
    rw [List.takeWhile_cons_of_pos (by decide), List.length_cons] at hshort
    rw [parse, List.takeWhile_cons_of_pos (by decide), skipWs_cons (by decide)] at h
    obtain ⟨⟨value, bs₁⟩, hvalue, h⟩ := Option.bind_eq_some_iff.1 h
    dsimp only at h
    split_ifs at h
    cases h
    rw [parseValue, if_neg (by decide), if_neg (by decide), if_neg (by decide),
      if_neg (by decide), if_pos rfl] at hvalue
    have hskip := skipWs_length_le (bs.takeWhile (· ≠ 0))
    dsimp only at hvalue
    split_ifs at hvalue
    · cases hvalue
      rfl
    · obtain ⟨⟨ms, bs₂⟩, hms, -⟩ := Option.map_eq_some_iff.1 hvalue
      have := four_le_of_parseMembers hms
      omega

end

end Json
